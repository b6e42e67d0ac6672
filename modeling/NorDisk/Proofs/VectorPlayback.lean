import NorDisk.Firmware.SpiChip
import NorDisk.Proofs.CommandEffect
import NorDisk.Proofs.VectorText

/-!
# Playing a serial vector file to a flash part

`Flash` is a part of 16 MiB between two transactions. A scan is one transaction: the part acts on
what it was sent and answers meanwhile; where it drives nothing, the player sees noise. A wait is
long enough for any command. A run of operations fails at the first comparison that does.

`Plays` says that a list of statements runs through whatever the noise, and what it does to the
part.

* **`plays_checkIdle`**, **`plays_checkIdentity`** — the checks pass on an idle part.
* **`plays_modify`** — a command is enabled, issued and seen through.
* **`perform_verify`** — reading back passes exactly on a part that holds the data.
* **`run_checks`** — checks pass together if each of them does.
-/

namespace NorDisk.Svf

open Firmware

/-! ## The part -/

/-- A flash part between transactions. -/
structure Flash where
  memory : ByteArray
  /-- Are writes enabled? -/
  latch : Bool := false
  busy : Bool := false

namespace Flash

def status (f : Flash) : UInt8 := (if f.busy then 1 else 0) ||| (if f.latch then 2 else 0)

/-- The byte that the part drives while byte `i` of a transaction is sent, if it drives one. A busy
part answers for its status only. A fast read sends one byte between address and data. -/
def driven? (f : Flash) (sent : List UInt8) (i : Nat) : Option UInt8 :=
  match sent with
  | [] => none
  | opcode :: operands =>
    if i = 0 then none
    else if opcode = Opcode.readStatus then some f.status
    else if f.busy then none
    else if opcode = Opcode.identity then SpiChip.identity[i - 1]?
    else
      match operands with
      | a2 :: a1 :: a0 :: _ =>
        if opcode = Opcode.fastRead ∧ 5 ≤ i then
          some (Memory.byteAt f.memory ((SpiChip.offsetOf a2 a1 a0 + (i - 5)) % 0x1000000))
        else none
      | _ => none

/-- What a player receives in a transaction. -/
def reply (noise : Nat → UInt8) (sent : List UInt8) (f : Flash) : List UInt8 :=
  (List.range sent.length).map fun i => (f.driven? sent i).getD (noise i)

/-- Change the memory, if writes are enabled. -/
def change (g : ByteArray → ByteArray) (f : Flash) : Flash :=
  if f.latch then { memory := g f.memory, latch := false, busy := true } else f

/-- Act on a transaction. -/
def obey (sent : List UInt8) (f : Flash) : Flash :=
  match sent with
  | [opcode] =>
    if opcode = Opcode.writeEnable then { f with latch := true }
    else if opcode = Opcode.writeDisable then { f with latch := false }
    else f
  | opcode :: a2 :: a1 :: a0 :: data =>
    let offset := SpiChip.offsetOf a2 a1 a0
    if opcode = Opcode.blockErase ∧ data = [] then
      f.change (Memory.erase (offset - offset % 65536) 65536)
    else if opcode = Opcode.pageProgram then
      f.change (Memory.program (offset - offset % 256) (offset % 256) data)
    else f
  | _ => f

/-- The part after a transaction. -/
def after (sent : List UInt8) (f : Flash) : Flash := if f.busy then f else f.obey sent

theorem after_of_idle {f : Flash} (hidle : f.busy = false) (sent : List UInt8) :
    f.after sent = f.obey sent := by
  rw [after, hidle]
  rfl

end Flash

/-! ## The player -/

/-- Bytes where a mask has ones, and zeros elsewhere. -/
def masked (bytes mask : List UInt8) : List UInt8 := List.zipWith (· &&& ·) bytes mask

/-- Perform one operation; a comparison may fail. -/
def Operation.perform (noise : Nat → UInt8) : Operation → Flash → Option Flash
  | scan sent, f => some (f.after sent)
  | check sent expected mask, f =>
    if masked (f.reply noise sent) mask = masked expected mask then some (f.after sent) else none
  | idle, f => some { f with busy := false }

/-- Perform operations one after another, with noise of its own on the line in each. -/
def run : (Nat → Nat → UInt8) → List Operation → Flash → Option Flash
  | _, [], f => some f
  | noise, operation :: operations, f =>
    (operation.perform (noise 0) f).bind (run (fun k => noise (k + 1)) operations)

/-- Statements run through whatever the noise and leave the part as `f'`. -/
def Plays (statements : List Statement) (f f' : Flash) : Prop :=
  ∀ noise, run noise (statements.map (·.operation)) f = some f'

section Plays

variable {first rest statements : List Statement} {s : Statement} {f f' f'' : Flash}

/-- Operations one after another; the noise goes on where it was. -/
theorem run_append (first rest : List Operation) (noise : Nat → Nat → UInt8) (f : Flash) :
    run noise (first ++ rest) f =
      (run noise first f).bind (run (fun k => noise (k + first.length)) rest) := by
  induction first generalizing noise f with
  | nil => rfl
  | cons operation first ih =>
    rw [List.cons_append, run, run, Option.bind_assoc]
    congr 1
    funext f'
    rw [ih]
    simp only [List.length_cons, Nat.add_assoc]

theorem Plays.append (hfirst : Plays first f f') (hrest : Plays rest f' f'') :
    Plays (first ++ rest) f f'' := by
  intro noise
  rw [List.map_append, run_append, hfirst noise]
  exact hrest _

theorem plays_singleton (h : ∀ noise, s.operation.perform noise f = some f') : Plays [s] f f' := by
  intro noise
  show ((s.operation.perform _ f).bind _) = _
  rw [h]
  rfl

theorem Plays.cons (hs : Plays [s] f f') (hrest : Plays rest f' f'') :
    Plays (s :: rest) f f'' := hs.append hrest

/-- A scan runs through and does to the part what a transaction does. -/
theorem plays_scan (sent : List UInt8) (f : Flash) : Plays [.scan sent] f (f.after sent) :=
  plays_singleton fun _ => rfl

/-- A wait ends a command. -/
theorem plays_idle (seconds : Float) (f : Flash) :
    Plays [.idle seconds] f { f with busy := false } :=
  plays_singleton fun _ => rfl

end Plays

/-! ## Checks

What a part drives is compared under a mask that leaves out the bytes in which it only listens, so
the noise there does not matter. -/

section Checks

variable {f : Flash}

/-- Bytes are masked part by part. -/
theorem masked_append {first rest mask mask' : List UInt8} (h : first.length = mask.length) :
    masked (first ++ rest) (mask ++ mask') = masked first mask ++ masked rest mask' :=
  List.zipWith_append h

/-- Under a mask of zeros nothing is compared. -/
theorem masked_zeros (bytes : List UInt8) :
    masked bytes (List.replicate bytes.length 0) = List.replicate bytes.length 0 := by
  induction bytes with
  | nil => rfl
  | cons b rest ih =>
    rw [List.length_cons, List.replicate_succ]
    show (b &&& 0) :: masked rest _ = _
    rw [ih, UInt8.and_zero]

/-- Under a mask of ones bytes are compared as they are. -/
theorem masked_ones (bytes : List UInt8) :
    masked bytes (List.replicate bytes.length 0xFF) = bytes := by
  induction bytes with
  | nil => rfl
  | cons b rest ih =>
    rw [List.length_cons, List.replicate_succ]
    show (b &&& 0xFF) :: masked rest _ = _
    rw [ih]
    exact congrArg (· :: rest) UInt8.and_neg_one

/-- An idle part passes the check of its status. -/
theorem plays_checkIdle (hidle : f.busy = false) : Plays [({} : Part).checkIdle] f f := by
  refine plays_singleton fun noise => ?_
  -- Of the status byte only the busy bit is under the mask; the latch may be set.
  have hstatus : f.status &&& 1 = 0 := by
    rw [Flash.status, hidle]
    cases f.latch <;> decide
  show (if masked [noise 0, f.status] [0, 1] = [0, 0] then some (f.after _) else none) = some f
  rw [if_pos (by simp [masked, hstatus]), Flash.after_of_idle hidle]
  rfl

/-- An idle part passes the check of its identity. -/
theorem plays_checkIdentity (hidle : f.busy = false) : Plays [({} : Part).checkIdentity] f f := by
  refine plays_singleton fun noise => ?_
  have hreply : f.reply noise [0x9F, 0, 0, 0] = [noise 0, 0xEF, 0x40, 0x18] := by
    -- It drives the three bytes after the opcode; what comes back during the opcode is noise.
    have hdriven : ∀ i, 1 ≤ i → f.driven? [0x9F, 0, 0, 0] i = SpiChip.identity[i - 1]? := by
      intro i hlow
      rw [Flash.driven?, if_neg (by omega), if_neg (by decide), hidle]
      rfl
    show [_, (f.driven? _ 1).getD _, (f.driven? _ 2).getD _, (f.driven? _ 3).getD _] = _
    rw [hdriven 1 (by decide), hdriven 2 (by decide), hdriven 3 (by decide)]
    rfl
  show (if masked (f.reply noise [0x9F, 0, 0, 0]) [0, 0xFF, 0xFF, 0xFF] =
    masked [0, 0xEF, 0x40, 0x18] [0, 0xFF, 0xFF, 0xFF] then some (f.after _) else none) = some f
  rw [hreply, if_pos (by simp [masked]), Flash.after_of_idle hidle]
  rfl

/-! ## Commands

A command that changes the part comes behind one that enables writes, and uses that up. -/

/-- A command is enabled, issued and seen through. -/
theorem plays_modify {command : List UInt8} {g : ByteArray → ByteArray} (hidle : f.busy = false)
    (hcommand : ∀ f : Flash, f.obey command = f.change g) (seconds : Float) :
    ∃ f', Plays (({} : Part).modify command seconds) f f' ∧ f'.busy = false ∧
      f'.memory = g f.memory := by
  have henabled : f.after [({} : Part).writeEnable] = { f with latch := true } :=
    Flash.after_of_idle hidle _
  have hchanged : Flash.after command { f with latch := true } =
      { memory := g f.memory, latch := false, busy := true } := by
    rw [Flash.after_of_idle (f := { f with latch := true }) hidle, hcommand]
    rfl
  have henable := plays_scan [({} : Part).writeEnable] f
  have hissue := plays_scan command { f with latch := true }
  rw [henabled] at henable
  rw [hchanged] at hissue
  -- The wait ends the command, so the check behind it finds the part idle.
  have hsettle := (plays_idle seconds { memory := g f.memory, latch := false, busy := true }).cons
    (plays_checkIdle rfl)
  exact ⟨_, henable.cons (hissue.cons hsettle), rfl, rfl⟩

/-- What a part does on an opcode and an address, the address as it was written. -/
theorem obey_command {offset : UInt32} (hoffset : offset.toNat < 0x1000000) (opcode : UInt8)
    (data : List UInt8) (f : Flash) :
    f.obey (addressCommand opcode offset ++ data) =
      if opcode = Opcode.blockErase ∧ data = [] then
        f.change (Memory.erase (offset.toNat - offset.toNat % 65536) 65536)
      else if opcode = Opcode.pageProgram then
        f.change (Memory.program (offset.toNat - offset.toNat % 256) (offset.toNat % 256) data)
      else f := by
  rw [← SpiChip.offsetOf_byte hoffset]
  rfl

/-- An erase of a block at its start. -/
theorem obey_erase {offset : UInt32} (haligned : offset.toNat % 65536 = 0)
    (hoffset : offset.toNat < 0x1000000) (f : Flash) :
    f.obey (addressCommand Opcode.blockErase offset) =
      f.change (Memory.erase offset.toNat 65536) := by
  rw [← List.append_nil (addressCommand _ _), obey_command hoffset, if_pos ⟨rfl, rfl⟩, haligned,
    Nat.sub_zero]

/-- A program of a page from its start. -/
theorem obey_program {offset : UInt32} (haligned : offset.toNat % 256 = 0)
    (hoffset : offset.toNat < 0x1000000) (data : List UInt8) (f : Flash) :
    f.obey (addressCommand Opcode.pageProgram offset ++ data) =
      f.change (Memory.program offset.toNat 0 data) := by
  have hopcode : Opcode.pageProgram ≠ Opcode.blockErase := by decide
  rw [obey_command hoffset, if_neg fun h => hopcode h.1, if_pos rfl, haligned, Nat.sub_zero]

/-! ## Reading back -/

/-- In a fast read the part drives all but the first five bytes. -/
theorem driven?_fastRead (hidle : f.busy = false) (a2 a1 a0 : UInt8) (rest : List UInt8) (i : Nat) :
    f.driven? (Opcode.fastRead :: a2 :: a1 :: a0 :: rest) i =
      if 5 ≤ i then
        some (Memory.byteAt f.memory ((SpiChip.offsetOf a2 a1 a0 + (i - 5)) % 0x1000000))
      else none := by
  have hopcode : Opcode.fastRead ≠ Opcode.readStatus ∧ Opcode.fastRead ≠ Opcode.identity := by
    decide
  by_cases hfirst : i = 0
  · simp [Flash.driven?, hfirst]
  · simp [Flash.driven?, hfirst, hopcode, hidle]

/-- What a fast read brings back behind its first five bytes. -/
theorem reply_fastRead {offset : UInt32} {n : Nat} (hn : 0 < n)
    (hrange : offset.toNat + n ≤ 0x1000000) (hidle : f.busy = false) (noise : Nat → UInt8) :
    f.reply noise (addressCommand Opcode.fastRead offset ++ [0] ++ List.replicate n 0) =
      (List.range 5).map noise ++ Memory.read f.memory offset.toNat n := by
  have hdriven : ∀ i,
      f.driven? (addressCommand Opcode.fastRead offset ++ [0] ++ List.replicate n 0) i =
        if 5 ≤ i then some (Memory.byteAt f.memory ((offset.toNat + (i - 5)) % 0x1000000))
        else none := fun i => by
    rw [← SpiChip.offsetOf_byte (show offset.toNat < 0x1000000 by omega)]
    exact driven?_fastRead hidle _ _ _ _ i
  have hlength : (addressCommand Opcode.fastRead offset ++ [0] ++ List.replicate n 0).length =
      5 + n := by
    rw [List.length_append, List.length_replicate]
    rfl
  rw [Flash.reply, hlength, List.range_add, List.map_append, List.map_map, Memory.read]
  congr 1
  · refine List.map_congr_left fun i hi => ?_
    rw [List.mem_range] at hi
    rw [hdriven, if_neg (by omega)]
    rfl
  · refine List.map_congr_left fun k hk => ?_
    rw [List.mem_range] at hk
    rw [Function.comp_apply, hdriven, if_pos (by omega), Nat.add_sub_cancel_left,
      Nat.mod_eq_of_lt (by omega)]
    rfl

/-- A comparison of all bytes behind the ignored ones. -/
theorem operation_expecting {command data : List UInt8} (hdata : data ≠ []) :
    (Statement.expecting (command ++ List.replicate data.length 0)
        (List.replicate command.length 0 ++ data) none command.length).operation =
      .check (command ++ List.replicate data.length 0) (List.replicate command.length 0 ++ data)
        (List.replicate command.length 0 ++ List.replicate data.length 0xFF) := by
  have hpos := List.length_pos_iff.2 hdata
  have hchecked : ((List.replicate command.length 0 ++ data).length ≤ command.length ||
      (command ++ List.replicate data.length (0 : UInt8)).isEmpty) = false := by
    rw [Bool.or_eq_false_iff, decide_eq_false_iff_not, List.isEmpty_eq_false_iff,
      List.length_append, List.length_replicate]
    refine ⟨by omega, List.append_ne_nil_of_right_ne_nil _ ?_⟩
    exact List.ne_nil_of_length_pos (by rwa [List.length_replicate])
  have hbehind : (List.replicate command.length (0 : UInt8) ++ data).length - command.length =
      data.length := by
    rw [List.length_append, List.length_replicate, Nat.add_sub_cancel_left]
  rw [Statement.expecting, hchecked]
  show Operation.check _ (fitTo _ _) (fitTo _ (_ ++ List.replicate _ 0xFF)) = _
  rw [hbehind, fitTo_self (by simp), fitTo_self (by simp)]

/-- **Reading back** passes exactly on a part that holds the data. -/
theorem perform_verify {offset : UInt32} {data : List UInt8} (hdata : data ≠ [])
    (hrange : offset.toNat + data.length ≤ 0x1000000) (hidle : f.busy = false)
    (noise : Nat → UInt8) :
    (Statement.expecting (addressCommand Opcode.fastRead offset ++ [0] ++
        List.replicate data.length 0) (List.replicate 5 0 ++ data) none 5).operation.perform
          noise f =
      if Memory.read f.memory offset.toNat data.length = data then some f else none := by
  have hoperation : (Statement.expecting (addressCommand Opcode.fastRead offset ++ [0] ++
      List.replicate data.length 0) (List.replicate 5 0 ++ data) none 5).operation =
        .check (addressCommand Opcode.fastRead offset ++ [0] ++ List.replicate data.length 0)
          (List.replicate 5 0 ++ data) (List.replicate 5 0 ++ List.replicate data.length 0xFF) :=
    operation_expecting hdata
  -- The first five bytes are noise on one side and zeros on the other, and masked on both.
  have hignored : ∀ bytes : List UInt8, bytes.length = 5 →
      masked bytes (List.replicate 5 0) = List.replicate 5 0 := fun bytes h => by
    rw [← h, masked_zeros]
  have hcompared : masked (Memory.read f.memory offset.toNat data.length)
      (List.replicate data.length 0xFF) = Memory.read f.memory offset.toNat data.length := by
    have hones := masked_ones (Memory.read f.memory offset.toNat data.length)
    rwa [Memory.length_read] at hones
  have hsame : f.after (addressCommand Opcode.fastRead offset ++ [0] ++
      List.replicate data.length 0) = f := by
    rw [Flash.after_of_idle hidle]
    rfl
  rw [hoperation, Operation.perform, hsame,
    reply_fastRead (List.length_pos_iff.2 hdata) hrange hidle, masked_append (by simp),
    masked_append (by simp), hignored _ (by simp), hignored _ (by simp), hcompared, masked_ones]
  simp only [List.append_cancel_left_eq]

/-- Checks each of which leaves the part alone or fails: a run of them passes if all of them do. -/
theorem run_checks {ι : Type} {check : ι → Operation} {P : ι → Prop} [DecidablePred P]
    {is : List ι}
    (h : ∀ i ∈ is, ∀ noise, (check i).perform noise f = if P i then some f else none)
    (noise : Nat → Nat → UInt8) :
    run noise (is.map check) f = if ∀ i ∈ is, P i then some f else none := by
  induction is generalizing noise with
  | nil => exact (if_pos fun i hi => nomatch hi).symm
  | cons i rest ih =>
    rw [List.forall_mem_cons] at h
    rw [List.map_cons, run, h.1]
    -- A check that passes leaves the part to the next one; one that fails ends the run.
    by_cases hi : P i
    · simp only [hi, if_true, Option.bind_some, ih h.2, List.forall_mem_cons, true_and]
    · simp only [hi, if_false, Option.bind_none, List.forall_mem_cons, false_and]

end Checks

end NorDisk.Svf
