import NorDisk.Firmware.Device
import NorDisk.Proofs.ChipTransactions
import NorDisk.Proofs.Execution
import NorDisk.Proofs.Lockstep

/-!
# The device serves requests as a simulated disk does

Between a hook of the device and the memory of the chip lie a slot, a disk, NOR commands and a SPI
bus that is driven by hand. A simulated disk has none of these. Its part and the chip behind the
lines are in lockstep nevertheless: a command that is issued to an idle chip reaches it in two
transactions and does to its memory what it says, and a chip whose busy time fits the timeout is
always seen idle again.

* **`Machine.Resting`** — the state of the machine between transactions.
* **`FlashPart.execute_meets`** — a command is seen through; no wait times out.
* **`Mirrors.lockstep`** — the chip behind the lines and a simulated part are in lockstep.
* **`Device.serve_eq`** — a hook serves its request on the disk in the slot.
* **`device_refines_disk`** — any run of requests gets the same reports from both.
-/

namespace NorDisk

open Outcome

namespace Firmware

/-! ## The chip and its commands -/

namespace SpiChip

variable {c : SpiChip}

/-- A change that the chip obeys: it applies to the memory, uses up the latch and makes the chip
busy. -/
theorem obeying_of_change {bytes : List UInt8} {f : ByteArray → ByteArray}
    (hact : c.act bytes = c.change f) (hlatch : c.latch = true) (hidle : c.isBusy = false) :
    c.obeying bytes =
      { c.obeying [] with memory := f c.memory, latch := false, busyLeft := c.busyPolls } := by
  have hchange : c.change f =
      (true, { c with memory := f c.memory, latch := false, busyLeft := c.busyPolls }) := by
    simp [change, hlatch, hidle]
  rw [obeying, hact, hchange]
  rfl

/-- An erase transaction acts on the memory as the erase command does. -/
theorem act_erase {offset : UInt32} (hoffset : offset.toNat < 0x1000000) :
    c.act (addressCommand Opcode.sectorErase offset) = c.change (Command.erase offset).apply := by
  rw [Command.apply, toNat_sectorBase, ← offsetOf_byte hoffset]
  rfl

/-- A program transaction acts on the memory as the program command does. -/
theorem act_program {offset : UInt32} (hoffset : offset.toNat < 0x1000000) {data : List UInt8}
    (hlength : data.length ≤ 256) :
    c.act (addressCommand Opcode.pageProgram offset ++ data) =
      c.change (Command.program offset data).apply := by
  rw [Command.apply, List.take_of_length_le hlength, ← offsetOf_byte hoffset]
  rfl

end SpiChip

/-! ## The machine at rest -/

namespace Machine

/-- Between transactions: the chip is deselected and will be idle before the timeout, the lines
follow their register exactly if commands are served, and no rule was broken. -/
structure Resting (mode : Mode) (patience : Patience) (m : Machine) : Prop where
  bitbang_eq : m.bitbang = decide (mode = .command)
  selected_eq : m.chip.selected = false
  clock_eq : m.chip.clock = false
  stalled_eq : m.chip.stalled = false
  busyLeft_le : m.chip.busyLeft ≤ m.chip.busyPolls
  busyTime_le : m.chip.busyPolls * m.ticksPerStatus ≤ patience.timeout.toNat
  busyPolls_lt : m.chip.busyPolls < patience.polls
  breaches_eq : m.breaches = 0

variable {m : Machine} {mode : Mode} {patience : Patience}

theorem Resting.bitbang (h : m.Resting .command patience) : m.bitbang = true := h.bitbang_eq

/-- The busy time of the chip, as far as it is left. -/
theorem Resting.busyLeft_mul_le (h : m.Resting mode patience) :
    m.chip.busyLeft * m.ticksPerStatus ≤ patience.timeout.toNat :=
  Nat.le_trans (Nat.mul_le_mul_right _ h.busyLeft_le) h.busyTime_le

/-- Asking for the status leaves the machine at rest. -/
theorem Resting.polled (h : m.Resting .command patience) : m.polled.Resting .command patience where
  bitbang_eq := h.bitbang_eq
  selected_eq := rfl
  clock_eq := rfl
  stalled_eq := h.stalled_eq
  busyLeft_le := Nat.le_trans (Nat.sub_le _ _) h.busyLeft_le
  busyTime_le := h.busyTime_le
  busyPolls_lt := h.busyPolls_lt
  breaches_eq := h.breaches_eq

/-- A machine after a transaction that its chip obeyed; the busy counter may have been set. -/
theorem Resting.obeying (h : m.Resting .command patience) (memory : ByteArray) (latch : Bool)
    {busyLeft : Nat} {event : Event} (hleft : busyLeft ≤ m.chip.busyPolls) :
    ({ m with chip := { m.chip.obeying [] with memory, latch, busyLeft } }.record event).Resting
      .command patience where
  bitbang_eq := h.bitbang_eq
  selected_eq := rfl
  clock_eq := rfl
  stalled_eq := h.stalled_eq
  busyLeft_le := hleft
  busyTime_le := h.busyTime_le
  busyPolls_lt := h.busyPolls_lt
  breaches_eq := h.breaches_eq

end Machine

namespace FlashPart

def machine (c : FlashPart) : Machine := c.bus.bus

def onMachine (m : Machine) (c : FlashPart) : FlashPart := { c with bus := ⟨m⟩ }

variable {c : FlashPart} {patience : Patience}

/-- Sending runs one transaction on the machine. -/
theorem machine_send (ops : List SpiOp) (c : FlashPart) :
    machine (c.send ops) = (transaction ops c.machine).2 := rfl

/-- The lines answer every transaction. -/
theorem transact_eq (ops : List SpiOp) (c : FlashPart) :
    c.transact ops = (some (transaction ops c.machine).1.flatten,
      c.onMachine (transaction ops c.machine).2) := rfl

/-- The lowest status bit tells whether the chip is busy. -/
theorem status_and_one (chip : SpiChip) (hstalled : chip.stalled = false) :
    decide (chip.status.1 &&& 1 ≠ 0) = decide (0 < chip.busyLeft) := by
  have hbusy : chip.isBusy = decide (0 < chip.busyLeft) := by simp [SpiChip.isBusy, hstalled]
  have hbits : ∀ busy latch : Bool,
      decide (((if busy then (1 : UInt8) else 0) ||| (if latch then 2 else 0)) &&& 1 ≠ 0) =
        busy := by decide
  rw [SpiChip.status, hbusy]
  exact hbits _ _

/-- One poll: the answer is the busy counter, which goes down by one. -/
theorem isBusy_eq (h : c.machine.Resting .command patience) :
    Controller.isBusy c =
      (decide (0 < c.machine.chip.busyLeft), c.onMachine c.machine.polled) := by
  have htransact : c.transact [.write [Opcode.readStatus], .read 1] =
      (some [c.machine.chip.status.1], c.onMachine c.machine.polled) := by
    rw [transact_eq, Machine.transaction_status h.bitbang h.selected_eq]
    rfl
  -- The lowest bit of the status byte is the answer.
  show SpiNor.isBusy c = _
  rw [SpiNor.isBusy, htransact, ← status_and_one _ h.stalled_eq]
  rfl

/-- Time since a start adds up as long as it fits a word. -/
theorem elapsed_advance {start now : UInt32} {d : Nat}
    (h : (elapsed start now).toNat + d < 0x100000000) :
    (elapsed start (now + d.toUInt32)).toNat = (elapsed start now).toNat + d := by
  have hsum : elapsed start (now + d.toUInt32) = elapsed start now + d.toUInt32 := by
    simp only [elapsed, UInt32.sub_eq_add_neg]
    rw [UInt32.add_assoc, UInt32.add_comm d.toUInt32, ← UInt32.add_assoc]
  have hd : d.toUInt32.toNat = d := UInt32.toNat_ofNat_of_lt' (show d < 2 ^ 32 by omega)
  rw [hsum, UInt32.toNat_add, hd, Nat.mod_eq_of_lt h]

/-- Polls go on while the busy counter is not zero, and end before the timeout. Induction on the
counter; `spent` is the time since the wait began. -/
theorem pollIdle_meets {offset start : UInt32} {polls spent : Nat}
    (h : c.machine.Resting .command patience) (hpolls : c.machine.chip.busyLeft < polls)
    (hspent : (elapsed start c.machine.ticks.now).toNat = spent)
    (htime : spent + c.machine.chip.busyLeft * c.machine.ticksPerStatus ≤ patience.timeout.toNat) :
    Meets (fun _ c' => c'.machine.Resting .command patience ∧
        c'.machine.chip.memory = c.machine.chip.memory ∧ c'.machine.chip.busyLeft = 0)
      (fun _ _ => False)
      (Controller.pollIdle patience.timeout offset start polls c) := by
  induction hleft : c.machine.chip.busyLeft generalizing c polls spent with
  | zero =>
    obtain ⟨polls, rfl⟩ := Nat.exists_eq_succ_of_ne_zero (Nat.ne_of_gt (Nat.zero_lt_of_lt hpolls))
    -- The chip is idle: this poll sees it.
    rw [Controller.pollIdle, Action.ofStep_bind, isBusy_eq h, hleft]
    exact ⟨h.polled, rfl, by show c.machine.chip.busyLeft - 1 = 0; omega⟩
  | succ n ih =>
    obtain ⟨polls, rfl⟩ := Nat.exists_eq_succ_of_ne_zero (Nat.ne_of_gt (Nat.zero_lt_of_lt hpolls))
    rw [Controller.pollIdle, Action.ofStep_bind, isBusy_eq h, hleft]
    -- The chip is busy for `n + 1` more polls; the clock has moved by one poll since.
    have hnow (c' : FlashPart) : TickSource.now c' = (c'.machine.ticks.now, c') := rfl
    rw [hleft, Nat.succ_mul] at htime
    have helapsed : (elapsed start c.machine.polled.ticks.now).toNat =
        spent + c.machine.ticksPerStatus := by
      rw [← hspent] at htime ⊢
      exact elapsed_advance (by have := patience.timeout.toNat_lt; omega)
    -- The time left covers the polls left, so that this one is not late.
    have hgo : ¬ patience.timeout < elapsed start c.machine.polled.ticks.now := by
      rw [UInt32.lt_iff_toNat_lt, helapsed]
      omega
    rw [if_pos (by simp), Action.ofStep_bind, hnow, Action.ite_apply]
    show Meets _ _ (if patience.timeout < elapsed start c.machine.polled.ticks.now then _
      else Controller.pollIdle patience.timeout offset start polls (c.onMachine c.machine.polled))
    rw [if_neg hgo]
    have hleft' : c.machine.polled.chip.busyLeft = n := by
      show c.machine.chip.busyLeft - 1 = n
      omega
    exact ih (c := c.onMachine c.machine.polled) h.polled
      (by show c.machine.polled.chip.busyLeft < polls; omega) helapsed
      (by show spent + c.machine.ticksPerStatus + c.machine.polled.chip.busyLeft *
            c.machine.ticksPerStatus ≤ _; rw [hleft']; omega) hleft'

/-- A wait at rest ends with the chip idle, and does not fail. -/
theorem waitIdle_meets (offset : UInt32) (h : c.machine.Resting .command patience) :
    Meets (fun _ c' => c'.machine.Resting .command patience ∧
        c'.machine.chip.memory = c.machine.chip.memory ∧ c'.machine.chip.busyLeft = 0)
      (fun _ _ => False)
      (Controller.waitIdle patience offset c) := by
  have hnow : TickSource.now c = (c.machine.ticks.now, c) := rfl
  have hspent : (elapsed c.machine.ticks.now c.machine.ticks.now).toNat = 0 := by
    simp [elapsed]
  rw [Controller.waitIdle, Action.ofStep_bind, hnow]
  refine pollIdle_meets h (Nat.lt_of_le_of_lt h.busyLeft_le h.busyPolls_lt) hspent ?_
  rw [Nat.zero_add]
  exact h.busyLeft_mul_le

/-- Enabling writes sets the latch and nothing else. -/
theorem enableWrites_resting (h : c.machine.Resting .command patience) :
    ∃ c₁ : FlashPart, SpiNor.enableWrites c = c₁ ∧ c₁.machine.Resting .command patience ∧
      c₁.machine.chip.memory = c.machine.chip.memory ∧ c₁.machine.chip.latch = true ∧
      c₁.machine.chip.busyLeft = c.machine.chip.busyLeft := by
  refine ⟨_, rfl, ?_⟩
  rw [SpiNor.enableWrites, machine_send,
    Machine.transaction_quiet _ h.bitbang h.selected_eq (by decide)]
  -- One byte is no status request, so that the chip obeys it when it is deselected.
  exact ⟨h.obeying c.machine.chip.memory true h.busyLeft_le, rfl, rfl, rfl⟩

/-- A transaction that the chip takes for a command, while it is idle and its writes are enabled. -/
theorem send_resting {ops : List SpiOp} {f : ByteArray → ByteArray}
    (h : c.machine.Resting .command patience) (hlatch : c.machine.chip.latch = true)
    (hidle : c.machine.chip.busyLeft = 0)
    (hquiet : (ops.flatMap sentBytes).head? ≠ some Opcode.readStatus)
    (hact : c.machine.chip.act (ops.flatMap sentBytes) = c.machine.chip.change f) :
    (machine (c.send ops)).Resting .command patience ∧
      (machine (c.send ops)).chip.memory = f c.machine.chip.memory := by
  have hfree : c.machine.chip.isBusy = false := by simp [SpiChip.isBusy, h.stalled_eq, hidle]
  rw [machine_send, Machine.transaction_quiet _ h.bitbang h.selected_eq hquiet,
    SpiChip.obeying_of_change hact hlatch hfree]
  exact ⟨h.obeying _ _ (Nat.le_refl _), rfl⟩

/-- The chip of the board has offsets of three bytes. -/
theorem offset_lt {command : Command} (hwithin : command.Within layout) :
    command.offset.toNat < 0x1000000 := by
  have hflash : layout.flashBytes.toNat = 0x100000 := rfl
  cases command with
  | erase offset =>
    have hle := hwithin.2.2
    show offset.toNat < _
    omega
  | program offset data =>
    have hle := hwithin.2.2.1
    show offset.toNat < _
    omega

/-- A command to an idle chip: the latch is set, then the chip obeys. -/
theorem issue_resting {command : Command} (h : c.machine.Resting .command patience)
    (hidle : c.machine.chip.busyLeft = 0) (hwithin : command.Within layout) :
    (machine (Controller.issue command c)).Resting .command patience ∧
      (machine (Controller.issue command c)).chip.memory =
        command.apply c.machine.chip.memory := by
  obtain ⟨c₁, henable, h₁, hmemory, hlatch, hleft⟩ := enableWrites_resting h
  rw [← hmemory]
  cases command with
  | erase offset =>
    have hoffset : offset.toNat < 0x1000000 := offset_lt hwithin
    have hissue : Controller.issue (.erase offset) c =
        SpiNor.send [.write (addressCommand Opcode.sectorErase offset)] c₁ := by
      rw [← henable]
      rfl
    rw [hissue]
    exact send_resting h₁ hlatch (hleft.trans hidle) (by simp [sentBytes, addressCommand]; decide)
      (SpiChip.act_erase hoffset)
  | program offset data =>
    -- A program is one transaction of two writes, of which the chip sees the bytes of both.
    have hissue : Controller.issue (.program offset data) c =
        SpiNor.send [.write (addressCommand Opcode.pageProgram offset), .write data] c₁ := by
      rw [← henable]
      rfl
    have hoffset : offset.toNat < 0x1000000 := offset_lt hwithin
    have hlength : data.length ≤ 256 := Nat.le_of_eq hwithin.2.2.2
    rw [hissue]
    refine send_resting h₁ hlatch (hleft.trans hidle) ?_ ?_
    · simp [sentBytes, addressCommand]
      decide
    · simpa [sentBytes] using SpiChip.act_program hoffset hlength

/-- **One command** is always seen through. -/
theorem execute_meets {command : Command} (h : c.machine.Resting .command patience)
    (hwithin : command.Within layout) :
    Meets (fun _ c' => c'.machine.Resting .command patience ∧
        c'.machine.chip.memory = command.apply c.machine.chip.memory)
      (fun _ _ => False)
      (Controller.execute patience command c) := by
  unfold Controller.execute
  refine Action.Meets.bind (waitIdle_meets command.offset h) ?_
  intro _ c₁ hc₁
  obtain ⟨hresting, hmemory, hidle⟩ := hc₁
  obtain ⟨hissued, happlied⟩ := issue_resting hresting hidle hwithin
  rw [Action.ofUpdate_bind]
  refine (waitIdle_meets command.offset hissued).mono ?_ (fun _ _ => id)
  intro _ c₂ hc₂
  exact ⟨hc₂.1, by rw [hc₂.2.1, happlied, hmemory]⟩

/-- Opening the window puts the lines away. -/
theorem enterMapped_resting {mode : Mode} (h : c.machine.Resting mode patience) :
    (machine (Controller.enterMapped c)).Resting .mapped patience :=
  ⟨rfl, h.selected_eq, h.clock_eq, h.stalled_eq, h.busyLeft_le, h.busyTime_le, h.busyPolls_lt,
    h.breaches_eq⟩

/-- Closing the window takes the lines back. -/
theorem enterCommand_resting {mode : Mode} (h : c.machine.Resting mode patience) :
    (machine (Controller.enterCommand c)).Resting .command patience :=
  ⟨rfl, h.selected_eq, h.clock_eq, h.stalled_eq, h.busyLeft_le, h.busyTime_le, h.busyPolls_lt,
    h.breaches_eq⟩

/-- The bytes of a window that is served are those of the memory. Induction on their number. -/
theorem windowBytes_eq {m : Machine} (hbang : m.bitbang = false) {addr : UInt32} {start len : Nat}
    (haddr : addr.toNat = windowBase.toNat + start)
    (hend : windowBase.toNat + start + len < 0x100000000) :
    windowBytes len addr m = (Memory.read m.chip.memory start len, m) := by
  induction len generalizing addr start with
  | zero => rfl
  | succ len ih =>
    -- The address lies in the window, and its distance from the base is the place in memory.
    have hle : windowBase ≤ addr := by rw [UInt32.le_iff_toNat_le]; omega
    have hplace : (addr - windowBase).toNat = start := by
      rw [UInt32.toNat_sub_of_le _ _ hle]
      omega
    have hbyte : RegisterBus.windowByte addr m = (Memory.byteAt m.chip.memory start, m) := by
      show m.windowByte addr = _
      rw [Machine.windowByte, hbang, if_neg Bool.false_ne_true, hplace]
    have hnext : (addr + 1).toNat = windowBase.toNat + (start + 1) := by
      rw [UInt32.toNat_add, UInt32.toNat_one]
      omega
    have hread : Memory.read m.chip.memory start (len + 1) =
        Memory.byteAt m.chip.memory start :: Memory.read m.chip.memory (start + 1) len := by
      simp [Memory.read, List.range_succ_eq_map, Function.comp_def, Nat.add_assoc, Nat.add_comm 1]
    rw [windowBytes, hbyte, hread]
    simp only [ih hnext (by omega)]

theorem readMapped_eq (h : c.machine.Resting .mapped patience) {addr : UInt32} {start len : Nat}
    (haddr : addr.toNat = windowBase.toNat + start)
    (hend : start + len ≤ layout.flashBytes.toNat) :
    Controller.readMapped addr len c = (Memory.read c.machine.chip.memory start len, c) := by
  have hflash : layout.flashBytes.toNat = 0x100000 := rfl
  have hbase : windowBase.toNat = 0x20000000 := rfl
  have hwindow := windowBytes_eq (m := c.machine) h.bitbang_eq haddr
    (show windowBase.toNat + start + len < 0x100000000 by omega)
  show ((windowBytes len addr c.machine).1, c.onMachine (windowBytes len addr c.machine).2) = _
  rw [hwindow]
  rfl

end FlashPart

/-- A flash part and a simulated part that serve one mode over one memory. -/
structure Mirrors (patience : Patience) (setting : Bench.Setting) (mode : Mode) (c : FlashPart)
    (b : Bench NorPart) : Prop where
  resting : c.machine.Resting mode patience
  steady : b.Steady setting mode
  memory_eq : c.machine.chip.memory = b.part.memory

variable {patience : Patience} {setting : Bench.Setting}

theorem Mirrors.lockstep (hample : patience.Ample setting.step)
    (hbrisk : setting.Brisk patience.timeout) :
    Lockstep layout patience Fault.IsRefusal (Mirrors patience setting) where
  refusal _ := trivial
  enterMapped h := ⟨FlashPart.enterMapped_resting h.resting, h.steady.enterMapped.1,
    h.memory_eq.trans h.steady.enterMapped.2.symm⟩
  enterCommand h := ⟨FlashPart.enterCommand_resting h.resting, h.steady.enterCommand.1,
    h.memory_eq.trans h.steady.enterCommand.2.symm⟩
  execute := by
    intro command c b hwithin h
    -- Neither side can time out: the one by its polls, the other by its clock.
    obtain ⟨_, c', hc, hresting, hmemory⟩ :=
      (FlashPart.execute_meets h.resting hwithin).ok fun _ _ => id
    obtain ⟨_, b', hb, hsteady, hmemory'⟩ :=
      (Bench.execute_meets hample h.steady command).ok fun _ _ hbad => hbad.2.1 hbrisk
    rw [hc, hb]
    exact ⟨rfl, hresting, hsteady, by rw [hmemory, hmemory', h.memory_eq]⟩
  readMapped := by
    intro addr start len c b haddr _ hend h
    obtain ⟨hbytes, hsteady, hmemory⟩ := h.steady.readMapped haddr len
    rw [FlashPart.readMapped_eq h.resting haddr hend]
    exact ⟨by rw [hbytes, h.memory_eq], h.resting, hsteady, h.memory_eq.trans hmemory.symm⟩

end Firmware

/-! ## Requests through the hooks -/

/-- What a client sees of a request: a status word, and its buffer if it is a read. -/
structure Report where
  status : Int
  buffer : Option (List UInt8)
deriving DecidableEq, Repr

def Request.buffer? : Request → Option (List UInt8)
  | .read buffer _ _ => some buffer
  | .write .. | .flush => none

def Answer.buffer? : Answer → Option (List UInt8)
  | .data buffer => some buffer
  | .done => none

variable {σ τ : Type}

/-- An outcome as the client sees it; a refused read leaves the buffer as it was. -/
def Request.reported (request : Request) : Outcome FlashError σ Answer → Outcome Empty σ Report
  | .ok answer s => .ok ⟨0, answer.buffer?⟩ s
  | .error (.refused e) s => .ok ⟨e.status, request.buffer?⟩ s
  | .error (.trap cause) s => .error (.trap cause) s

/-- Outcomes that agree are reported alike. -/
theorem Request.reported_agree {R : σ → τ → Prop} {r : Outcome FlashError σ Answer}
    {r' : Outcome FlashError τ Answer} (request : Request)
    (h : Agree Fault.IsRefusal R (fun _ => R) r r') :
    Agree Fault.IsRefusal R (fun _ => R) (request.reported r) (request.reported r') := by
  match r, r', h with
  | .ok a s, .ok b t, h =>
    obtain ⟨rfl, hst⟩ := h
    exact ⟨rfl, hst⟩
  | .error (.refused e) s, .error g t, h =>
    obtain ⟨rfl, -, hst⟩ := h
    exact ⟨rfl, hst⟩
  | .error (.trap cause) s, .error g t, h => exact absurd h.2.1 id

/-- A request on a disk as a client sees it. -/
def Disk.report [Controller σ] [TickSource σ] (request : Request) : Action Empty (Disk σ) Report :=
  fun d => request.reported (Disk.serve request d)

namespace Firmware.Device

/-- The hook of a request, as a client sees it. -/
def serve : Request → Hook Report
  | .read buffer lba count => do
    let (status, buffer) ← readBlocks (some buffer) lba count
    return ⟨status, buffer⟩
  | .write source lba count => return ⟨← writeBlocks (some source) lba count, none⟩
  | .flush => return ⟨← flush, none⟩

/-- The device with another disk under its flash state. -/
def withDisk (s : FlashState) (disk : Disk FlashPart) (d : Device) : Device :=
  settle { transfer := s.transfer, disk } { d with slot := none }

variable {d : Device} {s : FlashState}

/-- A full slot is emptied. -/
theorem checkOut_of_some (hslot : d.slot = some s) :
    d.checkOut = some (s, { d with slot := none }) := by
  rw [checkOut, hslot]
  rfl

/-- Putting back what was taken out changes nothing. -/
theorem withDisk_self (hslot : d.slot = some s) :
    d.withDisk s (assemble s d.machine).disk = d := by
  cases d
  cases hslot
  rfl

/-- The outcome of a request with its disk put back into the device. -/
def putBack {α : Type} (s : FlashState) (d : Device) :
    Outcome FlashError (Disk FlashPart) α → Outcome FlashError Device α
  | .ok a disk => .ok a (d.withDisk s disk)
  | .error fault disk => .error fault (d.withDisk s disk)

/-- What holds between the disks holds after putting one of them back. -/
theorem putBack_agree {α : Type} {R : Disk FlashPart → τ → Prop} {R' : Device → τ → Prop}
    {r : Outcome FlashError (Disk FlashPart) α} {r' : Outcome FlashError τ α}
    (hput : ∀ disk t, R disk t → R' (d.withDisk s disk) t)
    (h : Agree Fault.IsRefusal R (fun _ => R) r r') :
    Agree Fault.IsRefusal R' (fun _ => R') (putBack s d r) r' := by
  match r, r', h with
  | .ok a disk, .ok b t, h => exact ⟨h.1, hput disk t h.2⟩
  | .error f disk, .error g t, h => exact ⟨h.1, h.2.1, hput disk t h.2.2⟩

/-- An action on the disk in the slot is that action with its disk put back. -/
theorem onDisk_eq {α : Type} (hslot : d.slot = some s)
    (request : Action FlashError (Disk FlashPart) α) :
    onDisk request d = putBack s d (request (assemble s d.machine).disk) := by
  rw [onDisk, Action.bind_apply, withFlash, checkOut_of_some hslot]
  simp only [assemble, Uf2.Intake.withDisk]
  rcases request { store := s.store, device := ⟨⟨d.machine⟩, s.busErrors⟩ } with _ | ⟨_ | _, _⟩ <;>
    rfl

/-! ### Lengths in bytes -/

/-- A word has at least 32 bits. -/
theorem le_limit (words : WordSize) : 0x100000000 ≤ words.limit := by
  cases words <;> decide

/-- Can the bytes of this many blocks be counted? -/
def Countable (d : Device) (count : UInt32) : Prop := 256 * count.toNat < d.words.limit

variable {lba count : UInt32}

theorem blockLength_of_countable (h : d.Countable count) :
    blockLength lba count d = .ok (.ok (256 * count.toNat)) d := by
  rw [blockLength, Action.ofStep]
  simp only [if_pos (show 256 * count.toNat < d.words.limit from h)]

theorem blockLength_of_not_countable (h : ¬ d.Countable count) :
    blockLength lba count d = .ok (.error (.outOfRange lba count)) d := by
  rw [blockLength, Action.ofStep]
  simp only [if_neg (show ¬ 256 * count.toNat < d.words.limit from h)]

theorem ne_zero_of_not_countable (h : ¬ d.Countable count) : count ≠ 0 := by
  rintro rfl
  exact h (Nat.lt_of_lt_of_le (by decide) (le_limit d.words))

/-- Blocks whose bytes can be counted are read by the disk in the slot. -/
theorem readBlocks_of_countable (bytes : List UInt8) (hcount : count ≠ 0) (h : d.Countable count) :
    readBlocks (some bytes) lba count d =
      (do
        return readAnswer bytes (← (onDisk (Disk.readBlocks bytes lba count)).attempt) :
          Hook (Int × Option (List UInt8))) d := by
  rw [readBlocks, if_neg hcount, Action.bind_apply, blockLength_of_countable h]

theorem writeBlocks_of_countable (bytes : List UInt8) (hcount : count ≠ 0)
    (h : d.Countable count) :
    writeBlocks (some bytes) lba count d =
      statusOf (onDisk (Disk.writeBlocks bytes lba count)) d := by
  rw [writeBlocks, if_neg hcount, Action.bind_apply, blockLength_of_countable h]

/-- More blocks than can be counted in bytes are refused before the buffer and the slot are looked
at. -/
theorem readBlocks_of_not_countable (buffer : Option (List UInt8)) (h : ¬ d.Countable count) :
    readBlocks buffer lba count d = .ok ((FlashError.outOfRange lba count).status, buffer) d := by
  rw [readBlocks, if_neg (ne_zero_of_not_countable h), Action.bind_apply,
    blockLength_of_not_countable h]
  rfl

theorem writeBlocks_of_not_countable (source : Option (List UInt8)) (h : ¬ d.Countable count) :
    writeBlocks source lba count d = .ok (FlashError.outOfRange lba count).status d := by
  rw [writeBlocks, if_neg (ne_zero_of_not_countable h), Action.bind_apply,
    blockLength_of_not_countable h]
  rfl

/-- The disk would refuse them as well, since no region has that many blocks. -/
theorem refusal?_of_not_countable (h : ¬ d.Countable count) (l : Layout) (room : Nat) :
    l.refusal? lba count room = some (.outOfRange lba count) := by
  have hlimit := le_limit d.words
  have hblocks := l.blocks_lt
  have hmany : d.words.limit ≤ 256 * count.toNat := Nat.not_lt.mp h
  rw [Layout.refusal?, if_neg (ne_zero_of_not_countable h), if_pos (by omega)]

/-! ### Hooks that find the slot filled -/

/-- A hook serves its request on the disk in the slot. The hook answers some requests without the
flash state: those for no blocks, and those for more than can be counted. The disk leaves itself as
it was on these, so that putting it back changes nothing. -/
theorem serve_eq (hslot : d.slot = some s) (request : Request) :
    serve request d = request.reported (onDisk (Disk.serve request) d) := by
  have hback := withDisk_self hslot
  cases request with
  | read buffer lba count =>
    by_cases hcount : count = 0
    · rw [onDisk_eq hslot, Disk.serve, Action.bind_apply, Disk.readBlocks, if_pos hcount, serve,
        Action.bind_apply, readBlocks, if_pos hcount]
      exact congrArg (EStateM.Result.ok _) hback.symm
    by_cases hlength : d.Countable count
    · rw [serve, Action.bind_apply, readBlocks_of_countable buffer hcount hlength,
        Action.bind_apply, Action.attempt, onDisk_eq hslot, onDisk_eq hslot, Disk.serve,
        Action.bind_apply]
      rcases Disk.readBlocks buffer lba count (assemble s d.machine).disk
        with _ | ⟨_ | _, _⟩ <;> rfl
    · rw [onDisk_eq hslot, Disk.serve, Action.bind_apply,
        Disk.readBlocks_of_refusal (refusal?_of_not_countable hlength _ _), serve,
        Action.bind_apply, readBlocks_of_not_countable (some buffer) hlength]
      exact congrArg (EStateM.Result.ok _) hback.symm
  | write source lba count =>
    by_cases hcount : count = 0
    · rw [onDisk_eq hslot, Disk.serve, Action.bind_apply, Disk.writeBlocks, if_pos hcount, serve,
        Action.bind_apply, writeBlocks, if_pos hcount]
      exact congrArg (EStateM.Result.ok _) hback.symm
    by_cases hlength : d.Countable count
    · rw [serve, Action.bind_apply, writeBlocks_of_countable source hcount hlength, statusOf,
        Action.bind_apply, Action.attempt, onDisk_eq hslot, onDisk_eq hslot, Disk.serve,
        Action.bind_apply]
      rcases Disk.writeBlocks source lba count (assemble s d.machine).disk
        with _ | ⟨_ | _, _⟩ <;> rfl
    · rw [onDisk_eq hslot, Disk.serve, Action.bind_apply,
        Disk.writeBlocks_of_refusal (refusal?_of_not_countable hlength _ _), serve,
        Action.bind_apply, writeBlocks_of_not_countable (some source) hlength]
      exact congrArg (EStateM.Result.ok _) hback.symm
  | flush =>
    rw [serve, Action.bind_apply, flush, statusOf, Action.bind_apply, Action.attempt,
      onDisk_eq hslot, onDisk_eq hslot, Disk.serve, Action.bind_apply]
    rcases Disk.flush (assemble s d.machine).disk with _ | ⟨_ | _, _⟩ <;> rfl

/-- The slot is filled, and its disk is in lockstep with a simulated one. -/
def Holds (patience : Patience) (setting : Bench.Setting) (d : Device) (e : Disk (Bench NorPart)) :
    Prop :=
  ∃ s, d.slot = some s ∧
    Disk.Paired layout patience (Mirrors patience setting) (assemble s d.machine).disk e

variable {patience : Patience} {setting : Bench.Setting} {e : Disk (Bench NorPart)}

theorem holds_withDisk {disk : Disk FlashPart}
    (h : Disk.Paired layout patience (Mirrors patience setting) disk e) :
    Holds patience setting (d.withDisk s disk) e :=
  ⟨⟨disk.store, disk.device.busErrors, s.transfer⟩, rfl, h⟩

/-- **One request.** The hooks and the simulated disk report the same. -/
theorem serve_agree (hample : patience.Ample setting.step) (hbrisk : setting.Brisk patience.timeout)
    (h : Holds patience setting d e) (request : Request) :
    Agree Fault.IsRefusal (Holds patience setting) (fun _ => Holds patience setting)
      (serve request d) (Disk.report request e) := by
  obtain ⟨s, hslot, hpaired⟩ := h
  have hserve := Disk.serve_agree (Mirrors.lockstep hample hbrisk) board.windowFits hpaired
    request
  rw [serve_eq hslot, onDisk_eq hslot]
  exact Request.reported_agree request (putBack_agree (fun _ _ => holds_withDisk) hserve)

/-- Time that passes leaves the flash state and the rest of the machine alone. -/
theorem Holds.wait (h : Holds patience setting d e) (milliseconds : Nat) :
    Holds patience setting (d.onMachine (Machine.wait milliseconds)) e := by
  obtain ⟨s, hslot, hpaired⟩ := h
  obtain ⟨hrest, hsteady, hmemory⟩ := hpaired.device
  exact ⟨s, hslot, hpaired.store_eq, hpaired.layout_eq, hpaired.patience_eq, hpaired.stage_fits,
    ⟨hrest.bitbang_eq, hrest.selected_eq, hrest.clock_eq, hrest.stalled_eq, hrest.busyLeft_le,
      hrest.busyTime_le, hrest.busyPolls_lt, hrest.breaches_eq⟩, hsteady, hmemory⟩

/-- Probing the part leaves it with its window and its memory as it was. -/
theorem probe_resting {mode : Mode} {m : Machine} (h : m.Resting mode patience) :
    (FlashPart.machine (probe m)).Resting .mapped patience ∧
      (FlashPart.machine (probe m)).chip.memory = m.chip.memory := by
  -- A name for the part with its window closed, so that the steps below do not unfold it.
  obtain ⟨c, hc⟩ : ∃ c : FlashPart, c = Controller.enterCommand { bus := ⟨m⟩ } := ⟨_, rfl⟩
  have hcommand : c.machine.Resting .command patience := by
    rw [hc]
    exact FlashPart.enterCommand_resting (c := { bus := ⟨m⟩ }) h
  have hmemory : c.machine.chip.memory = m.chip.memory := by rw [hc]; rfl
  -- The chip answers with its identity and does nothing else.
  have hread : FlashPart.machine (SpiNor.readIdentity c).2 = _ :=
    Machine.transaction_quiet [.write [Opcode.identity], .read 3] hcommand.bitbang
      hcommand.selected_eq (by decide)
  have hprobed : (FlashPart.machine (SpiNor.readIdentity c).2).Resting .command patience := by
    rw [hread]
    exact hcommand.obeying c.machine.chip.memory c.machine.chip.latch hcommand.busyLeft_le
  have hkept : (FlashPart.machine (SpiNor.readIdentity c).2).chip.memory = m.chip.memory := by
    rw [hread]
    exact hmemory
  have hprobe : probe m = Controller.enterMapped (SpiNor.readIdentity c).2 := by rw [hc]; rfl
  rw [hprobe, ← hkept]
  generalize (SpiNor.readIdentity c).2 = c' at hprobed
  exact ⟨FlashPart.enterMapped_resting hprobed, rfl⟩

theorem initFlash_eq (d : Device) :
    initFlash d = .ok () { d with
      machine := FlashPart.machine (probe d.machine)
      slot := some {
        store := (Disk.fresh layout board.layout_valid .onSectorStart {} ()).store
        busErrors := (probe d.machine).busErrors
        transfer := { family := layout.family } } } := by
  have hvalidate : layout.validate = .ok () := (Layout.validate_eq_ok_iff _).mpr board.layout_valid
  have hstore : Store.ofLayout layout .onSectorStart =
      .ok (Disk.fresh layout board.layout_valid .onSectorStart {} ()).store :=
    dif_pos board.layout_valid
  rw [initFlash, hvalidate, Action.ofExcept_bind, hstore, Action.ofChecked_bind]
  rfl

/-- **The device refines the simulated disk.** A device whose machine is at rest is initialized and
serves any requests through its hooks, with any time passing in between; no command can outlast the
timeout. It reports what a disk with its policy on a simulated part with the same memory reports:
the same status words and the same bytes. Both memories end alike. The lines were only driven while
they were enabled, and the window was only read while they were not. -/
theorem device_refines_disk {mode : Mode} {d : Device} (hrest : d.machine.Resting mode {})
    {busyPolls : Nat} {clock : StepClock} (hstep : 1 ≤ clock.step.toNat)
    (hsum : busyTimeout.toNat + clock.step.toNat < 0x100000000)
    (hbusy : busyPolls * clock.step.toNat ≤ busyTimeout.toNat)
    (events : List (NorDisk.Event Request Nat)) :
    ∃ d₁ reports d₂ e,
      initFlash d = .ok () d₁ ∧
      runAll serve (fun milliseconds => onMachine (Machine.wait milliseconds)) events d₁ =
        .ok reports d₂ ∧
      runAll Disk.report (fun _ e => e) events
        (Disk.fresh layout board.layout_valid .onSectorStart {}
          (Bench.fresh d.machine.chip.memory busyPolls clock)) = .ok reports e ∧
      d₂.machine.chip.memory = e.device.part.memory ∧ d₂.machine.breaches = 0 := by
  obtain ⟨hprobed, hmemory⟩ := probe_resting hrest
  let setting := (Bench.fresh d.machine.chip.memory busyPolls clock).setting
  have hample : ({} : Patience).Ample setting.step := .ofTimeout hstep hsum
  have hbrisk : setting.Brisk ({} : Patience).timeout := ⟨rfl, hbusy⟩
  have hinit := initFlash_eq d
  -- The device after its set-up and a fresh simulated disk are paired.
  have hholds : Holds {} setting
      { d with
        machine := FlashPart.machine (probe d.machine)
        slot := some {
          store := (Disk.fresh layout board.layout_valid .onSectorStart {} ()).store
          busErrors := (probe d.machine).busErrors
          transfer := { family := layout.family } } }
      (Disk.fresh layout board.layout_valid .onSectorStart {}
        (Bench.fresh d.machine.chip.memory busyPolls clock)) :=
    ⟨_, rfl, rfl, rfl, rfl, nofun, hprobed, ⟨rfl, rfl, Nat.zero_le _⟩, hmemory⟩
  obtain ⟨reports, d₂, e, hrun, hrun', s, hslot, hpaired⟩ := runAll_total
    (fun request d e h => serve_agree hample hbrisk h request)
    (fun milliseconds d e h => Holds.wait h milliseconds) events hholds
  exact ⟨_, reports, d₂, e, hinit, hrun, hrun', hpaired.device.memory_eq,
    hpaired.device.resting.breaches_eq⟩

/-- A chip that is busy for three status bytes and a part that is busy for two polls: a write, a
read of what was written after a pause, and a write past the end. -/
theorem device_refines_disk_write_read :
    let d : Device := .ofMachine { chip := { memory := Memory.blank 0x100000, busyPolls := 3 } }
    let events : List (NorDisk.Event Request Nat) :=
      [.call (.write (List.replicate 512 0x5A) 15 2), .world 20,
        .call (.read (List.replicate 256 0) 16 1), .call .flush,
        .call (.write (List.replicate 256 0) 0x800 1)]
    d.machine.Resting .mapped {} ∧ (1 ≤ (1 : UInt32).toNat ∧
      busyTimeout.toNat + (1 : UInt32).toNat < 0x100000000 ∧
      2 * (1 : UInt32).toNat ≤ busyTimeout.toNat) ∧
    ∃ d₁ reports d₂ e,
      initFlash d = .ok () d₁ ∧
      runAll serve (fun milliseconds => onMachine (Machine.wait milliseconds)) events d₁ =
        .ok reports d₂ ∧
      runAll Disk.report (fun _ e => e) events
        (Disk.fresh layout board.layout_valid .onSectorStart {}
          (Bench.fresh d.machine.chip.memory 2 ⟨0, 1⟩)) = .ok reports e ∧
      d₂.machine.chip.memory = e.device.part.memory ∧ d₂.machine.breaches = 0 := by
  intro d events
  have hrest : d.machine.Resting .mapped {} :=
    ⟨rfl, rfl, rfl, rfl, by decide, by decide, by decide, rfl⟩
  refine ⟨hrest, by decide, ?_⟩
  exact device_refines_disk hrest (by decide) (by decide) (by decide) events

end Firmware.Device

end NorDisk
