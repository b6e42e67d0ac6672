import NorDisk.Proofs.Execution

/-!
# The rules of a NOR part

A simulated part is judged here call by call, from any state that it may be in. Of all calls only
commands change its memory, and only those that find it ready: it serves commands, its busy flag is
not held, and no command is in flight. What they do is put down byte by byte (`Command.Changes`),
without the loops of the part, and for any offset and any amount of data.

* **`Served`** — what a call makes of a part: a command is taken or ignored, nothing else writes.
* **`received`** — the commands that a part has counted; each is counted once (`received_serve`).
* **`Logs`** — the log after some entries: the first of them up to its capacity, the others counted.
* **`calls_follow_rules`** — every run from every state.

A poll of the busy flag is a primitive like the others, but none that the log has an entry for
(`poll_not_logged`).
-/

namespace NorDisk

open Memory

namespace Command

/-- The byte that byte `i` of the data is programmed into. After the last column of a page comes its
first. -/
def cell (offset : UInt32) (i : Nat) : Nat :=
  offset.toNat / 256 * 256 + (offset.toNat + i) % 256

/-- What a command changes about a memory, for the bytes that exist. -/
def Changes : Command → ByteArray → ByteArray → Prop
  | erase offset, before, after =>
    after.size = before.size ∧ ∀ j < before.size,
      byteAt after j = if j / 4096 = offset.toNat / 4096 then 0xFF else byteAt before j
  | program offset data, before, after =>
    after.size = before.size ∧
      (∀ i (hi : i < data.length), i < 256 → cell offset i < before.size →
        byteAt after (cell offset i) = byteAt before (cell offset i) &&& data[i]) ∧
      ∀ j < before.size, (∀ i < min data.length 256, j ≠ cell offset i) →
        byteAt after j = byteAt before j

/-- **A command changes** what `Changes` says, byte by byte. -/
theorem changes_apply (command : Command) (memory : ByteArray) :
    command.Changes memory (command.apply memory) := by
  cases command with
  | erase offset =>
    refine ⟨size_erase _ _ _, fun j _ => ?_⟩
    rw [apply, byteAt_erase, toNat_sectorBase, show sectorBytes.toNat = 4096 from rfl,
      show erasedByte = 0xFF from rfl]
    -- The sector of an offset is the stretch of bytes with the same quotient.
    congr 1
    rw [eq_iff_iff]
    omega
  | program offset data =>
    have hcolumn : offset.toNat % 256 < 256 := Nat.mod_lt _ (by decide)
    have hlength : (data.take 256).length = min data.length 256 := by
      rw [List.length_take, Nat.min_comm]
    -- The loop counts columns from the start of the page.
    have hcell (i : Nat) : cell offset i =
        offset.toNat - offset.toNat % 256 + (offset.toNat % 256 + i) % 256 := by
      unfold cell
      omega
    refine ⟨size_program _ _ _ _, fun i hi hpage hsize => ?_, fun j _ hj => ?_⟩
    · have hkept : i < (data.take 256).length := by omega
      rw [hcell] at hsize ⊢
      rw [apply, byteAt_program_column hcolumn (by omega) memory hkept hsize, List.getElem_take]
    · refine byteAt_program_of_ne hcolumn memory fun i hi => ?_
      rw [← hcell]
      exact hj i (hlength ▸ hi)

/-- The first byte goes past the end of the memory, the second to the start of the page. -/
example : ((program 0xFF [0x0F, 0x33]).apply (blank 2)).data = #[0x33, 0xFF] := by decide

end Command

/-- The misuse that a command is when it comes in the wrong mode or too early. -/
def Misuse.ignoring (m : Misuse) : Mode → Misuse
  | .mapped => { m with commandWhileMapped := m.commandWhileMapped + 1 }
  | .command => { m with commandWhileBusy := m.commandWhileBusy + 1 }

namespace NorPart

/-! ## Calls -/

/-- What a part may be given to do. Its flag is held and its log cleared from the bench, all else
are primitives of a controller. -/
inductive Call where
  | enterMapped
  | enterCommand
  | issue (command : Command)
  | poll
  | read (addr : UInt32) (len : Nat)
  | hold (on : Bool)
  | clearLog
deriving DecidableEq, Repr

namespace Call

/-- What a part does when it is given a call. -/
def serve : Call → NorPart → NorPart
  | enterMapped, p => Controller.enterMapped p
  | enterCommand, p => Controller.enterCommand p
  | issue command, p => Controller.issue command p
  | poll, p => (Controller.isBusy p).2
  | read addr len, p => (Controller.readMapped addr len p).2
  | hold on, p => { p with stalled := on }
  | clearLog, p => p.clearLog

def isCommand : Call → Bool
  | issue _ => true
  | _ => false

def isPrimitive : Call → Bool
  | hold _ => false
  | clearLog => false
  | _ => true

/-- The entry that a call leaves in the log. -/
def entry? : Call → Option Primitive
  | enterMapped => some .enterMapped
  | enterCommand => some .enterCommand
  | issue command => some command.logged
  | read addr len => some (.read addr len)
  | poll => none
  | hold _ => none
  | clearLog => none

end Call

/-- The part after some calls. -/
def run (calls : List Call) (p : NorPart) : NorPart := calls.foldl (fun p call => call.serve p) p

theorem run_append (calls calls' : List Call) (p : NorPart) :
    run (calls ++ calls') p = run calls' (run calls p) :=
  List.foldl_append

/-! ## Commands taken and commands ignored -/

/-- What a call makes of a part. -/
inductive Served (p : NorPart) : Call → NorPart → Prop
  /-- A ready part does what the command says, and is busy then. -/
  | taken {command q} (ready : p.Ready) (changes : command.Changes p.memory q.memory)
    (busyLeft_eq : q.busyLeft = p.busyPolls) (stalled_eq : q.stalled = false)
    (misuse_eq : q.misuse = p.misuse) : Served p (.issue command) q
  /-- Any other part counts the command as one misuse. -/
  | ignored {command q} (not_ready : ¬ p.Ready) (memory_eq : q.memory = p.memory)
    (busyLeft_eq : q.busyLeft = p.busyLeft) (stalled_eq : q.stalled = p.stalled)
    (misuse_eq : q.misuse = p.misuse.ignoring p.mode) : Served p (.issue command) q
  /-- Nothing but a command writes. -/
  | other {call q} (not_command : call.isCommand = false) (memory_eq : q.memory = p.memory) :
    Served p call q

/-- The commands that a part has counted, as done or as misuse. -/
def received (p : NorPart) : Nat :=
  p.erases + p.programs + (p.misuse.commandWhileMapped + p.misuse.commandWhileBusy)

variable {p : NorPart}

/-- A part is ready or not without regard to its log. -/
theorem Ready.of_record {primitive : Primitive} (h : (p.record primitive).Ready) : p.Ready :=
  ⟨(mode_record _ p).symm.trans h.mode_eq, (stalled_record _ p).symm.trans h.stalled_eq,
    (busyLeft_record _ p).symm.trans h.busyLeft_eq⟩

/-- A part that is not ready counts a command as one misuse. -/
theorem accept_of_not_ready (h : ¬ p.Ready) :
    p.accept = (false, { p with misuse := p.misuse.ignoring p.mode }) := by
  unfold accept
  cases hmode : p.mode with
  | mapped => rfl
  | command =>
    have hbusy : p.stalled = true ∨ 0 < p.busyLeft := by
      cases hstalled : p.stalled with
      | true => exact .inl rfl
      | false => exact .inr (Nat.pos_of_ne_zero fun hleft => h ⟨hmode, hstalled, hleft⟩)
    rw [if_neg (not_not_intro rfl), if_pos (by simpa using hbusy)]
    rfl

/-- What a command that is ignored changes besides the log. -/
theorem issue_of_not_ready (h : ¬ p.Ready) (command : Command) :
    Controller.issue command p =
      { p.record command.logged with misuse := p.misuse.ignoring p.mode } := by
  have haccept (primitive : Primitive) : (p.record primitive).accept =
      (false, { p.record primitive with misuse := p.misuse.ignoring p.mode }) := by
    have hrecord : ¬ (p.record primitive).Ready := fun h' => h h'.of_record
    simp [accept_of_not_ready hrecord]
  cases command with
  | erase offset =>
    show beginErase offset p = _
    simp [beginErase, haccept, Command.logged]
  | program offset data =>
    show beginProgram offset data p = _
    simp [beginProgram, haccept, Command.logged]

/-- A window read counts as misuse of its own kind at most. -/
theorem readMapped_snd (addr : UInt32) (len : Nat) (p : NorPart) :
    ∃ readWhileCommand, (p.readMapped addr len).2 =
      { p.record (.read addr len) with misuse := { p.misuse with readWhileCommand } } := by
  rw [← misuse_record (.read addr len) p]
  simp only [readMapped]
  split
  · exact ⟨_, rfl⟩
  · exact ⟨_, rfl⟩

/-- **One call** makes of a part what `Served` says. -/
theorem served_serve (call : Call) (p : NorPart) : Served p call (call.serve p) := by
  cases call with
  | enterMapped => exact .other rfl (memory_record .enterMapped p)
  | enterCommand => exact .other rfl (memory_record .enterCommand p)
  | issue command =>
    show Served p (.issue command) (Controller.issue command p)
    by_cases h : p.Ready
    · obtain ⟨erases, programs, -, hissued⟩ := issue_of_ready h command
      rw [hissued]
      exact .taken h (command.changes_apply p.memory) rfl ((stalled_record _ p).trans h.stalled_eq)
        (misuse_record _ p)
    · rw [issue_of_not_ready h]
      exact .ignored h (memory_record _ p) (busyLeft_record _ p) (stalled_record _ p) rfl
  | poll => exact .other rfl (congrArg (·.2.memory) (isBusy_eq p))
  | read addr len => exact .other rfl (memory_readMapped addr len p)
  | hold on => exact .other rfl rfl
  | clearLog => exact .other rfl rfl

/-! ## Commands counted -/

/-- The log does not matter to what was counted. -/
theorem received_record (primitive : Primitive) (p : NorPart) :
    (p.record primitive).received = p.received := by
  simp [received]

/-- A command is counted by the call that brings it, and no other call counts. -/
theorem received_serve (call : Call) (p : NorPart) :
    (call.serve p).received = p.received + if call.isCommand then 1 else 0 := by
  cases call with
  | enterMapped => exact received_record .enterMapped p
  | enterCommand => exact received_record .enterCommand p
  | issue command =>
    show (Controller.issue command p).received = p.received + 1
    -- Taken, it counts as an erase or a program; ignored, as a misuse of the mode.
    by_cases h : p.Ready
    · obtain ⟨erases, programs, hcount, hissued⟩ := issue_of_ready h command
      simp only [hissued, received, misuse_record]
      omega
    · rw [issue_of_not_ready h]
      cases hmode : p.mode with
      | mapped =>
        simp only [received, Misuse.ignoring, erases_record, programs_record]
        omega
      | command =>
        simp only [received, Misuse.ignoring, erases_record, programs_record]
        omega
  | poll => exact congrArg (·.2.received) (isBusy_eq p)
  | read addr len =>
    obtain ⟨readWhileCommand, hread⟩ := readMapped_snd addr len p
    show (p.readMapped addr len).2.received = p.received
    simp only [hread, received, erases_record, programs_record]
  | hold on => rfl
  | clearLog => rfl

/-- Every command is counted, and once. -/
theorem received_run (calls : List Call) (p : NorPart) :
    (run calls p).received = p.received + calls.countP Call.isCommand := by
  induction calls generalizing p with
  | nil => rfl
  | cons call rest ih =>
    show (run rest (call.serve p)).received = _
    rw [ih, received_serve, List.countP_cons]
    omega

/-! ## The log -/

/-- The log after some entries: the first of them, and the number of the others. -/
structure Logs (entries : List Primitive) (p : NorPart) : Prop where
  log_eq : p.log.toList = entries.take logCapacity
  dropped_eq : p.dropped = entries.length - logCapacity

variable {entries : List Primitive}

/-- An entry more is stored while there is room, and counted afterwards. -/
theorem Logs.record (h : p.Logs entries) (primitive : Primitive) :
    (p.record primitive).Logs (entries ++ [primitive]) := by
  have hsize : p.log.size = min logCapacity entries.length := by
    rw [← Array.length_toList, h.log_eq, List.length_take]
  have hdropped := h.dropped_eq
  unfold NorPart.record
  split
  · rename_i hroom
    have hlength : entries.length < logCapacity := by omega
    refine ⟨?_, ?_⟩
    · show (p.log.push primitive).toList = _
      rw [Array.toList_push, h.log_eq, List.take_of_length_le (by omega),
        List.take_of_length_le (by rw [List.length_append, List.length_singleton]; omega)]
    · show p.dropped = _
      rw [List.length_append, List.length_singleton]
      omega
  · -- The log is full, so all it holds are the first entries.
    rename_i hfull
    refine ⟨?_, ?_⟩
    · show p.log.toList = _
      rw [h.log_eq, List.take_append_of_le_length (by omega)]
    · show p.dropped + 1 = _
      rw [List.length_append, List.length_singleton]
      omega

theorem Logs.congr {q : NorPart} (h : p.Logs entries) (hlog : q.log = p.log)
    (hdropped : q.dropped = p.dropped) : q.Logs entries :=
  ⟨hlog ▸ h.log_eq, hdropped.trans h.dropped_eq⟩

/-- A call adds its entry; only `clearLog` starts over. -/
theorem Logs.serve (h : p.Logs entries) {call : Call} (hcall : call ≠ .clearLog) :
    (call.serve p).Logs (entries ++ call.entry?.toList) := by
  cases call with
  | enterMapped => exact (h.record .enterMapped).congr rfl rfl
  | enterCommand => exact (h.record .enterCommand).congr rfl rfl
  | issue command =>
    show (Controller.issue command p).Logs (entries ++ [command.logged])
    by_cases hready : p.Ready
    · obtain ⟨erases, programs, -, hissued⟩ := issue_of_ready hready command
      rw [hissued]
      exact (h.record command.logged).congr rfl rfl
    · rw [issue_of_not_ready hready]
      exact (h.record command.logged).congr rfl rfl
  | poll =>
    show (isBusy p).2.Logs (entries ++ [])
    rw [isBusy_eq, List.append_nil]
    exact h.congr rfl rfl
  | read addr len =>
    obtain ⟨readWhileCommand, hread⟩ := readMapped_snd addr len p
    show (p.readMapped addr len).2.Logs (entries ++ [.read addr len])
    rw [hread]
    exact (h.record (.read addr len)).congr rfl rfl
  | hold on =>
    show Logs (entries ++ []) { p with stalled := on }
    rw [List.append_nil]
    exact h.congr rfl rfl
  | clearLog => exact absurd rfl hcall

/-- Calls add their entries in order. -/
theorem Logs.run (h : p.Logs entries) {calls : List Call} (hcalls : .clearLog ∉ calls) :
    (run calls p).Logs (entries ++ calls.filterMap Call.entry?) := by
  induction calls generalizing p entries with
  | nil => rwa [List.filterMap_nil, List.append_nil]
  | cons call rest ih =>
    rw [List.mem_cons, not_or] at hcalls
    have hentries : (call :: rest).filterMap Call.entry? =
        call.entry?.toList ++ rest.filterMap Call.entry? := by
      rw [List.filterMap_cons]
      cases call.entry? <;> rfl
    rw [hentries, ← List.append_assoc]
    exact ih (h.serve (Ne.symm hcalls.1)) hcalls.2

/-- **A part keeps the rules of its kind**, from every state and whatever it is asked for. What each
call makes of it is as `Served` says, with the memory byte by byte. Every command is counted once.
The log goes on until it is cleared, and holds the first entries since then, or since the part was
made. -/
theorem calls_follow_rules (calls : List Call) :
    (∀ p : NorPart,
      (∀ early call late, calls = early ++ call :: late →
        Served (run early p) call (run (early ++ [call]) p)) ∧
      (run calls p).received = p.received + calls.countP Call.isCommand ∧
      (∀ entries, p.Logs entries → .clearLog ∉ calls →
        (run calls p).Logs (entries ++ calls.filterMap Call.entry?)) ∧
      ∀ early late, calls = early ++ .clearLog :: late → .clearLog ∉ late →
        (run calls p).Logs (late.filterMap Call.entry?)) ∧
    ∀ (memory : ByteArray) (busyPolls : Nat),
      (run calls { memory, busyPolls }).received = calls.countP Call.isCommand ∧
      (.clearLog ∉ calls →
        (run calls { memory, busyPolls }).Logs (calls.filterMap Call.entry?)) := by
  refine ⟨fun p => ⟨?_, received_run calls p, fun entries hlogs => hlogs.run, ?_⟩,
    fun memory busyPolls => ⟨?_, fun hclear => ?_⟩⟩
  · rintro early call late -
    rw [run_append]
    exact served_serve call (run early p)
  · -- The log is empty when it was cleared, and goes on from there.
    intro early late hcalls hlate
    have hcleared : (run early p).clearLog.Logs [] := ⟨rfl, rfl⟩
    rw [hcalls, run_append]
    exact hcleared.run hlate
  · rw [received_run]
    exact Nat.zero_add _
  · have hfresh : NorPart.Logs [] { memory, busyPolls } := ⟨rfl, rfl⟩
    exact hfresh.run hclear

/-- A program that wraps around, then an erase that comes too early. -/
theorem calls_follow_rules_while_busy :
    let early : List Call := [.enterCommand, .issue (.program 0xFF [0x0F, 0x33]), .clearLog]
    let p := run (early ++ [.issue (.erase 0), .poll]) (blank 2)
    Served (run early (blank 2)) (.issue (.erase 0))
        (run (early ++ [.issue (.erase 0)]) (blank 2)) ∧
      p.received = 2 ∧ p.misuse.commandWhileBusy = 1 ∧ p.Logs [.erase 0] ∧
      p.memory.data = #[0x33, 0xFF] := by
  intro early p
  obtain ⟨hserved, hreceived, -, hlogs⟩ :=
    (calls_follow_rules (early ++ [.issue (.erase 0), .poll])).1 (blank 2)
  refine ⟨hserved early _ [.poll] rfl, hreceived, by decide, ?_, by decide⟩
  exact hlogs [.enterCommand, .issue (.program 0xFF [0x0F, 0x33])] [.issue (.erase 0), .poll] rfl
    (by decide)

/-- A poll is a primitive that the log does not hold, and that does not count as dropped. -/
theorem poll_not_logged :
    let calls : List Call := [.poll]
    let p := run calls (blank 8192)
    .clearLog ∉ calls ∧
      ¬ (p.log.size = min logCapacity (calls.countP Call.isPrimitive) ∧
        p.dropped = calls.countP Call.isPrimitive - logCapacity) := by
  decide

end NorPart

end NorDisk
