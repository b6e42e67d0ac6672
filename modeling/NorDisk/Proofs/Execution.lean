import NorDisk.Proofs.BusyWait
import NorDisk.Proofs.CommandEffect
import NorDisk.Proofs.Requests

/-!
# Executing commands on a simulated part

What a disk cannot change about its bench is collected in `Bench.Setting`; `Bench.Steady` says that
a bench has a given setting, serves a given mode, and is busy for no longer than a command keeps it.
Executing a command preserves it, and applies the command unless the part stalls.

* **`executeAll_upTo`**, **`executeAll_meets`** — a list of commands on any controller, from what
  one of them does.
* **`NorPart.issue_of_ready`** — all that a command changes about a part that takes it.
* **`Bench.execute_meets`** — one command on a bench; after a stall it may or may not have been
  applied. A stall needs a part that is not `Setting.Brisk`.
-/

namespace NorDisk

/-- **A list of commands**, up to the one that fails. `S` says what holds once some commands are
through, and `F` what holds when the next one fails. -/
theorem Controller.executeAll_upTo {σ : Type} [Controller σ] [TickSource σ] {patience : Patience}
    {S : List Command → σ → Prop} {F : List Command → Command → Fault FlashError → σ → Prop}
    {commands : List Command}
    (hstep : ∀ sent command, sent ++ [command] <+: commands → ∀ s, S sent s →
      Outcome.Meets (fun _ s' => S (sent ++ [command]) s') (F sent command)
        (execute patience command s))
    {s : σ} (h : S [] s) :
    Outcome.Meets (fun _ s' => S commands s')
      (fun fault s' => ∃ sent command, sent ++ [command] <+: commands ∧ F sent command fault s')
      (executeAll patience commands s) := by
  -- Induction on what is still to come, after some commands.
  suffices hrest : ∀ rest sent s, sent ++ rest = commands → S sent s →
      Outcome.Meets (fun _ s' => S commands s')
        (fun fault s' => ∃ sent command, sent ++ [command] <+: commands ∧ F sent command fault s')
        (executeAll patience rest s) from
    hrest commands [] s rfl h
  intro rest
  induction rest with
  | nil =>
    intro sent s heq hs
    rw [List.append_nil] at heq
    exact heq ▸ hs
  | cons command rest ih =>
    intro sent s heq hs
    have heq' : sent ++ [command] ++ rest = commands := by simpa using heq
    -- The commands so far and the next one are a front of the list.
    have hfront : sent ++ [command] <+: commands := ⟨rest, heq'⟩
    unfold executeAll
    apply Action.Meets.bind_of (hstep sent command hfront s hs)
    · intro fault s₁ h₁
      exact ⟨sent, command, hfront, h₁⟩
    · intro _ s₁ h₁
      exact ih (sent ++ [command]) s₁ heq' h₁

/-- **A list of commands.** `S` says what holds once some commands are through. When the list stops,
it holds for some of the list, in its order. -/
theorem Controller.executeAll_meets {σ : Type} [Controller σ] [TickSource σ] {patience : Patience}
    {S : List Command → σ → Prop} {B : Fault FlashError → Prop} {commands : List Command}
    (hstep : ∀ sent, ∀ command ∈ commands, ∀ s, S sent s →
      Outcome.Meets (fun _ s' => S (sent ++ [command]) s')
        (fun fault s' => B fault ∧ (S sent s' ∨ S (sent ++ [command]) s'))
        (execute patience command s))
    {s : σ} (h : S [] s) :
    Outcome.Meets (fun _ s' => S commands s')
      (fun fault s' => B fault ∧ ∃ sent, sent <+: commands ∧ S sent s')
      (executeAll patience commands s) := by
  apply (executeAll_upTo (fun sent command hfront =>
    hstep sent command (hfront.subset (by simp))) h).mono (fun _ _ h' => h')
  rintro fault s' ⟨sent, command, hfront, hbad, h' | h'⟩
  · exact ⟨hbad, sent, (List.prefix_append sent [command]).trans hfront, h'⟩
  · exact ⟨hbad, sent ++ [command], hfront, h'⟩

namespace Bench

/-- What no command changes about a bench. -/
structure Setting where
  busyPolls : Nat
  stalled : Bool
  step : UInt32
  size : Nat
  misuse : Misuse

/-- The setting of a bench. -/
def setting (b : Bench NorPart) : Setting where
  busyPolls := b.part.busyPolls
  stalled := b.part.stalled
  step := b.clock.step
  size := b.part.memory.size
  misuse := b.part.misuse

/-- No command can outlast the timeout. -/
def Setting.Brisk (c : Setting) (timeout : UInt32) : Prop :=
  c.stalled = false ∧ c.busyPolls * c.step.toNat ≤ timeout.toNat

/-- The bench has a setting and serves a mode. -/
structure Steady (c : Setting) (mode : Mode) (b : Bench NorPart) : Prop where
  setting_eq : b.setting = c
  mode_eq : b.part.mode = mode
  busyLeft_le : b.part.busyLeft ≤ b.part.busyPolls

variable {c : Setting} {mode : Mode} {b : Bench NorPart} {patience : Patience}

theorem Steady.step_eq (h : b.Steady c mode) : b.clock.step = c.step := by
  rw [← h.setting_eq]; rfl

theorem Steady.size_eq (h : b.Steady c mode) : b.part.memory.size = c.size := by
  rw [← h.setting_eq]; rfl

/-- A part that no command can keep busy for long will be seen idle in time. -/
theorem Steady.responsive (h : b.Steady c mode) {timeout : UInt32} (hbrisk : c.Brisk timeout) :
    b.Responsive timeout := by
  obtain ⟨hstalled, hpolls⟩ := hbrisk
  rw [← h.setting_eq] at hstalled hpolls
  exact ⟨hstalled, Nat.le_trans (Nat.mul_le_mul_right _ h.busyLeft_le) hpolls⟩

/-- Polling changes nothing about the setting. -/
theorem Steady.polled (h : b.Steady c mode) (n : Nat) : (b.tick.polled n).Steady c mode := by
  refine ⟨h.setting_eq, h.mode_eq, ?_⟩
  have := h.busyLeft_le
  rw [busyLeft_polled]
  show _ ≤ b.part.busyPolls
  split <;> omega

/-- After a wait the part is idle, or the wait has timed out; the memory is as before. -/
theorem waitIdle_meets (hp : patience.Ample c.step) (h : b.Steady c mode) (offset : UInt32) :
    Outcome.Meets
      (fun _ b' => b'.Steady c mode ∧ b'.part.memory = b.part.memory ∧
        b'.part.stalled = false ∧ b'.part.busyLeft = 0)
      (fun fault b' => fault = .refused (.stalled offset) ∧ ¬ c.Brisk patience.timeout ∧
        b'.Steady c mode ∧ b'.part.memory = b.part.memory)
      (Controller.waitIdle patience offset b) := by
  rw [waitIdle_eq (by rw [h.step_eq]; exact hp)]
  split
  · rename_i hr
    exact ⟨h.polled _, rfl, hr.1, busyLeft_polled_self hr.1⟩
  · rename_i hr
    exact ⟨rfl, fun hbrisk => hr (h.responsive hbrisk), h.polled _, rfl⟩

/-- A command concerns the part, not the clock. -/
theorem issue_eq (command : Command) (b : Bench NorPart) :
    Controller.issue command b = { b with part := Controller.issue command b.part } := by
  cases command <;> rfl

end Bench

/-- The entry of a command in the log. -/
def Command.logged : Command → Primitive
  | erase offset => .erase offset
  | program offset data => .program offset data.length

namespace NorPart

variable {p : NorPart}

@[simp] theorem mode_record (primitive : Primitive) (p : NorPart) :
    (p.record primitive).mode = p.mode := by
  unfold record; split <;> rfl

@[simp] theorem memory_record (primitive : Primitive) (p : NorPart) :
    (p.record primitive).memory = p.memory := by
  unfold record; split <;> rfl

@[simp] theorem busyPolls_record (primitive : Primitive) (p : NorPart) :
    (p.record primitive).busyPolls = p.busyPolls := by
  unfold record; split <;> rfl

@[simp] theorem busyLeft_record (primitive : Primitive) (p : NorPart) :
    (p.record primitive).busyLeft = p.busyLeft := by
  unfold record; split <;> rfl

@[simp] theorem stalled_record (primitive : Primitive) (p : NorPart) :
    (p.record primitive).stalled = p.stalled := by
  unfold record; split <;> rfl

@[simp] theorem misuse_record (primitive : Primitive) (p : NorPart) :
    (p.record primitive).misuse = p.misuse := by
  unfold record; split <;> rfl

@[simp] theorem erases_record (primitive : Primitive) (p : NorPart) :
    (p.record primitive).erases = p.erases := by
  unfold record; split <;> rfl

@[simp] theorem programs_record (primitive : Primitive) (p : NorPart) :
    (p.record primitive).programs = p.programs := by
  unfold record; split <;> rfl

/-- Reading the window changes no byte, even while commands are being served. -/
theorem memory_readMapped (addr : UInt32) (len : Nat) (p : NorPart) :
    (p.readMapped addr len).2.memory = p.memory := by
  simp only [readMapped]
  split <;> exact memory_record _ p

/-- A part that serves its window answers the bytes there and logs the read. -/
theorem readMapped_of_mapped (hmode : p.mode = .mapped) {addr : UInt32} {start : Nat}
    (haddr : addr.toNat = windowBase.toNat + start) (len : Nat) :
    p.readMapped addr len = (Memory.read p.memory start len, p.record (.read addr len)) := by
  have hrecord : (p.record (.read addr len)).mode = .mapped := by rw [mode_record, hmode]
  have hle : windowBase ≤ addr := by rw [UInt32.le_iff_toNat_le]; omega
  have hstart : (addr - windowBase).toNat = start := by
    rw [UInt32.toNat_sub_of_le _ _ hle]
    omega
  rw [readMapped, if_neg (not_not_intro hrecord), hstart, memory_record]

/-- An idle part that serves commands takes one. -/
theorem accept_of_idle (hmode : p.mode = .command) (hstalled : p.stalled = false)
    (hleft : p.busyLeft = 0) : p.accept = (true, { p with busyLeft := p.busyPolls }) := by
  simp [accept, hmode, hstalled, hleft]

/-- A command would be taken. -/
structure Ready (p : NorPart) : Prop where
  mode_eq : p.mode = .command
  stalled_eq : p.stalled = false
  busyLeft_eq : p.busyLeft = 0

theorem Ready.record (h : p.Ready) (primitive : Primitive) : (p.record primitive).Ready :=
  ⟨(mode_record _ p).trans h.mode_eq, (stalled_record _ p).trans h.stalled_eq,
    (busyLeft_record _ p).trans h.busyLeft_eq⟩

/-- What a command that is taken changes besides the log. -/
theorem issue_of_ready (h : p.Ready) (command : Command) :
    ∃ erases programs, erases + programs = p.erases + p.programs + 1 ∧
      Controller.issue command p =
        { p.record command.logged with
          memory := command.apply p.memory, busyLeft := p.busyPolls, erases, programs } := by
  -- The log does not change whether the part accepts.
  have haccept (primitive : Primitive) : (p.record primitive).accept =
      (true, { p.record primitive with busyLeft := p.busyPolls }) := by
    have hready := h.record primitive
    simp [accept_of_idle hready.mode_eq hready.stalled_eq hready.busyLeft_eq]
  cases command with
  | erase offset =>
    refine ⟨p.erases + 1, p.programs, by omega, ?_⟩
    show beginErase offset p = _
    simp [beginErase, haccept, Command.apply, Command.logged]
  | program offset data =>
    refine ⟨p.erases, p.programs + 1, by omega, ?_⟩
    show beginProgram offset data p = _
    simp [beginProgram, haccept, Command.apply, Command.logged]

/-- An idle part that serves commands does what the command says and is busy then. -/
theorem issue_of_idle (hmode : p.mode = .command) (hstalled : p.stalled = false)
    (hleft : p.busyLeft = 0) (command : Command) :
    (Controller.issue command p).memory = command.apply p.memory ∧
      (Controller.issue command p).mode = .command ∧
      (Controller.issue command p).busyPolls = p.busyPolls ∧
      (Controller.issue command p).busyLeft = p.busyPolls ∧
      (Controller.issue command p).stalled = p.stalled ∧
      (Controller.issue command p).misuse = p.misuse := by
  obtain ⟨erases, programs, -, hissued⟩ := issue_of_ready ⟨hmode, hstalled, hleft⟩ command
  rw [hissued]
  exact ⟨rfl, (mode_record _ p).trans hmode, busyPolls_record _ p, rfl, stalled_record _ p,
    misuse_record _ p⟩

end NorPart

namespace Bench

variable {c : Setting} {mode : Mode} {b : Bench NorPart} {patience : Patience}

/-- A command to an idle part keeps the setting and applies. -/
theorem Steady.issue (h : b.Steady c .command) (hstalled : b.part.stalled = false)
    (hleft : b.part.busyLeft = 0) (command : Command) :
    (Controller.issue command b).Steady c .command ∧
      (Controller.issue command b).part.memory = command.apply b.part.memory := by
  obtain ⟨hmemory, hmode, hpolls, hbusy, hstall, hmisuse⟩ :=
    NorPart.issue_of_idle h.mode_eq hstalled hleft command
  rw [issue_eq]
  refine ⟨⟨?_, hmode, Nat.le_of_eq (hbusy.trans hpolls.symm)⟩, hmemory⟩
  rw [← h.setting_eq]
  simp [setting, hmemory, hpolls, hstall, hmisuse]

/-- Logging keeps the setting. -/
theorem Steady.record (h : b.Steady c mode) (primitive : Primitive) :
    Steady c mode { b with part := b.part.record primitive } := by
  refine ⟨?_, (NorPart.mode_record primitive b.part).trans h.mode_eq, ?_⟩
  · rw [← h.setting_eq]
    simp [setting]
  · simpa using h.busyLeft_le

/-- Switching to the window keeps the setting and the memory. -/
theorem Steady.enterMapped (h : b.Steady c mode) :
    (Controller.enterMapped b).Steady c .mapped ∧
      (Controller.enterMapped b).part.memory = b.part.memory :=
  ⟨⟨(h.record .enterMapped).setting_eq, rfl, (h.record .enterMapped).busyLeft_le⟩,
    NorPart.memory_record .enterMapped b.part⟩

/-- Switching to commands keeps the setting and the memory. -/
theorem Steady.enterCommand (h : b.Steady c mode) :
    (Controller.enterCommand b).Steady c .command ∧
      (Controller.enterCommand b).part.memory = b.part.memory :=
  ⟨⟨(h.record .enterCommand).setting_eq, rfl, (h.record .enterCommand).busyLeft_le⟩,
    NorPart.memory_record .enterCommand b.part⟩

/-- The window of a part shows its memory. -/
theorem Steady.readMapped (h : b.Steady c .mapped) {addr : UInt32} {start : Nat}
    (haddr : addr.toNat = windowBase.toNat + start) (len : Nat) :
    (Controller.readMapped addr len b).1 = Memory.read b.part.memory start len ∧
      (Controller.readMapped addr len b).2.Steady c .mapped ∧
      (Controller.readMapped addr len b).2.part.memory = b.part.memory := by
  have hread := NorPart.readMapped_of_mapped h.mode_eq haddr len
  show (b.part.readMapped addr len).1 = _ ∧
    Steady c .mapped { b with part := (b.part.readMapped addr len).2 } ∧
      (b.part.readMapped addr len).2.memory = _
  rw [hread]
  exact ⟨rfl, h.record _, NorPart.memory_record _ b.part⟩

/-- Holding the part changes this one field of the setting. -/
theorem Steady.hold (h : b.Steady c mode) (on : Bool) :
    (b.hold on).Steady { c with stalled := on } mode :=
  ⟨by rw [← h.setting_eq]; rfl, h.mode_eq, h.busyLeft_le⟩

/-- **One command.** It is applied, or the part stalls before or after it was. -/
theorem execute_meets (hp : patience.Ample c.step) (h : b.Steady c .command)
    (command : Command) :
    Outcome.Meets
      (fun _ b' => b'.Steady c .command ∧ b'.part.memory = command.apply b.part.memory)
      (fun fault b' => fault = .refused (.stalled command.offset) ∧ ¬ c.Brisk patience.timeout ∧
        b'.Steady c .command ∧
        (b'.part.memory = b.part.memory ∨ b'.part.memory = command.apply b.part.memory))
      (Controller.execute patience command b) := by
  unfold Controller.execute
  refine Action.Meets.bind_of (waitIdle_meets hp h command.offset)
    (fun _ b' hb => ⟨hb.1, hb.2.1, hb.2.2.1, Or.inl hb.2.2.2⟩) ?_
  -- The first wait ended with an idle part: the command is taken, whatever the second wait says.
  rintro - b₁ ⟨hsteady, hmemory, hstalled, hleft⟩
  obtain ⟨hissued, happlied⟩ := hsteady.issue hstalled hleft command
  rw [hmemory] at happlied
  rw [Action.ofUpdate_bind]
  refine (waitIdle_meets hp hissued command.offset).mono ?_ ?_
  · rintro - b₂ ⟨hsteady₂, hmemory₂, -⟩
    exact ⟨hsteady₂, hmemory₂.trans happlied⟩
  · rintro e b₂ ⟨he, hbrisk, hsteady₂, hmemory₂⟩
    exact ⟨he, hbrisk, hsteady₂, Or.inr (hmemory₂.trans happlied)⟩

end Bench

end NorDisk
