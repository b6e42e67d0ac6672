import NorDisk.Proofs.Execution
import NorDisk.Proofs.Intake

/-!
# Isolation of the rest of the part

Below the data region of a board lies the bitstream that boots it. `Untouched l memory` says of a
later memory that it has the bytes of `memory` outside the region. Two benches are `Twins` if they
differ outside the region only, each being untouched since its start; twins are in lockstep
(`Twins.lockstep`), because

* what a wait does depends on the clock, the busy counter and the held flag, which twins share;
* a command within the region works on shared bytes and on no others;
* a read inside the region answers shared bytes.

**`region_isolated`** — any run of requests and records answers every call without a trap, leaves
the bytes outside the region alone, and has the same replies and the same transfer whatever those
bytes are.
-/

namespace NorDisk

open Outcome Memory

/-- The memory has its size and its bytes outside the data region from an earlier one. -/
structure Untouched (l : Layout) (earlier memory : ByteArray) : Prop where
  size_eq : memory.size = earlier.size
  byteAt_eq : ∀ j, j < l.regionBase.toNat ∨ l.flashBytes.toNat ≤ j →
    byteAt memory j = byteAt earlier j

/-- Two memories with one data region. -/
def SameRegion (l : Layout) (memory memory' : ByteArray) : Prop :=
  ∀ j, l.regionBase.toNat ≤ j → j < l.flashBytes.toNat → byteAt memory j = byteAt memory' j

section Memory

variable {l : Layout} {memory memory' earlier : ByteArray} {command : Command}

/-- A memory is untouched at first. -/
theorem Untouched.refl (l : Layout) (memory : ByteArray) : Untouched l memory memory :=
  ⟨rfl, fun _ _ => rfl⟩

/-- A command within the region touches nothing outside of it. -/
theorem Untouched.apply (h : Untouched l earlier memory) (hwithin : command.Within l) :
    Untouched l earlier (command.apply memory) := by
  refine ⟨(Command.size_apply command memory).trans h.size_eq, fun j hj => ?_⟩
  have hnot : ¬ command.Touches j := by
    intro htouch
    have := hwithin.of_touches htouch
    omega
  exact (Command.byteAt_apply_of_not_touches hnot).trans (h.byteAt_eq j hj)

/-- What a command within the region makes of it depends on nothing else. -/
theorem SameRegion.apply (h : SameRegion l memory memory') (hwithin : command.Within l)
    (hsize : l.flashBytes.toNat ≤ memory.size) (hsize' : l.flashBytes.toNat ≤ memory'.size) :
    SameRegion l (command.apply memory) (command.apply memory') := by
  intro j hlow hhigh
  have hj := h j hlow hhigh
  -- Byte by byte: an erase forgets the old byte, a program needs the old byte at the same place
  -- only.
  cases command with
  | erase offset =>
    rw [Command.byteAt_apply_erase hwithin.1, Command.byteAt_apply_erase hwithin.1, hj]
  | program offset data =>
    obtain ⟨hmod, -, hend, hlength⟩ := hwithin
    rw [Command.byteAt_apply_program hmod hlength (by omega),
      Command.byteAt_apply_program hmod hlength (by omega), hj]

/-- A stretch of the region reads alike in both memories. -/
theorem SameRegion.read (h : SameRegion l memory memory') {start len : Nat}
    (hlow : l.regionBase.toNat ≤ start) (hhigh : start + len ≤ l.flashBytes.toNat) :
    Memory.read memory start len = Memory.read memory' start len :=
  read_congr fun i hi => h (start + i) (by omega) (by omega)

end Memory

/-- Two benches that differ outside the data region only. -/
structure Twins (l : Layout) (patience : Patience) (earlier earlier' : ByteArray) (mode : Mode)
    (s t : Bench NorPart) : Prop where
  ample : patience.Ample s.clock.step
  clock_eq : s.clock = t.clock
  busyLeft_eq : s.part.busyLeft = t.part.busyLeft
  busyPolls_eq : s.part.busyPolls = t.part.busyPolls
  stalled_eq : s.part.stalled = t.part.stalled
  mode_eq : s.part.mode = mode
  mode_eq' : t.part.mode = mode
  same : SameRegion l s.part.memory t.part.memory
  untouched : Untouched l earlier s.part.memory
  untouched' : Untouched l earlier' t.part.memory

namespace Twins

variable {l : Layout} {patience : Patience} {earlier earlier' : ByteArray} {mode : Mode}
  {s t : Bench NorPart}

/-- Twins stay twins while both wait for as long. -/
theorem polled (h : Twins l patience earlier earlier' mode s t) (n : Nat) :
    Twins l patience earlier earlier' mode (s.tick.polled n) (t.tick.polled n) where
  ample := h.ample
  clock_eq := by simp only [Bench.polled, Bench.tick, h.clock_eq]
  busyLeft_eq := by
    rw [Bench.busyLeft_polled, Bench.busyLeft_polled, h.stalled_eq, h.busyLeft_eq]
  busyPolls_eq := h.busyPolls_eq
  stalled_eq := h.stalled_eq
  mode_eq := h.mode_eq
  mode_eq' := h.mode_eq'
  same := h.same
  untouched := h.untouched
  untouched' := h.untouched'

/-- Twins wait alike, and are idle together. -/
theorem waitIdle_agree (h : Twins l patience earlier earlier' mode s t) (offset : UInt32) :
    Agree Fault.IsRefusal (Twins l patience earlier earlier' mode)
      (fun _ s t => Twins l patience earlier earlier' mode s t ∧ s.part.stalled = false ∧
        s.part.busyLeft = 0)
      (Controller.waitIdle patience offset s) (Controller.waitIdle patience offset t) := by
  -- Whether the wait ends in time is decided by what twins share.
  have hresponsive : s.Responsive patience.timeout ↔ t.Responsive patience.timeout := by
    unfold Bench.Responsive
    rw [h.stalled_eq, h.busyLeft_eq, h.clock_eq]
  rw [Bench.waitIdle_eq h.ample, Bench.waitIdle_eq (h.clock_eq ▸ h.ample)]
  by_cases hr : s.Responsive patience.timeout
  · rw [if_pos hr, if_pos (hresponsive.mp hr), ← h.busyLeft_eq]
    exact ⟨rfl, h.polled _, hr.1, Bench.busyLeft_polled_self hr.1⟩
  · rw [if_neg hr, if_neg (mt hresponsive.mpr hr), ← h.clock_eq]
    exact ⟨rfl, trivial, h.polled _⟩

/-- Idle twins take a command within the region alike. -/
theorem issue (h : Twins l patience earlier earlier' .command s t)
    (hsize : l.flashBytes.toNat ≤ earlier.size) (hsize' : l.flashBytes.toNat ≤ earlier'.size)
    {command : Command} (hwithin : command.Within l) (hstalled : s.part.stalled = false)
    (hleft : s.part.busyLeft = 0) :
    Twins l patience earlier earlier' .command (Controller.issue command s)
      (Controller.issue command t) := by
  obtain ⟨hmemory, hmode, hpolls, hbusy, hstall, -⟩ :=
    NorPart.issue_of_idle h.mode_eq hstalled hleft command
  obtain ⟨hmemory', hmode', hpolls', hbusy', hstall', -⟩ :=
    NorPart.issue_of_idle h.mode_eq' (h.stalled_eq ▸ hstalled) (h.busyLeft_eq ▸ hleft) command
  -- Both memories are large enough for the region, as the earlier ones were.
  have hsame := h.same.apply hwithin (by rw [h.untouched.size_eq]; exact hsize)
    (by rw [h.untouched'.size_eq]; exact hsize')
  rw [Bench.issue_eq, Bench.issue_eq]
  constructor
  case ample => exact h.ample
  case clock_eq => exact h.clock_eq
  case busyLeft_eq => exact hbusy.trans (h.busyPolls_eq.trans hbusy'.symm)
  case busyPolls_eq => exact hpolls.trans (h.busyPolls_eq.trans hpolls'.symm)
  case stalled_eq => exact hstall.trans (h.stalled_eq.trans hstall'.symm)
  case mode_eq => exact hmode
  case mode_eq' => exact hmode'
  case same => rw [hmemory, hmemory']; exact hsame
  case untouched => rw [hmemory]; exact h.untouched.apply hwithin
  case untouched' => rw [hmemory']; exact h.untouched'.apply hwithin

/-- Twins log alike. -/
theorem record (h : Twins l patience earlier earlier' mode s t) (primitive : Primitive) :
    Twins l patience earlier earlier' mode { s with part := s.part.record primitive }
      { t with part := t.part.record primitive } where
  ample := h.ample
  clock_eq := h.clock_eq
  busyLeft_eq := by simpa using h.busyLeft_eq
  busyPolls_eq := by simpa using h.busyPolls_eq
  stalled_eq := by simpa using h.stalled_eq
  mode_eq := by simpa using h.mode_eq
  mode_eq' := by simpa using h.mode_eq'
  same := by simpa using h.same
  untouched := by simpa using h.untouched
  untouched' := by simpa using h.untouched'

/-- Twins switch modes together. -/
theorem switch (h : Twins l patience earlier earlier' mode s t) (mode' : Mode) :
    Twins l patience earlier earlier' mode' { s with part := { s.part with mode := mode' } }
      { t with part := { t.part with mode := mode' } } :=
  { h with mode_eq := rfl, mode_eq' := rfl }

/-- Twins are held and released together. -/
theorem hold (h : Twins l patience earlier earlier' mode s t) (on : Bool) :
    Twins l patience earlier earlier' mode (s.hold on) (t.hold on) :=
  { h with stalled_eq := rfl }

/-- Twins are in lockstep; what differs between them is not read and not written. -/
theorem lockstep (patience : Patience) (hsize : l.flashBytes.toNat ≤ earlier.size)
    (hsize' : l.flashBytes.toNat ≤ earlier'.size) :
    Lockstep l patience Fault.IsRefusal (Twins l patience earlier earlier') where
  refusal _ := trivial
  enterMapped h := (h.record .enterMapped).switch .mapped
  enterCommand h := (h.record .enterCommand).switch .command
  execute := by
    intro command s t hwithin h
    unfold Controller.execute
    refine Action.Agree.bind (h.waitIdle_agree command.offset) ?_
    rintro - s₁ t₁ ⟨h₁, hstalled, hleft⟩
    have hissued := h₁.issue hsize hsize' hwithin hstalled hleft
    rw [Action.ofUpdate_bind, Action.ofUpdate_bind]
    exact (hissued.waitIdle_agree command.offset).mono (fun _ _ _ h₂ => h₂.1) fun _ _ h₂ => h₂
  readMapped := by
    intro addr start len s t haddr hlow hhigh h
    -- The window of either twin shows its own memory.
    have hread {b : Bench NorPart} (hmode : b.part.mode = .mapped) :
        Controller.readMapped addr len b = (Memory.read b.part.memory start len,
          { b with part := b.part.record (.read addr len) }) := by
      show ((NorPart.readMapped addr len b.part).1,
        { b with part := (NorPart.readMapped addr len b.part).2 }) = _
      rw [NorPart.readMapped_of_mapped hmode haddr]
    rw [hread h.mode_eq, hread h.mode_eq']
    exact ⟨h.same.read hlow hhigh, h.record (.read addr len)⟩

end Twins

/-- **Isolation.** On parts with one data region, the same calls get the same replies, none of them
a trap, and leave the same transfer; neither part is changed outside the region. -/
theorem region_isolated {l : Layout} (hv : l.Valid) (hw : l.WindowFits) (policy : ErasePolicy)
    (transfer : Uf2.Transfer) {timeout : UInt32} {clock : StepClock}
    (hstep : 1 ≤ clock.step.toNat) (hsum : timeout.toNat + clock.step.toNat < 0x100000000)
    (busyPolls : Nat) {memory memory' : ByteArray} (hsize : l.flashBytes.toNat ≤ memory.size)
    (hsize' : l.flashBytes.toNat ≤ memory'.size) (hsame : SameRegion l memory memory')
    (events : List (Event Uf2.Call Bool)) :
    ∃ replies i i',
      runAll Uf2.Intake.serve (Uf2.Intake.world Bench.hold) events
        (Uf2.Intake.fresh transfer l hv policy timeout busyPolls clock memory) = .ok replies i ∧
      runAll Uf2.Intake.serve (Uf2.Intake.world Bench.hold) events
        (Uf2.Intake.fresh transfer l hv policy timeout busyPolls clock memory') = .ok replies i' ∧
      i.transfer = i'.transfer ∧
      Untouched l memory i.disk.device.part.memory ∧
      Untouched l memory' i'.disk.device.part.memory := by
  -- Fresh boards are twins, and calls and acts of the world keep them so.
  have hlock := Twins.lockstep { timeout } hsize hsize'
  have hfresh : Uf2.Intake.Paired l { timeout } (Twins l { timeout } memory memory')
      (Uf2.Intake.fresh transfer l hv policy timeout busyPolls clock memory)
      (Uf2.Intake.fresh transfer l hv policy timeout busyPolls clock memory') :=
    ⟨rfl, rfl, rfl, rfl, nofun, .ofTimeout hstep hsum, rfl, rfl, rfl, rfl, rfl, rfl, hsame,
      .refl l memory, .refl l memory'⟩
  have hworld (on : Bool) (i i' : Uf2.Intake (Bench NorPart))
      (h : Uf2.Intake.Paired l { timeout } (Twins l { timeout } memory memory') i i') :
      Uf2.Intake.Paired l { timeout } (Twins l { timeout } memory memory')
        (i.world Bench.hold on) (i'.world Bench.hold on) :=
    ⟨h.transfer_eq, h.disk.store_eq, h.disk.layout_eq, h.disk.patience_eq, h.disk.stage_fits,
      h.disk.device.hold on⟩
  obtain ⟨replies, i, i', hrun, hrun', h⟩ := runAll_total
    (fun call i i' h => Uf2.Intake.serve_agree hlock hw h call) hworld events hfresh
  exact ⟨replies, i, i', hrun, hrun', h.transfer_eq, h.disk.device.untouched,
    h.disk.device.untouched'⟩

/-- A blank part and one that has a byte of a bitstream: a write, a flush that stalls and a record
that is none get the same replies from both. -/
theorem region_isolated_from_bitstream :
    let start := Uf2.Intake.fresh { family := boardFamily } Board.orangeCrabR01.layout
      Board.orangeCrabR01.layout_valid .staged 1000 2 ⟨0, 1⟩
    let blank := Memory.blank Board.orangeCrabR01.layout.flashBytes.toNat
    let booting := Memory.patch 0 [0x7E] blank
    (1 ≤ (1 : UInt32).toNat ∧ (1000 : UInt32).toNat + (1 : UInt32).toNat < 0x100000000) ∧
      SameRegion Board.orangeCrabR01.layout blank booting ∧
      ∃ replies i i',
        runAll Uf2.Intake.serve (Uf2.Intake.world Bench.hold)
          [.call (.request (.write (List.replicate 256 0) 7 1)), .world true,
            .call (.request .flush), .call (.record [0x55])] (start blank) = .ok replies i ∧
        runAll Uf2.Intake.serve (Uf2.Intake.world Bench.hold)
          [.call (.request (.write (List.replicate 256 0) 7 1)), .world true,
            .call (.request .flush), .call (.record [0x55])] (start booting) = .ok replies i' ∧
        i.transfer = i'.transfer ∧
        Untouched Board.orangeCrabR01.layout blank i.disk.device.part.memory ∧
        Untouched Board.orangeCrabR01.layout booting i'.disk.device.part.memory := by
  intro start blank booting
  have hsize : blank.size = Board.orangeCrabR01.layout.flashBytes.toNat := size_blank _
  have hsize' : booting.size = blank.size := size_patch _ _ _
  have hsame : SameRegion Board.orangeCrabR01.layout blank booting := by
    intro j hlow _
    have hbase : 0x80000 ≤ j := hlow
    exact ((byteAt_patch 0 [0x7E] blank j).trans (if_neg (by simp; omega))).symm
  refine ⟨by decide, hsame, ?_⟩
  exact region_isolated Board.orangeCrabR01.layout_valid Board.orangeCrabR01.windowFits .staged
    { family := boardFamily } (by decide) (by decide) 2 (by omega) (by omega) hsame
    [.call (.request (.write (List.replicate 256 0) 7 1)), .world true,
      .call (.request .flush), .call (.record [0x55])]

end NorDisk
