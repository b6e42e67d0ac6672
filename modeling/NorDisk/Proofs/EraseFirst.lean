import NorDisk.Proofs.Discipline
import NorDisk.Proofs.StagedDisk

/-!
# Erase before program

Programming only clears bits, so a page must be erased before it is programmed again. A disk that
stages sectors writes a sector back as a whole, with the erase first. When that stops half way the
sector stays pending, and the next attempt begins with the erase again, whatever was read or staged
in between.

A `Watched` controller keeps the commands that it received, each with the controller before and
after it.

* **`EraseFirst`** — the commands since the erase of its sector lie between a program and that
  erase, and they are programs of other pages of the sector.
* **`StagedSector.eraseFirst_writeBack`** — one write-back is such a list, and so is what a stall
  leaves of it (`EraseFirst.of_initial`); lists of this kind can be joined (`EraseFirst.append`).
* **`programs_follow_erase`** — so are the commands of any run, and on a simulated part every
  program stores its page exactly.
-/

namespace NorDisk

open Outcome Memory

/-! ## Lists of commands -/

/-- A program of another page of the sector that holds an offset. -/
def Command.Beside (offset : UInt32) : Command → Prop
  | .erase _ => False
  | .program other _ =>
    sectorBase other = sectorBase offset ∧ other.toNat / 256 ≠ offset.toNat / 256

/-- Before each program its sector was erased, and since then only other pages of that sector were
programmed. -/
def EraseFirst (commands : List Command) : Prop :=
  ∀ before offset data after, commands = before ++ .program offset data :: after →
    ∃ early late, before = early ++ .erase (sectorBase offset) :: late ∧
      ∀ command ∈ late, command.Beside offset

theorem EraseFirst.nil : EraseFirst [] := by
  intro before offset data after h
  exact absurd h (by simp)

/-- Lists with their erases first can be joined: a program keeps the erase that it had in its own
list. -/
theorem EraseFirst.append {commands commands' : List Command} (h : EraseFirst commands)
    (h' : EraseFirst commands') : EraseFirst (commands ++ commands') := by
  intro before offset data after heq
  rcases List.append_eq_append_iff.mp heq with ⟨before', rfl, hlater⟩ | ⟨rest, rfl, hrest⟩
  -- The program is in the second list, and so is its erase.
  · obtain ⟨early, late, rfl, hlate⟩ := h' before' offset data after hlater
    exact ⟨commands ++ early, late, (List.append_assoc _ _ _).symm, hlate⟩
  · cases rest with
    | nil =>
      obtain ⟨early, late, hnil, -⟩ := h' [] offset data after hrest.symm
      exact absurd hnil (by simp)
    | cons head rest =>
      obtain ⟨rfl, -⟩ := List.cons_eq_cons.mp hrest
      exact h before offset data rest rfl

/-- What is cut off behind a program does not matter to it. -/
theorem EraseFirst.of_initial {commands commands' : List Command} (h : EraseFirst commands')
    (hinitial : commands <+: commands') : EraseFirst commands := by
  obtain ⟨rest, rfl⟩ := hinitial
  intro before offset data after heq
  apply h before offset data (after ++ rest)
  rw [heq, List.append_assoc, List.cons_append]

namespace StagedSector

variable {l : Layout} {s : StagedSector} {base : UInt32}

/-- Pages are programmed in the order in which they lie in the sector. -/
theorem pairwise_programs (hbase : base.toNat + 4096 ≤ 0x100000000) {blocks : List (List UInt8)}
    {i : UInt32} (h : i.toNat + blocks.length ≤ 16) :
    (programs base i blocks).Pairwise fun command command' =>
      command.offset.toNat + 256 ≤ command'.offset.toNat := by
  induction blocks generalizing i with
  | nil => exact List.Pairwise.nil
  | cons block rest ih =>
    rw [List.length_cons] at h
    have hi : i.toNat < 16 := by omega
    have hnext := toNat_add_one hi
    rw [programs]
    split
    · exact ih (by omega)
    · refine List.pairwise_cons.mpr ⟨fun command hmem => ?_, ih (by omega)⟩
      obtain ⟨k, offset, block', -, rfl, hk, -, hoffset⟩ := of_mem_programs hbase (by omega) hmem
      have hpage := (toNat_page hbase hi).2
      show (base + i * pageBytes).toNat + 256 ≤ offset.toNat
      omega

/-- A write-back erases its sector and then programs each page at most once. -/
theorem eraseFirst_writeBack (h : s.Fits l) : EraseFirst s.writeBack := by
  have hmod := h.base_mod
  have hbase : s.base.toNat + 4096 ≤ 0x100000000 := by
    have := h.base_add_le
    have := l.flashBytes.toNat_lt
    omega
  -- All its programs are of the sector that it erases.
  have hsector : ∀ {offset data}, Command.program offset data ∈ programs s.base 0 s.pages →
      sectorBase offset = s.base := by
    intro offset data hmem
    obtain ⟨k, offset', block, -, heq, -, hk, hoffset⟩ := of_mem_programs hbase (by simp) hmem
    obtain ⟨rfl, -⟩ := Command.program.inj heq
    have hk : k < 16 := by simpa using hk
    rw [← UInt32.toNat_inj, toNat_sectorBase]
    omega
  intro before offset data after heq
  cases before with
  | nil => exact absurd heq (by simp [writeBack])
  | cons head late =>
    rw [writeBack, List.cons_append, List.cons.injEq] at heq
    obtain ⟨rfl, hprograms⟩ := heq
    have hmem : ∀ command ∈ late ++ .program offset data :: after,
        command ∈ programs s.base 0 s.pages := by
      intro command hcommand
      rwa [hprograms]
    have hhere : sectorBase offset = s.base :=
      hsector (hmem _ (List.mem_append_right _ List.mem_cons_self))
    refine ⟨[], late, by rw [hhere]; rfl, fun command hlate => ?_⟩
    have hpages := hprograms ▸ pairwise_programs (i := 0) hbase (Nat.le_of_eq (by simp))
    -- The programs in between come before this one, so they lie on earlier pages.
    have horder := (List.pairwise_append.mp hpages).2.2 command hlate _ List.mem_cons_self
    obtain ⟨k, other, block, -, rfl, -⟩ :=
      of_mem_programs hbase (by simp) (hmem command (List.mem_append_left _ hlate))
    refine ⟨(hsector (hmem _ (List.mem_append_left _ hlate))).trans hhere.symm, ?_⟩
    have horder : other.toNat + 256 ≤ offset.toNat := horder
    omega

end StagedSector

/-- A page that is programmed in such a list is erased by then. -/
theorem EraseFirst.byteAt_erased {commands before after : List Command} {offset : UInt32}
    {data : List UInt8} (h : EraseFirst commands)
    (heq : commands = before ++ .program offset data :: after) (hmod : offset.toNat % 256 = 0)
    (memory : ByteArray) {i : Nat} (hi : i < 256) :
    byteAt (Command.applyAll before memory) (offset.toNat + i) = erasedByte := by
  obtain ⟨early, late, rfl, hlate⟩ := h before offset data after heq
  -- Other pages of the sector do not hold this byte.
  have huntouched : ∀ command ∈ late, ¬ command.Touches (offset.toNat + i) := by
    intro command hmem htouch
    cases command with
    | erase other => exact hlate _ hmem
    | program other bytes =>
      obtain ⟨-, hpage⟩ := hlate _ hmem
      obtain ⟨hlow, hhigh⟩ := htouch
      omega
  have hbase := toNat_sectorBase offset
  rw [Command.applyAll_append, Command.applyAll_cons,
    Command.byteAt_applyAll_of_not_touches huntouched, Command.byteAt_apply_erase (by omega),
    if_pos (by omega)]

/-! ## Watched controllers -/

/-- A command as a controller received it. -/
structure Issued (κ : Type) where
  command : Command
  before : κ
  after : κ

/-- A controller with the commands that it received, in order. -/
structure Watched (κ : Type) where
  inner : κ
  issued : List (Issued κ) := []

namespace Watched

variable {κ ω : Type}

/-- The commands that were received, in order. -/
def commands (s : Watched κ) : List Command := s.issued.map (·.command)

/-- The world changes the controller, without a command. -/
def world (act : ω → κ → κ) (w : ω) (s : Watched κ) : Watched κ := { s with inner := act w s.inner }

/-- The controller receives a command. -/
def receive (command : Command) (after : κ) (s : Watched κ) : Watched κ where
  inner := after
  issued := s.issued ++ [⟨command, s.inner, after⟩]

instance [Controller κ] : Controller (Watched κ) where
  enterMapped s := { s with inner := Controller.enterMapped s.inner }
  enterCommand s := { s with inner := Controller.enterCommand s.inner }
  beginErase offset s := s.receive (.erase offset) (Controller.beginErase offset s.inner)
  beginProgram offset data s :=
    s.receive (.program offset data) (Controller.beginProgram offset data s.inner)
  isBusy s :=
    let (busy, inner) := Controller.isBusy s.inner
    (busy, { s with inner })
  readMapped addr len s :=
    let (bytes, inner) := Controller.readMapped addr len s.inner
    (bytes, { s with inner })
  length_readMapped addr len s := Controller.length_readMapped addr len s.inner

instance [TickSource κ] : TickSource (Watched κ) where
  now s :=
    let (now, inner) := TickSource.now s.inner
    (now, { s with inner })

theorem commands_receive (command : Command) (after : κ) (s : Watched κ) :
    (s.receive command after).commands = s.commands ++ [command] := by
  simp [commands, receive]

/-- A command is kept with the controller before and after it. -/
theorem issue_eq [Controller κ] (command : Command) (s : Watched κ) :
    Controller.issue command s = s.receive command (Controller.issue command s.inner) := by
  cases command <;> rfl

variable [Controller κ] [TickSource κ]

/-- Waiting sends no commands. -/
theorem waitIdle_commands (patience : Patience) (offset : UInt32) (s : Watched κ) :
    Meets (fun _ s' => s'.commands = s.commands) (fun _ s' => s'.commands = s.commands)
      (Controller.waitIdle patience offset s) :=
  waitIdle_keeps (fun _ h => h) (fun _ h _ => h) (fun _ h _ => h) patience offset rfl

/-- A command is issued once, or not at all if the wait before it is given up. -/
theorem execute_commands (patience : Patience) (command : Command) (s : Watched κ) :
    Meets (fun _ s' => s'.commands = s.commands ++ [command])
      (fun _ s' => s'.commands = s.commands ∨ s'.commands = s.commands ++ [command])
      (Controller.execute patience command s) := by
  unfold Controller.execute
  apply Action.Meets.bind_of (waitIdle_commands patience command.offset s)
  · intro _ s₁ h₁
    exact Or.inl h₁
  · intro _ s₁ h₁
    have hissued : (Controller.issue command s₁).commands = s.commands ++ [command] := by
      rw [issue_eq, commands_receive, h₁]
    rw [Action.ofUpdate_bind, ← hissued]
    exact (waitIdle_commands patience command.offset _).mono (fun _ _ h => h) fun _ _ h => Or.inr h

/-- A list of commands is issued in order, up to the one that stalls. -/
theorem executeAll_commands (patience : Patience) (commands : List Command) (s : Watched κ) :
    Meets (fun _ s' => s'.commands = s.commands ++ commands)
      (fun _ s' => ∃ sent, sent <+: commands ∧ s'.commands = s.commands ++ sent)
      (Controller.executeAll patience commands s) := by
  refine (Controller.executeAll_meets
    (S := fun sent (s' : Watched κ) => s'.commands = s.commands ++ sent) (B := fun _ => True) ?_
    (List.append_nil _).symm).mono (fun _ _ h' => h') fun _ _ h' => h'.2
  intro sent command _ s₁ h₁
  rw [← List.append_assoc, ← h₁]
  exact (execute_commands patience command s₁).mono (fun _ _ h' => h') fun _ _ h' => ⟨trivial, h'⟩

/-- The commands of a staged disk have their erases first, whatever is staged. -/
theorem keeper (l : Layout) (patience : Patience) :
    Keeper l patience (fun _ => True) fun _ _ _ (s : Watched κ) => EraseFirst s.commands where
  enterMapped h := h
  enterCommand h := h
  readMapped _ _ _ h := h
  load _ _ _ h := h
  put _ _ _ h := h
  writeBack := by
    intro t A s hfits _ h
    apply (executeAll_commands patience t.writeBack s).mono
    · intro _ s' h'
      rw [h']
      exact h.append (StagedSector.eraseFirst_writeBack hfits)
    · intro _ s' h'
      -- A stall leaves a front of the write-back, which is such a list as well.
      obtain ⟨sent, hsent, h'⟩ := h'
      rw [h']
      exact ⟨trivial, h.append ((StagedSector.eraseFirst_writeBack hfits).of_initial hsent)⟩

/-- **Any run** of a staged disk sends its erases first. -/
theorem runAll_eraseFirst {l : Layout} (hv : l.Valid) (hw : l.WindowFits) (patience : Patience)
    (act : ω → κ → κ) (inner : κ) (events : List (Event Request ω)) :
    EraseFirst (state (runAll Disk.serve (Disk.world (world act)) events
      (Disk.fresh l hv .staged patience { inner }))).device.commands := by
  obtain ⟨_, h⟩ := Disk.runAll_kept (A := fun _ => []) (keeper l patience) hv hw (world act)
    (fun h => h) { inner } .nil events
  exact h.device

end Watched

/-! ## On a simulated part

The part takes every command, as it finds the mode and the idle part that it needs. So the memory
that a command finds is the one that the commands before it made. -/

namespace NorPart

/-- A program that is taken is counted. -/
theorem programs_beginProgram {p : NorPart} (hmode : p.mode = .command)
    (hstalled : p.stalled = false) (hleft : p.busyLeft = 0) (offset : UInt32) (data : List UInt8) :
    (p.beginProgram offset data).programs = p.programs + 1 := by
  have haccept := accept_of_idle (p := p.record (.program offset data.length))
    (by simpa using hmode) (by simpa using hstalled) (by simpa using hleft)
  simp [beginProgram, haccept]

end NorPart

section Simulated

variable {l : Layout} {memory : ByteArray} {τ : Type} {mode : Mode}

/-- A part with a memory took a command of the region. -/
structure Issued.Taken (l : Layout) (memory : ByteArray) (entry : Issued (Timed τ)) : Prop where
  within : entry.command.Within l
  memory_before : entry.before.part.memory = memory
  memory_after : entry.after.part.memory = entry.command.apply memory
  counted : ∀ offset data, entry.command = .program offset data →
    entry.after.part.programs = entry.before.part.programs + 1

/-- A program of erased bytes leaves its data. -/
theorem Issued.Taken.stored {entry : Issued (Timed τ)} {offset : UInt32} {data : List UInt8}
    (h : entry.Taken l memory) (hcommand : entry.command = .program offset data)
    (herased : ∀ i < 256, byteAt memory (offset.toNat + i) = erasedByte) {i : Nat} (hi : i < 256)
    (hsize : offset.toNat + i < memory.size) :
    entry.after.part.byteAt (offset.toNat + i) = data.getD i 0 := by
  obtain ⟨hmod, -, -, hlength⟩ := hcommand ▸ h.within
  rw [NorPart.byteAt, h.memory_after, hcommand, Command.apply, hmod,
    List.take_of_length_le (Nat.le_of_eq hlength), byteAt_program (by omega), if_pos (by omega),
    Nat.sub_zero, Nat.add_zero, Nat.add_sub_cancel_left, herased i hi]
  exact UInt8.neg_one_and

namespace Watched

variable {s : Watched (Timed τ)}

/-- The part took every command on the memory that those before it made, and takes commands in
command mode. In the other mode nothing is said of it, as it may have been left in any mode. -/
structure Serves (l : Layout) (memory : ByteArray) (mode : Mode) (s : Watched (Timed τ)) :
    Prop where
  mode_eq : mode = .command → s.inner.part.mode = .command
  memory_eq : s.inner.part.memory = Command.applyAll s.commands memory
  taken : ∀ early entry late, s.issued = early ++ entry :: late →
    entry.Taken l (Command.applyAll (early.map (·.command)) memory)

/-- A poll does not touch the memory. -/
theorem Serves.poll (h : s.Serves l memory mode) :
    (Controller.isBusy s).2.Serves l memory mode := by
  show Serves l memory mode { s with inner := { s.inner with part := s.inner.part.isBusy.2 } }
  unfold NorPart.isBusy
  split
  · exact h
  · split
    · exact ⟨h.mode_eq, h.memory_eq, h.taken⟩
    · exact h

/-- A command that an idle part is given is taken on the memory that it has. -/
theorem Serves.issue (h : s.Serves l memory .command) (hstalled : s.inner.part.stalled = false)
    (hleft : s.inner.part.busyLeft = 0) {command : Command} (hwithin : command.Within l) :
    (Controller.issue command s).Serves l memory .command := by
  obtain ⟨hmemory, hmode, -⟩ := NorPart.issue_of_idle (h.mode_eq rfl) hstalled hleft command
  have hpart : (Controller.issue command s.inner).part = Controller.issue command s.inner.part := by
    cases command <;> rfl
  have htaken : Issued.Taken l (Command.applyAll s.commands memory)
      ⟨command, s.inner, Controller.issue command s.inner⟩ := by
    refine ⟨hwithin, h.memory_eq, ?_, ?_⟩
    · show (Controller.issue command s.inner).part.memory = _
      rw [hpart, hmemory, h.memory_eq]
    · rintro offset data ⟨⟩
      exact NorPart.programs_beginProgram (h.mode_eq rfl) hstalled hleft offset data
  rw [issue_eq]
  refine ⟨fun _ => ?_, ?_, ?_⟩
  · show (Controller.issue command s.inner).part.mode = _
    rw [hpart, hmode]
  · rw [commands_receive, Command.applyAll_append]
    exact htaken.memory_after
  · -- The entry is the new one, or one of those before.
    intro early entry late heq
    rcases List.eq_nil_or_concat late with rfl | ⟨late', last, rfl⟩
    · obtain ⟨rfl, hlast⟩ := List.append_inj' heq rfl
      obtain rfl := (List.cons.inj hlast).1
      exact htaken
    · rw [List.concat_eq_append, ← List.cons_append, ← List.append_assoc] at heq
      exact h.taken early entry late' (List.append_inj' heq rfl).1

/-- A disk that uses a simulated part has every command taken. -/
theorem Serves.lockstep [TickSource τ] (l : Layout) (patience : Patience) (memory : ByteArray) :
    Lockstep l patience (fun _ => True) fun mode (s t : Watched (Timed τ)) =>
      s = t ∧ s.Serves l memory mode := by
  apply Lockstep.ofInvariant
  · intro mode s h
    exact ⟨nofun, (NorPart.memory_record _ _).trans h.memory_eq, h.taken⟩
  · intro mode s h
    exact ⟨fun _ => rfl, (NorPart.memory_record _ _).trans h.memory_eq, h.taken⟩
  · intro command s hwithin h
    refine execute_keeps (I := Serves l memory .command)
      (J := fun s => s.Serves l memory .command ∧ s.inner.part.stalled = false ∧
        s.inner.part.busyLeft = 0)
      (fun s hs => ⟨hs.mode_eq, hs.memory_eq, hs.taken⟩) (fun s hs _ => hs.poll) ?_
      (fun s hs => hs.1.issue hs.2.1 hs.2.2 hwithin) (fun s hs => hs.1) patience h
    -- The disk issues a command behind an idle answer, and such an answer means an idle part.
    intro s hs hanswer
    obtain ⟨hsame, hstalled, hleft⟩ := Timed.idle_of_isBusy (s := s.inner) hanswer
    have hinner : (Controller.isBusy s).2.inner = s.inner := hsame
    exact ⟨hs.poll, by rw [hinner]; exact hstalled, by rw [hinner]; exact hleft⟩
  · intro addr len s h
    have hmemory := NorPart.memory_readMapped addr len s.inner.part
    exact ⟨nofun, hmemory.trans h.memory_eq, h.taken⟩

end Watched

end Simulated

/-- **Erase before program.** On any controller and any clock, whatever the busy flag answers and
wherever requests stall, the commands of a staged disk have their erases first. So on a simulated
part in any state, whose busy flag is held and released, every program is accepted and its page
holds the data afterwards. -/
theorem programs_follow_erase {κ τ : Type} [Controller κ] [TickSource κ] [TickSource τ] {l : Layout}
    (hv : l.Valid) (hw : l.WindowFits) (patience : Patience) :
    (∀ (controller : κ) (events : List (Event Request (κ → κ))),
      let d := state (runAll Disk.serve (Disk.world (Watched.world id)) events
        (Disk.fresh l hv .staged patience { inner := controller }))
      EraseFirst d.device.commands) ∧
    ∀ (part : NorPart) (ticks : τ) (events : List (Event Request Bool)),
      let d := state (runAll Disk.serve (Disk.world (Watched.world Timed.hold)) events
        (Disk.fresh l hv .staged patience { inner := { part, ticks } }))
      ∀ entry ∈ d.device.issued, ∀ offset data, entry.command = .program offset data →
        entry.after.part.programs = entry.before.part.programs + 1 ∧ data.length = 256 ∧
        offset.toNat + 256 ≤ l.flashBytes.toNat ∧
        ∀ i < 256, offset.toNat + i < part.memory.size →
          entry.after.part.byteAt (offset.toNat + i) = data.getD i 0 := by
  refine ⟨fun controller events => Watched.runAll_eraseFirst hv hw patience id controller events,
    fun part ticks events => ?_⟩
  intro d entry hentry offset data hcommand
  have hfirst : EraseFirst d.device.commands :=
    Watched.runAll_eraseFirst hv hw patience Timed.hold _ events
  -- The part may start in any mode and busy, so nothing is known of its mode at first.
  have hserves : d.device.Serves l part.memory d.store.mode :=
    Disk.runAll_keeps hv hw .staged (Watched.Serves.lockstep l patience part.memory)
      (Watched.world Timed.hold) (fun _ _ _ h => ⟨h.mode_eq, h.memory_eq, h.taken⟩) _
      ⟨nofun, rfl, fun early entry late h => absurd h (by simp)⟩ events
  obtain ⟨early, late, hissued⟩ := List.append_of_mem hentry
  have htaken := hserves.taken early entry late hissued
  obtain ⟨hmod, -, hend, hlength⟩ := hcommand ▸ htaken.within
  have hcommands : d.device.commands = early.map (·.command) ++ .program offset data ::
      late.map (·.command) := by
    rw [Watched.commands, hissued, List.map_append, List.map_cons, hcommand]
  refine ⟨htaken.counted offset data hcommand, hlength, hend, fun i hi hsize => ?_⟩
  exact htaken.stored hcommand
    (fun i hi => hfirst.byteAt_erased hcommands hmod part.memory hi) hi (by simpa using hsize)

/-- A slow part stalls once the sector is erased, and the sector is written back after a read. The
simulated part was left in command mode and busy. -/
theorem programs_follow_erase_across_stall :
    let write : Request := .write (List.replicate 256 0x5A) 3 1
    let read : Request := .read (List.replicate 256 0) 3 1
    let hasten (b : Bench NorPart) : Bench NorPart :=
      { b with part := { b.part with busyPolls := 0, busyLeft := 0 } }
    let watched := state (runAll Disk.serve (Disk.world (Watched.world id))
      [.call write, .call .flush, .call read, .world hasten, .call .flush]
      (Disk.fresh Board.orangeCrabR01.layout Board.orangeCrabR01.layout_valid .staged
        { timeout := 2, polls := 8 } { inner := Bench.fresh (Memory.blank 0) 5 ⟨0, 1⟩ }))
    Board.orangeCrabR01.layout.Valid ∧ Board.orangeCrabR01.layout.WindowFits ∧
      watched.device.commands =
        [.erase 0x80000, .erase 0x80000, .program 0x80300 (List.replicate 256 0x5A)] ∧
      EraseFirst watched.device.commands ∧
      let part : NorPart :=
        { memory := Memory.blank 0x100000, mode := .command, busyPolls := 2, busyLeft := 1 }
      let timed := state (runAll Disk.serve (Disk.world (Watched.world Timed.hold))
        [.call write, .world true, .call .flush, .world false, .call .flush]
        (Disk.fresh Board.orangeCrabR01.layout Board.orangeCrabR01.layout_valid .staged
          { timeout := 2, polls := 8 } { inner := { part, ticks := StepClock.mk 0 1 } }))
      ∀ entry ∈ timed.device.issued, ∀ offset data, entry.command = .program offset data →
        entry.after.part.programs = entry.before.part.programs + 1 ∧ data.length = 256 ∧
        offset.toNat + 256 ≤ Board.orangeCrabR01.layout.flashBytes.toNat ∧
        ∀ i < 256, offset.toNat + i < part.memory.size →
          entry.after.part.byteAt (offset.toNat + i) = data.getD i 0 := by
  intro write read hasten watched
  have h := @programs_follow_erase (Bench NorPart) StepClock _ _ _ Board.orangeCrabR01.layout
    Board.orangeCrabR01.layout_valid Board.orangeCrabR01.windowFits { timeout := 2, polls := 8 }
  refine ⟨Board.orangeCrabR01.layout_valid, Board.orangeCrabR01.windowFits, by decide +kernel,
    h.1 _ _, ?_⟩
  exact h.2 { memory := Memory.blank 0x100000, mode := .command, busyPolls := 2, busyLeft := 1 } _ _

end NorDisk
