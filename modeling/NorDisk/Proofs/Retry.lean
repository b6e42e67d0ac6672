import NorDisk.Proofs.Discipline

/-!
# Retrying a write that stalled

A write at once that stalls has executed some of its commands, and the last of them may or may not
have reached the part. It is safe to send the same write again, because a list of commands absorbs
whatever part of it was executed before: to one byte a command is the constant erased value, a mask,
or nothing (`Command.onByte`), an erase forgets what came before it, and a mask applied twice is the
mask applied once.

* **`applyAll_absorb`** — executing some of the commands first changes nothing about executing all.
* **`writeBlocks_applies`** — what a write at once leaves in the memory, on any clock.
* **`retried_write_memory`** — however often a write stalled, the one that succeeds leaves the
  memory that it would have left the first time.
-/

namespace NorDisk

open Outcome Memory

namespace Memory

/-- Memories with the same bytes are the same. -/
theorem ext_byteAt {memory memory' : ByteArray} (hsize : memory.size = memory'.size)
    (h : ∀ j, byteAt memory j = byteAt memory' j) : memory = memory' := by
  apply ByteArray.ext_getElem hsize
  intro i hi hi'
  simpa [byteAt, hi, hi'] using h i

end Memory

/-! ## One byte under commands -/

namespace Command

/-- What a command of the region makes of byte `j`. -/
def onByte (j : Nat) : Command → UInt8 → UInt8
  | erase offset, b => if offset.toNat ≤ j ∧ j < offset.toNat + 4096 then erasedByte else b
  | program offset data, b =>
    if offset.toNat ≤ j ∧ j < offset.toNat + 256 then b &&& data.getD (j - offset.toNat) 0 else b

/-- Commands on one byte, in order. -/
def onByteAll (j : Nat) (commands : List Command) (b : UInt8) : UInt8 :=
  commands.foldl (fun b command => command.onByte j b) b

/-- Does a command erase byte `j`? -/
def Erases (j : Nat) : Command → Prop
  | erase offset => offset.toNat ≤ j ∧ j < offset.toNat + 4096
  | program _ _ => False

variable {l : Layout} {j : Nat} {command command' : Command} {commands : List Command}
  {memory : ByteArray}

theorem onByte_of_erases (h : command.Erases j) (b : UInt8) : command.onByte j b = erasedByte := by
  cases command with
  | erase offset => exact if_pos h
  | program offset data => exact h.elim

/-- A command twice is the command once. -/
theorem onByte_idem (b : UInt8) : command.onByte j (command.onByte j b) = command.onByte j b := by
  cases command with
  | erase offset => simp only [onByte]; split <;> rfl
  | program offset data =>
    simp only [onByte]
    split
    · rw [UInt8.and_assoc, UInt8.and_self]
    · rfl

/-- Commands that do not erase a byte are masks, so their order does not matter to it. -/
theorem onByte_comm (h : ¬ command.Erases j) (h' : ¬ command'.Erases j) (b : UInt8) :
    command.onByte j (command'.onByte j b) = command'.onByte j (command.onByte j b) := by
  cases command with
  | erase offset => simp only [onByte, if_neg (show ¬ (_ ∧ _) from h)]
  | program offset data =>
    cases command' with
    | erase offset' => simp only [onByte, if_neg (show ¬ (_ ∧ _) from h')]
    | program offset' data' =>
      simp only [onByte]
      split <;> split
      · rw [UInt8.and_assoc, UInt8.and_comm (data'.getD _ _), ← UInt8.and_assoc]
      all_goals rfl

theorem onByteAll_cons (command : Command) (commands : List Command) (b : UInt8) :
    onByteAll j (command :: commands) b = onByteAll j commands (command.onByte j b) := rfl

/-- After an erase it does not matter what the byte was. -/
theorem onByteAll_of_erases (h : ∃ command ∈ commands, command.Erases j) (b b' : UInt8) :
    onByteAll j commands b = onByteAll j commands b' := by
  induction commands generalizing b b' with
  | nil => simp at h
  | cons command rest ih =>
    rw [onByteAll_cons, onByteAll_cons]
    by_cases hhead : command.Erases j
    · rw [onByte_of_erases hhead, onByte_of_erases hhead]
    · apply ih
      simpa [hhead] using h

/-- A command of the list may come early: what it did is done again. -/
theorem onByteAll_onByte (h : command ∈ commands) (b : UInt8) :
    onByteAll j commands (command.onByte j b) = onByteAll j commands b := by
  by_cases herases : ∃ command ∈ commands, command.Erases j
  · exact onByteAll_of_erases herases _ _
  -- Without an erase all commands are masks, so the early one can be moved to its place.
  · induction commands generalizing b with
    | nil => simp at h
    | cons head rest ih =>
      simp only [List.mem_cons, exists_eq_or_imp, not_or] at herases
      rw [onByteAll_cons, onByteAll_cons]
      rcases List.mem_cons.mp h with heq | hmem
      · rw [heq, onByte_idem]
      · have hcommand : ¬ command.Erases j := fun hj => herases.2 ⟨command, hmem, hj⟩
        rw [onByte_comm herases.1 hcommand, ih hmem _ herases.2]

/-- Executing some commands early changes nothing about executing all. Induction on the early ones.
-/
theorem onByteAll_absorb {early : List Command} (h : early ⊆ commands) (b : UInt8) :
    onByteAll j commands (onByteAll j early b) = onByteAll j commands b := by
  induction early generalizing b with
  | nil => rfl
  | cons command rest ih =>
    rw [List.cons_subset] at h
    rw [onByteAll_cons, ih h.2, onByteAll_onByte h.1]

/-- A command acts on each byte by itself. -/
theorem byteAt_apply_eq_onByte (h : command.Within l) (hsize : l.flashBytes.toNat ≤ memory.size) :
    byteAt (command.apply memory) j = command.onByte j (byteAt memory j) := by
  cases command with
  | erase offset => exact byteAt_apply_erase h.1 memory j
  | program offset data =>
    obtain ⟨hmod, -, hend, hlength⟩ := h
    exact byteAt_apply_program hmod hlength (by omega) j

/-- Commands of the region act on each byte by itself. -/
theorem byteAt_applyAll_eq_onByteAll (h : ∀ command ∈ commands, command.Within l)
    (hsize : l.flashBytes.toNat ≤ memory.size) :
    byteAt (applyAll commands memory) j = onByteAll j commands (byteAt memory j) := by
  induction commands generalizing memory with
  | nil => rfl
  | cons command rest ih =>
    rw [List.forall_mem_cons] at h
    rw [applyAll_cons, onByteAll_cons, ih h.2 (by rwa [size_apply]),
      byteAt_apply_eq_onByte h.1 hsize]

/-- **Absorption.** Commands of the region absorb any of themselves that were executed before. -/
theorem applyAll_absorb {early : List Command} (h : ∀ command ∈ commands, command.Within l)
    (hsize : l.flashBytes.toNat ≤ memory.size) (hearly : early ⊆ commands) :
    applyAll commands (applyAll early memory) = applyAll commands memory := by
  have hwithin : ∀ command ∈ early, command.Within l := fun command hmem => h command (hearly hmem)
  apply ext_byteAt
  · simp
  · intro j
    rw [byteAt_applyAll_eq_onByteAll h (by rwa [size_applyAll]),
      byteAt_applyAll_eq_onByteAll hwithin hsize, byteAt_applyAll_eq_onByteAll h hsize,
      onByteAll_absorb hearly]

end Command

/-! ## Writing at once, on any clock

Whether a wait ends in time is up to the clock. The memory only depends on which commands were
issued. -/

namespace Timed

variable {τ : Type} [TickSource τ] {s : Timed τ} {memory : ByteArray}

/-- The part serves commands and holds a memory. -/
def Serves (memory : ByteArray) (s : Timed τ) : Prop :=
  s.part.mode = .command ∧ s.part.memory = memory

/-- Waiting leaves the memory as it is, and ends with an idle part. -/
theorem waitIdle_serves (h : s.Serves memory) (patience : Patience) (offset : UInt32) :
    Meets (fun _ s => s.Serves memory ∧ s.part.stalled = false ∧ s.part.busyLeft = 0)
      (fun _ s => s.Serves memory) (Controller.waitIdle patience offset s) := by
  refine waitIdle_keeps (I := Serves memory) (fun _ hs => hs) ?_ ?_ patience offset h
  · intro s hs _
    show Serves memory { s with part := s.part.isBusy.2 }
    unfold NorPart.isBusy
    split
    · exact hs
    · split <;> exact hs
  · intro s hs hanswer
    obtain ⟨hsame, hstalled, hleft⟩ := idle_of_isBusy hanswer
    rw [hsame]
    exact ⟨hs, hstalled, hleft⟩

omit [TickSource τ] in
/-- An idle part that serves commands does what the command says. -/
theorem Serves.issue (h : s.Serves memory) (hstalled : s.part.stalled = false)
    (hleft : s.part.busyLeft = 0) (command : Command) :
    (Controller.issue command s).Serves (command.apply memory) := by
  obtain ⟨hmode, rfl⟩ := h
  obtain ⟨happlied, hmode', -⟩ := NorPart.issue_of_idle hmode hstalled hleft command
  cases command <;> exact ⟨hmode', happlied⟩

/-- A command is executed, or the wait before it or after it is given up. -/
theorem execute_serves (h : s.Serves memory) (patience : Patience) (command : Command) :
    Meets (fun _ s => s.Serves (command.apply memory))
      (fun _ s => s.Serves memory ∨ s.Serves (command.apply memory))
      (Controller.execute patience command s) := by
  unfold Controller.execute
  apply Action.Meets.bind_of (waitIdle_serves h patience command.offset)
  · intro _ s₁ hs₁
    exact Or.inl hs₁
  · intro _ s₁ hs₁
    obtain ⟨hserves, hstalled, hleft⟩ := hs₁
    have hissued := hserves.issue hstalled hleft command
    rw [Action.ofUpdate_bind]
    exact (waitIdle_serves hissued patience command.offset).mono (fun _ _ hs => hs.1)
      fun _ _ hs => Or.inr hs

/-- A list of commands is applied, or a front of it. -/
theorem executeAll_serves (h : s.Serves memory) (patience : Patience) (commands : List Command) :
    Meets (fun _ s => s.Serves (Command.applyAll commands memory))
      (fun _ s => ∃ early ⊆ commands, s.Serves (Command.applyAll early memory))
      (Controller.executeAll patience commands s) := by
  refine (Controller.executeAll_meets (S := fun sent s => s.Serves (Command.applyAll sent memory))
    (B := fun _ => True) ?_ h).mono (fun _ _ h' => h') ?_
  · intro sent command _ s₁ h₁
    rw [Command.applyAll_append]
    exact (execute_serves h₁ patience command).mono (fun _ _ h' => h') fun _ _ h' => ⟨trivial, h'⟩
  · intro _ _ h'
    obtain ⟨-, early, hearly, h'⟩ := h'
    exact ⟨early, hearly.subset, h'⟩

end Timed

namespace Disk

variable {τ : Type} [TickSource τ] {l : Layout} {d d' : Disk (Timed τ)}

/-- The disk writes at once, on a layout, to a part with a memory. -/
structure AtOnce (l : Layout) (memory : ByteArray) (d : Disk (Timed τ)) : Prop where
  layout_eq : d.store.layout = l
  policy_eq : d.store.policy = .onSectorStart
  memory_eq : d.device.part.memory = memory

variable {memory : ByteArray}

/-- Writing at once applies the commands of its blocks, or some of them if it stalls. -/
theorem writeEach_applies (h : d.AtOnce l memory) (lba : UInt32) (blocks : List (List UInt8)) :
    Meets (fun _ d' => d'.AtOnce l (Command.applyAll (l.writes lba blocks) memory))
      (fun _ d' => ∃ early ⊆ l.writes lba blocks, d'.AtOnce l (Command.applyAll early memory))
      (writeEach lba blocks d) := by
  have hserves : (Controller.enterCommand d.device).Serves memory :=
    ⟨rfl, (NorPart.memory_record _ _).trans h.memory_eq⟩
  rw [writeEach_eq, h.layout_eq]
  apply (onDevice_meets (Timed.executeAll_serves hserves d.store.patience _)).mono
  · intro _ d' hd'
    obtain ⟨hstore, -, hmemory⟩ := hd'
    exact ⟨hstore ▸ h.layout_eq, hstore ▸ h.policy_eq, hmemory⟩
  · intro _ d' hd'
    obtain ⟨hstore, early, hearly, -, hmemory⟩ := hd'
    exact ⟨early, hearly, hstore ▸ h.layout_eq, hstore ▸ h.policy_eq, hmemory⟩

/-- The commands of a write at once. -/
def commandsOf (l : Layout) (source : List UInt8) (lba count : UInt32) : List Command :=
  l.writes lba (Bytes.pieces 256 count.toNat source)

/-- **A write at once** applies its commands, which are commands of the region. One that fails
applied some of them. -/
theorem writeBlocks_applies (h : d.AtOnce l memory) (source : List UInt8) (lba count : UInt32) :
    Meets
      (fun _ d' => (∀ command ∈ commandsOf l source lba count, command.Within l) ∧
        d'.AtOnce l (Command.applyAll (commandsOf l source lba count) memory))
      (fun _ d' => ∃ early ⊆ commandsOf l source lba count,
        d'.AtOnce l (Command.applyAll early memory))
      (writeBlocks source lba count d) := by
  have hv : l.Valid := h.layout_eq ▸ d.store.layout_valid
  by_cases hcount : count = 0
  · subst hcount
    exact ⟨by simp [commandsOf, Bytes.pieces, Layout.writes], h⟩
  cases hrefusal : l.refusal? lba count source.length with
  -- A refused request sends no command.
  | some error =>
    rw [writeBlocks_of_refusal (h.layout_eq ▸ hrefusal)]
    exact ⟨[], List.nil_subset _, h⟩
  | none =>
    obtain ⟨-, hrange, hroom⟩ := Layout.of_refusal?_eq_none hcount hrefusal
    have hwithin : ∀ command ∈ commandsOf l source lba count, command.Within l :=
      fun command hmem => Layout.within_of_mem_writes hv (by rwa [Bytes.length_pieces])
        (fun block hblock => Bytes.length_of_mem_pieces hroom hblock) hmem
    rw [writeBlocks_of_accepted hcount (h.layout_eq ▸ hrefusal), h.policy_eq]
    exact (writeEach_applies h lba _).mono (fun _ _ hd' => ⟨hwithin, hd'⟩) fun _ _ hd' => hd'

/-! ## Attempts -/

/-- Attempts at one write that all stalled. Between two of them the world may change everything
about the device but the memory of the part. -/
inductive Attempts (source : List UInt8) (lba count : UInt32) (d : Disk (Timed τ)) :
    Disk (Timed τ) → Prop
  | none : Attempts source lba count d d
  | stalled {d₁ d₂ : Disk (Timed τ)} {offset : UInt32} (before : Attempts source lba count d d₁)
    (write_eq : writeBlocks source lba count d₁ = .error (.refused (.stalled offset)) d₂) :
    Attempts source lba count d d₂
  | world {d₁ : Disk (Timed τ)} (before : Attempts source lba count d d₁) (device : Timed τ)
    (memory_eq : device.part.memory = d₁.device.part.memory) :
    Attempts source lba count d { d₁ with device }

/-- One more attempt keeps what the attempts come to: the write would leave the same memory. -/
theorem Attempts.applies {source : List UInt8} {lba count : UInt32}
    (h : Attempts source lba count d d') (hd : d.AtOnce l memory)
    (hwithin : ∀ command ∈ commandsOf l source lba count, command.Within l)
    (hsize : l.flashBytes.toNat ≤ memory.size) :
    ∃ memory', d'.AtOnce l memory' ∧ memory'.size = memory.size ∧
      Command.applyAll (commandsOf l source lba count) memory' =
        Command.applyAll (commandsOf l source lba count) memory := by
  induction h with
  | none => exact ⟨memory, hd, rfl, rfl⟩
  | world before device memory_eq ih =>
    obtain ⟨memory₁, h₁, hsize₁, happlied⟩ := ih
    exact ⟨memory₁, ⟨h₁.layout_eq, h₁.policy_eq, memory_eq.trans h₁.memory_eq⟩, hsize₁, happlied⟩
  | stalled before write_eq ih =>
    obtain ⟨memory₁, h₁, hsize₁, happlied⟩ := ih
    have hwrite := writeBlocks_applies h₁ source lba count
    rw [write_eq] at hwrite
    obtain ⟨early, hearly, h₂⟩ := hwrite
    -- What this attempt applied is absorbed by the write to come.
    refine ⟨_, h₂, by rw [Command.size_applyAll, hsize₁], ?_⟩
    rw [Command.applyAll_absorb hwithin (hsize₁ ▸ hsize) hearly, happlied]

end Disk

/-- **Retrying is safe.** A write at once stalls any number of times, at any of its commands, and
then succeeds. The memory is the one that a single successful write makes of the first memory. -/
theorem retried_write_memory {τ τ' : Type} [TickSource τ] [TickSource τ'] {source : List UInt8}
    {lba count : UInt32} {d d₁ d₂ : Disk (Timed τ)} {e e₁ : Disk (Timed τ')}
    (hpolicy : d.store.policy = .onSectorStart)
    (hsize : d.store.layout.flashBytes.toNat ≤ d.device.part.memory.size)
    (hattempts : Disk.Attempts source lba count d d₁)
    (hretried : Disk.writeBlocks source lba count d₁ = .ok () d₂)
    (hlayout' : e.store.layout = d.store.layout) (hpolicy' : e.store.policy = .onSectorStart)
    (hmemory' : e.device.part.memory = d.device.part.memory)
    (hsingle : Disk.writeBlocks source lba count e = .ok () e₁) :
    d₂.device.part.memory = e₁.device.part.memory := by
  have honce := Disk.writeBlocks_applies ⟨hlayout', hpolicy', hmemory'⟩ source lba count
  rw [hsingle] at honce
  obtain ⟨hwithin, honce⟩ := honce
  obtain ⟨memory₁, h₁, -, happlied⟩ := hattempts.applies ⟨rfl, hpolicy, rfl⟩ hwithin hsize
  have hagain := Disk.writeBlocks_applies h₁ source lba count
  rw [hretried] at hagain
  rw [hagain.2.memory_eq, honce.memory_eq, happlied]

/-- A slow part stalls once the first of four blocks is programmed; the last two blocks are in a
sector that is erased for them. -/
theorem retried_write_memory_after_stall :
    let layout := Board.orangeCrabR01.layout
    let blank := Memory.blank layout.flashBytes.toNat
    let disk (busyPolls : Nat) (memory : ByteArray) : Disk (Timed StepClock) :=
      .fresh layout Board.orangeCrabR01.layout_valid .onSectorStart { timeout := 2, polls := 8 }
        { part := { memory, busyPolls }, ticks := ⟨0, 1⟩ }
    let write := Disk.writeBlocks (σ := Timed StepClock) (List.replicate 1024 0x5A) 14 4
    ∃ d₁ d₂ e₁, write (disk 5 blank) = .error (.refused (.stalled 0x80E00)) d₁ ∧
      Disk.Attempts (List.replicate 1024 0x5A) 14 4 (disk 5 blank)
        { d₁ with device := (disk 0 d₁.device.part.memory).device } ∧
      write { d₁ with device := (disk 0 d₁.device.part.memory).device } = .ok () d₂ ∧
      (disk 5 blank).store.layout.flashBytes.toNat ≤ (disk 5 blank).device.part.memory.size ∧
      write (disk 0 blank) = .ok () e₁ ∧
      d₂.device.part.memory = e₁.device.part.memory := by
  intro layout blank disk write
  have hsize : (disk 5 blank).store.layout.flashBytes.toNat ≤
      (disk 5 blank).device.part.memory.size := by
    simp [disk, Disk.fresh, blank, layout]
  have hstall : Meets (fun _ _ => False) (fun fault _ => fault = .refused (.stalled 0x80E00))
      (write (disk 5 blank)) := by decide +kernel
  obtain ⟨_, d₁, hfirst, rfl⟩ := hstall.error fun _ _ => id
  have hretried : Meets (fun _ _ => True) (fun _ _ => False)
      (write { d₁ with device := (disk 0 d₁.device.part.memory).device }) := by
    have hd₁ : d₁ = state (write (disk 5 blank)) := by rw [hfirst]; rfl
    rw [hd₁]
    decide +kernel
  have honce : Meets (fun _ _ => True) (fun _ _ => False) (write (disk 0 blank)) := by
    decide +kernel
  obtain ⟨_, d₂, hagain, -⟩ := hretried.ok fun _ _ => id
  obtain ⟨_, e₁, hsingle, -⟩ := honce.ok fun _ _ => id
  have hattempts := (Disk.Attempts.none.stalled hfirst).world
    (disk 0 d₁.device.part.memory).device rfl
  exact ⟨d₁, d₂, e₁, hfirst, hattempts, hagain, hsize, hsingle,
    retried_write_memory (d := disk 5 blank) (e := disk 0 blank) rfl hsize hattempts hagain rfl rfl
      rfl hsingle⟩

end NorDisk
