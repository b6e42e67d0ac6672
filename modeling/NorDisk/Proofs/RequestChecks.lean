import NorDisk.Proofs.AnsweredRequests

/-!
# Requests that are refused or ask for nothing

A request for blocks is looked at before anything is done for it: one for no blocks is answered, one
for blocks past the region is refused, and so is one whose buffer has too little room, in this
order. Nothing else is refused for these reasons, and the disk comes back as it was. Its device may
be any controller next to any clock, one that counts its calls among them, so "as it was" says that
no primitive was invoked and that the clock was not read.

* **`Checked`** — the three answers, and when they are given.
* **`ReadOnly`** — what a read does that passes: at most one switch to the window, one read of it.
* **`requests_checked`** — both requests are checked, and a read that passes changes neither the
  memory of a simulated part nor its clock.
-/

namespace NorDisk

open Outcome

variable {σ : Type} [Controller σ] [TickSource σ]

/-- Is a request refused for what it asks, before anything is done? -/
def FlashError.IsCheck : FlashError → Prop
  | .outOfRange .. | .bufferTooSmall .. => True
  | _ => False

namespace Controller

/-- A command fails only in a wait. -/
theorem execute_stalls (patience : Patience) (command : Command) (s : σ) :
    Meets (fun _ _ => True)
      (fun fault _ => fault = .trap .stuck ∨ fault = .refused (.stalled command.offset))
      (execute patience command s) := by
  -- Both waits of the command fail in the same two ways.
  have hwait : ∀ s : σ, Meets (fun _ _ => True)
      (fun fault _ => fault = .trap .stuck ∨ fault = .refused (.stalled command.offset))
      (waitIdle patience command.offset s) := by
    intro s
    rw [waitIdle, Action.ofStep_bind]
    apply (pollIdle_exact _ _ _ _ _).mono
    · exact fun _ _ _ => trivial
    · exact fun _ _ h => h.imp And.left And.left
  apply Action.Meets.bind (hwait s)
  intro _ s' _
  rw [Action.ofUpdate_bind]
  exact hwait _

/-- No command is refused for what a request asks. -/
theorem carrier_not_check (patience : Patience) :
    Carrier patience (fun _ : σ => True) fun fault => ∀ error, error.IsCheck →
      fault ≠ .refused error where
  enterMapped _ h := h
  enterCommand _ h := h
  readMapped _ _ _ h := h
  execute command s _ := by
    apply (execute_stalls patience command s).mono (fun _ _ h => h)
    rintro fault s' (rfl | rfl) error herror
    · exact nofun
    · rintro ⟨⟩
      exact herror

end Controller

namespace Layout

variable {l : Layout} {lba count : UInt32} {room : Nat}

/-- The request names some blocks, all of the region, and has room for them. -/
def Accepts (l : Layout) (lba count : UInt32) (room : Nat) : Prop :=
  count ≠ 0 ∧ lba.toNat + count.toNat ≤ l.blocks ∧ 256 * count.toNat ≤ room

instance (l : Layout) (lba count : UInt32) (room : Nat) : Decidable (l.Accepts lba count room) :=
  inferInstanceAs (Decidable (_ ∧ _))

/-- A request for some blocks that is not accepted is refused for a reason. -/
theorem refusal?_of_not_accepts (hcount : count ≠ 0) (h : ¬ l.Accepts lba count room) :
    ∃ error, l.refusal? lba count room = some error := by
  cases hrefusal : l.refusal? lba count room with
  | none =>
    obtain ⟨-, hrange, hroom⟩ := of_refusal?_eq_none hcount hrefusal
    exact absurd ⟨hcount, hrange, hroom⟩ h
  | some error => exact ⟨error, rfl⟩

/-- The range is what a request is refused for first. -/
theorem refusal?_eq_outOfRange_iff (hcount : count ≠ 0) :
    l.refusal? lba count room = some (.outOfRange lba count) ↔
      l.blocks < lba.toNat + count.toNat := by
  rw [refusal?, if_neg hcount]
  split
  · rename_i hrange
    exact ⟨fun _ => hrange, fun _ => rfl⟩
  · rename_i hrange
    refine ⟨fun h => ?_, fun h => absurd h hrange⟩
    split at h <;> cases h

/-- The buffer is looked at if the range is in order. -/
theorem refusal?_eq_bufferTooSmall_iff (hcount : count ≠ 0) :
    l.refusal? lba count room = some (.bufferTooSmall (256 * count.toNat) room) ↔
      lba.toNat + count.toNat ≤ l.blocks ∧ room < 256 * count.toNat := by
  rw [refusal?, if_neg hcount]
  split
  · rename_i hrange
    refine ⟨fun h => ?_, fun h => absurd h.1 (Nat.not_le.mpr hrange)⟩
    cases h
  · rename_i hrange
    split
    · rename_i hroom
      exact ⟨fun _ => ⟨Nat.le_of_not_lt hrange, hroom⟩, fun _ => rfl⟩
    · rename_i hroom
      refine ⟨fun h => ?_, fun h => absurd h.2 hroom⟩
      cases h

end Layout

namespace Disk

variable {d : Disk σ} {lba count : UInt32} {buffer : List UInt8}

omit [Controller σ] [TickSource σ] in
/-- A staged sector of the region does not reach past the address space. -/
theorem StageFits.whole (h : d.StageFits) : d.StageWhole := fun s hs => (h s hs).base_lt

/-- The outcome of a request for blocks from a disk `d`: `idle` is answered to one for no blocks,
one that is refused for what it asks leaves the disk as it was. -/
structure Checked {α : Type} (d : Disk σ) (lba count : UInt32) (room : Nat) (idle : α)
    (r : Outcome FlashError (Disk σ) α) : Prop where
  idle : count = 0 → r = .ok idle d
  outOfRange : count ≠ 0 →
    ((∃ d', r = .error (.refused (.outOfRange lba count)) d') ↔
      d.store.layout.blocks < lba.toNat + count.toNat)
  bufferTooSmall : count ≠ 0 →
    ((∃ d', r = .error (.refused (.bufferTooSmall (256 * count.toNat) room)) d') ↔
      lba.toNat + count.toNat ≤ d.store.layout.blocks ∧ room < 256 * count.toNat)
  unchanged : ∀ error d', error.IsCheck → r = .error (.refused error) d' → d' = d

/-- The buffer of the caller after a read: a read that fails hands nothing over. -/
def bufferAfter (buffer : List UInt8) : Outcome FlashError (Disk σ) (List UInt8) → List UInt8
  | .ok bytes _ => bytes
  | .error .. => buffer

/-- What a read that passes its checks leaves of the buffer and of the disk. -/
structure ReadOnly (d : Disk σ) (lba count : UInt32) (buffer bytes : List UInt8) (d' : Disk σ) :
    Prop where
  length_eq : bytes.length = buffer.length
  drop_eq : bytes.drop (256 * count.toNat) = buffer.drop (256 * count.toNat)
  store_eq : d'.store = { d.store with mode := .mapped }
  device_eq : d'.device = (Controller.readMapped (windowBase + d.store.layout.offset lba)
    (256 * count.toNat) d.windowed).2

/-! ## Checks -/

omit [Controller σ] [TickSource σ] in
/-- What decides about a request is `Layout.refusal?`. -/
theorem Checked.of_refusal {α : Type} {room : Nat} {idle : α} {r : Outcome FlashError (Disk σ) α}
    (hidle : count = 0 → r = .ok idle d)
    (hrefused : ∀ error, d.store.layout.refusal? lba count room = some error →
      r = .error (.refused error) d)
    (hwork : ∀ error d', error.IsCheck → r = .error (.refused error) d' →
      d.store.layout.refusal? lba count room = some error) :
    Checked d lba count room idle r where
  idle := hidle
  outOfRange hcount := by
    have hrange : d.store.layout.refusal? lba count room = some (.outOfRange lba count) ↔
        d.store.layout.blocks < lba.toNat + count.toNat := Layout.refusal?_eq_outOfRange_iff hcount
    rw [← hrange]
    exact ⟨fun ⟨d', hr⟩ => hwork _ d' trivial hr, fun h => ⟨d, hrefused _ h⟩⟩
  bufferTooSmall hcount := by
    rw [← Layout.refusal?_eq_bufferTooSmall_iff hcount]
    exact ⟨fun ⟨d', hr⟩ => hwork _ d' trivial hr, fun h => ⟨d, hrefused _ h⟩⟩
  unchanged error d' herror hr := by
    have hd := hrefused error (hwork error d' herror hr)
    rw [hr] at hd
    cases hd
    rfl

omit [Controller σ] [TickSource σ] in
/-- A check is one of `Layout.refusal?`, since commands and addresses fail otherwise. -/
theorem of_fails {request : Request} {error : FlashError} (herror : error.IsCheck)
    (h : request.Fails d.store.layout
      (fun fault => ∀ error, error.IsCheck → fault ≠ .refused error) (.refused error)) :
    request.refusal? d.store.layout = some error := by
  cases h with
  | refused h => exact h
  -- No command fails with a check.
  | command _ _ h => exact absurd rfl (h error herror)

/-- A write is checked before anything is done. -/
theorem writeBlocks_checked (d : Disk σ) (source : List UInt8) (lba count : UInt32) :
    Checked d lba count source.length () (writeBlocks source lba count d) := by
  apply Checked.of_refusal
  · rintro rfl
    rfl
  · exact fun _ => writeBlocks_of_refusal
  · intro error d' herror hr
    -- A refusal with a check for its reason is not one of a command.
    have hcarried := writeBlocks_carried (Controller.carrier_not_check d.store.patience) trivial
      source lba count (d := d)
    rw [hr] at hcarried
    exact of_fails herror hcarried.2

/-- A read is checked before anything is done. -/
theorem readBlocks_checked (d : Disk σ) (buffer : List UInt8) (lba count : UInt32) :
    Checked d lba count buffer.length buffer (readBlocks buffer lba count d) := by
  apply Checked.of_refusal
  · rintro rfl
    rfl
  · exact fun _ => readBlocks_of_refusal
  · intro error d' herror hr
    have hcarried := readBlocks_carried (Controller.carrier_not_check d.store.patience) trivial
      buffer lba count (d := d)
    rw [hr] at hcarried
    exact of_fails herror hcarried.2

/-! ## Reads that pass -/

omit [TickSource σ] in
/-- A read that passes its checks is answered with the bytes shown, and the rest of the buffer. -/
theorem readBlocks_readOnly (hw : d.store.layout.WindowFits) (hstage : d.StageWhole)
    (h : d.store.layout.Accepts lba count buffer.length) :
    ∃ bytes d', readBlocks buffer lba count d = .ok bytes d' ∧
      ReadOnly d lba count buffer bytes d' := by
  obtain ⟨hcount, hrange, hroom⟩ := h
  -- As many bytes are shown as were asked for.
  have hlength : (d.store.layout.shown d.store.stage lba (Controller.readMapped
      (windowBase + d.store.layout.offset lba) (256 * count.toNat) d.windowed).1).length =
        256 * count.toNat := by
    rw [Layout.length_shown, Controller.length_readMapped]
  refine ⟨_, _, readBlocks_of_accepted hw hstage hcount
    (Layout.refusal?_eq_none hrange hroom), ?_, ?_, rfl, rfl⟩
  · rw [Bytes.overwrite, List.length_append, List.length_drop, hlength]
    omega
  · rw [Bytes.overwrite, hlength, List.drop_left' hlength]

/-- Neither opening the window nor reading it changes the memory of a part or its clock. -/
theorem ReadOnly.part_eq {τ : Type} {d d' : Disk (Timed τ)} {bytes : List UInt8}
    (h : ReadOnly d lba count buffer bytes d') :
    d'.device.part.memory = d.device.part.memory ∧ d'.device.ticks = d.device.ticks := by
  have hwindowed : d.windowed.part.memory = d.device.part.memory ∧
      d.windowed.ticks = d.device.ticks := by
    unfold windowed
    split
    · exact ⟨rfl, rfl⟩
    · exact ⟨NorPart.memory_record _ _, rfl⟩
  rw [h.device_eq]
  exact ⟨(NorPart.memory_readMapped _ _ _).trans hwindowed.1, hwindowed.2⟩

/-- **Checks come first.** A request for no blocks is answered, and one that reaches past the region
or has too little room is refused, with the disk and the buffer as they were; no other request is
refused for that. A read that passes is answered, changes no byte of the buffer after its blocks and
nothing about the disk but its mode, and leaves the memory and the clock of a simulated part alone.
The stage of a disk is whole wherever a run ends (`runAll_stageFits` and `StageFits.whole`). -/
theorem requests_checked {τ : Type} (lba count : UInt32) (bytes : List UInt8) :
    (∀ d : Disk σ,
      d.Checked lba count bytes.length () (writeBlocks bytes lba count d) ∧
      d.Checked lba count bytes.length bytes (readBlocks bytes lba count d) ∧
      (¬ d.store.layout.Accepts lba count bytes.length →
        bufferAfter bytes (readBlocks bytes lba count d) = bytes) ∧
      (d.store.layout.WindowFits → d.StageWhole →
        d.store.layout.Accepts lba count bytes.length →
        ∃ bytes' d', readBlocks bytes lba count d = .ok bytes' d' ∧
          d.ReadOnly lba count bytes bytes' d')) ∧
    ∀ d : Disk (Timed τ), d.store.layout.WindowFits → d.StageWhole →
      d.store.layout.Accepts lba count bytes.length →
      ∃ bytes' d', readBlocks bytes lba count d = .ok bytes' d' ∧
        d'.device.part.memory = d.device.part.memory ∧ d'.device.ticks = d.device.ticks := by
  refine ⟨fun d => ⟨writeBlocks_checked d bytes lba count, readBlocks_checked d bytes lba count,
    fun hrefused => ?_, readBlocks_readOnly⟩, fun d hw hstage haccepts => ?_⟩
  · by_cases hcount : count = 0
    · rw [(readBlocks_checked d bytes lba count).idle hcount]
      rfl
    · -- A refused read hands nothing over.
      obtain ⟨error, hrefusal⟩ := Layout.refusal?_of_not_accepts hcount hrefused
      rw [readBlocks_of_refusal hrefusal]
      rfl
  · obtain ⟨bytes', d', hread, hd'⟩ := readBlocks_readOnly hw hstage haccepts
    exact ⟨bytes', d', hread, hd'.part_eq⟩

/-- Two blocks of a staged sector, read into a buffer with room for more. -/
theorem requests_checked_on_staged_sector :
    let sector : StagedSector :=
      ⟨0x80000, List.replicate 4096 0x5A, List.length_replicate, true⟩
    let d : Disk (Timed StepClock) :=
      ⟨{ layout := Board.orangeCrabR01.layout, layout_valid := Board.orangeCrabR01.layout_valid,
         policy := .staged, stage := some sector },
        ⟨{ memory := Memory.blank 0 }, ⟨0, 1⟩⟩⟩
    let buffer : List UInt8 := List.replicate 600 0
    d.store.layout.WindowFits ∧ d.StageWhole ∧ d.store.layout.Accepts 3 2 buffer.length ∧
      (∃ bytes d', Disk.readBlocks buffer 3 2 d = .ok bytes d' ∧ d.ReadOnly 3 2 buffer bytes d') ∧
      ∃ bytes d', Disk.readBlocks buffer 3 2 d = .ok bytes d' ∧
        d'.device.part.memory = d.device.part.memory ∧ d'.device.ticks = d.device.ticks := by
  intro sector d buffer
  have hstage : d.StageWhole := by
    intro s hs
    cases hs
    show (0x80000 : UInt32).toNat + 4096 < 0x100000000
    decide
  have haccepts : d.store.layout.Accepts 3 2 buffer.length := by
    rw [List.length_replicate]
    decide
  have h := requests_checked (σ := Timed StepClock) (τ := StepClock) 3 2 buffer
  have hw : d.store.layout.WindowFits := Board.orangeCrabR01.windowFits
  exact ⟨hw, hstage, haccepts, (h.1 d).2.2.2 hw hstage haccepts, h.2 d hw hstage haccepts⟩

end Disk

end NorDisk
