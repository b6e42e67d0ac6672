import NorDisk.Proofs.BlockArray
import NorDisk.Proofs.Requests

/-!
# Runs of blocks

A write is carried out sector by sector: a run is what a request has in one sector, and the request
goes on behind it. What runs come to does not depend on where they begin and end. Inside the region
no sum of the loops leaves its word, no stretch that they copy leaves its buffer, and

* writing at once executes the commands of the blocks one after the other (`writeThrough_eq`),
* writing into the stage puts the blocks into it one after the other (`writeStaged_eq`),
* a read shows the bytes of the copy where they are pending (`StagedSector.overlay_eq`).

`Disk.writeEach` and `Disk.stageEach` write single blocks; what a request does that is not refused
is stated with them (`writeBlocks_of_accepted`).
-/

namespace NorDisk

open Outcome

/-- Two lists of commands are executed one after the other. -/
theorem Controller.executeAll_append {σ : Type} [Controller σ] [TickSource σ] (patience : Patience)
    (commands commands' : List Command) :
    (executeAll patience (commands ++ commands') : Action FlashError σ Unit) =
      executeAll patience commands >>= fun _ => executeAll patience commands' := by
  induction commands with
  | nil => simp [executeAll]
  | cons command rest ih => simp [executeAll, ih]

namespace Layout

variable {l : Layout} {lba remaining i : UInt32} {block : List UInt8} {blocks : List (List UInt8)}

/-! ## The commands of a run

Only the first block of a sector is erased for, so behind it a run has nothing but programs. -/

/-- The programs for blocks from `lba` on. -/
def pageWrites (l : Layout) : UInt32 → List (List UInt8) → List Command
  | _, [] => []
  | lba, block :: rest => .program (l.offset lba) block :: l.pageWrites (lba + 1) rest

/-- Blocks behind the first one of a sector are not erased for, up to its end. -/
theorem writes_eq_pageWrites (hfirst : lba.toNat % 16 ≠ 0)
    (hsector : lba.toNat % 16 + blocks.length ≤ 16) :
    l.writes lba blocks = l.pageWrites lba blocks := by
  induction blocks generalizing lba with
  | nil => rfl
  | cons block rest ih =>
    rw [List.length_cons] at hsector
    have hblock : l.blockWrite lba block = [.program (l.offset lba) block] :=
      if_neg (mt (blockInSector_eq_zero_iff lba).mp hfirst)
    have hnext : (lba + 1).toNat % 16 = (lba.toNat % 16 + 1) % 16 := by
      rw [UInt32.toNat_add, show (1 : UInt32).toNat = 1 from rfl]
      omega
    rw [writes, pageWrites, hblock]
    -- The last place of the sector is followed by another sector, but there the run ends.
    cases rest with
    | nil => rfl
    | cons next rest =>
      rw [List.length_cons] at hsector ih
      rw [ih (by omega) (by omega)]
      rfl

/-- The commands of a run: an erase if it starts on the first block of its sector, and programs. -/
theorem writes_run (hblocks : blocks ≠ []) (hsector : lba.toNat % 16 + blocks.length ≤ 16) :
    l.writes lba blocks =
      (if blockInSector lba = 0 then [.erase (sectorBase (l.offset lba))] else []) ++
        l.pageWrites lba blocks := by
  by_cases hfirst : lba.toNat % 16 = 0
  · cases blocks with
    | nil => exact absurd rfl hblocks
    | cons block rest =>
      rw [List.length_cons] at hsector
      have hstart := (blockInSector_eq_zero_iff lba).mpr hfirst
      have hnext : (lba + 1).toNat % 16 = 1 := by
        rw [UInt32.toNat_add, show (1 : UInt32).toNat = 1 from rfl]
        omega
      -- The run starts its sector: one erase, and none behind it.
      rw [writes, blockWrite, if_pos hstart, if_pos hstart, pageWrites,
        writes_eq_pageWrites (by omega) (by omega)]
      rfl
  · rw [if_neg (mt (blockInSector_eq_zero_iff lba).mp hfirst), writes_eq_pageWrites hfirst hsector]
    rfl

/-- The page of a block lies as many pages behind another one as it comes blocks after it. -/
theorem offset_add (l : Layout) (lba i : UInt32) :
    l.offset (lba + i) = l.offset lba + i * blockBytes := by
  rw [offset, offset, UInt32.add_mul, UInt32.add_assoc]

/-- The sums that name the pages of a run stay inside the part. -/
theorem page_eq (hv : l.Valid) (h : lba.toNat + i.toNat < l.blocks) :
    Checked.mul i blockBytes = .ok (i * blockBytes) ∧
      Checked.add (l.offset lba) (i * blockBytes) = .ok (l.offset (lba + i)) := by
  have hcount := blocks_lt l
  have hflash := l.flashBytes.toNat_lt
  have hoffset : (l.offset lba).toNat = l.blockOffset lba.toNat := toNat_offset hv (by omega)
  have hend := hv.blockOffset_le h
  have hmul : (i * blockBytes).toNat = 256 * i.toNat := by
    rw [UInt32.toNat_mul, show blockBytes.toNat = 256 from rfl]
    omega
  unfold blockOffset at hoffset hend
  refine ⟨Checked.mul_eq_ok ?_, ?_⟩
  · rw [show blockBytes.toNat = 256 from rfl]
    omega
  · rw [offset_add]
    exact Checked.add_eq_ok (by omega)

/-- The block after a run of the region is a block number. -/
theorem toNat_add_run (h : lba.toNat + remaining.toNat ≤ l.blocks) :
    Checked.add lba (runLength lba remaining) = .ok (lba + runLength lba remaining) ∧
      (lba + runLength lba remaining).toNat = lba.toNat + (runLength lba remaining).toNat := by
  have hcount := blocks_lt l
  have hrun := toNat_runLength lba remaining
  have hle : (runLength lba remaining).toNat ≤ remaining.toNat := by omega
  refine ⟨Checked.add_eq_ok (by omega), ?_⟩
  rw [UInt32.toNat_add]
  omega

/-- A run begins as far into its sector as its first block is from the start of that. -/
theorem sub_sectorBase (hv : l.Valid) (hlba : lba.toNat < l.blocks) :
    (sectorBase (l.offset lba)).toNat ≤ (l.offset lba).toNat ∧
      (l.offset lba - sectorBase (l.offset lba)).toNat = 256 * (lba.toNat % 16) := by
  have hoffset := toNat_offset hv hlba
  have hbase := toNat_sectorBase_offset hv hlba
  unfold blockOffset at hoffset hbase
  have hle : (sectorBase (l.offset lba)).toNat ≤ (l.offset lba).toNat := by omega
  refine ⟨hle, ?_⟩
  rw [UInt32.toNat_sub_of_le _ _ (UInt32.le_iff_toNat_le.mpr hle)]
  omega

end Layout

/-! ## Reading over the stage

The stretch of a read and the staged sector meet in a stretch of both, or not at all. -/

namespace StagedSector

variable {s : StagedSector} {offset : UInt32} {bytes : List UInt8}

/-- The sector ends inside the address space. -/
def Whole (s : StagedSector) : Prop := s.base.toNat + 4096 < 0x100000000

/-- Bytes from `offset` on, with those of the sector taken from the copy. -/
def overlaid (s : StagedSector) (offset : Nat) (bytes : List UInt8) : List UInt8 :=
  bytes.mapIdx fun j byte =>
    if s.base.toNat ≤ offset + j ∧ offset + j < s.base.toNat + 4096 then
      s.data.getD (offset + j - s.base.toNat) 0
    else byte

@[simp] theorem length_overlaid (s : StagedSector) (offset : Nat) (bytes : List UInt8) :
    (s.overlaid offset bytes).length = bytes.length := List.length_mapIdx

/-- A read that does not meet the sector is shown as it is. -/
theorem overlaid_of_apart {offset : Nat}
    (h : min (offset + bytes.length) (s.base.toNat + 4096) ≤ max offset s.base.toNat) :
    s.overlaid offset bytes = bytes := by
  apply List.ext_getElem (s.length_overlaid _ _)
  intro j _ hj
  simp only [overlaid, List.getElem_mapIdx]
  rw [if_neg (by omega)]

/-- The stretch that the read and the sector share lies inside both. -/
theorem length_shared {offset start stop : Nat} (hstart : start = max offset s.base.toNat)
    (hstop : stop = min (offset + bytes.length) (s.base.toNat + 4096)) (hmeet : start < stop) :
    ((s.data.drop (start - s.base.toNat)).take (stop - start)).length = stop - start ∧
      start - s.base.toNat + (stop - start) ≤ s.data.length ∧
      start - offset + (stop - start) ≤ bytes.length := by
  have hdata := s.length_data
  refine ⟨?_, by omega, by omega⟩
  rw [List.length_take, List.length_drop]
  omega

/-- Where the read and the sector meet, the stretch that they share is copied over the read. -/
theorem splice_eq_overlaid {offset start stop : Nat} (hstart : start = max offset s.base.toNat)
    (hstop : stop = min (offset + bytes.length) (s.base.toNat + 4096)) (hmeet : start < stop) :
    Bytes.splice bytes (start - offset)
        ((s.data.drop (start - s.base.toNat)).take (stop - start)) =
      s.overlaid offset bytes := by
  have hdata := s.length_data
  obtain ⟨hlength, -, hfits⟩ := length_shared hstart hstop hmeet
  apply List.ext_getElem?
  intro j
  rw [Bytes.getElem?_splice (by rwa [hlength]), hlength, overlaid, List.getElem?_mapIdx]
  by_cases hj : j < bytes.length
  · -- Byte `j` of the read: in the common stretch it is taken from the copy.
    by_cases hinside : s.base.toNat ≤ offset + j ∧ offset + j < s.base.toNat + 4096
    · have hindex : start - s.base.toNat + (j - (start - offset)) = offset + j - s.base.toNat := by
        omega
      rw [if_pos (by omega), List.getElem?_take_of_lt (by omega), List.getElem?_drop, hindex,
        List.getElem?_eq_getElem hj, Option.map_some, if_pos hinside,
        List.getElem?_eq_getElem (by omega), List.getD_eq_getElem?_getD,
        List.getElem?_eq_getElem (by omega), Option.getD_some]
    · rw [if_neg (by omega), List.getElem?_eq_getElem hj, Option.map_some, if_neg hinside]
  · rw [if_neg (by omega), List.getElem?_eq_none (by omega)]
    rfl

/-- **The overlay.** Where neither the read nor the sector reaches the end of the address space, no
sum leaves its word and both stretches lie inside their buffers. -/
theorem overlay_eq (hread : offset.toNat + bytes.length < 0x100000000)
    (hsector : s.Whole) :
    s.overlay offset bytes = .ok (s.overlaid offset.toNat bytes) := by
  have hlength : bytes.length.toUInt32.toNat = bytes.length :=
    UInt32.toNat_ofNat_of_lt' (show _ < 2 ^ 32 by omega)
  unfold Whole at hsector
  have hbytes : sectorBytes.toNat = 4096 := rfl
  -- Both ends are sums in their words, so that the two stretches meet where their places say.
  have hreadEnd : (offset + bytes.length.toUInt32).toNat = offset.toNat + bytes.length := by
    rw [UInt32.toNat_add]
    omega
  have hsectorEnd : (s.base + sectorBytes).toNat = s.base.toNat + 4096 := by
    rw [UInt32.toNat_add]
    omega
  have hstart := Word.toNat_max offset s.base
  have hstop := Word.toNat_min (offset + bytes.length.toUInt32) (s.base + sectorBytes)
  rw [overlay, Checked.add_eq_ok (by omega), Checked.add_eq_ok (by omega)]
  simp only [bind, Except.bind, pure, Except.pure]
  generalize max offset s.base = start at *
  generalize min (offset + bytes.length.toUInt32) (s.base + sectorBytes) = stop at *
  rw [hreadEnd, hsectorEnd] at hstop
  by_cases hapart : stop ≤ start
  · rw [if_pos hapart, overlaid_of_apart]
    rwa [UInt32.le_iff_toNat_le, hstart, hstop] at hapart
  · rw [if_neg hapart]
    rw [UInt32.le_iff_toNat_le, Nat.not_le] at hapart
    obtain ⟨hshared, hsource, htarget⟩ := length_shared hstart hstop hapart
    -- No difference of two places goes below zero.
    have hsub {a b : UInt32} (h : b.toNat ≤ a.toNat) : (a - b).toNat = a.toNat - b.toNat :=
      UInt32.toNat_sub_of_le _ _ (UInt32.le_iff_toNat_le.mpr h)
    rw [Checked.sub_eq_ok (by omega), Checked.sub_eq_ok (by omega), Checked.sub_eq_ok (by omega)]
    simp only [hsub (Nat.le_of_lt hapart), hsub (show offset.toNat ≤ start.toNat by omega),
      hsub (show s.base.toNat ≤ start.toNat by omega), Checked.slice_eq_ok hsource]
    rw [Checked.splice_eq_ok (by rwa [hshared]), splice_eq_overlaid hstart hstop hapart]

end StagedSector

/-- The bytes that a read from block `lba` on makes of those in the window. -/
def Layout.shown (l : Layout) (stage : Option StagedSector) (lba : UInt32) (window : List UInt8) :
    List UInt8 :=
  match stage.filter (·.dirty) with
  | none => window
  | some t => t.overlaid (l.blockOffset lba.toNat) window

@[simp] theorem Layout.length_shown (l : Layout) (stage : Option StagedSector) (lba : UInt32)
    (window : List UInt8) : (l.shown stage lba window).length = window.length := by
  unfold shown
  split
  · rfl
  · exact StagedSector.length_overlaid _ _ _

namespace Disk

variable {σ : Type} [Controller σ] [TickSource σ] {d : Disk σ} {lba remaining i : UInt32}
  {blocks : List (List UInt8)}

/-! ## Writing at once -/

/-- What executes some commands and then some more executes both lists. -/
theorem bind_eq_executeAll {act : Action FlashError (Disk σ) Unit}
    {k : Unit → Action FlashError (Disk σ) Unit} {commands commands' : List Command}
    (hact : act d = onDevice (Controller.executeAll d.store.patience commands) d)
    (hk : ∀ e : Disk σ, e.store = d.store →
      k () e = onDevice (Controller.executeAll d.store.patience commands') e) :
    (act >>= k) d =
      onDevice (Controller.executeAll d.store.patience (commands ++ commands')) d := by
  -- The first half is that list of commands, and the second half runs from whatever they leave.
  have hfirst : (act >>= k) d =
      (onDevice (Controller.executeAll d.store.patience commands) >>= k) d := by
    rw [Action.bind_apply, Action.bind_apply, hact]
  rw [hfirst, Controller.executeAll_append, onDevice_bind]
  apply Action.bind_congr_of
  exact (onDevice_store _ d).mono (fun _ e he => hk e he) fun _ _ he => he

/-- One command is a list of one. -/
theorem execute_eq (command : Command) (d : Disk σ) :
    execute command d = onDevice (Controller.executeAll d.store.patience [command]) d := by
  rw [execute, ask_bind, Controller.executeAll]
  simp only [Controller.executeAll, bind_pure_unit]

/-- The pages of a run are programmed in order, the first of them `i` pages behind block `lba`. -/
theorem programPages_eq {l : Layout} (hv : l.Valid)
    (h : lba.toNat + i.toNat + blocks.length ≤ l.blocks)
    (d : Disk σ) :
    programPages (l.offset lba) i blocks d =
      onDevice (Controller.executeAll d.store.patience (l.pageWrites (lba + i) blocks)) d := by
  induction blocks generalizing i d with
  | nil => rfl
  | cons block rest ih =>
    rw [List.length_cons] at h
    have hcount := l.blocks_lt
    have hnext : (i + 1).toNat = i.toNat + 1 := by
      rw [UInt32.toNat_add, show (1 : UInt32).toNat = 1 from rfl]
      omega
    have hpage : lba.toNat + i.toNat < l.blocks := by omega
    -- Neither the product nor the sum that names this page leaves its word.
    obtain ⟨hmul, hadd⟩ := Layout.page_eq hv hpage
    have hfirst := execute_eq (.program (l.offset (lba + i)) block) d
    rw [programPages, hmul, Action.ofChecked_bind, hadd, Action.ofChecked_bind]
    apply bind_eq_executeAll hfirst
    intro e he
    rw [ih (by omega), he, UInt32.add_assoc]

/-- One run erases where it starts a sector, and programs the pages of its blocks. -/
theorem writeRun_eq (hblocks : blocks ≠ []) (hsector : lba.toNat % 16 + blocks.length ≤ 16)
    (hrange : lba.toNat + blocks.length ≤ d.store.layout.blocks) :
    writeRun lba blocks d =
      onDevice (Controller.executeAll d.store.patience (d.store.layout.writes lba blocks)) d := by
  have hv := d.store.layout_valid
  have hpos := List.length_pos_iff.mpr hblocks
  -- The pages are programmed after the erase, if there is one, from a disk with the same store.
  have hpages (e : Disk σ) (he : e.store = d.store) :
      programPages (d.store.layout.offset lba) 0 blocks e =
        onDevice (Controller.executeAll d.store.patience (d.store.layout.pageWrites lba blocks))
          e := by
    have hzero : lba.toNat + (0 : UInt32).toNat + blocks.length ≤ d.store.layout.blocks := hrange
    rw [programPages_eq hv hzero, UInt32.add_zero, he]
  rw [writeRun, ask_bind, Layout.offsetOf_eq hv (by omega), Action.ofChecked_bind,
    Layout.writes_run hblocks hsector]
  split
  · exact bind_eq_executeAll (execute_eq _ _) hpages
  · exact hpages d rfl

/-- **Writing at once, run by run.** Whatever the runs are, the commands are those of the blocks,
one block after the other. Induction on what remains: a run takes at least one block. -/
theorem writeRuns_eq (hcount : remaining.toNat = blocks.length)
    (hrange : lba.toNat + blocks.length ≤ d.store.layout.blocks) :
    writeRuns lba remaining blocks d =
      onDevice (Controller.executeAll d.store.patience (d.store.layout.writes lba blocks)) d := by
  induction hmeasure : remaining.toNat using Nat.strongRecOn
    generalizing lba remaining blocks d with
  | ind n ih =>
    unfold writeRuns
    by_cases hzero : remaining = 0
    · subst hzero
      obtain rfl := List.length_eq_zero_iff.mp hcount.symm
      rfl
    · have hrun := toNat_runLength lba remaining
      have hrest := toNat_sub_runLength lba remaining
      have hless := toNat_sub_runLength_lt lba hzero
      obtain ⟨hadd, hnext⟩ := Layout.toNat_add_run (hcount ▸ hrange)
      rw [if_neg hzero]
      generalize runLength lba remaining = run at *
      -- The run takes its blocks off the front.
      have htake : (blocks.take run.toNat).length = run.toNat := by
        rw [List.length_take]
        omega
      have hnonempty : blocks.take run.toNat ≠ [] := by
        rw [Ne, ← List.length_eq_zero_iff]
        omega
      have hblocks : d.store.layout.writes lba blocks =
          d.store.layout.writes lba (blocks.take run.toNat) ++
            d.store.layout.writes (lba + run) (blocks.drop run.toNat) := by
        conv => lhs; rw [← List.take_append_drop run.toNat blocks]
        rw [Layout.writes_append, htake, UInt32.ofNat_toNat]
      rw [hblocks]
      refine bind_eq_executeAll (writeRun_eq hnonempty (by omega) (by omega)) fun e he => ?_
      rw [hadd, Action.ofChecked_bind, ← he]
      refine ih _ (by omega) ?_ ?_ rfl
      · rw [List.length_drop]
        omega
      · rw [List.length_drop, he]
        omega

/-- Switch to commands and execute those of blocks from `lba` on, one block after the other. -/
def writeEach (lba : UInt32) (blocks : List (List UInt8)) : Action FlashError (Disk σ) Unit := do
  enterCommand
  let layout ← ask (·.layout)
  executeAll (layout.writes lba blocks)

/-- The commands are executed after a switch; the store notes the mode. -/
theorem writeEach_eq (lba : UInt32) (blocks : List (List UInt8)) (d : Disk σ) :
    writeEach lba blocks d =
      onDevice (Controller.executeAll d.store.patience (d.store.layout.writes lba blocks))
        ⟨{ d.store with mode := .command }, Controller.enterCommand d.device⟩ := rfl

/-- A write at once is the list of its commands, whatever its runs are. -/
theorem writeThrough_eq {count : UInt32} (hcount : count.toNat = blocks.length)
    (hrange : lba.toNat + blocks.length ≤ d.store.layout.blocks) :
    writeThrough lba count blocks d = writeEach lba blocks d := by
  have henter : enterCommand d =
      .ok () ⟨{ d.store with mode := .command }, Controller.enterCommand d.device⟩ := rfl
  rw [writeThrough, Action.bind_apply, henter]
  exact writeRuns_eq hcount hrange

/-! ## Writing into the stage -/

/-- Put blocks from `lba` on into the stage, one by one. -/
def stageEach : UInt32 → List (List UInt8) → Action FlashError (Disk σ) Unit
  | _, [] => pure ()
  | lba, block :: rest => do
    let layout ← ask (·.layout)
    let offset := layout.offset lba
    loadSector (sectorBase offset)
    update fun store => { store with stage := store.stage.map (·.put (pageInSector offset) block) }
    stageEach (lba + 1) rest

/-- Blocks that follow each other are staged one list after the other. -/
theorem stageEach_append (lba : UInt32) (blocks blocks' : List (List UInt8)) :
    (stageEach lba (blocks ++ blocks') : Action FlashError (Disk σ) Unit) =
      stageEach lba blocks >>= fun _ => stageEach (lba + UInt32.ofNat blocks.length) blocks' := by
  induction blocks generalizing lba with
  | nil => simp [stageEach]
  | cons block rest ih =>
    simp only [List.cons_append, List.length_cons, stageEach, ih, Layout.add_ofNat_succ, bind_assoc]

/-- A sector that is staged already is not loaded again. -/
theorem loadSector_of_staged {base : UInt32} (h : d.store.stage.map (·.base) = some base) :
    loadSector base d = .ok () d := by
  rw [loadSector, ask_bind, if_neg (not_not_intro h)]
  rfl

/-- Writing back what is pending leaves the layout. -/
theorem flush_layout (d : Disk σ) :
    Meets (fun _ e => e.store.layout = d.store.layout) (fun _ _ => True) (flush d) := by
  have hensure : Meets (fun _ e => e.store.layout = d.store.layout) (fun _ _ => True)
      (ensureCommand d) := by
    rw [ensureCommand, ask_bind]
    split <;> exact rfl
  rw [flush, ask_bind]
  cases d.store.pending? with
  | none => exact rfl
  | some sector =>
    apply Action.Meets.bind hensure
    intro _ d₁ h₁
    cases hcommands : sector.commands with
    | error cause => exact trivial
    | ok commands =>
      rw [Action.ofChecked_bind, executeAll, bind_assoc, ask_bind]
      apply Action.Meets.bind_of (onDevice_store _ d₁) (fun _ _ _ => trivial)
      intro _ d₂ h₂
      rw [update_apply]
      show d₂.store.layout = _
      rw [h₂, h₁]

/-- When a sector has been staged it is the staged one, and the layout is as it was. -/
theorem loadSector_staged (base : UInt32) (d : Disk σ) :
    Meets (fun _ e => e.store.layout = d.store.layout ∧ e.store.stage.map (·.base) = some base)
      (fun _ _ => True) (loadSector base d) := by
  by_cases hstaged : d.store.stage.map (·.base) = some base
  · rw [loadSector_of_staged hstaged]
    exact ⟨rfl, hstaged⟩
  · rw [loadSector, ask_bind, if_pos hstaged]
    apply Action.Meets.bind (flush_layout d)
    intro _ d₁ h₁
    have hensure : Meets (fun _ e => e.store.layout = d.store.layout) (fun _ _ => True)
        (ensureMapped d₁) := by
      rw [ensureMapped, ask_bind]
      split <;> exact h₁
    apply Action.Meets.bind hensure
    intro _ d₂ h₂
    cases Checked.add windowBase base with
    | error cause => exact trivial
    | ok addr =>
      rw [Action.ofChecked_bind, onDevice_ofStep_bind, update_apply]
      exact ⟨h₂, rfl⟩

omit [Controller σ] [TickSource σ] in
/-- A stretch is written into the copy of the staged sector. -/
theorem writeStage_of_staged {s t : StagedSector} {start : Nat} {bytes : List UInt8}
    (hstage : d.store.stage = some s) (hwrite : s.write start bytes = .ok t) :
    writeStage start bytes d = .ok () { d with store := { d.store with stage := some t } } := by
  rw [writeStage, ask_bind, hstage]
  show (Action.ofChecked (s.write start bytes) >>= _) d = _
  rw [hwrite, Action.ofChecked_bind, update_apply]

/-- **A run in the staged sector.** Blocks that are put there one by one are written as one stretch.
Induction on the blocks: the sector that is staged stays the same. -/
theorem stageEach_of_staged {s : StagedSector} (hstage : d.store.stage = some s)
    (hbase : s.base = sectorBase (d.store.layout.offset lba)) (hblocks : blocks ≠ [])
    (hsector : lba.toNat % 16 + blocks.length ≤ 16)
    (hrange : lba.toNat + blocks.length ≤ d.store.layout.blocks)
    (hlength : ∀ block ∈ blocks, block.length = 256) :
    ∃ t, s.write (256 * (lba.toNat % 16)) blocks.flatten = .ok t ∧
      stageEach lba blocks d = .ok () { d with store := { d.store with stage := some t } } := by
  induction blocks generalizing lba s d with
  | nil => exact absurd rfl hblocks
  | cons block rest ih =>
    have hv := d.store.layout_valid
    have hbound := Bytes.length_flatten_of_forall hlength
    rw [List.length_cons] at hsector hrange hbound
    have hlba : lba.toNat < d.store.layout.blocks := by omega
    have hblock := hlength block List.mem_cons_self
    have hplace := Layout.pageInSector_offset hv hlba
    have hfirst := StagedSector.write_block hblock (pageInSector (d.store.layout.offset lba)) s
    rw [hplace] at hfirst
    have hstaged : d.store.stage.map (·.base) =
        some (sectorBase (d.store.layout.offset lba)) := by
      rw [hstage]
      exact congrArg some hbase
    rw [stageEach, ask_bind, Action.bind_apply, loadSector_of_staged hstaged]
    show ∃ t, _ ∧ (update _ >>= _) d = _
    rw [update_bind, hstage]
    -- The next block, if there is one, lies in the same sector.
    by_cases hrest : rest = []
    · subst hrest
      exact ⟨_, by simpa using hfirst, rfl⟩
    · have hpos := List.length_pos_iff.mpr hrest
      obtain ⟨-, hnext⟩ := Layout.add_one_eq hlba
      have hsame : sectorBase (d.store.layout.offset lba) =
          sectorBase (d.store.layout.offset (lba + 1)) :=
        (Layout.sectorBase_offset_eq_iff hv hlba (by omega)).mpr (by omega)
      -- A name for the disk after this block, so that the hypothesis for the rest is about it.
      obtain ⟨d₁, hd₁, hstage₁, hlayout₁⟩ : ∃ d₁ : Disk σ,
          d₁ = { d with store := { d.store with
            stage := some (s.put (pageInSector (d.store.layout.offset lba)) block) } } ∧
          d₁.store.stage = some (s.put (pageInSector (d.store.layout.offset lba)) block) ∧
          d₁.store.layout = d.store.layout := ⟨_, rfl, rfl, rfl⟩
      have hbase₁ : (s.put (pageInSector (d.store.layout.offset lba)) block).base =
          sectorBase (d₁.store.layout.offset (lba + 1)) := by
        rw [StagedSector.base_put, hbase, hlayout₁, hsame]
      obtain ⟨t, ht, hput⟩ := ih hstage₁ hbase₁ hrest (by omega) (by rw [hlayout₁]; omega)
        fun b hb => hlength b (List.mem_cons_of_mem _ hb)
      subst hd₁
      refine ⟨t, ?_, hput⟩
      -- The stretch of the rest begins where this block ends.
      have hplace' : 256 * ((lba + 1).toNat % 16) = 256 * (lba.toNat % 16) + block.length := by
        omega
      rw [List.flatten_cons] at hbound ⊢
      rw [hplace', StagedSector.write_append (by omega) hfirst] at ht
      exact ht

/-- Loading the sector of the first block changes nothing about what follows. -/
theorem loadSector_stageEach (lba : UInt32) (block : List UInt8) (rest : List (List UInt8))
    (d : Disk σ) :
    stageEach lba (block :: rest) d =
      (loadSector (sectorBase (d.store.layout.offset lba)) >>= fun _ =>
        stageEach lba (block :: rest)) d := by
  conv => lhs; rw [stageEach, ask_bind]
  apply Action.bind_congr_of
  apply (loadSector_staged _ d).mono
  · intro _ e he
    obtain ⟨hlayout, hstaged⟩ := he
    have hskip := loadSector_of_staged hstaged
    -- Once loaded, the sector is not loaded again.
    conv => rhs; rw [stageEach, ask_bind, hlayout, Action.bind_apply, hskip]
  · exact fun _ _ h => h

/-- A run in the staged sector is one stretch of the source, and one stretch of the copy. -/
theorem writeStage_eq_stageEach {source : List UInt8} {cursor : Nat} {run : UInt32}
    (hstaged : d.store.stage.map (·.base) = some (sectorBase (d.store.layout.offset lba)))
    (hpos : 0 < run.toNat) (hsector : lba.toNat % 16 + run.toNat ≤ 16)
    (hrange : lba.toNat + run.toNat ≤ d.store.layout.blocks)
    (hsource : cursor + 256 * run.toNat ≤ source.length) :
    ∃ e : Disk σ,
      writeStage (256 * (lba.toNat % 16)) ((source.drop cursor).take (256 * run.toNat)) d =
          .ok () e ∧
        stageEach lba (Bytes.pieces 256 run.toNat (source.drop cursor)) d = .ok () e ∧
        e.store.layout = d.store.layout := by
  have hroom : 256 * run.toNat ≤ (source.drop cursor).length := by
    rw [List.length_drop]
    omega
  have hblocks := Bytes.length_pieces 256 run.toNat (source.drop cursor)
  have hnonempty : Bytes.pieces 256 run.toNat (source.drop cursor) ≠ [] := by
    rw [Ne, ← List.length_eq_zero_iff]
    omega
  obtain ⟨s, hstage, hbase⟩ := Option.map_eq_some_iff.mp hstaged
  obtain ⟨t, hwrite, heach⟩ := stageEach_of_staged hstage hbase hnonempty (by omega) (by omega)
    fun _ => Bytes.length_of_mem_pieces hroom
  -- The blocks of the run, laid end to end, are its stretch of the source.
  have hbytes : (Bytes.pieces 256 run.toNat (source.drop cursor)).flatten =
      (source.drop cursor).take (256 * run.toNat) := by
    rw [← Bytes.pieces_take, Bytes.flatten_pieces]
    rw [List.length_take, Nat.min_eq_left hroom]
  rw [hbytes] at hwrite
  exact ⟨_, writeStage_of_staged hstage hwrite, heach, rfl⟩

/-- A run inside the region and inside its source is loaded and written; no sum or stretch traps. -/
theorem stageRun_apply {source : List UInt8} {cursor : Nat} {run : UInt32}
    (hlba : lba.toNat < d.store.layout.blocks)
    (hsource : cursor + 256 * run.toNat ≤ source.length) :
    stageRun source cursor lba run d =
      (loadSector (sectorBase (d.store.layout.offset lba)) >>= fun _ =>
        writeStage (256 * (lba.toNat % 16)) ((source.drop cursor).take (256 * run.toNat))) d := by
  have hv := d.store.layout_valid
  obtain ⟨hle, hplace⟩ := Layout.sub_sectorBase hv hlba
  rw [stageRun, ask_bind, Layout.offsetOf_eq hv hlba, Action.ofChecked_bind,
    Checked.sub_eq_ok hle, Checked.slice_eq_ok hsource]
  simp only [← hplace]
  rfl

/-- One run is copied into its sector as its blocks are. -/
theorem stageRun_eq {source : List UInt8} {cursor : Nat} {run : UInt32} (hpos : 0 < run.toNat)
    (hsector : lba.toNat % 16 + run.toNat ≤ 16)
    (hrange : lba.toNat + run.toNat ≤ d.store.layout.blocks)
    (hsource : cursor + 256 * run.toNat ≤ source.length) :
    stageRun source cursor lba run d =
        stageEach lba (Bytes.pieces 256 run.toNat (source.drop cursor)) d ∧
      Meets (fun _ e => e.store.layout = d.store.layout) (fun _ _ => True)
        (stageRun source cursor lba run d) := by
  have hblocks := Bytes.length_pieces 256 run.toNat (source.drop cursor)
  have hloaded := loadSector_staged (sectorBase (d.store.layout.offset lba)) d
  -- Once the sector is staged, the run is one stretch of it.
  have hwritten (e : Disk σ) (hlayout : e.store.layout = d.store.layout)
      (hstaged : e.store.stage.map (·.base) = some (sectorBase (d.store.layout.offset lba))) :=
    writeStage_eq_stageEach (d := e) (hlayout ▸ hstaged) hpos hsector (hlayout ▸ hrange) hsource
  rw [stageRun_apply (by omega) hsource]
  constructor
  · match hpieces : Bytes.pieces 256 run.toNat (source.drop cursor) with
    | [] => simp [hpieces] at hblocks; omega
    | block :: rest =>
      rw [loadSector_stageEach]
      apply Action.bind_congr_of
      apply hloaded.mono
      · intro _ e he
        obtain ⟨e', hwrite, heach, -⟩ := hwritten e he.1 he.2
        rw [hpieces] at heach
        rw [hwrite, heach]
      · exact fun _ _ h => h
  · apply Action.Meets.bind hloaded
    intro _ e he
    obtain ⟨e', hwrite, -, hlayout⟩ := hwritten e he.1 he.2
    rw [hwrite]
    exact hlayout.trans he.1

/-- **Writing into the stage, run by run.** Whatever the runs are, the blocks are put into the stage
one after the other. Induction on what remains, as for writing at once. -/
theorem stageRuns_eq {source : List UInt8} {cursor : Nat}
    (hrange : lba.toNat + remaining.toNat ≤ d.store.layout.blocks)
    (hsource : cursor + 256 * remaining.toNat ≤ source.length) :
    stageRuns source cursor lba remaining d =
      stageEach lba (Bytes.pieces 256 remaining.toNat (source.drop cursor)) d := by
  induction hmeasure : remaining.toNat using Nat.strongRecOn
    generalizing cursor lba remaining d with
  | ind n ih =>
    subst hmeasure
    unfold stageRuns
    by_cases hzero : remaining = 0
    · subst hzero
      rfl
    · have hrun := toNat_runLength lba remaining
      have hrest := toNat_sub_runLength lba remaining
      have hless := toNat_sub_runLength_lt lba hzero
      obtain ⟨hadd, hnext⟩ := Layout.toNat_add_run hrange
      rw [if_neg hzero]
      generalize runLength lba remaining = run at *
      have hsum : remaining.toNat = run.toNat + (remaining - run).toNat := by omega
      have hsector : lba.toNat % 16 + run.toNat ≤ 16 := by omega
      have hregion : lba.toNat + run.toNat ≤ d.store.layout.blocks := by omega
      have hstretch : cursor + 256 * run.toNat ≤ source.length := by omega
      obtain ⟨hfirst, hlayout⟩ := stageRun_eq (by omega) hsector hregion hstretch
      -- The blocks of the run come first, and the others follow them in the source.
      rw [hsum, Bytes.pieces_add, stageEach_append, Bytes.length_pieces, UInt32.ofNat_toNat,
        List.drop_drop, Action.bind_apply, Action.bind_apply, ← hfirst, ← Action.bind_apply,
        ← Action.bind_apply]
      apply Action.bind_congr_of
      apply hlayout.mono
      · intro _ e he
        rw [hadd, Action.ofChecked_bind]
        exact ih _ hless (by rw [he]; omega) (by omega) rfl
      · exact fun _ _ h => h

/-- A write into the stage puts its blocks there one by one, whatever its runs are. -/
theorem writeStaged_eq {source : List UInt8} {count : UInt32}
    (hrange : lba.toNat + count.toNat ≤ d.store.layout.blocks)
    (hsource : 256 * count.toNat ≤ source.length) :
    writeStaged lba count source d = stageEach lba (Bytes.pieces 256 count.toNat source) d :=
  stageRuns_eq hrange (by rwa [Nat.zero_add])

/-! ## Requests -/

omit [Controller σ] [TickSource σ] in
/-- A request is checked against the layout alone. -/
theorem checkRequest_apply {l : Layout} (hl : d.store.layout = l) (lba count : UInt32)
    (room : Nat) :
    checkRequest lba count room d =
      if l.blocks < lba.toNat + count.toNat then .error (.refused (.outOfRange lba count)) d
      else if room < 256 * count.toNat then
        .error (.refused (.bufferTooSmall (256 * count.toNat) room)) d
      else .ok () d := by
  rw [checkRequest, ask_bind, hl, Layout.checkRequest_eq (hl ▸ d.store.layout_valid)]
  split
  · rfl
  · split <;> rfl

omit [Controller σ] [TickSource σ] in
/-- The checks of a request for some blocks are those of `Layout.refusal?`. -/
theorem checkRequest_eq_refusal {l : Layout} (hl : d.store.layout = l) {count : UInt32}
    (hcount : count ≠ 0) (lba : UInt32) (room : Nat) :
    checkRequest lba count room d =
      match l.refusal? lba count room with
      | none => .ok () d
      | some error => .error (.refused error) d := by
  rw [checkRequest_apply hl, Layout.refusal?, if_neg hcount]
  split
  · rfl
  · split <;> rfl

/-- A refused write leaves the disk as it was. -/
theorem writeBlocks_of_refusal {source : List UInt8} {error : FlashError}
    (h : d.store.layout.refusal? lba count source.length = some error) :
    writeBlocks source lba count d = .error (.refused error) d := by
  have hcount := Layout.ne_zero_of_refusal? h
  rw [writeBlocks, if_neg hcount, Action.bind_apply, checkRequest_eq_refusal rfl hcount, h]

omit [TickSource σ] in
/-- A refused read leaves the disk as it was. -/
theorem readBlocks_of_refusal {error : FlashError}
    (h : d.store.layout.refusal? lba count buffer.length = some error) :
    readBlocks buffer lba count d = .error (.refused error) d := by
  have hcount := Layout.ne_zero_of_refusal? h
  rw [readBlocks, if_neg hcount, Action.bind_apply, checkRequest_eq_refusal rfl hcount, h]

/-- **A write** of some blocks that is not refused goes the way of its policy, block by block. -/
theorem writeBlocks_of_accepted {source : List UInt8} {lba count : UInt32} (hcount : count ≠ 0)
    (h : d.store.layout.refusal? lba count source.length = none) :
    writeBlocks source lba count d =
      match d.store.policy with
      | .onSectorStart => writeEach lba (Bytes.pieces 256 count.toNat source) d
      | .staged => stageEach lba (Bytes.pieces 256 count.toNat source) d := by
  obtain ⟨-, hrange, hroom⟩ := Layout.of_refusal?_eq_none hcount h
  have hlength := Bytes.length_pieces 256 count.toNat source
  rw [writeBlocks, if_neg hcount, Action.bind_apply, checkRequest_eq_refusal rfl hcount, h,
    Checked.slice_front hroom]
  show (Action.ofChecked (.ok _) >>= _) d = _
  rw [Action.ofChecked_bind, ask_bind]
  cases d.store.policy with
  | onSectorStart =>
    show writeThrough lba count _ d = writeEach lba _ d
    rw [Bytes.wholePieces_take hroom, writeThrough_eq hlength.symm (by rwa [hlength])]
  | staged =>
    show writeStaged lba count _ d = stageEach lba _ d
    -- The source was cut to the blocks of the request.
    have hfront : 256 * count.toNat ≤ (source.take (256 * count.toNat)).length :=
      Nat.le_of_eq (List.length_take_of_le hroom).symm
    rw [writeStaged_eq hrange hfront, Bytes.pieces_take]

/-- The staged sector, if there is one, is whole. -/
def StageWhole (d : Disk σ) : Prop := ∀ s, d.store.stage = some s → s.Whole

/-- The device with its window open. -/
def windowed (d : Disk σ) : σ :=
  if d.store.mode = .mapped then d.device else Controller.enterMapped d.device

omit [TickSource σ] in
/-- Opening the window changes the mode and nothing else about the store. -/
theorem ensureMapped_eq : ensureMapped d =
    .ok () ⟨{ d.store with mode := .mapped }, d.windowed⟩ := by
  obtain ⟨store, device⟩ := d
  rw [ensureMapped, ask_bind]
  by_cases hmode : store.mode = .mapped
  · obtain ⟨layout, hvalid, policy, mode, patience, stage⟩ := store
    cases hmode
    rfl
  · rw [if_pos hmode, windowed, if_neg hmode]
    rfl

omit [TickSource σ] in
/-- **A read** that is not refused hands over the window, with what is pending in its place. -/
theorem readBlocks_of_accepted (hw : d.store.layout.WindowFits) (hstage : d.StageWhole)
    {buffer : List UInt8} {count : UInt32} (hcount : count ≠ 0)
    (h : d.store.layout.refusal? lba count buffer.length = none) :
    readBlocks buffer lba count d =
      let read := Controller.readMapped (windowBase + d.store.layout.offset lba)
        (256 * count.toNat) d.windowed
      .ok (Bytes.overwrite buffer (d.store.layout.shown d.store.stage lba read.1))
        ⟨{ d.store with mode := .mapped }, read.2⟩ := by
  obtain ⟨hpos, hrange, hroom⟩ := Layout.of_refusal?_eq_none hcount h
  have hfront : (buffer.take (256 * count.toNat)).length = 256 * count.toNat :=
    List.length_take_of_le hroom
  have hv := d.store.layout_valid
  have hlba : lba.toNat < d.store.layout.blocks := by omega
  -- The steps up to the read of the window, each with the answer that is known here.
  rw [readBlocks, if_neg hcount, Action.bind_apply, checkRequest_eq_refusal rfl hcount, h]
  show (ensureMapped >>= _) d = _
  rw [Action.bind_apply, ensureMapped_eq]
  show (ask (·.layout) >>= _) _ = _
  rw [ask_bind, Layout.mappedOf_eq hv hw hlba, Action.ofChecked_bind, Checked.slice_front hroom,
    Action.ofChecked_bind, hfront, onDevice_ofStep_bind, Layout.offsetOf_eq hv hlba,
    Action.ofChecked_bind, ask_bind]
  simp only [Store.pending?, Layout.shown]
  cases hpending : d.store.stage.filter (·.dirty) with
  | none => rfl
  | some s =>
    have hoffset := Layout.toNat_offset hv hlba
    have hend := hv.blockOffset_blocks
    have hflash := d.store.layout.flashBytes.toNat_lt
    unfold Layout.blockOffset at hend
    -- The read ends inside the part.
    have hread : (d.store.layout.offset lba).toNat + (Controller.readMapped
        (windowBase + d.store.layout.offset lba) (256 * count.toNat) d.windowed).1.length <
          0x100000000 := by
      rw [Controller.length_readMapped, hoffset]
      unfold Layout.blockOffset
      omega
    have hwhole := hstage s (Option.filter_eq_some_iff.mp hpending).1
    simp only [StagedSector.overlay_eq hread hwhole, Action.ofChecked_bind, hoffset]
    rfl

end Disk

end NorDisk
