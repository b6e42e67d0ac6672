import NorDisk.Proofs.CommandEffect

/-!
# The commands of a disk

What the two policies send to the part has closed forms:

* **`Layout.writes`** — block after block, an erase before a block that starts a sector;
  `Layout.requestCommands` counts the same blocks by their numbers (`writes_pieces`).
* **`StagedSector.writeBack`** — an erase and the pages that are not blank; listing them does not
  trap for a sector of the region (`commands_eq`).

Every command listed is within the region (`within_of_mem_writes`); those of a write-back reach no
byte outside of their sector either (`of_mem_writeBack`), and leave its blocks in the memory
(`read_applyAll_writeBack`).
-/

namespace NorDisk

open Memory Command

variable {l : Layout}

/-! ## Block after block -/

namespace Bytes

/-- Block `i` of a source. -/
def blockAt (source : List UInt8) (i : Nat) : List UInt8 := (source.drop (256 * i)).take 256

/-- A block that the source has in full has 256 bytes. -/
theorem length_blockAt {source : List UInt8} {i n : Nat} (hi : i < n)
    (h : 256 * n ≤ source.length) : (blockAt source i).length = 256 := by
  simp only [blockAt, List.length_take, List.length_drop]
  omega

/-- All pieces of a long enough list are whole. -/
theorem length_of_mem_pieces {size n : Nat} {bytes block : List UInt8}
    (h : size * n ≤ bytes.length) (hmem : block ∈ pieces size n bytes) : block.length = size := by
  induction n generalizing bytes with
  | zero => exact absurd hmem List.not_mem_nil
  | succ n ih =>
    rw [Nat.mul_succ] at h
    rcases List.mem_cons.mp hmem with rfl | hmem
    · rw [List.length_take]
      omega
    · exact ih (by rw [List.length_drop]; omega) hmem

/-- The pieces are the blocks by number. -/
theorem pieces_eq_map (n : Nat) (source : List UInt8) :
    pieces 256 n source = (List.range n).map (blockAt source) := by
  induction n generalizing source with
  | zero => rfl
  | succ n ih =>
    rw [pieces, ih, List.range_succ_eq_map, List.map_cons, List.map_map]
    congr 1
    apply List.map_congr_left
    intro i _
    show ((source.drop 256).drop (256 * i)).take 256 = (source.drop (256 * (i + 1))).take 256
    rw [List.drop_drop, Nat.mul_succ, Nat.add_comm]

/-- What lies behind the pieces does not matter to them. -/
theorem pieces_take (size n : Nat) (source : List UInt8) :
    pieces size n (source.take (size * n)) = pieces size n source := by
  induction n generalizing source with
  | zero => rfl
  | succ n ih =>
    have hdrop : (source.take (size * (n + 1))).drop size = (source.drop size).take (size * n) := by
      rw [List.drop_take, Nat.mul_succ, Nat.add_sub_cancel]
    rw [pieces, pieces, hdrop, ih, List.take_take, Nat.min_eq_left]
    exact Nat.le_mul_of_pos_right size (Nat.succ_pos n)

/-- A cut at a piece boundary. -/
theorem pieces_add (size m n : Nat) (source : List UInt8) :
    pieces size (m + n) source =
      pieces size m source ++ pieces size n (source.drop (size * m)) := by
  induction m generalizing source with
  | zero => simp [pieces]
  | succ m ih =>
    rw [Nat.succ_add, pieces, pieces, ih, List.drop_drop, List.cons_append, Nat.mul_succ,
      Nat.add_comm size]

/-- Cutting a list into whole pieces loses nothing. -/
theorem flatten_pieces {n : Nat} {bytes : List UInt8} (h : bytes.length = 256 * n) :
    (pieces 256 n bytes).flatten = bytes := by
  induction n generalizing bytes with
  | zero => exact (List.length_eq_zero_iff.mp h).symm
  | succ n ih =>
    have hrest : (bytes.drop 256).length = 256 * n := by
      rw [List.length_drop]
      omega
    rw [pieces, List.flatten_cons, ih hrest, List.take_append_drop]

/-- The length of equally long blocks laid end to end. -/
theorem length_flatten_of_forall {size : Nat} {blocks : List (List UInt8)}
    (h : ∀ block ∈ blocks, block.length = size) : blocks.flatten.length = size * blocks.length := by
  have hall : blocks.map List.length = List.replicate blocks.length size :=
    List.eq_replicate_iff.mpr ⟨List.length_map _, by simpa using h⟩
  rw [List.length_flatten, hall, List.sum_replicate_nat, Nat.mul_comm]

/-- The whole pieces of the front of a buffer. -/
theorem wholePieces_take {n : Nat} {source : List UInt8} (h : 256 * n ≤ source.length) :
    wholePieces 256 (source.take (256 * n)) = pieces 256 n source := by
  have hcount : (source.take (256 * n)).length / 256 = n := by
    rw [List.length_take, Nat.min_eq_left h]
    exact Nat.mul_div_cancel_left n (by decide)
  rw [wholePieces, hcount, pieces_take]

/-- A replaced stretch reads as what replaced it. -/
theorem getElem?_splice {buffer bytes : List UInt8} {start : Nat}
    (h : start + bytes.length ≤ buffer.length) (j : Nat) :
    (splice buffer start bytes)[j]? =
      if start ≤ j ∧ j < start + bytes.length then bytes[j - start]? else buffer[j]? := by
  have hfront : (buffer.take start).length = start := by
    rw [List.length_take]
    omega
  rw [splice, List.append_assoc, List.getElem?_append, hfront]
  -- Before the stretch, inside it, and behind it.
  by_cases hlow : j < start
  · rw [if_pos hlow, if_neg (by omega), List.getElem?_take_of_lt hlow]
  · rw [if_neg hlow, List.getElem?_append]
    by_cases hhigh : j < start + bytes.length
    · rw [if_pos (by omega), if_pos (by omega)]
    · rw [if_neg (by omega), if_neg (by omega), List.getElem?_drop]
      congr 1
      omega

/-- Two stretches that follow each other are replaced as one. -/
theorem splice_append {buffer bytes bytes' : List UInt8} {start : Nat}
    (h : start + (bytes ++ bytes').length ≤ buffer.length) :
    splice (splice buffer start bytes) (start + bytes.length) bytes' =
      splice buffer start (bytes ++ bytes') := by
  rw [List.length_append] at h
  have hfirst : start + bytes.length ≤ buffer.length := by omega
  have hsecond : start + bytes.length + bytes'.length ≤ (splice buffer start bytes).length := by
    rw [length_splice hfirst]
    omega
  apply List.ext_getElem?
  intro j
  rw [getElem?_splice hsecond, getElem?_splice hfirst,
    getElem?_splice (by rw [List.length_append]; omega), List.length_append, List.getElem?_append]
  -- Before the seam, between the seam and the end of both, and behind.
  by_cases hlow : j < start + bytes.length
  · rw [if_neg (by omega)]
    by_cases hstart : start ≤ j
    · rw [if_pos ⟨hstart, hlow⟩, if_pos (by omega), if_pos (by omega)]
    · rw [if_neg (by omega), if_neg (by omega)]
  · by_cases hhigh : j < start + bytes.length + bytes'.length
    · rw [if_pos (by omega), if_pos (by omega), if_neg (by omega)]
      congr 1
      omega
    · rw [if_neg (by omega), if_neg (by omega), if_neg (by omega)]

end Bytes

namespace Layout

/-- The commands for one block. -/
def blockWrite (l : Layout) (lba : UInt32) (block : List UInt8) : List Command :=
  if blockInSector lba = 0 then
    [.erase (sectorBase (l.offset lba)), .program (l.offset lba) block]
  else [.program (l.offset lba) block]

/-- The commands for blocks from `lba` on. -/
def writes (l : Layout) : UInt32 → List (List UInt8) → List Command
  | _, [] => []
  | lba, block :: rest => l.blockWrite lba block ++ l.writes (lba + 1) rest

/-- A block has its own page, and the sector of the first block of a sector starts there too. -/
theorem within_of_mem_blockWrite (hv : l.Valid) {lba : UInt32} (hlba : lba.toNat < l.blocks)
    {block : List UInt8} (hlength : block.length = 256) {command : Command}
    (h : command ∈ l.blockWrite lba block) : command.Within l := by
  have hbase := hv.regionBase_mod
  have hoffset := toNat_offset hv hlba
  -- The page of the block.
  have hpage : (program (l.offset lba) block).Within l := by
    have hle := hv.blockOffset_le hlba
    refine ⟨?_, ?_, ?_, hlength⟩ <;> rw [hoffset]
    · unfold blockOffset; omega
    · unfold blockOffset; omega
    · exact hle
  -- Its sector, which does not begin before the region, as the region is aligned.
  have hsector : (erase (sectorBase (l.offset lba))).Within l := by
    have hle := sectorBase_offset_le hv hlba
    have hstart := toNat_sectorBase_offset hv hlba
    unfold blockOffset at hstart
    refine ⟨?_, ?_, hle⟩ <;> omega
  unfold blockWrite at h
  split at h
  · simp only [List.mem_cons, List.not_mem_nil, or_false] at h
    rcases h with rfl | rfl
    · exact hsector
    · exact hpage
  · obtain rfl := List.mem_singleton.mp h
    exact hpage

/-- All commands of a write within the region are within it. -/
theorem within_of_mem_writes (hv : l.Valid) {blocks : List (List UInt8)} {lba : UInt32}
    (h : lba.toNat + blocks.length ≤ l.blocks) (hlength : ∀ block ∈ blocks, block.length = 256)
    {command : Command} (hmem : command ∈ l.writes lba blocks) : command.Within l := by
  induction blocks generalizing lba with
  | nil => exact absurd hmem List.not_mem_nil
  | cons block rest ih =>
    rw [List.length_cons] at h
    have hlba : lba.toNat < l.blocks := by omega
    obtain ⟨-, hnext⟩ := add_one_eq hlba
    rcases List.mem_append.mp hmem with hmem | hmem
    · exact within_of_mem_blockWrite hv hlba (hlength block List.mem_cons_self) hmem
    · have hlater : (lba + 1).toNat + rest.length ≤ l.blocks := by omega
      exact ih hlater (fun b hb => hlength b (List.mem_cons_of_mem _ hb)) hmem

theorem add_ofNat_succ (lba : UInt32) (n : Nat) :
    lba + 1 + UInt32.ofNat n = lba + UInt32.ofNat (n + 1) := by
  rw [UInt32.ofNat_add, UInt32.add_assoc, UInt32.add_comm (UInt32.ofNat n)]
  rfl

/-- Blocks that follow each other are written one list after the other. -/
theorem writes_append (l : Layout) (lba : UInt32) (blocks blocks' : List (List UInt8)) :
    l.writes lba (blocks ++ blocks') =
      l.writes lba blocks ++ l.writes (lba + UInt32.ofNat blocks.length) blocks' := by
  induction blocks generalizing lba with
  | nil => simp [writes]
  | cons block rest ih =>
    rw [List.cons_append, writes, writes, ih, List.append_assoc, add_ofNat_succ]
    rfl

/-- The commands for block number `b` of the region: an erase where it starts a sector, and the
program. -/
def blockCommands (l : Layout) (b : Nat) (block : List UInt8) : List Command :=
  let offset := UInt32.ofNat (l.blockOffset b)
  if b % 16 = 0 then [.erase offset, .program offset block] else [.program offset block]

/-- The commands for `count` blocks of a source, from block number `lba` on. -/
def requestCommands (l : Layout) (source : List UInt8) (lba count : Nat) : List Command :=
  (List.range count).flatMap fun i => l.blockCommands (lba + i) (Bytes.blockAt source i)

/-- The commands of a block depend on its number only. -/
theorem blockWrite_eq (hv : l.Valid) {lba : UInt32} (hlba : lba.toNat < l.blocks)
    (block : List UInt8) : l.blockWrite lba block = l.blockCommands lba.toNat block := by
  simp only [blockWrite, blockCommands, ofNat_blockOffset hv hlba, blockInSector_eq_zero_iff]
  split
  · rename_i hmod
    -- The block starts its sector, so the erase is at the offset of the block.
    have hsector : sectorBase (l.offset lba) = l.offset lba := by
      rw [← UInt32.toNat_inj, toNat_sectorBase_offset hv hlba, toNat_offset hv hlba]
      congr 1
      omega
    rw [hsector]
  · rfl

/-- Written block by block, a source gets the commands that its blocks have by number. -/
theorem writes_pieces (hv : l.Valid) {source : List UInt8} {lba : UInt32} {count : Nat}
    (h : lba.toNat + count ≤ l.blocks) :
    l.writes lba (Bytes.pieces 256 count source) = l.requestCommands source lba.toNat count := by
  induction count generalizing lba source with
  | zero => rfl
  | succ count ih =>
    have hlba : lba.toNat < l.blocks := by omega
    obtain ⟨-, hnext⟩ := add_one_eq hlba
    -- Block `i + 1` of the source is block `i` of what is left after the first one.
    rw [Bytes.pieces, writes, blockWrite_eq hv hlba, ih (by omega), hnext, requestCommands,
      requestCommands, List.range_succ_eq_map, List.flatMap_cons, List.flatMap_map]
    simp only [Bytes.blockAt, List.drop_drop, Nat.mul_succ, Nat.add_assoc, Nat.add_comm 1,
      Nat.add_comm 256]
    rfl

end Layout

/-! ## A staged sector -/

namespace Memory

/-- Programming a page clears the bits that the data does not have. -/
theorem read_apply_program {memory : ByteArray} {offset : UInt32} {data : List UInt8}
    (h : offset.toNat % 256 = 0) (hlength : data.length = 256)
    (hsize : offset.toNat + 256 ≤ memory.size) :
    read ((Command.program offset data).apply memory) offset.toNat 256 =
      List.zipWith (· &&& ·) (read memory offset.toNat 256) data := by
  apply List.ext_getElem
  · simp [hlength]
  · intro i hi _
    have hi : i < 256 := by simpa using hi
    have hin : offset.toNat ≤ offset.toNat + i ∧ offset.toNat + i < offset.toNat + 256 := by omega
    have hget : data.getD i 0 = data[i] := by
      rw [List.getD_eq_getElem?_getD, List.getElem?_eq_getElem, Option.getD_some]
    simp only [read, List.getElem_map, List.getElem_range, List.getElem_zipWith,
      byteAt_apply_program h hlength hsize, if_pos hin, Nat.add_sub_cancel_left, hget]

/-- An erased page takes any data. -/
theorem zipWith_erased {data : List UInt8} (hlength : data.length = 256) :
    List.zipWith (· &&& ·) (List.replicate 256 erasedByte) data = data := by
  apply List.ext_getElem
  · rw [List.length_zipWith, List.length_replicate, hlength, Nat.min_self]
  · intro i _ _
    rw [List.getElem_zipWith, List.getElem_replicate]
    exact UInt8.neg_one_and

/-- Programming an erased page stores its data. -/
theorem read_apply_program_of_erased {memory : ByteArray} {offset : UInt32} {data : List UInt8}
    (h : offset.toNat % 256 = 0) (hlength : data.length = 256)
    (hsize : offset.toNat + 256 ≤ memory.size)
    (herased : read memory offset.toNat 256 = List.replicate 256 erasedByte) :
    read ((Command.program offset data).apply memory) offset.toNat 256 = data := by
  rw [read_apply_program h hlength hsize, herased, zipWith_erased hlength]

/-- A stretch that a command does not reach reads as before. -/
theorem read_apply_of_not_touches {command : Command} {memory : ByteArray} {start n : Nat}
    (h : ∀ j, command.Touches j → j < start ∨ start + n ≤ j) :
    read (command.apply memory) start n = read memory start n := by
  apply read_congr
  intro i hi
  apply byteAt_apply_of_not_touches
  intro htouch
  have := h _ htouch
  omega

theorem read_applyAll_of_not_touches {commands : List Command} {memory : ByteArray} {start n : Nat}
    (h : ∀ command ∈ commands, ∀ j, command.Touches j → j < start ∨ start + n ≤ j) :
    read (applyAll commands memory) start n = read memory start n := by
  induction commands generalizing memory with
  | nil => rfl
  | cons command rest ih =>
    rw [applyAll_cons, ih fun c hc => h c (List.mem_cons_of_mem _ hc),
      read_apply_of_not_touches (h command List.mem_cons_self)]

end Memory

namespace StagedSector

/-- The programs for the pages from place `i` of a sector on, without blank pages. -/
def programs (base : UInt32) : UInt32 → List (List UInt8) → List Command
  | _, [] => []
  | i, block :: rest =>
    if block.all (· == erasedByte) then programs base (i + 1) rest
    else .program (base + i * pageBytes) block :: programs base (i + 1) rest

/-- Block `i` of the copy. -/
def block (s : StagedSector) (i : Fin 16) : List UInt8 := Bytes.blockAt s.data i.val

/-- The pages of the copy. -/
def pages (s : StagedSector) : List (List UInt8) := Bytes.pieces 256 16 s.data

/-- The copy with block `i` replaced by a block of 256 bytes. -/
def put (i : Fin 16) (block : List UInt8) (s : StagedSector) : StagedSector :=
  match s.write (256 * i.val) block with
  | .ok t => t
  | .error _ => s

/-- The commands that write the sector back. -/
def writeBack (s : StagedSector) : List Command :=
  .erase s.base :: programs s.base 0 s.pages

/-- A sector of the region. -/
structure Fits (s : StagedSector) (l : Layout) : Prop where
  base_mod : s.base.toNat % 4096 = 0
  regionBase_le : l.regionBase.toNat ≤ s.base.toNat
  base_add_le : s.base.toNat + 4096 ≤ l.flashBytes.toNat

variable {s t : StagedSector} {i j : Fin 16} {bytes : List UInt8}

theorem length_block (s : StagedSector) (i : Fin 16) : (s.block i).length = 256 :=
  Bytes.length_blockAt i.isLt (Nat.le_of_eq s.length_data.symm)

@[simp] theorem length_pages (s : StagedSector) : s.pages.length = 16 := Bytes.length_pieces _ _ _

theorem length_of_mem_pages {page : List UInt8} (h : page ∈ s.pages) : page.length = 256 :=
  Bytes.length_of_mem_pieces (Nat.le_of_eq s.length_data.symm) h

/-- Page `i` of the copy is its block `i`. -/
theorem getD_pages (s : StagedSector) (i : Fin 16) : s.pages.getD i.val [] = s.block i := by
  rw [pages, Bytes.pieces_eq_map, List.getD_eq_getElem?_getD, List.getElem?_map,
    List.getElem?_range i.isLt]
  rfl

/-- Only the bytes that are written change. -/
theorem write_eq_ok {start : Nat} (h : start + bytes.length ≤ 4096) (s : StagedSector) :
    ∃ t, s.write start bytes = .ok t ∧ t.base = s.base ∧ t.dirty = true ∧
      t.data = Bytes.splice s.data start bytes :=
  ⟨_, dif_pos h, rfl, rfl, rfl⟩

/-- Bytes that follow each other are written as one stretch. -/
theorem write_append {start : Nat} {bytes' : List UInt8}
    (h : start + (bytes ++ bytes').length ≤ 4096) (hfirst : s.write start bytes = .ok t) :
    t.write (start + bytes.length) bytes' = s.write start (bytes ++ bytes') := by
  have hbound : start + bytes.length ≤ 4096 := by
    rw [List.length_append] at h
    omega
  obtain ⟨t', ht', hbase, -, hdata⟩ := s.write_eq_ok hbound
  obtain rfl : t = t' := Except.ok.inj (hfirst.symm.trans ht')
  have hsplice := Bytes.splice_append (Nat.le_trans h (Nat.le_of_eq s.length_data.symm))
  rw [write, write, dif_pos (by rw [List.length_append] at h; omega), dif_pos h]
  simp only [hbase, hdata, hsplice]

/-- A block of the right length is written to its place. -/
theorem write_block (h : bytes.length = 256) (i : Fin 16) (s : StagedSector) :
    s.write (256 * i.val) bytes = .ok (s.put i bytes) := by
  have hbound : 256 * i.val + bytes.length ≤ 4096 := by omega
  obtain ⟨t, ht, -⟩ := s.write_eq_ok hbound
  rw [put, ht]

@[simp] theorem base_put (i : Fin 16) (bytes : List UInt8) (s : StagedSector) :
    (s.put i bytes).base = s.base := by
  unfold put write
  split
  · rename_i t h
    split at h
    · cases h
      rfl
    · cases h
  · rfl

/-- A replaced block makes the copy dirty. -/
theorem dirty_put (h : bytes.length = 256) (i : Fin 16) (s : StagedSector) :
    (s.put i bytes).dirty = true := by
  have hbound : 256 * i.val + bytes.length ≤ 4096 := by omega
  obtain ⟨t, ht, -, hdirty, -⟩ := s.write_eq_ok hbound
  obtain rfl := Except.ok.inj ((write_block h i s).symm.trans ht)
  exact hdirty

/-- Replacing a block changes this block only. -/
theorem block_put (h : bytes.length = 256) (i j : Fin 16) (s : StagedSector) :
    (s.put i bytes).block j = if i = j then bytes else s.block j := by
  have hbound : 256 * i.val + bytes.length ≤ 4096 := by omega
  obtain ⟨t, ht, -, -, hdata⟩ := s.write_eq_ok hbound
  obtain rfl := Except.ok.inj ((write_block h i s).symm.trans ht)
  apply List.ext_getElem?
  intro k
  rw [block, hdata, Bytes.blockAt, List.getElem?_take, List.getElem?_drop,
    Bytes.getElem?_splice (Nat.le_trans hbound (Nat.le_of_eq s.length_data.symm))]
  -- Byte `k` of block `j`; behind the block there is nothing on either side.
  by_cases hk : k < 256
  · rw [if_pos hk]
    by_cases hij : i = j
    · subst hij
      rw [if_pos rfl, if_pos (by omega), Nat.add_sub_cancel_left]
    · -- The stretch that is replaced lies in another block.
      have hne : i.val ≠ j.val := fun h => hij (Fin.ext h)
      rw [if_neg hij, if_neg (by omega), block, Bytes.blockAt, List.getElem?_take_of_lt hk,
        List.getElem?_drop]
  · rw [if_neg hk, List.getElem?_eq_none]
    split
    · omega
    · rw [s.length_block j]
      omega

variable {base : UInt32}

/-- The offsets of the pages of a sector do not wrap. -/
theorem toNat_page (hbase : base.toNat + 4096 ≤ 0x100000000) {i : UInt32} (hi : i.toNat < 16) :
    (i * pageBytes).toNat = 256 * i.toNat ∧
      (base + i * pageBytes).toNat = base.toNat + 256 * i.toNat := by
  have hmul : (i * pageBytes).toNat = 256 * i.toNat := by
    rw [UInt32.toNat_mul, show pageBytes.toNat = 256 from rfl]
    omega
  refine ⟨hmul, ?_⟩
  rw [UInt32.toNat_add, hmul]
  omega

theorem toNat_add_one {i : UInt32} (hi : i.toNat < 16) : (i + 1).toNat = i.toNat + 1 := by
  rw [UInt32.toNat_add, show (1 : UInt32).toNat = 1 from rfl]
  omega

/-- Listing the programs of a sector does not trap: no page leaves the sector, no sum its word. -/
theorem pageCommands_eq {s : StagedSector} (hbase : s.base.toNat + 4096 ≤ 0x100000000) {n : Nat}
    {i : UInt32} (h : i.toNat + n ≤ 16) :
    s.pageCommands n i =
      .ok (programs s.base i (Bytes.pieces 256 n (s.data.drop (256 * i.toNat)))) := by
  induction n generalizing i with
  | zero => rfl
  | succ n ih =>
    have hi : i.toNat < 16 := by omega
    have hnext := toNat_add_one hi
    obtain ⟨hmul, -⟩ := toNat_page hbase hi
    have hsum : Checked.add s.base (i * pageBytes) = .ok (s.base + i * pageBytes) :=
      Checked.add_eq_ok (by omega)
    have hpage : 256 * i.toNat + 256 ≤ s.data.length := by
      rw [s.length_data]
      omega
    rw [pageCommands, ih (i := i + 1) (by omega), hnext, Nat.mul_succ, Bytes.pieces,
      ← List.drop_drop, programs]
    simp only [bind, Except.bind, hsum, hmul, Checked.slice_eq_ok hpage]
    split <;> rfl

/-- Nor does listing all its commands. -/
theorem commands_eq (h : s.Fits l) : s.commands = .ok s.writeBack := by
  have hflash := l.flashBytes.toNat_lt
  have hbase : s.base.toNat + 4096 ≤ 0x100000000 := by
    have := h.base_add_le
    omega
  rw [commands, pageCommands_eq hbase (Nat.le_refl 16)]
  rfl

/-- Each program is that of a page of the sector, with its data. -/
theorem of_mem_programs (hbase : base.toNat + 4096 ≤ 0x100000000) {blocks : List (List UInt8)}
    {i : UInt32} (h : i.toNat + blocks.length ≤ 16) {command : Command}
    (hmem : command ∈ programs base i blocks) :
    ∃ k offset block, block ∈ blocks ∧ command = .program offset block ∧ i.toNat ≤ k ∧
      k < i.toNat + blocks.length ∧ offset.toNat = base.toNat + 256 * k := by
  induction blocks generalizing i with
  | nil => exact absurd hmem List.not_mem_nil
  | cons block rest ih =>
    rw [List.length_cons] at h ⊢
    have hi : i.toNat < 16 := by omega
    have hnext := toNat_add_one hi
    -- A page programmed for the rest counts from the place after this one.
    have later (hmem : command ∈ programs base (i + 1) rest) :
        ∃ k offset block', block' ∈ block :: rest ∧ command = .program offset block' ∧
          i.toNat ≤ k ∧ k < i.toNat + (rest.length + 1) ∧
          offset.toNat = base.toNat + 256 * k := by
      obtain ⟨k, offset, block', hblock, rfl, hlow, hhigh, hoffset⟩ :=
        ih (i := i + 1) (by omega) hmem
      exact ⟨k, offset, block', List.mem_cons_of_mem _ hblock, rfl, by omega, by omega, hoffset⟩
    rw [programs] at hmem
    split at hmem
    · exact later hmem
    · rcases List.mem_cons.mp hmem with rfl | hmem
      · exact ⟨i.toNat, _, block, List.mem_cons_self, rfl, Nat.le_refl _, by omega,
          (toNat_page hbase hi).2⟩
      · exact later hmem

/-- Writing a sector back works on that sector alone. -/
theorem of_mem_writeBack (h : s.Fits l) {command : Command} (hmem : command ∈ s.writeBack) :
    command.Within l ∧
      ∀ j, command.Touches j → s.base.toNat ≤ j ∧ j < s.base.toNat + 4096 := by
  have hmod := h.base_mod
  have hlow := h.regionBase_le
  have hhigh := h.base_add_le
  have hflash := l.flashBytes.toNat_lt
  rcases List.mem_cons.mp hmem with rfl | hmem
  · refine ⟨⟨hmod, hlow, hhigh⟩, fun j hj => ?_⟩
    have hstart : (sectorBase s.base).toNat = s.base.toNat := by rw [toNat_sectorBase, hmod]; rfl
    rwa [Touches, hstart] at hj
  · -- A program reaches one page, which lies in the sector.
    obtain ⟨k, offset, block, hblock, rfl, -, hk, hoffset⟩ :=
      of_mem_programs (by omega) (by simp) hmem
    have hk : k < 16 := by simpa using hk
    refine ⟨⟨by omega, by omega, by omega, length_of_mem_pages hblock⟩, fun j hj => ?_⟩
    obtain ⟨hj, hj'⟩ := hj
    omega

/-- Whether a block is blank or not, its erased page holds it before the rest is programmed. -/
theorem exists_applyAll_programs_cons {memory : ByteArray} (hmod : base.toNat % 4096 = 0)
    (hbase : base.toNat + 4096 ≤ 0x100000000) (hsize : base.toNat + 4096 ≤ memory.size) {i : UInt32}
    (hi : i.toNat < 16) {block : List UInt8} (hblock : block.length = 256)
    (rest : List (List UInt8))
    (herased : read memory (base.toNat + 256 * i.toNat) 256 = List.replicate 256 erasedByte) :
    ∃ middle : ByteArray, applyAll (programs base i (block :: rest)) memory =
        applyAll (programs base (i + 1) rest) middle ∧
      middle.size = memory.size ∧
      read middle (base.toNat + 256 * i.toNat) 256 = block ∧
      ∀ k, i.toNat < k →
        read middle (base.toNat + 256 * k) 256 = read memory (base.toNat + 256 * k) 256 := by
  obtain ⟨-, hpage⟩ := toNat_page hbase hi
  rw [programs]
  split
  · -- A blank block is not programmed; its page is erased already.
    rename_i hblank
    refine ⟨memory, rfl, rfl, ?_, fun _ _ => rfl⟩
    rw [herased]
    refine (List.eq_replicate_iff.mpr ⟨hblock, fun b hb => ?_⟩).symm
    simpa using List.all_eq_true.mp hblank b hb
  · refine ⟨(Command.program (base + i * pageBytes) block).apply memory, rfl, size_apply _ _, ?_,
      fun k hk => ?_⟩
    · rw [← hpage] at herased ⊢
      exact read_apply_program_of_erased (by omega) hblock (by omega) herased
    · refine read_apply_of_not_touches fun j hj => ?_
      obtain ⟨hj, hj'⟩ := hj
      omega

/-- On erased pages the programs leave every block in its place. Induction on the blocks: a block
is not reached by the programs for the blocks after it. -/
theorem read_applyAll_programs {memory : ByteArray} (hmod : base.toNat % 4096 = 0)
    (hbase : base.toNat + 4096 ≤ 0x100000000) (hsize : base.toNat + 4096 ≤ memory.size)
    {blocks : List (List UInt8)} {i : UInt32} (h : i.toNat + blocks.length ≤ 16)
    (hlength : ∀ block ∈ blocks, block.length = 256)
    (herased : ∀ k, i.toNat ≤ k → k < i.toNat + blocks.length →
      read memory (base.toNat + 256 * k) 256 = List.replicate 256 erasedByte) :
    ∀ k, i.toNat ≤ k → k < i.toNat + blocks.length →
      read (applyAll (programs base i blocks) memory) (base.toNat + 256 * k) 256 =
        blocks.getD (k - i.toNat) [] := by
  induction blocks generalizing i memory with
  | nil => intro k hlow hk; exact absurd hk (by simpa using hlow)
  | cons block rest ih =>
    intro k hlow hk
    simp only [List.length_cons] at h hk herased
    have hi : i.toNat < 16 := by omega
    have hnext := toNat_add_one hi
    have hblock := hlength block List.mem_cons_self
    have hrest : ∀ b ∈ rest, b.length = 256 := fun b hb => hlength b (List.mem_cons_of_mem _ hb)
    obtain ⟨middle, hmiddle, hsize', hhere, hthere⟩ := exists_applyAll_programs_cons hmod hbase
      hsize hi hblock rest (herased i.toNat (Nat.le_refl _) (by omega))
    rw [hmiddle]
    -- The page of this block is not reached again; the others are left to the induction.
    rcases Nat.eq_or_lt_of_le hlow with rfl | hlt
    · have hlater : read (applyAll (programs base (i + 1) rest) middle)
          (base.toNat + 256 * i.toNat) 256 = block := by
        rw [read_applyAll_of_not_touches fun command hmem j hj => ?_, hhere]
        obtain ⟨k, offset, b, -, rfl, hk', -, hoffset⟩ :=
          of_mem_programs hbase (by omega) hmem
        obtain ⟨hj, hj'⟩ := hj
        omega
      rw [hlater, Nat.sub_self, List.getD_cons_zero]
    · have herased' : ∀ k, (i + 1).toNat ≤ k → k < (i + 1).toNat + rest.length →
          read middle (base.toNat + 256 * k) 256 = List.replicate 256 erasedByte := by
        intro k hk hk'
        rw [hthere k (by omega)]
        exact herased k (by omega) (by omega)
      rw [ih (by omega) (by omega) hrest herased' k (by omega) (by omega)]
      have hindex : k - i.toNat = (k - (i + 1).toNat) + 1 := by omega
      rw [hindex, List.getD_cons_succ]

/-- After a sector was written back, its blocks are in the memory. -/
theorem read_applyAll_writeBack (h : s.Fits l) {memory : ByteArray}
    (hsize : l.flashBytes.toNat ≤ memory.size) (k : Fin 16) :
    read (applyAll s.writeBack memory) (s.base.toNat + 256 * k.val) 256 = s.block k := by
  have hflash := l.flashBytes.toNat_lt
  have hend := h.base_add_le
  -- The erase at the front of the list makes every page of the sector blank.
  have herased : ∀ k, (0 : UInt32).toNat ≤ k → k < (0 : UInt32).toNat + s.pages.length →
      read ((Command.erase s.base).apply memory) (s.base.toNat + 256 * k) 256 =
        List.replicate 256 erasedByte := by
    intro k _ hk
    have hk : k < 16 := by simpa using hk
    refine read_eq_erased fun i hi => ?_
    rw [byteAt_apply_erase h.base_mod memory, if_pos (by omega)]
  rw [writeBack, applyAll_cons,
    read_applyAll_programs h.base_mod (by omega) (by rw [size_apply]; omega) (by simp)
      (fun _ => length_of_mem_pages) herased k.val (Nat.zero_le _) (by simp)]
  exact s.getD_pages k

end StagedSector

end NorDisk
