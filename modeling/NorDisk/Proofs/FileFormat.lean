import NorDisk.Proofs.BlockArray
import NorDisk.Proofs.UpdateFile

/-!
# Nothing is lost in an update file

Data becomes one record for each of its blocks, and the records come back from the file with their
numbers, their addresses and the data. Any whole file is cut into records that lie in it end to end,
whether or not they are well formed.

* **`flatten_dataBlocks`** — the blocks of data are the data, with the last one filled up.
* **`File.flatten_records`** — the records of a file, end to end, are the file.
* **`IsBlock`** — what a record says about its place in a file.
* **`file_lossless`** — data and files, both ways.
-/

namespace NorDisk

open Memory

/-- Pieces cut from the front of an array, laid end to end. -/
theorem Bytes.flatten_slices (bytes : ByteArray) (size n : Nat) :
    ((List.range n).map fun i => slice bytes (i * size) size).flatten =
      bytes.toList.take (n * size) := by
  induction n with
  | zero => rw [Nat.zero_mul]; rfl
  | succ n ih =>
    rw [List.range_succ, List.map_append, List.flatten_append, ih, List.map_singleton,
      List.flatten_singleton, slice_eq, Nat.succ_mul, List.take_add]

namespace Uf2

/-- The blocks of data are enough for it, and the last one holds some of it. -/
theorem blocksFor_bounds (size : Nat) :
    size ≤ 256 * blocksFor size ∧ 256 * blocksFor size < size + 256 := by
  unfold blocksFor
  omega

/-- The blocks of data, end to end, are the data and the filling of the last block. -/
theorem flatten_dataBlocks (data : ByteArray) :
    ((List.range (blocksFor data.size)).map fun i => read data (256 * i) 256).flatten =
      data.toList ++ List.replicate (256 * blocksFor data.size - data.size) erasedByte := by
  have hpieces := flatten_pieces_read data 0 (blocksFor data.size)
  simp only [pieces_read, Nat.zero_add] at hpieces
  rw [hpieces, read_eq_rightpad, List.drop_zero, List.take_of_length_le, List.rightpad,
    Bytes.length_toList]
  rw [Bytes.length_toList]
  exact (blocksFor_bounds data.size).1

/-! ## Files of whole records -/

namespace File

/-- A file is any number of whole records. -/
theorem exists_ofBytes_iff (bytes : ByteArray) :
    (∃ f, ofBytes bytes = .ok f) ↔ bytes.size % recordBytes = 0 := by
  by_cases h : bytes.size % recordBytes = 0
  · exact ⟨fun _ => h, fun _ => ⟨⟨bytes, h⟩, dif_pos h⟩⟩
  · refine ⟨fun ⟨f, hf⟩ => ?_, fun h' => absurd h' h⟩
    rw [ofBytes, dif_neg h] at hf
    exact nomatch hf

/-- A file has the bytes that it was made from. -/
theorem bytes_of_ofBytes {bytes : ByteArray} {f : File} (h : ofBytes bytes = .ok f) :
    f.bytes = bytes := by
  by_cases hwhole : bytes.size % recordBytes = 0
  · rw [ofBytes, dif_pos hwhole] at h
    obtain rfl := Except.ok.inj h
    rfl
  · rw [ofBytes, dif_neg hwhole] at h
    exact nomatch h

variable (f : File)

theorem count_mul : f.count * recordBytes = f.bytes.size :=
  Nat.div_mul_cancel (Nat.dvd_of_mod_eq_zero f.whole)

/-- **The records of a file are the file.** -/
theorem flatten_records : f.records.flatten = f.bytes.toList := by
  have hall : f.bytes.toList.length ≤ f.count * recordBytes :=
    Nat.le_of_eq (by rw [count_mul, Bytes.length_toList])
  rw [records, ← List.take_of_length_le hall]
  exact Bytes.flatten_slices f.bytes recordBytes f.count

/-- Each record has 512 bytes. -/
theorem length_of_mem_records {bytes : List UInt8} (h : bytes ∈ f.records) :
    bytes.length = recordBytes := by
  obtain ⟨i, hi, rfl⟩ := List.mem_map.mp h
  have hend : (i + 1) * recordBytes ≤ f.bytes.size := by
    rw [← count_mul]
    exact Nat.mul_le_mul_right _ (List.mem_range.mp hi)
  rw [record, Bytes.slice_eq, List.length_take, List.length_drop, Bytes.length_toList]
  rw [Nat.succ_mul] at hend
  omega

end File

/-! ## Files of data -/

/-- Record `i` of the `n` records that carry data to addresses from `base` on. -/
structure Record.IsBlock (r : Record) (base family : UInt32) (n i : Nat) : Prop where
  blockNo : r.blockNo.toNat = i
  numBlocks : r.numBlocks.toNat = n
  target : r.target.toNat = base.toNat + 256 * i
  flags : r.flags = familyPresent
  family : r.family = family
  payloadSize : r.payloadSize = blockBytes
  length_payload : r.payload.length = 256

/-- A record of data says which block it carries. -/
theorem isBlock_blockRecord {data : ByteArray} {base : UInt32} (family : UInt32) {i : Nat}
    (hi : i < blocksFor data.size)
    (h : ∀ i < blocksFor data.size, base.toNat + 256 * i < 0x100000000) :
    (blockRecord data base family i).IsBlock base family (blocksFor data.size) i where
  -- The last address fits a word, so the number of records does.
  blockNo := UInt32.toNat_ofNat_of_lt' (by have := h i hi; unfold UInt32.size; omega)
  numBlocks := UInt32.toNat_ofNat_of_lt' (by
    have := h (blocksFor data.size - 1) (by omega)
    unfold UInt32.size
    omega)
  target := toNat_target (h i hi)
  flags := rfl
  family := rfl
  payloadSize := rfl
  length_payload := by rw [payload_blockRecord, length_read]

/-- The file for data is read as the records of its blocks. -/
theorem exists_file_of_blocks {data bytes : ByteArray} {base family : UInt32}
    (h : bytes.toList = ((List.range (blocksFor data.size)).map
      fun i => (blockRecord data base family i).encode).flatten) :
    ∃ f, File.ofBytes bytes = .ok f ∧ f.records = (List.range (blocksFor data.size)).map
      fun i => (blockRecord data base family i).encode :=
  File.records_eq h fun record hrecord => by
    obtain ⟨i, -, rfl⟩ := List.mem_map.mp hrecord
    exact Record.length_encode _

/-- **Nothing is lost in an update file.** Data whose blocks have addresses becomes a file of one
record for each block; the file is read, each record is read, and the records say which block they
carry and hold the data between them, the last block filled up with erased bytes. And a file is any
number of whole records, which lie in it end to end. -/
theorem file_lossless :
    (∀ (data : ByteArray) (base family : UInt32),
      (0 < data.size → base.toNat + 256 * (blocksFor data.size - 1) < 0x100000000) →
      ∃ bytes f, ∃ rs : List Record, encodeData data base family = .ok bytes ∧
        bytes.size = 512 * blocksFor data.size ∧ File.ofBytes bytes = .ok f ∧
        f.records.map Record.decode = rs.map .ok ∧ rs.length = blocksFor data.size ∧
        (∀ i (hi : i < rs.length), rs[i].IsBlock base family (blocksFor data.size) i) ∧
        ∃ filling < 256, (rs.map Record.payload).flatten =
          data.toList ++ List.replicate filling erasedByte ∧
            (data.size = 0 → bytes = ByteArray.empty ∧ filling = 0)) ∧
    ∀ bytes : ByteArray, ((∃ f, File.ofBytes bytes = .ok f) ↔ bytes.size % 512 = 0) ∧
      ∀ f, File.ofBytes bytes = .ok f → f.records.flatten = bytes.toList ∧
        ∀ record ∈ f.records, record.length = 512 := by
  refine ⟨fun data base family hlast => ?_, fun bytes =>
    ⟨File.exists_ofBytes_iff bytes, fun f hf => ?_⟩⟩
  · have hbounds := blocksFor_bounds data.size
    -- If the last block has an address, so do the others.
    have hfit (i : Nat) (hi : i < blocksFor data.size) : base.toNat + 256 * i < 0x100000000 := by
      have := hlast (by omega)
      omega
    obtain ⟨bytes, hencode, hlist⟩ := exists_encodeData family hfit
    obtain ⟨f, hf, hrecords⟩ := exists_file_of_blocks hlist
    have hcount : f.count = blocksFor data.size := by
      have := congrArg List.length hrecords
      simpa [File.records] using this
    have hsize : bytes.size = 512 * blocksFor data.size := by
      rw [← File.bytes_of_ofBytes hf, ← File.count_mul, hcount, Nat.mul_comm]
      rfl
    refine ⟨bytes, f, (List.range (blocksFor data.size)).map (blockRecord data base family),
      hencode, hsize, hf, ?_, by simp, fun i hi => ?_,
      256 * blocksFor data.size - data.size, by omega, ?_, fun hempty => ?_⟩
    · simp only [hrecords, List.map_map, Function.comp_def, Record.decode_encode]
    · rw [List.getElem_map, List.getElem_range]
      exact isBlock_blockRecord family (by simpa using hi) hfit
    · rw [List.map_map, ← flatten_dataBlocks]
      exact congrArg _ (List.map_congr_left fun i _ => payload_blockRecord data base family i)
    · have hblocks : blocksFor data.size = 0 := by omega
      rw [hblocks] at hsize
      exact ⟨ByteArray.size_eq_zero_iff.mp hsize, by omega⟩
  · obtain rfl := File.bytes_of_ofBytes hf
    exact ⟨f.flatten_records, fun record => f.length_of_mem_records⟩

/-- One byte more than a block, with its last block at the last address of all. -/
theorem file_lossless_at_end :
    (0 < (blank 257).size → (0xFFFFFEFF : UInt32).toNat + 256 * (blocksFor (blank 257).size - 1) <
      0x100000000) ∧
    ∃ bytes f, ∃ rs : List Record, encodeData (blank 257) 0xFFFFFEFF 0x1F5C21E0 = .ok bytes ∧
      bytes.size = 512 * blocksFor (blank 257).size ∧ File.ofBytes bytes = .ok f ∧
      f.records.map Record.decode = rs.map .ok ∧ rs.length = blocksFor (blank 257).size ∧
      (∀ i (hi : i < rs.length), rs[i].IsBlock 0xFFFFFEFF 0x1F5C21E0
        (blocksFor (blank 257).size) i) ∧
      ∃ filling < 256, (rs.map Record.payload).flatten =
        (blank 257).toList ++ List.replicate filling erasedByte ∧
          ((blank 257).size = 0 → bytes = ByteArray.empty ∧ filling = 0) := by
  have hfits : 0 < (blank 257).size →
      (0xFFFFFEFF : UInt32).toNat + 256 * (blocksFor (blank 257).size - 1) < 0x100000000 := by
    simp [blocksFor]
  exact ⟨hfits, file_lossless.1 (blank 257) 0xFFFFFEFF 0x1F5C21E0 hfits⟩

end Uf2

end NorDisk
