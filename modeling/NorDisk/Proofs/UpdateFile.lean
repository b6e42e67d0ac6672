import NorDisk.Proofs.ByteArrays
import NorDisk.Uf2.File

/-!
# Update files hold their records

* **`Record.decode_encode_append`** — a record reads back from its bytes, whatever follows them.
* **`blockRecord`** — the record for one block of data, for an address that fits a word.
* **`exists_encodeData`** — the file for data is those records laid end to end, and the records read
  from it are those again (`File.record_eq`).
-/

namespace NorDisk.Uf2

open Memory

/-! ## One record -/

namespace Record

/-- Words written end to end are read at their places. -/
theorem ofLE_drop_words (words : List UInt32) (tail : List UInt8) {i : Nat}
    (h : i < words.length) :
    Word.ofLE ((words.flatMap Word.toLE ++ tail).drop (4 * i)) = words[i] := by
  induction words generalizing i with
  | nil => exact absurd h (Nat.not_lt_zero i)
  | cons w rest ih =>
    rw [List.flatMap_cons, List.append_assoc]
    cases i with
    | zero => exact Word.ofLE_toLE w _
    | succ i => exact ih (Nat.lt_of_succ_lt_succ h)

/-- **A record reads back.** -/
theorem decode_encode_append (r : Record) (rest : List UInt8) :
    decode (r.encode ++ rest) = .ok r := by
  have hlayout : r.encode ++ rest = [startMagic, secondMagic, r.flags, r.target, r.payloadSize,
      r.blockNo, r.numBlocks, r.family].flatMap Word.toLE ++
        (r.data ++ (Word.toLE endMagic ++ rest)) := by
    simp [encode]
  -- The checks of the reader, in its order.
  have hlong : ¬ (r.encode ++ rest).length < recordBytes := by
    rw [List.length_append, length_encode]
    omega
  have hdata : ((r.encode ++ rest).drop 32).take dataBytes = r.data := by
    rw [hlayout]
    exact List.take_left' r.length_data
  have hend : Word.ofLE ((r.encode ++ rest).drop 508) = endMagic := by
    have hlast : (r.encode ++ rest).drop 508 = Word.toLE endMagic ++ rest := by
      rw [hlayout]
      exact List.drop_left' r.length_data
    rw [hlast, Word.ofLE_toLE]
  have hword {i : Nat} (h : i < 8) : Word.ofLE ((r.encode ++ rest).drop (4 * i)) =
      [startMagic, secondMagic, r.flags, r.target, r.payloadSize, r.blockNo, r.numBlocks,
        r.family][i] := by
    rw [hlayout]
    exact ofLE_drop_words _ _ h
  have hmagic : ¬ (Word.ofLE (r.encode ++ rest) ≠ startMagic ∨
      Word.ofLE ((r.encode ++ rest).drop 4) ≠ secondMagic ∨
      Word.ofLE ((r.encode ++ rest).drop 508) ≠ endMagic) := by
    rintro (h | h | h)
    · exact h (hword (i := 0) (by decide))
    · exact h (hword (i := 1) (by decide))
    · exact h hend
  -- The fields.
  have hflags : Word.ofLE ((r.encode ++ rest).drop 8) = r.flags := hword (i := 2) (by decide)
  have htarget : Word.ofLE ((r.encode ++ rest).drop 12) = r.target := hword (i := 3) (by decide)
  have hsize : Word.ofLE ((r.encode ++ rest).drop 16) = r.payloadSize :=
    hword (i := 4) (by decide)
  have hblockNo : Word.ofLE ((r.encode ++ rest).drop 20) = r.blockNo := hword (i := 5) (by decide)
  have htotal : Word.ofLE ((r.encode ++ rest).drop 24) = r.numBlocks := hword (i := 6) (by decide)
  have hfamily : Word.ofLE ((r.encode ++ rest).drop 28) = r.family := hword (i := 7) (by decide)
  rw [decode, dif_neg hlong, if_neg hmagic]
  simp only [hflags, htarget, hsize, hblockNo, htotal, hfamily, hdata]

/-- The bytes of a record read as that record. -/
theorem decode_encode (r : Record) : decode r.encode = .ok r := by
  have h := decode_encode_append r []
  rwa [List.append_nil] at h

end Record

/-! ## The records of data -/

/-- A block of data is read with zeros past its end. -/
theorem dataBlock_eq (data : ByteArray) (i : Nat) : dataBlock data i = read data (256 * i) 256 := by
  rw [dataBlock, Bytes.slice_eq, read_eq_rightpad, Nat.mul_comm]

/-- The record for block `i` of data that goes to addresses from `base` on. -/
def blockRecord (data : ByteArray) (base family : UInt32) (i : Nat) : Record where
  flags := familyPresent
  target := base + (i * 256).toUInt32
  payloadSize := blockBytes
  blockNo := i.toUInt32
  numBlocks := (blocksFor data.size).toUInt32
  family := family
  data := read data (256 * i) 256 ++ List.replicate 220 0
  length_data := by
    rw [List.length_append, length_read, List.length_replicate]
    rfl

section DataRecords

variable {data : ByteArray} {base family : UInt32} {i : Nat}

/-- The offset of a block does not wrap where its target does not. -/
theorem toNat_blockBytes_mul (h : base.toNat + 256 * i < 0x100000000) :
    ((i * 256).toUInt32).toNat = 256 * i := by
  rw [Nat.mul_comm]
  exact UInt32.toNat_ofNat_of_lt' (by unfold UInt32.size; omega)

/-- A target is the address of its block. -/
theorem toNat_target (h : base.toNat + 256 * i < 0x100000000) :
    (blockRecord data base family i).target.toNat = base.toNat + 256 * i := by
  have hword := toNat_blockBytes_mul h
  show (base + (i * 256).toUInt32).toNat = _
  rw [UInt32.toNat_add, hword]
  omega

/-- A record carries its block. -/
theorem payload_blockRecord (data : ByteArray) (base family : UInt32) (i : Nat) :
    (blockRecord data base family i).payload = read data (256 * i) 256 :=
  List.take_left' (length_read _ _ _)

/-- Records of data are for the main flash. -/
theorem isMainFlash_blockRecord (data : ByteArray) (base family : UInt32) (i : Nat) :
    (blockRecord data base family i).isMainFlash = true := by
  show decide (familyPresent &&& notMainFlash = 0) = true
  decide

/-- Where the target fits a word, making the record does not trap. -/
theorem dataRecord_eq (h : base.toNat + 256 * i < 0x100000000) :
    dataRecord data base family i = .ok (blockRecord data base family i) := by
  have hword := toNat_blockBytes_mul h
  have htarget : Checked.add base (i * 256).toUInt32 = .ok (base + (i * 256).toUInt32) :=
    Checked.add_eq_ok (by omega)
  rw [dataRecord, htarget, dataBlock_eq]
  simp only [bind, Except.bind, Record.ofPayload, length_read]
  rfl

/-- The file for data is the records of its blocks, end to end. -/
theorem exists_encodeData (family : UInt32)
    (h : ∀ i < blocksFor data.size, base.toNat + 256 * i < 0x100000000) :
    ∃ bytes, encodeData data base family = .ok bytes ∧ bytes.toList =
      ((List.range (blocksFor data.size)).map
        fun i => (blockRecord data base family i).encode).flatten := by
  -- Induction on the blocks that are written; the targets of all of them fit a word.
  have hfold : ∀ n ≤ blocksFor data.size, ∃ bytes,
      (List.range n).foldlM (fun (out : ByteArray) i => do
        let r ← dataRecord data base family i
        return r.encode.foldl ByteArray.push out) ByteArray.empty = Except.ok bytes ∧
      bytes.toList =
        ((List.range n).map fun i => (blockRecord data base family i).encode).flatten := by
    intro n
    induction n with
    | zero => exact fun _ => ⟨ByteArray.empty, rfl, ByteArray.toList_empty⟩
    | succ n ih =>
      intro hn
      obtain ⟨bytes, hbytes, hlist⟩ := ih (by omega)
      have hrecord : dataRecord data base family n = .ok (blockRecord data base family n) :=
        dataRecord_eq (h n hn)
      refine ⟨(blockRecord data base family n).encode.foldl ByteArray.push bytes, ?_, ?_⟩
      · rw [List.range_succ, List.foldlM_append, hbytes]
        simp only [bind, Except.bind, List.foldlM_cons, hrecord]
        rfl
      · rw [Bytes.toList_foldl_push, hlist, List.range_succ, List.map_append, List.flatten_append]
        simp
  exact hfold _ (Nat.le_refl _)

end DataRecords

/-- A file of whole records is cut into them again. -/
theorem File.record_eq {bytes : ByteArray} {records : List (List UInt8)}
    (hbytes : bytes.toList = records.flatten)
    (hlength : ∀ record ∈ records, record.length = recordBytes) :
    ∃ f, File.ofBytes bytes = .ok f ∧ f.count = records.length ∧
      ∀ i (_ : i < records.length), f.record i = records[i] := by
  -- Records have one length, so the file is as long as that many of them.
  have hsize : bytes.size = records.length * recordBytes := by
    have hall : records.map List.length = List.replicate records.length recordBytes := by
      refine List.eq_replicate_iff.mpr ⟨List.length_map _, fun n hn => ?_⟩
      obtain ⟨record, hmem, rfl⟩ := List.mem_map.mp hn
      exact hlength record hmem
    rw [← Bytes.length_toList, hbytes, List.length_flatten, hall, List.sum_replicate_nat]
  have hwhole : bytes.size % recordBytes = 0 := by rw [hsize, Nat.mul_mod_left]
  refine ⟨⟨bytes, hwhole⟩, dif_pos hwhole, ?_, fun i hi => ?_⟩
  · show bytes.size / recordBytes = _
    rw [hsize]
    exact Nat.mul_div_cancel _ (by decide)
  · show Bytes.slice bytes (i * recordBytes) recordBytes = _
    rw [Bytes.slice_eq, hbytes]
    exact Bytes.take_drop_flatten hlength hi

/-- The records of a file that was laid end to end. -/
theorem File.records_eq {bytes : ByteArray} {records : List (List UInt8)}
    (hbytes : bytes.toList = records.flatten)
    (hlength : ∀ record ∈ records, record.length = recordBytes) :
    ∃ f, File.ofBytes bytes = .ok f ∧ f.records = records := by
  obtain ⟨f, hf, hcount, hrecord⟩ := File.record_eq hbytes hlength
  refine ⟨f, hf, ?_⟩
  rw [File.records, hcount]
  apply List.ext_getElem
  · rw [List.length_map, List.length_range]
  · intro i _ hi
    rw [List.getElem_map, List.getElem_range, hrecord i hi]

end NorDisk.Uf2
