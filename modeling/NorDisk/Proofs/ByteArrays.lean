import NorDisk.Bytes
import NorDisk.NorPart

/-!
# Byte arrays as lists

Files and memories are byte arrays, records and blocks are lists. A byte array is reasoned about as
the list of its bytes; a stretch of a memory that reaches past its end reads as erased there.
-/

namespace NorDisk

namespace Bytes

/-- The list that a byte array is turned into is that of its elements. -/
theorem toList_eq_data (bytes : ByteArray) : bytes.toList = bytes.data.toList := by
  -- The loop collects bytes in front of those seen so far; induction on the bytes that are left.
  have hloop : ∀ (n i : Nat) (front : List UInt8), bytes.size - i = n →
      ByteArray.toList.loop bytes i front = front.reverse ++ bytes.data.toList.drop i := by
    intro n
    induction n with
    | zero =>
      intro i front hn
      have hend : bytes.data.toList.length ≤ i := by
        rw [Array.length_toList, ByteArray.size_data]
        omega
      rw [ByteArray.toList.loop, if_neg (by omega), List.drop_eq_nil_of_le hend, List.append_nil]
    | succ n ih =>
      intro i front hn
      have hi : i < bytes.data.toList.length := by
        rw [Array.length_toList, ByteArray.size_data]
        omega
      have hget : bytes.get! i = bytes.data.toList[i] := by
        have hsize : i < bytes.data.size := by rwa [Array.length_toList] at hi
        show bytes.data[i]! = _
        rw [getElem!_pos bytes.data i hsize, Array.getElem_toList]
      rw [ByteArray.toList.loop, if_pos (by omega), ih (i + 1) _ (by omega), hget,
        List.reverse_cons, List.append_assoc, List.drop_eq_getElem_cons hi]
      rfl
  exact hloop _ 0 [] rfl

@[simp] theorem length_toList (bytes : ByteArray) : bytes.toList.length = bytes.size := by
  rw [toList_eq_data]
  exact Array.length_toList

theorem toList_extract (bytes : ByteArray) (start stop : Nat) :
    (bytes.extract start stop).toList = (bytes.toList.drop start).take (stop - start) := by
  rw [toList_eq_data, toList_eq_data, ByteArray.data_extract, Array.toList_extract,
    List.extract_eq_take_drop]

/-- A slice is a stretch of the list. -/
theorem slice_eq (bytes : ByteArray) (start len : Nat) :
    slice bytes start len = (bytes.toList.drop start).take len := by
  rw [slice, toList_extract, Nat.add_sub_cancel_left]

/-- Pushing bytes appends them. -/
theorem toList_foldl_push (added : List UInt8) (bytes : ByteArray) :
    (added.foldl ByteArray.push bytes).toList = bytes.toList ++ added := by
  induction added generalizing bytes with
  | nil => rw [List.foldl_nil, List.append_nil]
  | cons b rest ih =>
    have hpush : (bytes.push b).toList = bytes.toList ++ [b] := by
      rw [toList_eq_data, toList_eq_data, ByteArray.data_push, Array.toList_push]
    rw [List.foldl_cons, ih, hpush, List.append_assoc]
    rfl

/-- Piece `i` of pieces of one size, laid end to end. -/
theorem take_drop_flatten {size : Nat} {pieces : List (List UInt8)}
    (h : ∀ piece ∈ pieces, piece.length = size) {i : Nat} (hi : i < pieces.length) :
    (pieces.flatten.drop (i * size)).take size = pieces[i] := by
  induction pieces generalizing i with
  | nil => exact absurd hi (Nat.not_lt_zero i)
  | cons piece rest ih =>
    have hpiece := h piece List.mem_cons_self
    rw [List.flatten_cons]
    cases i with
    | zero =>
      rw [Nat.zero_mul, List.drop_zero, List.take_left' hpiece]
      rfl
    | succ i =>
      have hskip : (i + 1) * size = piece.length + i * size := by
        rw [hpiece, Nat.succ_mul, Nat.add_comm]
      rw [hskip, ← List.drop_drop, List.drop_left]
      exact ih (fun p hp => h p (List.mem_cons_of_mem _ hp)) (Nat.lt_of_succ_lt_succ hi)

end Bytes

namespace Memory

/-- A byte past the end reads as erased. -/
theorem byteAt_eq_getD (memory : ByteArray) (i : Nat) :
    byteAt memory i = memory.toList.getD i erasedByte := by
  rw [List.getD_eq_getElem?_getD, byteAt, Bytes.toList_eq_data]
  split
  · rename_i h
    have hi : i < memory.data.toList.length := by rwa [Array.length_toList]
    rw [List.getElem?_eq_getElem hi, Option.getD_some, Array.getElem_toList]
    rfl
  · rename_i h
    have hi : memory.data.toList.length ≤ i := by
      rw [Array.length_toList]
      exact Nat.le_of_not_lt h
    rw [List.getElem?_eq_none hi, Option.getD_none]

/-- A stretch of a memory is that of its list, filled up with erased bytes past the end. -/
theorem read_eq_rightpad (memory : ByteArray) (start n : Nat) :
    read memory start n = ((memory.toList.drop start).take n).rightpad n erasedByte := by
  apply List.ext_getElem
  · rw [length_read, List.length_rightpad, List.length_take]
    omega
  -- Inside the list both are its byte, past its end both are erased.
  · intro i hi _
    have hi : i < n := by simpa using hi
    simp only [read, List.getElem_map, List.getElem_range, byteAt_eq_getD, List.rightpad,
      List.getD_eq_getElem?_getD]
    by_cases hlt : i < ((memory.toList.drop start).take n).length
    · rw [List.getElem_append_left hlt, List.getElem_take, List.getElem_drop,
        List.getElem?_eq_getElem, Option.getD_some]
    · rw [List.getElem_append_right (Nat.le_of_not_lt hlt), List.getElem_replicate,
        List.getElem?_eq_none, Option.getD_none]
      rw [List.length_take, List.length_drop] at hlt
      omega

end Memory

end NorDisk
