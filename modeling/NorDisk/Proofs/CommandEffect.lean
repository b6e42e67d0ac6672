import NorDisk.NorPart
import NorDisk.Proofs.Addressing

/-!
# What commands do to the memory

`Command.apply` is the effect of an accepted command, `Command.applyAll` that of a list of them.
A command touches the bytes of one sector or of one page (`Command.Touches`); all others stay
(`byteAt_apply_of_not_touches`). The commands that a disk issues are `Command.Within` its region:
aligned, and a whole page long where they program. For those the effect is an equation.

* **`byteAt_program_column`**, **`byteAt_program_of_ne`** — a page program that may wrap around,
  byte by byte, and what it leaves of its page; **`byteAt_program`** is one that stays in order.
* **`byteAt_apply_erase`**, **`byteAt_apply_program`** — the two commands on aligned operands.
-/

namespace NorDisk

namespace Memory

/-- Programming changes no byte that none of the columns of its data reaches. -/
theorem byteAt_program_of_ne {page column : Nat} (hcolumn : column < 256) {data : List UInt8}
    (memory : ByteArray) {j : Nat} (h : ∀ i < data.length, j ≠ page + (column + i) % 256) :
    byteAt (program page column data memory) j = byteAt memory j := by
  induction data generalizing column memory with
  | nil => rfl
  | cons b rest ih =>
    -- The first byte goes to another place; so do the others, by induction.
    have hfirst := h 0 (Nat.succ_pos _)
    rw [program, ih (Nat.mod_lt _ (by decide)), byteAt_put, if_neg (by omega)]
    intro i hi
    have hnext := h (i + 1) (Nat.succ_lt_succ hi)
    omega

/-- Data of up to a page reaches each of its columns once, around the end of the page if need be. -/
theorem byteAt_program_column {page column : Nat} (hcolumn : column < 256) {data : List UInt8}
    (hlength : data.length ≤ 256) (memory : ByteArray) {i : Nat} (hi : i < data.length)
    (hsize : page + (column + i) % 256 < memory.size) :
    byteAt (program page column data memory) (page + (column + i) % 256) =
      byteAt memory (page + (column + i) % 256) &&& data[i] := by
  induction data generalizing column memory i with
  | nil => exact absurd hi (Nat.not_lt_zero i)
  | cons b rest ih =>
    rw [List.length_cons] at hlength hi
    rw [program]
    cases i with
    | zero =>
      -- The columns after the first come back to it with the 257th byte only.
      have hcell : page + (column + 0) % 256 = page + column := by omega
      rw [byteAt_program_of_ne (Nat.mod_lt _ (by decide)) _ fun i hi => by omega, hcell, byteAt_put,
        if_pos ⟨rfl, hcell ▸ hsize⟩]
      rfl
    | succ i =>
      -- A later byte: its column counts from that of the second byte, and the first is not it.
      have hcell : page + (column + (i + 1)) % 256 = page + ((column + 1) % 256 + i) % 256 := by
        omega
      rw [hcell, ih (Nat.mod_lt _ (by decide)) (by omega) _ (by omega)
        (by rw [size_put]; exact hcell ▸ hsize), byteAt_put, if_neg (by omega)]
      rfl

/-- Programming a stretch that does not reach the end of its page clears the bits of that
stretch. -/
theorem byteAt_program {page column : Nat} {data : List UInt8} (h : column + data.length ≤ 256)
    (memory : ByteArray) (j : Nat) :
    byteAt (program page column data memory) j =
      if page + column ≤ j ∧ j < page + column + data.length ∧ j < memory.size then
        byteAt memory j &&& data.getD (j - (page + column)) 0
      else byteAt memory j := by
  split
  · rename_i hj
    obtain ⟨i, rfl⟩ := Nat.exists_eq_add_of_le hj.1
    have hi : i < data.length := by omega
    -- Inside the stretch no column wraps around, so that the place is that of byte `i`.
    have hcell : page + column + i = page + (column + i) % 256 := by omega
    rw [Nat.add_sub_cancel_left, List.getD_eq_getElem?_getD, List.getElem?_eq_getElem hi, hcell]
    exact byteAt_program_column (by omega) (by omega) memory hi (hcell ▸ hj.2.2)
  · rename_i hj
    by_cases hsize : j < memory.size
    · cases data with
      | nil => rfl
      | cons b rest =>
        rw [List.length_cons] at h hj
        refine byteAt_program_of_ne (by omega) memory fun i hi => ?_
        rw [List.length_cons] at hi
        omega
    · -- Past the end there is nothing to program, and the byte reads as erased anyway.
      simp [byteAt, hsize]

/-- Programming stays in its page. -/
theorem byteAt_program_of_not_mem {page column : Nat} (hcolumn : column < 256) (data : List UInt8)
    (memory : ByteArray) {j : Nat} (h : j < page ∨ page + 256 ≤ j) :
    byteAt (program page column data memory) j = byteAt memory j :=
  byteAt_program_of_ne hcolumn memory fun i _ => by omega

/-- Stretches with the same bytes read alike. -/
theorem read_congr {memory memory' : ByteArray} {start start' n : Nat}
    (h : ∀ i < n, byteAt memory (start + i) = byteAt memory' (start' + i)) :
    read memory start n = read memory' start' n := by
  unfold read
  apply List.map_congr_left
  intro i hi
  exact h i (List.mem_range.mp hi)

theorem byteAt_of_read_eq {memory memory' : ByteArray} {start start' n : Nat}
    (h : read memory start n = read memory' start' n) {i : Nat} (hi : i < n) :
    byteAt memory (start + i) = byteAt memory' (start' + i) := by
  have hbyte := congrArg (·[i]?) h
  simpa [read, hi] using hbyte

/-- A stretch of erased bytes reads as a blank one. -/
theorem read_eq_erased {memory : ByteArray} {start n : Nat}
    (h : ∀ i < n, byteAt memory (start + i) = erasedByte) :
    read memory start n = List.replicate n erasedByte := by
  refine List.eq_replicate_iff.mpr ⟨length_read _ _ _, fun b hb => ?_⟩
  obtain ⟨i, hi, rfl⟩ := List.mem_map.mp hb
  exact h i (List.mem_range.mp hi)

end Memory

namespace Command

open Memory

/-- The memory after an accepted command. -/
def apply : Command → ByteArray → ByteArray
  | erase offset => Memory.erase (sectorBase offset).toNat sectorBytes.toNat
  | program offset data =>
    Memory.program (offset.toNat - offset.toNat % 256) (offset.toNat % 256) (data.take 256)

/-- The memory after accepted commands, in order. -/
def applyAll (commands : List Command) (memory : ByteArray) : ByteArray :=
  commands.foldl (fun memory command => command.apply memory) memory

/-- Does the command reach byte `j`? -/
def Touches : Command → Nat → Prop
  | erase offset, j => (sectorBase offset).toNat ≤ j ∧ j < (sectorBase offset).toNat + 4096
  | program offset _, j =>
    offset.toNat - offset.toNat % 256 ≤ j ∧ j < offset.toNat - offset.toNat % 256 + 256

/-- A command for a whole sector or a whole page of the data region. -/
def Within (l : Layout) : Command → Prop
  | erase offset =>
    offset.toNat % 4096 = 0 ∧ l.regionBase.toNat ≤ offset.toNat ∧
      offset.toNat + 4096 ≤ l.flashBytes.toNat
  | program offset data =>
    offset.toNat % 256 = 0 ∧ l.regionBase.toNat ≤ offset.toNat ∧
      offset.toNat + 256 ≤ l.flashBytes.toNat ∧ data.length = 256

variable {l : Layout} {command : Command} {commands : List Command} {memory : ByteArray} {j : Nat}

@[simp] theorem size_apply (command : Command) (memory : ByteArray) :
    (command.apply memory).size = memory.size := by
  cases command <;> simp [apply]

@[simp] theorem applyAll_nil (memory : ByteArray) : applyAll [] memory = memory := rfl

theorem applyAll_cons (command : Command) (commands : List Command) (memory : ByteArray) :
    applyAll (command :: commands) memory = applyAll commands (command.apply memory) := rfl

/-- Lists of commands apply one after the other. -/
theorem applyAll_append (commands commands' : List Command) (memory : ByteArray) :
    applyAll (commands ++ commands') memory = applyAll commands' (applyAll commands memory) :=
  List.foldl_append

@[simp] theorem size_applyAll (commands : List Command) (memory : ByteArray) :
    (applyAll commands memory).size = memory.size := by
  induction commands generalizing memory with
  | nil => rfl
  | cons command rest ih => rw [applyAll_cons, ih, size_apply]

/-- A command leaves the bytes that it does not reach. -/
theorem byteAt_apply_of_not_touches (h : ¬ command.Touches j) :
    byteAt (command.apply memory) j = byteAt memory j := by
  cases command with
  | erase offset =>
    exact (byteAt_erase _ _ _ _).trans (if_neg h)
  | program offset data =>
    exact byteAt_program_of_not_mem (Nat.mod_lt _ (by decide)) _ _ (by
      unfold Touches at h
      omega)

/-- A list of commands leaves the bytes that none of them reaches. -/
theorem byteAt_applyAll_of_not_touches (h : ∀ command ∈ commands, ¬ command.Touches j) :
    byteAt (applyAll commands memory) j = byteAt memory j := by
  induction commands generalizing memory with
  | nil => rfl
  | cons command rest ih =>
    rw [applyAll_cons, ih fun c hc => h c (List.mem_cons_of_mem _ hc),
      byteAt_apply_of_not_touches (h command List.mem_cons_self)]

/-- A command within the region reaches nothing outside of it. -/
theorem Within.of_touches (h : command.Within l) (hj : command.Touches j) :
    l.regionBase.toNat ≤ j ∧ j < l.flashBytes.toNat := by
  cases command with
  | erase offset =>
    obtain ⟨haligned, hbase, hend⟩ := h
    obtain ⟨hlow, hhigh⟩ := hj
    rw [toNat_sectorBase] at hlow hhigh
    omega
  | program offset data =>
    obtain ⟨haligned, hbase, hend, -⟩ := h
    obtain ⟨hlow, hhigh⟩ := hj
    omega

/-- An aligned erase blanks its sector and nothing else. -/
theorem byteAt_apply_erase {offset : UInt32} (h : offset.toNat % 4096 = 0) (memory : ByteArray)
    (j : Nat) :
    byteAt ((erase offset).apply memory) j =
      if offset.toNat ≤ j ∧ j < offset.toNat + 4096 then erasedByte else byteAt memory j := by
  have hbase : (sectorBase offset).toNat = offset.toNat := by rw [toNat_sectorBase, h]; rfl
  rw [apply, byteAt_erase, hbase]
  rfl

/-- A page program on an aligned offset clears bits of its page and nothing else. -/
theorem byteAt_apply_program {offset : UInt32} {data : List UInt8} (h : offset.toNat % 256 = 0)
    (hlength : data.length = 256) (hsize : offset.toNat + 256 ≤ memory.size) (j : Nat) :
    byteAt ((program offset data).apply memory) j =
      if offset.toNat ≤ j ∧ j < offset.toNat + 256 then
        byteAt memory j &&& data.getD (j - offset.toNat) 0
      else byteAt memory j := by
  have htake : data.take 256 = data := List.take_of_length_le (by omega)
  rw [apply, htake, h, byteAt_program (by omega), hlength, Nat.sub_zero, Nat.add_zero]
  by_cases hj : offset.toNat ≤ j ∧ j < offset.toNat + 256
  · rw [if_pos hj, if_pos ⟨hj.1, hj.2, by omega⟩]
  · rw [if_neg hj, if_neg (by omega)]

end Command

end NorDisk
