import NorDisk.Proofs.ByteArrays
import NorDisk.Proofs.VectorPlayback

/-!
# A generated program puts its image into the part

An image starts on a block of 64 KiB and is written page by page; the first page in a block erases
it. So the erased blocks always reach past what is written, and end on a block of their own: a page
is programmed where the part is erased, and no erase meets a page that is written already. That is
`Written`, the invariant over the pages. Reading back then finds the image.

* **`Written.erase`**, **`Written.program`** — what one command does to the invariant.
* **`plays_writePage`**, **`plays_pages`** — one page, and any number of them.
* **`run_verifyPages`** — reading back passes on exactly the parts that hold the image.
* **`program_verifies`** — the text of a program, played to a part, passes every check and leaves
  the image there, and its checks fail where a byte of the image differs.
-/

namespace NorDisk.Svf

open Firmware

/-! ## The memory while an image is written -/

/-- `size` bytes of an image and `blocks` erased blocks stand from an offset on in a memory that
was `before`. -/
structure Written (image : List UInt8) (offset size blocks : Nat) (before after : ByteArray) :
    Prop where
  size_eq : after.size = before.size
  byteAt_eq : ∀ j, Memory.byteAt after j =
    if offset ≤ j ∧ j < offset + size then image.getD (j - offset) 0
    else if offset ≤ j ∧ j < offset + 65536 * blocks then erasedByte
    else Memory.byteAt before j

namespace Written

variable {image data : List UInt8} {offset size blocks : Nat} {before memory : ByteArray}

/-- Nothing is written and nothing erased at first. -/
theorem start (image : List UInt8) (offset : Nat) (before : ByteArray) :
    Written image offset 0 0 before before where
  size_eq := rfl
  byteAt_eq j := by rw [if_neg (by omega), if_neg (by omega)]

/-- The next block is erased when the blocks before it are full. -/
theorem erase (h : Written image offset (65536 * blocks) blocks before memory) :
    Written image offset (65536 * blocks) (blocks + 1) before
      (Memory.erase (offset + 65536 * blocks) 65536 memory) where
  size_eq := (Memory.size_erase ..).trans h.size_eq
  byteAt_eq j := by
    rw [Memory.byteAt_erase, h.byteAt_eq]
    -- The new block lies behind the others, so no byte of the image is in it.
    grind

/-- Bytes are programmed where the part is erased. -/
theorem program (h : Written image offset size blocks before memory)
    (hdata : data = (image.drop size).take 256)
    (hblock : size + data.length ≤ 65536 * blocks)
    (hsize : offset + size + data.length ≤ before.size) :
    Written image offset (size + data.length) blocks before
      (Memory.program (offset + size) 0 data memory) where
  size_eq := (Memory.size_program ..).trans h.size_eq
  byteAt_eq j := by
    have hpage : data.length ≤ 256 := by
      rw [hdata, List.length_take]
      omega
    rw [Memory.byteAt_program (by omega), h.size_eq, h.byteAt_eq, Nat.add_zero]
    -- A byte of the page was erased, so the program leaves the byte of the image.
    by_cases hj : offset + size ≤ j ∧ j < offset + size + data.length
    · have hget : data.getD (j - (offset + size)) 0 = image.getD (j - offset) 0 := by
        rw [hdata, List.getD_eq_getElem?_getD, List.getElem?_take_of_lt (by omega),
          List.getElem?_drop, ← List.getD_eq_getElem?_getD,
          show size + (j - (offset + size)) = j - offset by omega]
      rw [if_pos ⟨hj.1, hj.2, by omega⟩, if_neg (by omega), if_pos (by omega), if_pos (by omega),
        hget]
      exact UInt8.neg_one_and
    · rw [if_neg (by omega)]
      by_cases himage : offset ≤ j ∧ j < offset + size
      · rw [if_pos himage, if_pos (by omega)]
      · have hout : ¬(offset ≤ j ∧ j < offset + (size + data.length)) := by omega
        rw [if_neg himage, if_neg hout]

/-- A stretch of the image reads back. -/
theorem read (h : Written image offset size blocks before memory) {start n : Nat}
    (hend : start + n ≤ size) (hsize : size ≤ image.length) :
    Memory.read memory (offset + start) n = (image.drop start).take n := by
  apply List.ext_getElem
  · rw [Memory.length_read, List.length_take, List.length_drop]
    omega
  · intro i hi _
    rw [Memory.length_read] at hi
    simp only [Memory.read, List.getElem_map, List.getElem_range, List.getElem_take,
      List.getElem_drop]
    rw [h.byteAt_eq, if_pos (by omega), List.getD_eq_getElem?_getD,
      show offset + start + i - offset = start + i by omega, List.getElem?_eq_getElem,
      Option.getD_some]

end Written

/-! ## Pages -/

namespace Part

variable {image : ByteArray} {offset : UInt32} {i : Nat}

/-- Offsets of pages do not wrap in an image that fits. -/
theorem toNat_pageOffset (h : offset.toNat + 256 * i < 0x100000000) :
    (({} : Part).pageOffset offset i).toNat = offset.toNat + 256 * i := by
  have hi : (i * 256).toUInt32.toNat = i * 256 :=
    UInt32.toNat_ofNat_of_lt' (show i * 256 < 0x100000000 by omega)
  rw [pageOffset, UInt32.toNat_add, hi, Nat.mul_comm i, Nat.mod_eq_of_lt h]

/-- A page starts a block if it is the first of its 256 pages; the image starts on a block. -/
theorem startsBlock_iff (haligned : offset.toNat % 65536 = 0)
    (h : offset.toNat + 256 * i < 0x100000000) :
    ({} : Part).startsBlock offset i = true ↔ i % 256 = 0 := by
  have hblock : ({} : Part).blockBytes.toNat = 65536 := rfl
  simp only [startsBlock, Bool.or_eq_true, decide_eq_true_eq, ne_eq, ← UInt32.toNat_inj,
    UInt32.toNat_div, hblock, toNat_pageOffset h,
    toNat_pageOffset (show offset.toNat + 256 * (i - 1) < 0x100000000 by omega)]
  omega

/-- Pages are the stretches of 256 bytes; the last one may be shorter. -/
theorem page_eq (image : ByteArray) (i : Nat) :
    ({} : Part).page image i = (image.toList.drop (256 * i)).take 256 := by
  rw [page, Bytes.slice_eq, Nat.mul_comm i]

theorem length_page (image : ByteArray) (i : Nat) :
    (({} : Part).page image i).length = min 256 (image.size - 256 * i) := by
  rw [page_eq, List.length_take, List.length_drop, Bytes.length_toList]

/-- The erase that comes before page `i`, if it starts a block. -/
def eraseBlock (p : Part) (offset : UInt32) (i : Nat) : List Statement :=
  if p.startsBlock offset i then
    p.modify (addressCommand p.blockErase (p.pageOffset offset i)) p.eraseSeconds
  else []

def programPage (p : Part) (image : ByteArray) (offset : UInt32) (i : Nat) : List Statement :=
  p.modify (addressCommand p.pageProgram (p.pageOffset offset i) ++ p.page image i)
    p.programSeconds

/-- A page is written by an erase, if it needs one, and a program. -/
theorem writePage_eq (p : Part) (image : ByteArray) (offset : UInt32) (i : Nat) :
    p.writePage image offset i = p.eraseBlock offset i ++ p.programPage image offset i := by
  unfold writePage eraseBlock
  split <;> rfl

end Part

/-! ## Writing page by page

Page `i` lies `256 * i` bytes into the image. Before it is written, `(i + 255) / 256` blocks are
erased, the last of them up to its end; page `i` lies in block `i / 256` and is programmed there. -/

section Pages

variable {image : ByteArray} {offset : UInt32} {flash f : Flash} {i : Nat}

/-- The part between two pages: `pages` of them are written, and every block that they reach into is
erased up to its end. -/
structure Reached (image : ByteArray) (offset : UInt32) (flash : Flash) (pages : Nat) (f : Flash) :
    Prop where
  idle : f.busy = false
  written : Written image.toList offset.toNat (min (256 * pages) image.size) ((pages + 255) / 256)
    flash.memory f.memory

/-- The block of a page is erased before its first page; by then the blocks before it are full. -/
theorem plays_eraseBlock (haligned : offset.toNat % 65536 = 0)
    (hfits : offset.toNat + image.size ≤ 0x1000000) (hi : 256 * i < image.size)
    (h : Reached image offset flash i f) :
    ∃ f', Plays (({} : Part).eraseBlock offset i) f f' ∧ f'.busy = false ∧
      Written image.toList offset.toNat (256 * i) (i / 256 + 1) flash.memory f'.memory := by
  have hwritten := h.written
  rw [Nat.min_eq_left (by omega)] at hwritten
  unfold Part.eraseBlock
  by_cases hstarts : i % 256 = 0
  · -- Page `256 * k` is the first of block `k`: the `k` blocks before it are full.
    obtain ⟨k, rfl⟩ := Nat.dvd_of_mod_eq_zero hstarts
    have hstart : (({} : Part).pageOffset offset (256 * k)).toNat = offset.toNat + 65536 * k := by
      rw [Part.toNat_pageOffset (by omega)]
      omega
    have hblock : (({} : Part).pageOffset offset (256 * k)).toNat % 65536 = 0 := by omega
    obtain ⟨f', hplays, hidle, hmemory⟩ :=
      plays_modify h.idle (obey_erase hblock (by omega)) ({} : Part).eraseSeconds
    rw [if_pos ((Part.startsBlock_iff haligned (by omega)).2 hstarts)]
    refine ⟨f', hplays, hidle, ?_⟩
    rw [show 256 * (256 * k) = 65536 * k by omega, show (256 * k + 255) / 256 = k by omega]
      at hwritten
    rw [hmemory, hstart, show 256 * (256 * k) = 65536 * k by omega,
      show 256 * k / 256 + 1 = k + 1 by omega]
    exact hwritten.erase
  · rw [if_neg fun h => hstarts ((Part.startsBlock_iff haligned (by omega)).1 h)]
    rw [show (i + 255) / 256 = i / 256 + 1 by omega] at hwritten
    exact ⟨f, fun _ => rfl, h.idle, hwritten⟩

/-- **One page** is written to a part that the pages before it have reached. -/
theorem plays_writePage (haligned : offset.toNat % 65536 = 0)
    (hfits : offset.toNat + image.size ≤ 0x1000000) (hsize : flash.memory.size = 0x1000000)
    (hi : 256 * i < image.size) (h : Reached image offset flash i f) :
    ∃ f', Plays (({} : Part).writePage image offset i) f f' ∧
      Reached image offset flash (i + 1) f' := by
  obtain ⟨f₁, herase, hidle, hwritten⟩ := plays_eraseBlock haligned hfits hi h
  have hstart : (({} : Part).pageOffset offset i).toNat = offset.toNat + 256 * i :=
    Part.toNat_pageOffset (by omega)
  have hlength := Part.length_page image i
  have hpage : (({} : Part).pageOffset offset i).toNat % 256 = 0 := by omega
  obtain ⟨f', hprogram, hidle', hmemory⟩ := plays_modify hidle
    (obey_program hpage (by omega) (({} : Part).page image i)) ({} : Part).programSeconds
  have hprogrammed := hwritten.program (Part.page_eq image i) (by omega) (by omega)
  rw [← hstart, ← hmemory] at hprogrammed
  refine ⟨f', ?_, hidle', ?_⟩
  · rw [Part.writePage_eq]
    exact herase.append hprogram
  · rw [show min (256 * (i + 1)) image.size = 256 * i + (({} : Part).page image i).length by omega,
      show (i + 1 + 255) / 256 = i / 256 + 1 by omega]
    exact hprogrammed

/-- **Any number of pages**, by induction. -/
theorem plays_pages (haligned : offset.toNat % 65536 = 0)
    (hfits : offset.toNat + image.size ≤ 0x1000000) (hsize : flash.memory.size = 0x1000000)
    (hidle : flash.busy = false) (hi : 256 * i < image.size + 256) :
    ∃ f, Plays ((List.range i).flatMap (({} : Part).writePage image offset)) flash f ∧
      Reached image offset flash i f := by
  induction i with
  | zero =>
    refine ⟨flash, fun _ => rfl, hidle, ?_⟩
    exact (Nat.zero_min image.size).symm ▸ Written.start ..
  | succ i ih =>
    obtain ⟨f, hplays, hreached⟩ := ih (by omega)
    obtain ⟨f', hplays', hreached'⟩ :=
      plays_writePage haligned hfits hsize (by omega) hreached
    refine ⟨f', ?_, hreached'⟩
    rw [List.range_succ, List.flatMap_append, List.flatMap_singleton]
    exact hplays.append hplays'

/-! ### Reading back

Whatever the part holds, the checks behind the last page pass exactly if it holds the image. -/

/-- A stretch of what is read is read itself. -/
theorem take_drop_read (memory : ByteArray) (start : Nat) {skip n size : Nat}
    (h : skip + n ≤ size) :
    ((Memory.read memory start size).drop skip).take n = Memory.read memory (start + skip) n := by
  apply List.ext_getElem
  · rw [List.length_take, List.length_drop, Memory.length_read, Memory.length_read]
    omega
  · intro j _ _
    simp only [Memory.read, List.getElem_take, List.getElem_drop, List.getElem_map,
      List.getElem_range, Nat.add_assoc]

/-- Lists that agree page by page agree. -/
theorem eq_of_pages {first second : List UInt8} (hlength : first.length = second.length)
    (h : ∀ i, 256 * i < first.length →
      (first.drop (256 * i)).take 256 = (second.drop (256 * i)).take 256) : first = second := by
  apply List.ext_getElem?
  intro j
  by_cases hj : j < first.length
  · have hpage := congrArg (·[j % 256]?) (h (j / 256) (by omega))
    simp only [List.getElem?_take_of_lt (Nat.mod_lt j (by decide : 0 < 256)), List.getElem?_drop,
      Nat.div_add_mod] at hpage
    exact hpage
  · rw [List.getElem?_eq_none (by omega), List.getElem?_eq_none (by omega)]

/-- Reading a page is reading part of the image. -/
theorem read_page (image : ByteArray) (i : Nat) (memory : ByteArray) (start : Nat) :
    Memory.read memory (start + 256 * i) (({} : Part).page image i).length =
      ((Memory.read memory start image.size).drop (256 * i)).take 256 := by
  have hlength := Part.length_page image i
  by_cases hi : 256 * i ≤ image.size
  · rw [← take_drop_read memory start (show 256 * i + (({} : Part).page image i).length ≤
      image.size by omega), List.take_eq_take_iff, List.length_drop, Memory.length_read]
    omega
  · rw [List.drop_of_length_le (by rw [Memory.length_read]; omega), List.take_nil,
      ← List.length_eq_zero_iff, Memory.length_read]
    omega

/-- The pages of an image stand in a memory if the image does. -/
theorem forall_read_page_iff {memory : ByteArray} {start : Nat} :
    (∀ i ∈ List.range (({} : Part).pageCount image.size),
        Memory.read memory (start + 256 * i) (({} : Part).page image i).length =
          ({} : Part).page image i) ↔
      Memory.read memory start image.size = image.toList := by
  have hcount : ({} : Part).pageCount image.size = (image.size + 255) / 256 := rfl
  simp only [read_page]
  simp only [List.mem_range, hcount, Part.page_eq]
  constructor
  · intro h
    have hlength : (Memory.read memory start image.size).length = image.toList.length := by
      rw [Memory.length_read, Bytes.length_toList]
    refine eq_of_pages hlength fun i hi => h i ?_
    rw [Memory.length_read] at hi
    omega
  · intro h i _
    rw [h]

/-- **Reading back.** The checks of a program pass on exactly the parts that hold its image. -/
theorem run_verifyPages (hfits : offset.toNat + image.size ≤ 0x1000000) (hidle : f.busy = false)
    (noise : Nat → Nat → UInt8) :
    run noise ((List.range (({} : Part).pageCount image.size)).map fun i =>
        (({} : Part).verifyPage image offset i).operation) f =
      if Memory.read f.memory offset.toNat image.size = image.toList then some f else none := by
  have hcount : ({} : Part).pageCount image.size = (image.size + 255) / 256 := rfl
  -- Each check compares one page, all of it.
  have hpage (i : Nat) (hi : i ∈ List.range (({} : Part).pageCount image.size))
      (noise : Nat → UInt8) :
      (({} : Part).verifyPage image offset i).operation.perform noise f =
        if Memory.read f.memory (offset.toNat + 256 * i) (({} : Part).page image i).length =
          ({} : Part).page image i then some f else none := by
    rw [List.mem_range, hcount] at hi
    have hlength := Part.length_page image i
    have hstart : (({} : Part).pageOffset offset i).toNat = offset.toNat + 256 * i :=
      Part.toNat_pageOffset (by omega)
    rw [← hstart]
    exact perform_verify (List.ne_nil_of_length_pos (by omega)) (by omega) hidle noise
  rw [run_checks hpage]
  simp only [forall_read_page_iff]

end Pages

/-! ## The whole program

A program is written down in statements that read back, and runs through on the part: the checks in
front leave the part alone, the pages write the image, and writes are disabled before it is read
back. -/

/-- A scan that expects something has a mask as long as that. -/
theorem writable_expecting {data : List UInt8} (h : 8 * data.length < 1000000000)
    (expect : List UInt8) (mask : Option (List UInt8)) (ignore : Nat) :
    (Statement.expecting data expect mask ignore).Writable := by
  unfold Statement.expecting
  split
  · exact h
  · rename_i hchecked
    rw [Bool.or_eq_true, decide_eq_true_eq, not_or] at hchecked
    exact ⟨h, Statement.length_maskBytes (Nat.lt_of_not_le hchecked.1) mask⟩

/-- The four statements of a command can be written down. -/
theorem writable_modify {command : List UInt8} (h : 8 * command.length < 1000000000)
    {seconds : Float}
    (hseconds : (Statement.idle seconds).Writable) :
    ∀ s ∈ ({} : Part).modify command seconds, s.Writable := by
  simp only [Part.modify, List.forall_mem_cons]
  exact ⟨show 8 * 1 < 1000000000 by decide, h, hseconds, writable_expecting (by decide) ..,
    List.forall_mem_nil _⟩

section Program

variable {image : ByteArray} {offset : UInt32}

/-- The statements that bring an image to the part. -/
def writeStatements (image : ByteArray) (offset : UInt32) : List Statement :=
  let pages := List.range (({} : Part).pageCount image.size)
  ({} : Part).prologue ++ pages.flatMap (({} : Part).writePage image offset) ++
    [.scan [({} : Part).writeDisable]]

/-- The statements that read it back. -/
def verifyStatements (image : ByteArray) (offset : UInt32) : List Statement :=
  (List.range (({} : Part).pageCount image.size)).map (({} : Part).verifyPage image offset)

/-- The statements of a program that does not stop short. -/
def programStatements (image : ByteArray) (offset : UInt32) : List Statement :=
  writeStatements image offset ++ verifyStatements image offset

/-- A program for an image that fits does not stop short. -/
theorem program_eq (hfits : offset.toNat + image.size < 0x100000000) :
    ({} : Part).program image offset = (programStatements image offset, none) := by
  rw [Part.program, if_neg (by decide), if_neg fun h => absurd h.1 (by decide),
    if_neg (by omega)]
  rfl

/-- A page is short enough for a field, and so is the count of its bits. -/
theorem writable_writePage (image : ByteArray) (offset : UInt32) (i : Nat) :
    ∀ s ∈ ({} : Part).writePage image offset i, s.Writable := by
  have herase : (Statement.idle ({} : Part).eraseSeconds).Writable := by decide +kernel
  have hprogram : (Statement.idle ({} : Part).programSeconds).Writable := by decide +kernel
  have hlength := Part.length_page image i
  have hcommand : ∀ opcode, (addressCommand opcode (({} : Part).pageOffset offset i)).length = 4 :=
    fun _ => rfl
  have hwrite : 8 * (addressCommand ({} : Part).pageProgram (({} : Part).pageOffset offset i) ++
      ({} : Part).page image i).length < 1000000000 := by
    rw [List.length_append, hcommand]
    omega
  unfold Part.writePage
  split
  · exact List.forall_mem_append.2 ⟨writable_modify (by rw [hcommand]; decide) herase,
      writable_modify hwrite hprogram⟩
  · exact writable_modify hwrite hprogram

/-- Reading back a page can be written down. -/
theorem writable_verifyPage (image : ByteArray) (offset : UInt32) (i : Nat) :
    (({} : Part).verifyPage image offset i).Writable := by
  have hlength := Part.length_page image i
  have hcommand : (addressCommand ({} : Part).fastRead (({} : Part).pageOffset offset i) ++
      [0]).length = 5 := rfl
  unfold Part.verifyPage
  apply writable_expecting
  rw [List.length_append, List.length_replicate, hcommand]
  omega

/-- The statements that write pages, after those in front. -/
theorem writable_pages (image : ByteArray) (offset : UInt32) (pages : List Nat) :
    ∀ s ∈ ({} : Part).prologue ++ pages.flatMap (({} : Part).writePage image offset),
      s.Writable := by
  have hprologue : ∀ s ∈ ({} : Part).prologue, s.Writable :=
    List.forall_mem_cons.2 ⟨writable_expecting (by decide) ..,
      List.forall_mem_singleton.2 (writable_expecting (by decide) ..)⟩
  refine List.forall_mem_append.2 ⟨hprologue, fun s hs => ?_⟩
  obtain ⟨i, -, hs⟩ := List.mem_flatMap.1 hs
  exact writable_writePage image offset i s hs

/-- A program can be written down. -/
theorem writable_program (image : ByteArray) (offset : UInt32) :
    ∀ s ∈ programStatements image offset, s.Writable := by
  refine List.forall_mem_append.2 ⟨List.forall_mem_append.2
    ⟨writable_pages image offset _, ?_⟩, fun s hs => ?_⟩
  · exact List.forall_mem_singleton.2 (show 8 * 1 < 1000000000 by decide)
  · obtain ⟨i, -, rfl⟩ := List.mem_map.1 hs
    exact writable_verifyPage image offset i

/-- The statements in front of the checks run through on an idle part and write the image. -/
theorem plays_writes {flash : Flash} (haligned : offset.toNat % 65536 = 0)
    (hfits : offset.toNat + image.size ≤ 0x1000000) (hsize : flash.memory.size = 0x1000000)
    (hidle : flash.busy = false) :
    ∃ after, Plays (writeStatements image offset) flash after ∧ after.busy = false ∧
      Written image.toList offset.toNat image.size (((image.size + 255) / 256 + 255) / 256)
        flash.memory after.memory := by
  have hcount : ({} : Part).pageCount image.size = (image.size + 255) / 256 := rfl
  obtain ⟨f, hpages, hidle', hwritten⟩ := plays_pages haligned hfits hsize hidle
    (show 256 * ({} : Part).pageCount image.size < image.size + 256 by omega)
  rw [hcount, Nat.min_eq_right (by omega)] at hwritten
  have hdisable := plays_scan [({} : Part).writeDisable] f
  rw [Flash.after_of_idle hidle'] at hdisable
  have hprologue := (plays_checkIdentity hidle).cons (plays_checkIdle hidle)
  exact ⟨_, (hprologue.append hpages).append hdisable, hidle', hwritten⟩

/-- The checks of a program as it lists them. -/
theorem run_verifyStatements {f : Flash} (hfits : offset.toNat + image.size ≤ 0x1000000)
    (hidle : f.busy = false) (noise : Nat → Nat → UInt8) :
    run noise ((verifyStatements image offset).map (·.operation)) f =
      if Memory.read f.memory offset.toNat image.size = image.toList then some f else none := by
  rw [verifyStatements, List.map_map]
  exact run_verifyPages hfits hidle noise

/-- Byte `j` lies in a block of 64 KiB that `size` bytes from an offset on reach into. -/
def Overlapped (offset size j : Nat) : Prop := ∃ k < size, (offset + k) / 65536 = j / 65536

/-- A memory that was `before` holds an image at an offset, and nothing else in its blocks. -/
structure Programmed (image : ByteArray) (offset : Nat) (before after : ByteArray) : Prop where
  size_eq : after.size = before.size
  holds : Memory.read after offset image.size = image.toList
  erased : ∀ j, Overlapped offset image.size j → ¬(offset ≤ j ∧ j < offset + image.size) →
    Memory.byteAt after j = erasedByte
  kept : ∀ j, ¬Overlapped offset image.size j → Memory.byteAt after j = Memory.byteAt before j

/-- The blocks that an image reaches into are those from its offset on. -/
theorem overlapped_iff {offset size j : Nat} (haligned : offset % 65536 = 0) :
    Overlapped offset size j ↔
      offset ≤ j ∧ j < offset + 65536 * (((size + 255) / 256 + 255) / 256) := by
  constructor
  · intro ⟨k, hk, hblock⟩
    omega
  · -- A byte behind the image lies in the block of its last byte.
    intro hj
    rcases Nat.lt_or_ge (j - offset) size with hinside | hbehind
    · exact ⟨j - offset, hinside, by omega⟩
    · exact ⟨size - 1, by omega, by omega⟩

/-- All pages written: the blocks are erased except for the image. -/
theorem Written.programmed {offset : Nat} {before after : ByteArray}
    (haligned : offset % 65536 = 0)
    (h : Written image.toList offset image.size (((image.size + 255) / 256 + 255) / 256)
      before after) : Programmed image offset before after where
  size_eq := h.size_eq
  holds := by
    have hlength := Bytes.length_toList image
    have hread := h.read (Nat.le_of_eq (Nat.zero_add image.size)) (Nat.le_of_eq hlength.symm)
    rwa [List.drop_zero, ← hlength, List.take_length, hlength] at hread
  erased j hj hout := by
    rw [overlapped_iff haligned] at hj
    rw [h.byteAt_eq, if_neg hout, if_pos hj]
  kept j hj := by
    rw [overlapped_iff haligned] at hj
    rw [h.byteAt_eq, if_neg (by omega), if_neg hj]

/-- **Programming and verifying.** The text of a program, played to an idle part, passes every check
and leaves the image in the part, whatever the part held. The operations at its end read the image
back: played to any idle part, they pass if it holds the image and fail if a byte differs. -/
theorem program_verifies {flash : Flash} (haligned : offset.toNat % 65536 = 0)
    (hfits : offset.toNat + image.size ≤ 0x1000000) (hsize : flash.memory.size = 0x1000000)
    (hidle : flash.busy = false) :
    ∃ text writes checks after,
      completed (({} : Part).program image offset) >>= render = .ok text ∧
      operations? text = some (writes ++ checks) ∧
      (∀ noise, run noise (writes ++ checks) flash = some after) ∧
      Programmed image offset.toNat flash.memory after.memory ∧
      ∀ (f : Flash) noise, f.busy = false →
        run noise checks f =
          if Memory.read f.memory offset.toNat image.size = image.toList then some f else none := by
  obtain ⟨text, hrender, hoperations⟩ := render_reads (writable_program image offset)
  obtain ⟨after, hplays, hidle', hwritten⟩ := plays_writes haligned hfits hsize hidle
  have hprogrammed := hwritten.programmed haligned
  refine ⟨text, (writeStatements image offset).map (·.operation),
    (verifyStatements image offset).map (·.operation), after, ?_, ?_, ?_, hprogrammed, ?_⟩
  · rw [program_eq (by omega)]
    exact hrender
  · rw [hoperations, programStatements, List.map_append]
  · -- The written part holds the image, so the checks at the end pass.
    intro noise
    rw [run_append, hplays, Option.bind_some, run_verifyStatements hfits hidle',
      if_pos hprogrammed.holds]
  · intro f noise hf
    exact run_verifyStatements hfits hf noise

/-- Three bytes in the second block. The byte behind them is erased with the block, the first byte
of the next block stays, and the part as it was before fails the checks. -/
theorem program_verifies_three_bytes :
    let before := Memory.put (Memory.put (Memory.blank 0x1000000) 0x10003 0x34) 0x20000 0x12
    ∃ text writes checks after,
      completed (({} : Part).program ⟨#[0x5A, 0x00, 0xFF]⟩ 0x10000) >>= render = .ok text ∧
        operations? text = some (writes ++ checks) ∧
        (∀ noise, run noise (writes ++ checks) { memory := before, latch := true } =
          some after) ∧
        Memory.read after.memory 0x10000 3 = [0x5A, 0x00, 0xFF] ∧
        Memory.byteAt after.memory 0x10003 = 0xFF ∧ Memory.byteAt after.memory 0x20000 = 0x12 ∧
        ∀ noise, run noise checks { memory := before } = none := by
  intro before
  have hsize : before.size = 0x1000000 := by simp [before]
  have hbefore : Memory.byteAt before 0x20000 = 0x12 := by
    rw [Memory.byteAt_put, if_pos ⟨rfl, by simp⟩]
  have hdiffers : Memory.read before 0x10000 3 ≠ [0x5A, 0x00, 0xFF] := by
    intro h
    have hfirst : Memory.byteAt before 0x10000 = 0x5A := (List.cons.inj h).1
    rw [Memory.byteAt_put, if_neg (by simp), Memory.byteAt_put, if_neg (by simp),
      Memory.byteAt_blank] at hfirst
    exact absurd hfirst (by decide)
  clear_value before
  obtain ⟨text, writes, checks, after, hrender, hoperations, hrun, hprogrammed, hverify⟩ :=
    @program_verifies ⟨#[0x5A, 0x00, 0xFF]⟩ 0x10000 { memory := before, latch := true }
      (by decide) (by decide) hsize rfl
  have hbehind : Overlapped 0x10000 3 0x10003 := ⟨0, by decide, by decide⟩
  have hnext : ¬Overlapped 0x10000 3 0x20000 := fun ⟨k, hk, hblock⟩ => by omega
  have hholds := hprogrammed.holds
  rw [Bytes.toList_eq_data] at hholds
  refine ⟨text, writes, checks, after, hrender, hoperations, hrun, hholds,
    hprogrammed.erased _ hbehind (by decide), (hprogrammed.kept _ hnext).trans hbefore, ?_⟩
  intro noise
  have hfails := hverify { memory := before } noise rfl
  rw [Bytes.toList_eq_data] at hfails
  exact hfails.trans (if_neg hdiffers)

end Program

end NorDisk.Svf
