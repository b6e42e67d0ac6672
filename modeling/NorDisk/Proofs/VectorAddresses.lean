import Mathlib.Data.List.Nodup
import NorDisk.Proofs.ImagePlayback
import NorDisk.Tool.Product

/-!
# The addresses in a vector file

A transaction has three bytes for an address, so a program for an image can only name places below
16 MiB. `svf` asks of an offset that it starts a block and of the file that an identity code can be
found, and nothing else: whether the image ends below 16 MiB is not checked, as `uf2` checks its
region. Page `i` of an image at an offset is programmed at `offset + 256 * i` modulo 16 MiB, and
past 4 GiB no file is made at all.

* **`Operation.access?`** — the place in the part that a transaction names, read off its bytes.
* **`accesses_programStatements`** — the places that a program erases, programs and reads back.
* **`svf_places_image_iff`** — for every image and offset: what is refused, what traps, and exactly
  when the image goes where it was meant to.
-/

namespace NorDisk

/-- Three address bytes name an offset modulo 16 MiB. -/
theorem Firmware.SpiChip.offsetOf_byte_eq_mod (offset : UInt32) :
    offsetOf (Word.byte offset 2) (Word.byte offset 1) (Word.byte offset 0) =
      offset.toNat % 0x1000000 := by
  rw [offsetOf, Word.toNat_byte _ (by decide), Word.toNat_byte _ (by decide),
    Word.toNat_byte _ (by decide)]
  omega

namespace Svf

open Firmware.SpiChip (offsetOf offsetOf_byte_eq_mod)

/-! ## Accesses -/

/-- What is done at a place in the part. -/
inductive Access where
  | erase (addr : Nat)
  | program (addr : Nat) (data : List UInt8)
  /-- Read back and compare. -/
  | verify (addr : Nat) (data : List UInt8)
deriving DecidableEq

/-- The place that is programmed, if one is. -/
def Access.programmed? : Access → Option Nat
  | program addr _ => some addr
  | _ => none

/-- The access that a transaction makes: an opcode, three address bytes and data. A fast read has a
dummy byte before the data. -/
def Operation.access? : Operation → Option Access
  | scan (opcode :: a2 :: a1 :: a0 :: data) =>
    if opcode = Opcode.blockErase then some (.erase (offsetOf a2 a1 a0))
    else if opcode = Opcode.pageProgram then some (.program (offsetOf a2 a1 a0) data)
    else none
  | check (opcode :: a2 :: a1 :: a0 :: _) expected _ =>
    if opcode = Opcode.fastRead then some (.verify (offsetOf a2 a1 a0) (expected.drop 5)) else none
  | _ => none

/-- Bring page `i` of an image to a place; a block is erased before its first page. -/
def writeAccesses (image : ByteArray) (i addr : Nat) : List Access :=
  (if i % 256 = 0 then [.erase addr] else []) ++
    [.program addr ((image.toList.drop (256 * i)).take 256)]

/-- The accesses that put an image into the part and read it back, with page `i` at `place i`. -/
def imageAccesses (image : ByteArray) (place : Nat → Nat) : List Access :=
  let pages := List.range ((image.size + 255) / 256)
  pages.flatMap (fun i => writeAccesses image i (place i)) ++
    pages.map fun i => .verify (place i) ((image.toList.drop (256 * i)).take 256)

section ImageAccesses

variable {image : ByteArray} {place place' : Nat → Nat}

/-- The places that are programmed are those of the pages, in order. -/
theorem programmed_imageAccesses (image : ByteArray) (place : Nat → Nat) :
    (imageAccesses image place).filterMap Access.programmed? =
      (List.range ((image.size + 255) / 256)).map place := by
  have hwrite (i : Nat) :
      (writeAccesses image i (place i)).filterMap Access.programmed? = [place i] := by
    unfold writeAccesses
    split <;> rfl
  have hverify : ((List.range ((image.size + 255) / 256)).map fun i => Access.verify (place i)
      ((image.toList.drop (256 * i)).take 256)).filterMap Access.programmed? = [] := by
    rw [List.filterMap_map]
    exact List.filterMap_eq_nil_iff.mpr fun _ _ => rfl
  simp only [imageAccesses, List.filterMap_append, List.filterMap_flatMap, hwrite, hverify,
    List.append_nil]
  exact List.map_eq_flatMap.symm

/-- Accesses depend on the places of the pages that the image has. -/
theorem imageAccesses_congr (h : ∀ i < (image.size + 255) / 256, place i = place' i) :
    imageAccesses image place = imageAccesses image place' := by
  have hpages (i : Nat) (hi : i ∈ List.range ((image.size + 255) / 256)) : place i = place' i :=
    h i (List.mem_range.mp hi)
  rw [imageAccesses, imageAccesses]
  congr 1
  · exact List.flatMap_congr fun i hi => by rw [hpages i hi]
  · exact List.map_congr_left fun i hi => by rw [hpages i hi]

/-- Accesses tell the places of the pages apart. -/
theorem imageAccesses_inj : imageAccesses image place = imageAccesses image place' ↔
    ∀ i < (image.size + 255) / 256, place i = place' i := by
  refine ⟨fun h i hi => ?_, imageAccesses_congr⟩
  have hplaces := congrArg (List.filterMap Access.programmed?) h
  rw [programmed_imageAccesses, programmed_imageAccesses] at hplaces
  exact List.map_inj_left.mp hplaces i (List.mem_range.mpr hi)

end ImageAccesses

/-! ## The accesses of a program -/

/-- The accesses of statements, as a player makes them. -/
def accesses (statements : List Statement) : List Access :=
  statements.filterMap (·.operation.access?)

/-- Statements are taken one by one. -/
theorem accesses_append (first rest : List Statement) :
    accesses (first ++ rest) = accesses first ++ accesses rest := List.filterMap_append

theorem accesses_flatMap (f : Nat → List Statement) (is : List Nat) :
    accesses (is.flatMap f) = is.flatMap fun i => accesses (f i) := List.filterMap_flatMap

theorem accesses_singleton (s : Statement) : accesses [s] = s.operation.access?.toList := by
  rw [accesses, List.filterMap_cons]
  cases s.operation.access? <;> rfl

/-- Enabling, waiting and polling name no place. -/
theorem accesses_modify (command : List UInt8) (seconds : Float) :
    accesses (({} : Part).modify command seconds) = (Operation.scan command).access?.toList := by
  have hidle : accesses [.idle seconds, ({} : Part).checkIdle] = [] := rfl
  show accesses ([.scan [({} : Part).writeEnable]] ++ ([.scan command] ++
    [.idle seconds, ({} : Part).checkIdle])) = _
  rw [accesses_append, accesses_append, hidle, List.append_nil, accesses_singleton,
    accesses_singleton]
  rfl

section Program

variable {image : ByteArray} {offset : UInt32} {i : Nat}

/-- The place of page `i`, as three bytes name it. -/
def placeOf (offset : UInt32) (i : Nat) : Nat := (offset.toNat + 256 * i) % 0x1000000

/-- The address bytes of a page name its place. -/
theorem offsetOf_pageOffset (h : offset.toNat + 256 * i < 0x100000000) :
    offsetOf (Word.byte (({} : Part).pageOffset offset i) 2)
      (Word.byte (({} : Part).pageOffset offset i) 1)
      (Word.byte (({} : Part).pageOffset offset i) 0) = placeOf offset i := by
  rw [offsetOf_byte_eq_mod, Part.toNat_pageOffset h]
  rfl

/-- Writing a page erases its block if it is the first there, and programs it. -/
theorem accesses_writePage (haligned : offset.toNat % 65536 = 0)
    (h : offset.toNat + 256 * i < 0x100000000) :
    accesses (({} : Part).writePage image offset i) =
      writeAccesses image i (placeOf offset i) := by
  have herase : (Operation.scan (addressCommand ({} : Part).blockErase
      (({} : Part).pageOffset offset i))).access? = some (.erase (placeOf offset i)) := by
    rw [← offsetOf_pageOffset h]
    rfl
  have hprogram : (Operation.scan (addressCommand ({} : Part).pageProgram
      (({} : Part).pageOffset offset i) ++ ({} : Part).page image i)).access? =
        some (.program (placeOf offset i) ((image.toList.drop (256 * i)).take 256)) := by
    rw [← offsetOf_pageOffset h, ← Part.page_eq]
    rfl
  rw [Part.writePage_eq, accesses_append, Part.eraseBlock, Part.programPage, accesses_modify,
    hprogram, writeAccesses]
  by_cases hstarts : i % 256 = 0
  · rw [if_pos hstarts, if_pos ((Part.startsBlock_iff haligned h).mpr hstarts), accesses_modify,
      herase]
    rfl
  · rw [if_neg hstarts, if_neg (mt (Part.startsBlock_iff haligned h).mp hstarts)]
    rfl

/-- Reading back a page compares it at its place. -/
theorem access?_verifyPage (h : offset.toNat + 256 * i < 0x100000000) (hi : 256 * i < image.size) :
    (({} : Part).verifyPage image offset i).operation.access? =
      some (.verify (placeOf offset i) ((image.toList.drop (256 * i)).take 256)) := by
  have hpage : ({} : Part).page image i ≠ [] := by
    have hlength := Part.length_page image i
    exact List.ne_nil_of_length_pos (by omega)
  let command := addressCommand ({} : Part).fastRead (({} : Part).pageOffset offset i) ++ [0]
  have hchecked : (({} : Part).verifyPage image offset i).operation = .check
      (command ++ List.replicate (({} : Part).page image i).length 0)
      (List.replicate command.length 0 ++ ({} : Part).page image i)
      (List.replicate command.length 0 ++
        List.replicate (({} : Part).page image i).length 0xFF) := operation_expecting hpage
  rw [hchecked, ← offsetOf_pageOffset h, ← Part.page_eq]
  rfl

/-- **The accesses of a program.** -/
theorem accesses_programStatements (haligned : offset.toNat % 65536 = 0)
    (hfits : offset.toNat + image.size < 0x100000000) :
    accesses (programStatements image offset) = imageAccesses image (placeOf offset) := by
  have hcount : ({} : Part).pageCount image.size = (image.size + 255) / 256 := rfl
  have hprologue : accesses ({} : Part).prologue = [] := rfl
  have hdisable : accesses [.scan [({} : Part).writeDisable]] = [] := rfl
  rw [programStatements, accesses_append, writeStatements, accesses_append, accesses_append,
    hprologue, hdisable, List.append_nil, List.nil_append, accesses_flatMap, imageAccesses, hcount]
  congr 1
  · refine List.flatMap_congr fun i hi => ?_
    rw [List.mem_range] at hi
    exact accesses_writePage haligned (by omega)
  · rw [accesses, verifyStatements, List.filterMap_map, ← List.filterMap_eq_map]
    refine List.filterMap_congr fun i hi => ?_
    rw [List.mem_range] at hi
    exact access?_verifyPage (by omega) (by omega)

/-- The places are the intended ones if and only if they are below 16 MiB. -/
theorem imageAccesses_placeOf_iff (haligned : offset.toNat % 65536 = 0) :
    imageAccesses image (placeOf offset) =
        imageAccesses image (fun i => offset.toNat + 256 * i) ↔
      image.size = 0 ∨ offset.toNat + image.size ≤ 0x1000000 := by
  rw [imageAccesses_inj]
  unfold placeOf
  constructor
  · intro h
    by_contra hpast
    -- The last page is at or past 16 MiB.
    have := h ((image.size + 255) / 256 - 1) (by omega)
    omega
  · intro h i hi
    omega

/-- No place is programmed twice if and only if the image has no more than 16 MiB. -/
theorem nodup_programmed_iff (haligned : offset.toNat % 65536 = 0) :
    ((imageAccesses image (placeOf offset)).filterMap Access.programmed?).Nodup ↔
      image.size ≤ 0x1000000 := by
  rw [programmed_imageAccesses, List.nodup_map_iff_inj_on List.nodup_range]
  simp only [List.mem_range]
  unfold placeOf
  constructor
  · intro h
    by_contra hlong
    -- Page 65536 comes to the place of the first one.
    have := h 0 (by omega) 65536 (by omega)
    omega
  · intro h i hi j hj hplace
    omega

/-- Whether or not it stops short, a program can be written down. -/
theorem writable_program_fst (image : ByteArray) (offset : UInt32) :
    ∀ s ∈ (({} : Part).program image offset).1, s.Writable := by
  by_cases hfits : offset.toNat + image.size < 0x100000000
  · rw [program_eq hfits]
    exact writable_program image offset
  · rw [Part.program, if_neg (by decide), if_neg fun h => absurd h.1 (by decide),
      if_pos (Nat.le_of_not_lt hfits)]
    exact writable_pages image offset _

/-- A program stops short exactly if the offsets of its pages run past 4 GiB. -/
theorem program_snd (image : ByteArray) (offset : UInt32) :
    (({} : Part).program image offset).2 =
      if offset.toNat + image.size < 0x100000000 then none else some .overflow := by
  by_cases hfits : offset.toNat + image.size < 0x100000000
  · rw [program_eq hfits, if_pos hfits]
  · rw [Part.program, if_neg (by decide), if_neg fun h => absurd h.1 (by decide),
      if_pos (Nat.le_of_not_lt hfits), if_neg hfits]

end Program

end Svf

/-! ## The command -/

namespace Tool

open Svf

variable {file output : String} {offset : UInt32} {idcode : Option UInt32} {image : ByteArray}

theorem offset_aligned_iff : offset % 65536 = 0 ↔ offset.toNat % 65536 = 0 := by
  rw [← UInt32.toNat_inj, UInt32.toNat_mod]
  rfl

/-- An offset inside a block is refused. -/
theorem make_svf_of_offBlock (file output : String) (idcode : Option UInt32) (image : ByteArray)
    (h : offset.toNat % 65536 ≠ 0) :
    Command.make (.svf file output offset idcode) image = .error (.refused (.offBlock offset)) := by
  show svfProduct file output offset idcode image = _
  rw [svfProduct, if_pos (mt offset_aligned_iff.mp h)]
  rfl

/-- An image without an identity code is refused. -/
theorem make_svf_of_noIdcode (file output : String) (h : offset.toNat % 65536 = 0)
    (hcode : (idcode <|> findIdcode image) = none) :
    Command.make (.svf file output offset idcode) image = .error (.refused (.noIdcode file)) := by
  show svfProduct file output offset idcode image = _
  rw [svfProduct, if_neg (not_not_intro (offset_aligned_iff.mpr h)), hcode]
  rfl

/-- The file for an image on a block: its program, or as much of it as there are addresses for. -/
theorem exists_make_svf (file output : String) {code : UInt32} (h : offset.toNat % 65536 = 0)
    (hcode : (idcode <|> findIdcode image) = some code) :
    ∃ product, Command.make (.svf file output offset idcode) image = .ok product ∧
      product.trap = (if offset.toNat + image.size < 0x100000000 then none else some .overflow) ∧
      (offset.toNat + image.size < 0x100000000 → ∃ text operations,
        product.contents = (enclose code text).toUTF8 ∧ operations? text = some operations ∧
        operations.filterMap Operation.access? = imageAccesses image (placeOf offset)) := by
  obtain ⟨text, hrender, hoperations⟩ := render_reads (writable_program_fst image offset)
  -- The checks are passed, so a file comes out in any case; a program that stops short is not
  -- enclosed.
  have hmake : ∃ product, svfProduct file output offset idcode image = .ok product ∧
      product.trap = (({} : Part).program image offset).2 ∧
      product.contents = (if (({} : Part).program image offset).2.isSome then
        opening code ++ text else enclose code text).toUTF8 := by
    rw [svfProduct, if_neg (not_not_intro (offset_aligned_iff.mpr h)), hcode]
    simp only [bind, Except.bind, pure, Except.pure, hrender, Making.ofChecked]
    exact ⟨_, rfl, rfl, rfl⟩
  obtain ⟨product, hproduct, htrap, hcontents⟩ := hmake
  refine ⟨product, hproduct, by rw [htrap, program_snd],
    fun hfits => ⟨text, _, ?_, hoperations, ?_⟩⟩
  · rw [hcontents, program_eq hfits]
    rfl
  · rw [program_eq hfits, List.filterMap_map]
    exact accesses_programStatements h hfits

/-- **Where `svf` puts an image.** The command refuses an offset inside a block and an image without
an identity code, and nothing else. What it takes past 4 GiB traps. All other files program, erase
and read back page `i` at `offset + 256 * i` modulo 16 MiB: the image goes to its place if and only
if it ends by 16 MiB, and two of its pages share a place if and only if it is longer than that. -/
theorem svf_places_image_iff (file output : String) (offset : UInt32) (idcode : Option UInt32)
    (image : ByteArray) :
    (∀ fault, Command.make (.svf file output offset idcode) image = .error fault ↔
      (offset.toNat % 65536 ≠ 0 ∧ fault = .refused (.offBlock offset)) ∨
      (offset.toNat % 65536 = 0 ∧ (idcode <|> findIdcode image) = none ∧
        fault = .refused (.noIdcode file))) ∧
    ∀ product, Command.make (.svf file output offset idcode) image = .ok product →
      (product.trap = none ↔ offset.toNat + image.size < 0x100000000) ∧
      (product.trap = none → ∃ code text operations,
        product.contents = (enclose code text).toUTF8 ∧ operations? text = some operations ∧
        operations.filterMap Operation.access? =
          imageAccesses image (fun i => (offset.toNat + 256 * i) % 0x1000000) ∧
        (operations.filterMap Operation.access? =
            imageAccesses image (fun i => offset.toNat + 256 * i) ↔
          image.size = 0 ∨ offset.toNat + image.size ≤ 0x1000000) ∧
        (((operations.filterMap Operation.access?).filterMap Access.programmed?).Nodup ↔
          image.size ≤ 0x1000000)) := by
  by_cases haligned : offset.toNat % 65536 = 0
  · cases hcode : (idcode <|> findIdcode image) with
    | none =>
      rw [make_svf_of_noIdcode file output haligned hcode]
      refine ⟨fun fault => ?_, nofun⟩
      simp [haligned, eq_comm]
    | some code =>
      obtain ⟨product, hmake, htrap, hfile⟩ := exists_make_svf file output haligned hcode
      rw [hmake]
      refine ⟨fun fault => by simp [haligned], fun product' hproduct => ?_⟩
      obtain rfl := Except.ok.inj hproduct
      have hfits : product.trap = none ↔ offset.toNat + image.size < 0x100000000 := by
        rw [htrap]
        split <;> simp [*]
      refine ⟨hfits, fun hnone => ?_⟩
      obtain ⟨text, operations, hcontents, hoperations, haccesses⟩ := hfile (hfits.mp hnone)
      refine ⟨code, text, operations, hcontents, hoperations, haccesses, ?_, ?_⟩ <;>
        rw [haccesses]
      · exact imageAccesses_placeOf_iff haligned
      · exact nodup_programmed_iff haligned
  · rw [make_svf_of_offBlock file output idcode image haligned]
    refine ⟨fun fault => ?_, nofun⟩
    simp [haligned, eq_comm]

/-- The last block of the part. -/
theorem svf_places_last_block :
    let image := Memory.blank 0x10000
    ∃ product, Command.make (.svf "a" "a.svf" 0xFF0000 (some 0x41111043)) image = .ok product ∧
      product.trap = none ∧ ∃ code text operations,
        product.contents = (enclose code text).toUTF8 ∧ operations? text = some operations ∧
        operations.filterMap Operation.access? =
          imageAccesses image (fun i => ((0xFF0000 : UInt32).toNat + 256 * i) % 0x1000000) ∧
        (operations.filterMap Operation.access? =
            imageAccesses image (fun i => (0xFF0000 : UInt32).toNat + 256 * i) ↔
          image.size = 0 ∨ (0xFF0000 : UInt32).toNat + image.size ≤ 0x1000000) ∧
        (((operations.filterMap Operation.access?).filterMap Access.programmed?).Nodup ↔
          image.size ≤ 0x1000000) := by
  intro image
  have haligned : (0xFF0000 : UInt32).toNat % 65536 = 0 := by decide
  have hcode : (some 0x41111043 <|> findIdcode image) = some 0x41111043 := rfl
  obtain ⟨product, hmake, -⟩ := exists_make_svf "a" "a.svf" haligned hcode
  obtain ⟨hfits, hfile⟩ :=
    (svf_places_image_iff "a" "a.svf" 0xFF0000 (some 0x41111043) image).2 product hmake
  have hnone : product.trap = none := hfits.mpr (by rw [Memory.size_blank]; decide)
  exact ⟨product, hmake, hnone, hfile hnone⟩

/-- One byte at 16 MiB is accepted. The file erases the first block of the part and programs the
byte at its start. -/
theorem svf_wraps_to_start :
    ∃ product text operations,
      Command.make (.svf "a" "a.svf" 0x1000000 (some 1)) ⟨#[0x5A]⟩ = .ok product ∧
      product.trap = none ∧ product.contents = (enclose 1 text).toUTF8 ∧
      operations? text = some operations ∧
      operations.filterMap Operation.access? =
        [.erase 0, .program 0 [0x5A], .verify 0 [0x5A]] := by
  have haligned : (0x1000000 : UInt32).toNat % 65536 = 0 := by decide
  have hcode : (some 1 <|> findIdcode ⟨#[0x5A]⟩) = some 1 := rfl
  obtain ⟨product, hmake, htrap, hfile⟩ := exists_make_svf "a" "a.svf" haligned hcode
  obtain ⟨text, operations, hcontents, hoperations, haccesses⟩ := hfile (by decide)
  refine ⟨product, text, operations, hmake, htrap.trans (if_pos (by decide)), hcontents,
    hoperations, haccesses.trans ?_⟩
  decide +kernel

end Tool

end NorDisk
