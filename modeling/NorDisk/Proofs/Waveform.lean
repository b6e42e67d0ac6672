import NorDisk.Firmware.BitBang
import NorDisk.Proofs.VectorText

/-!
# Transactions on the lines

A `Tapped` bus is any register bus that writes down its accesses, so that the levels of the lines
can be read off afterwards: where the clock rises, what the data line shows there, what was sampled
after it, where the select line moves. The samples are whatever the bus answers.

* **`Waveform idle bytes samples log`** — the accesses of a log are a transaction in SPI mode 0 that
  sends some bytes and takes some samples; before it the lines had the levels `idle`.
* **`Filled`** — the buffers of the parts of a transaction hold the samples at their place.
* **`Shifted`** — the accesses of a list of bytes on a selected part, in the form in which they
  come.
* **`transaction_waveform`** — any transaction.
-/

namespace NorDisk.Firmware

open Svf (byteBits forall_byte)

/-- An access of a register, with the value that was written or read. -/
inductive Access where
  | write (r : Register) (value : UInt32)
  | read (r : Register) (value : UInt32)
deriving DecidableEq, Repr

/-- A register bus with its accesses, in order. -/
structure Tapped (σ : Type) where
  inner : σ
  log : List Access := []

instance {σ : Type} [RegisterBus σ] : RegisterBus (Tapped σ) where
  write r value s := ⟨RegisterBus.write r value s.inner, s.log ++ [.write r value]⟩
  read r s :=
    let (value, inner) := RegisterBus.read r s.inner
    (value, ⟨inner, s.log ++ [.read r value]⟩)
  windowByte addr s :=
    let (b, inner) := RegisterBus.windowByte addr s.inner
    (b, ⟨inner, s.log⟩)

/-! ## What the lines show

A level is a value of the lines; select is active low. -/

def isSelected (level : UInt32) : Bool := level &&& deselectLine = 0

def isClockHigh (level : UInt32) : Bool := level &&& clockLine ≠ 0

def isDataHigh (level : UInt32) : Bool := level &&& mosiLine ≠ 0

namespace Access

/-- The level that an access brings the lines to. -/
def level? : Access → Option UInt32
  | write .lines level => some level
  | _ => none

/-- The value of the input that an access reads. -/
def sample? : Access → Option UInt32
  | read .input value => some value
  | _ => none

end Access

/-- A rising edge of the clock: the levels on both sides, and the reads of the input that come
before the lines move again. -/
structure RisingEdge where
  before : UInt32
  after : UInt32
  samples : List UInt32
deriving DecidableEq, Repr

/-- The rising edges of accesses to lines that start at a level. -/
def risingEdges : UInt32 → List Access → List RisingEdge
  | _, [] => []
  | level, access :: rest =>
    match access.level? with
    | none => risingEdges level rest
    | some next =>
      if !isClockHigh level && isClockHigh next then
        ⟨level, next, (rest.takeWhile (·.level?.isNone)).filterMap Access.sample?⟩ ::
          risingEdges next rest
      else risingEdges next rest

/-- The changes of the select line, each with the levels on both sides. -/
def selectChanges : UInt32 → List Access → List (UInt32 × UInt32)
  | _, [] => []
  | level, access :: rest =>
    match access.level? with
    | none => selectChanges level rest
    | some next =>
      if isSelected level = isSelected next then selectChanges next rest
      else (level, next) :: selectChanges next rest

/-- The accesses are a transaction in SPI mode 0. A peripheral that takes the data line at each
rising edge while it is selected receives `bytes`, most significant bit first. -/
structure Waveform (idle : UInt32) (bytes : List UInt8) (samples : List UInt32)
    (log : List Access) : Prop where
  received : ((risingEdges idle log).filter (isSelected ·.after)).map (isDataHigh ·.after) =
    bytes.flatMap byteBits
  edge_count : (risingEdges idle log).length = 8 * bytes.length
  /-- The part is selected on both sides of an edge, and the data line is set before it. -/
  steady : ∀ edge ∈ risingEdges idle log, isSelected edge.before = true ∧
    isSelected edge.after = true ∧ isDataHigh edge.before = isDataHigh edge.after
  /-- The input is sampled once after each edge. -/
  sampled : (risingEdges idle log).map (·.samples) = samples.map ([·])
  /-- The part is selected once, and then deselected. -/
  selected : (selectChanges idle log).map (isSelected ·.2) = [true, false]
  clock_low : ∀ change ∈ selectChanges idle log,
    isClockHigh change.1 = false ∧ isClockHigh change.2 = false
  deselected : ∃ level, (log.filterMap Access.level?).getLast? = some level ∧
    isSelected level = false
  direction : ∀ level ∈ log.filterMap Access.level?, level &&& directionLine = 0
  /-- No other register is touched. -/
  registers : ∀ access ∈ log, (∃ level, access = .write .lines level) ∨
    ∃ sample, access = .read .input sample

/-! ## What the parts of a transaction send and receive -/

/-- The bytes that a part of a transaction puts on the data line. -/
def wireBytes : SpiOp → List UInt8
  | .write data => data
  | .read len => List.replicate len 0xFF
  | .transfer len data => (List.range (max len data.length)).map fun i => data.getD i 0xFF
  | .inPlace data => data
  | .delay _ => []

/-- The bit that a sample shows. -/
def sampleBit (sample : UInt32) : Bool := sample &&& 1 = 1

/-- The buffers of a transaction hold the bits at their place among those that were sampled; bits
for which a buffer has no room are dropped. -/
inductive Filled : List SpiOp → List Bool → List (List UInt8) → Prop
  | nil : Filled [] [] []
  | cons {op rest bits later buffer buffers} (hbits : bits.length = 8 * (wireBytes op).length)
    (hlength : buffer.length = keptCount op)
    (hbuffer : buffer.flatMap byteBits = bits.take (8 * keptCount op))
    (hrest : Filled rest later buffers) :
    Filled (op :: rest) (bits ++ later) (buffer :: buffers)

/-- Padding a transfer is asking for its bytes one by one. -/
theorem sentBytes_eq_wireBytes (op : SpiOp) : sentBytes op = wireBytes op := by
  cases op with
  | transfer len data =>
    apply List.ext_getElem
    · simp only [sentBytes, wireBytes, List.rightpad, List.length_append, List.length_replicate,
        List.length_map, List.length_range]
      omega
    · intro i hi _
      simp only [sentBytes, wireBytes, List.rightpad, List.getElem_map, List.getElem_range]
      by_cases hlt : i < data.length
      · rw [List.getElem_append_left hlt, List.getD_eq_getElem?_getD, List.getElem?_eq_getElem hlt,
          Option.getD_some]
      · rw [List.getElem_append_right (Nat.le_of_not_lt hlt), List.getElem_replicate,
          List.getD_eq_getElem?_getD, List.getElem?_eq_none (Nat.le_of_not_lt hlt),
          Option.getD_none]
  | _ => rfl

/-- No buffer is longer than what is sent for it. -/
theorem keptCount_le (op : SpiOp) : keptCount op ≤ (wireBytes op).length := by
  cases op with
  | transfer len data =>
    rw [keptCount, wireBytes, List.length_map, List.length_range]
    exact Nat.le_max_left ..
  | _ => simp [keptCount, wireBytes]

theorem length_byteBits (b : UInt8) : (byteBits b).length = 8 := rfl

theorem length_flatMap_byteBits (bytes : List UInt8) :
    (bytes.flatMap byteBits).length = 8 * bytes.length := by
  induction bytes with
  | nil => rfl
  | cons b rest ih =>
    rw [List.flatMap_cons, List.length_append, ih, length_byteBits, List.length_cons]
    omega

/-- The bits of the first bytes come first. -/
theorem flatMap_take_byteBits (bytes : List UInt8) (n : Nat) :
    (bytes.take n).flatMap byteBits = (bytes.flatMap byteBits).take (8 * n) := by
  induction n generalizing bytes with
  | zero => rfl
  | succ n ih =>
    cases bytes with
    | nil => rfl
    | cons b rest =>
      have hlength : 8 * (n + 1) = (byteBits b).length + 8 * n := by
        rw [length_byteBits]
        omega
      rw [List.take_succ_cons, List.flatMap_cons, List.flatMap_cons, ih, hlength,
        List.take_length_add_append]

/-! ## Bits and bytes on the lines -/

/-- The data line alone at a level. -/
def dataLevel (data : Bool) : UInt32 := if data then mosiLine else 0

/-- The accesses of one bit. -/
def bitLog (data : Bool) (sample : UInt32) : List Access :=
  [.write .lines (dataLevel data), .write .lines (dataLevel data ||| clockLine),
    .read .input sample]

/-- The accesses of bits with their samples. -/
def bitLogs (data : List Bool) (samples : List UInt32) : List Access :=
  (data.zip samples).flatMap fun (d, x) => bitLog d x

/-- The edges of bits with their samples. -/
def bitEdges (data : List Bool) (samples : List UInt32) : List RisingEdge :=
  (data.zip samples).map fun (d, x) => ⟨dataLevel d, dataLevel d ||| clockLine, [x]⟩

theorem bitLogs_cons (d : Bool) (x : UInt32) (data : List Bool) (samples : List UInt32)
    (rest : List Access) :
    bitLogs (d :: data) (x :: samples) ++ rest =
      .write .lines (dataLevel d) :: .write .lines (dataLevel d ||| clockLine) ::
        .read .input x :: (bitLogs data samples ++ rest) := rfl

/-- Bits one after another have their edges one after another. -/
theorem bitEdges_append {data : List Bool} {samples : List UInt32}
    (h : data.length = samples.length) (data' : List Bool) (samples' : List UInt32) :
    bitEdges (data ++ data') (samples ++ samples') =
      bitEdges data samples ++ bitEdges data' samples' := by
  rw [bitEdges, List.zip_append h, List.map_append]
  rfl

/-- At the edge of a bit the part is selected, and its data has been there before. -/
theorem of_mem_bitEdges {data : List Bool} {samples : List UInt32} {edge : RisingEdge}
    (h : edge ∈ bitEdges data samples) :
    isSelected edge.before = true ∧ isSelected edge.after = true ∧
      isDataHigh edge.before = isDataHigh edge.after := by
  have hlevels : ∀ d, isSelected (dataLevel d) = true ∧
      isSelected (dataLevel d ||| clockLine) = true ∧
      isDataHigh (dataLevel d) = isDataHigh (dataLevel d ||| clockLine) := by decide
  obtain ⟨⟨d, x⟩, -, rfl⟩ := List.mem_map.mp h
  exact hlevels d

/-- The data line shows the bits at their edges. -/
theorem map_data_bitEdges {data : List Bool} {samples : List UInt32}
    (h : data.length = samples.length) :
    (bitEdges data samples).map (isDataHigh ·.after) = data := by
  have hdata : ∀ d, isDataHigh (dataLevel d ||| clockLine) = d := by decide
  calc (bitEdges data samples).map (isDataHigh ·.after)
      = (data.zip samples).map Prod.fst := by
        rw [bitEdges, List.map_map]
        exact List.map_congr_left fun (d, _) _ => hdata d
    _ = data := List.map_fst_zip (Nat.le_of_eq h)

/-- Each edge has the one sample that was taken after it. -/
theorem map_samples_bitEdges {data : List Bool} {samples : List UInt32}
    (h : data.length = samples.length) :
    (bitEdges data samples).map (·.samples) = samples.map ([·]) := by
  calc (bitEdges data samples).map (·.samples)
      = ((data.zip samples).map Prod.snd).map ([·]) := by
        rw [bitEdges, List.map_map, List.map_map]
        rfl
    _ = samples.map ([·]) := by rw [List.map_snd_zip (Nat.le_of_eq h.symm)]

/-- The accesses of bytes: after the last bit of each one the clock and the data line fall. -/
inductive Shifted : List UInt8 → List UInt32 → List Access → Prop
  | nil : Shifted [] [] []
  | cons {b rest samples later log} (hsamples : samples.length = 8)
    (hrest : Shifted rest later log) :
    Shifted (b :: rest) (samples ++ later)
      (bitLogs (byteBits b) samples ++ .write .lines 0 :: log)

/-- The accesses of a transaction, from those between its select and its deselect. -/
def framed (log : List Access) : List Access :=
  .write .lines 0 :: (log ++ [.write .lines deselectLine])

/-- Lists of bytes can be shifted one after another. -/
theorem Shifted.append {bytes bytes' : List UInt8} {samples samples' : List UInt32}
    {log log' : List Access} (h : Shifted bytes samples log) (h' : Shifted bytes' samples' log') :
    Shifted (bytes ++ bytes') (samples ++ samples') (log ++ log') := by
  induction h with
  | nil => exact h'
  | cons hsamples _ ih =>
    rw [List.append_assoc, List.append_assoc]
    exact .cons hsamples ih

theorem Shifted.length_samples {bytes : List UInt8} {samples : List UInt32} {log : List Access}
    (h : Shifted bytes samples log) : samples.length = 8 * bytes.length := by
  induction h with
  | nil => rfl
  | cons hsamples _ ih =>
    rw [List.length_append, hsamples, ih, List.length_cons]
    omega

/-! ## Reading bytes off the lines

The level before a byte has the clock low: it is zero, from the select or from the byte before. -/

theorem risingEdges_read (level value : UInt32) (rest : List Access) :
    risingEdges level (.read .input value :: rest) = risingEdges level rest := rfl

/-- Where the clock is low after a write there is no edge. -/
theorem risingEdges_of_low (level : UInt32) {next : UInt32} (h : isClockHigh next = false)
    (rest : List Access) :
    risingEdges level (.write .lines next :: rest) = risingEdges next rest := by
  simp [risingEdges, Access.level?, h]

/-- Where the clock was low and is high now there is an edge, with what is read before the next
write. -/
theorem risingEdges_of_rise {level next : UInt32} (h : isClockHigh level = false)
    (h' : isClockHigh next = true) (rest : List Access) :
    risingEdges level (.write .lines next :: rest) =
      ⟨level, next, (rest.takeWhile (·.level?.isNone)).filterMap Access.sample?⟩ ::
        risingEdges next rest := by
  rw [risingEdges]
  simp only [Access.level?, h, h', Bool.not_false, Bool.and_self, if_true]

/-- Bits start with a write of the lines. -/
theorem takeWhile_bitLogs (data : List Bool) (samples : List UInt32) (rest : List Access) :
    (bitLogs data samples ++ .write .lines 0 :: rest).takeWhile (·.level?.isNone) = [] := by
  cases data with
  | nil => rfl
  | cons d data =>
    cases samples with
    | nil => rfl
    | cons x samples => rfl

/-- Bits have their edges, whatever level the lines had before. -/
theorem risingEdges_bitLogs {data : List Bool} {samples : List UInt32}
    (h : data.length = samples.length) (level : UInt32) (rest : List Access) :
    risingEdges level (bitLogs data samples ++ .write .lines 0 :: rest) =
      bitEdges data samples ++ risingEdges 0 rest := by
  induction data generalizing samples level with
  | nil =>
    obtain rfl := List.length_eq_zero_iff.mp h.symm
    exact risingEdges_of_low level (by decide) rest
  | cons d data ih =>
    obtain ⟨x, samples, rfl⟩ := List.exists_cons_of_length_eq_add_one h.symm
    have hlow : isClockHigh (dataLevel d) = false := by cases d <;> decide
    have hhigh : isClockHigh (dataLevel d ||| clockLine) = true := by cases d <;> decide
    -- The clock is low at the first level and rises to the second; the read of the bit follows.
    rw [bitLogs_cons, risingEdges_of_low level hlow, risingEdges_of_rise hlow hhigh,
      risingEdges_read, ih (by simpa using h), List.takeWhile_cons_of_pos rfl, takeWhile_bitLogs]
    rfl

/-- The bits of a byte leave the select line as it is. -/
theorem selectChanges_bitLogs (data : List Bool) (samples : List UInt32) {level : UInt32}
    (hlevel : isSelected level = true) (rest : List Access) :
    selectChanges level (bitLogs data samples ++ .write .lines 0 :: rest) =
      selectChanges 0 rest := by
  have hstay : ∀ {level next : UInt32} (rest : List Access), isSelected level = true →
      isSelected next = true →
      selectChanges level (.write .lines next :: rest) = selectChanges next rest := by
    intro level next rest hlevel hnext
    simp [selectChanges, Access.level?, hlevel, hnext]
  induction data generalizing samples level with
  | nil => exact hstay rest hlevel rfl
  | cons d data ih =>
    cases samples with
    | nil => exact hstay rest hlevel rfl
    | cons x samples =>
      have hlow : isSelected (dataLevel d) = true := by cases d <;> decide
      have hhigh : isSelected (dataLevel d ||| clockLine) = true := by cases d <;> decide
      rw [bitLogs_cons, hstay _ hlevel hlow, hstay _ hlow hhigh]
      exact ih samples hhigh

namespace Shifted

variable {bytes : List UInt8} {samples : List UInt32} {log : List Access}

/-- Each bit of each byte has its edge, with one sample. -/
theorem risingEdges_eq (h : Shifted bytes samples log) (rest : List Access) :
    risingEdges 0 (log ++ rest) =
      bitEdges (bytes.flatMap byteBits) samples ++ risingEdges 0 rest := by
  induction h with
  | nil => rfl
  | @cons b _ samples later log hsamples _ ih =>
    have hlength : (byteBits b).length = samples.length := by rw [hsamples, length_byteBits]
    rw [List.append_assoc, List.cons_append, risingEdges_bitLogs hlength, ih, List.flatMap_cons,
      bitEdges_append hlength, List.append_assoc]

/-- Bytes leave the select line as it is. -/
theorem selectChanges_eq (h : Shifted bytes samples log) (rest : List Access) :
    selectChanges 0 (log ++ rest) = selectChanges 0 rest := by
  induction h with
  | nil => rfl
  | cons _ _ ih => rw [List.append_assoc, List.cons_append, selectChanges_bitLogs _ _ rfl, ih]

/-- Only the clock and the data line ever leave zero. -/
theorem mem (h : Shifted bytes samples log) {access : Access} (hmem : access ∈ log) :
    (∃ level, access = .write .lines level ∧ level &&& directionLine = 0) ∨
      ∃ sample, access = .read .input sample := by
  have hdata : ∀ d, dataLevel d &&& directionLine = 0 := by decide
  have hclock : ∀ d, (dataLevel d ||| clockLine) &&& directionLine = 0 := by decide
  induction h with
  | nil => exact absurd hmem List.not_mem_nil
  | cons _ _ ih =>
    rcases List.mem_append.mp hmem with hmem | hmem
    · obtain ⟨⟨d, x⟩, -, hmem⟩ := List.mem_flatMap.mp hmem
      simp only [bitLog, List.mem_cons, List.not_mem_nil, or_false] at hmem
      rcases hmem with rfl | rfl | rfl
      · exact Or.inl ⟨_, rfl, hdata _⟩
      · exact Or.inl ⟨_, rfl, hclock _⟩
      · exact Or.inr ⟨_, rfl⟩
    · rcases List.mem_cons.mp hmem with rfl | hmem
      · exact Or.inl ⟨0, rfl, by decide⟩
      · exact ih hmem

/-- The edges of a transaction are those of its bits. -/
theorem risingEdges_framed (h : Shifted bytes samples log) (idle : UInt32) :
    risingEdges idle (framed log) = bitEdges (bytes.flatMap byteBits) samples := by
  -- Neither end of the transaction is an edge of the clock.
  have hselect : isClockHigh 0 = false := by decide
  have hdeselect : risingEdges 0 [.write .lines deselectLine] = [] := by decide
  rw [framed, risingEdges_of_low idle hselect, h.risingEdges_eq, hdeselect, List.append_nil]

/-- The select line moves at both ends of a transaction and nowhere else. -/
theorem selectChanges_framed (h : Shifted bytes samples log) {idle : UInt32}
    (hidle : isSelected idle = false) :
    selectChanges idle (framed log) = [(idle, 0), (0, deselectLine)] := by
  have hselect : isSelected idle ≠ isSelected 0 := by
    rw [hidle]
    decide
  have hdeselect : selectChanges 0 [.write .lines deselectLine] = [(0, deselectLine)] := by decide
  rw [framed, selectChanges]
  simp only [Access.level?, if_neg hselect]
  rw [h.selectChanges_eq, hdeselect]

/-- A transaction writes the lines and reads the input, and never raises the direction line. -/
theorem mem_framed (h : Shifted bytes samples log) {access : Access}
    (hmem : access ∈ framed log) :
    (∃ level, access = .write .lines level ∧ level &&& directionLine = 0) ∨
      ∃ sample, access = .read .input sample := by
  rcases List.mem_cons.mp hmem with rfl | hmem
  · exact Or.inl ⟨0, rfl, by decide⟩
  · rcases List.mem_append.mp hmem with hmem | hmem
    · exact h.mem hmem
    · obtain rfl := List.mem_singleton.mp hmem
      exact Or.inl ⟨deselectLine, rfl, by decide⟩

/-- Between a select and a deselect the bytes are a transaction. -/
theorem waveform (h : Shifted bytes samples log) {idle : UInt32} (hidle : isSelected idle = false)
    (hclock : isClockHigh idle = false) : Waveform idle bytes samples (framed log) := by
  have hlength : (bytes.flatMap byteBits).length = samples.length := by
    rw [length_flatMap_byteBits, h.length_samples]
  have hedges := h.risingEdges_framed idle
  have hchanges := h.selectChanges_framed hidle
  constructor
  case received =>
    rw [hedges, List.filter_eq_self.mpr fun edge hedge => (of_mem_bitEdges hedge).2.1,
      map_data_bitEdges hlength]
  case edge_count =>
    rw [hedges, ← length_flatMap_byteBits, ← List.length_map (isDataHigh ·.after),
      map_data_bitEdges hlength]
  case steady =>
    intro edge hedge
    rw [hedges] at hedge
    exact of_mem_bitEdges hedge
  case sampled => rw [hedges, map_samples_bitEdges hlength]
  case selected =>
    rw [hchanges]
    show [isSelected 0, isSelected deselectLine] = _
    decide
  case clock_low =>
    intro change hchange
    rw [hchanges, List.mem_cons, List.mem_singleton] at hchange
    rcases hchange with rfl | rfl
    · exact ⟨hclock, show isClockHigh 0 = false by decide⟩
    · decide
  case deselected =>
    refine ⟨deselectLine, ?_, by decide⟩
    rw [framed, ← List.cons_append, List.filterMap_append]
    exact List.getLast?_concat
  case direction =>
    intro level hlevel
    obtain ⟨access, haccess, hlevel⟩ := List.mem_filterMap.mp hlevel
    obtain ⟨level', rfl, hdirection⟩ | ⟨sample, rfl⟩ := h.mem_framed haccess
    · cases hlevel
      exact hdirection
    · exact nomatch hlevel
  case registers =>
    intro access haccess
    exact (h.mem_framed haccess).imp (fun ⟨level, h, _⟩ => ⟨level, h⟩) id

end Shifted

/-! ## The accesses of a transaction -/

variable {σ : Type} [RegisterBus σ]

/-- A shift register that takes the low bit of a sample. -/
def pushSample (input : UInt8) (sample : UInt32) : UInt8 :=
  (input <<< 1) ||| (sample &&& 1).toUInt8

/-- The bits of a byte from one place on. -/
theorem drop_byteBits : ∀ (b : UInt8) (n : Nat), n < 8 →
    (byteBits b).drop (7 - n) =
      decide ((b >>> n.toUInt8) &&& 1 = 1) :: (byteBits b).drop (8 - n) := by
  intro b
  exact forall_byte (P := fun b => ∀ n < 8, (byteBits b).drop (7 - n) =
    decide ((b >>> n.toUInt8) &&& 1 = 1) :: (byteBits b).drop (8 - n)) (by decide +kernel) b

/-- What is shifted in is the bit that the sample shows. -/
theorem pushSample_eq (input : UInt8) (sample : UInt32) :
    pushSample input sample = (input <<< 1) ||| (if sampleBit sample then 1 else 0) := by
  have hvalue : (sample &&& 1).toNat = sample.toNat % 2 := by
    rw [UInt32.toNat_and, UInt32.toNat_one, Nat.and_one_is_mod]
  unfold pushSample sampleBit
  by_cases hset : sample &&& 1 = 1
  · rw [if_pos (decide_eq_true hset), hset]
    rfl
  · -- Under the mask there are two values only.
    have hclear : sample &&& 1 = 0 := by
      have hone : (sample &&& 1).toNat ≠ 1 := fun h => hset (UInt32.toNat_inj.mp h)
      exact UInt32.toNat_inj.mp (show (sample &&& 1).toNat = 0 by omega)
    rw [if_neg (by simpa using hset), hclear]
    rfl

/-- Eight samples make the byte of their bits. -/
theorem byteBits_pushSample {samples : List UInt32} (h : samples.length = 8) :
    byteBits (samples.foldl pushSample 0) = samples.map sampleBit := by
  -- All 256 bytes, decided.
  have hbits : ∀ b7 b6 b5 b4 b3 b2 b1 b0 : Bool,
      byteBits ([b7, b6, b5, b4, b3, b2, b1, b0].foldl
        (fun (b : UInt8) bit => (b <<< 1) ||| (if bit then 1 else 0)) 0) =
      [b7, b6, b5, b4, b3, b2, b1, b0] := by decide +kernel
  have hfold : samples.foldl pushSample 0 =
      (samples.map sampleBit).foldl
        (fun (b : UInt8) bit => (b <<< 1) ||| (if bit then 1 else 0)) 0 := by
    rw [List.foldl_map]
    congr 1
    funext b sample
    exact pushSample_eq b sample
  rw [hfold]
  match samples, h with
  | [_, _, _, _, _, _, _, _], _ => exact hbits ..

/-- A level without the direction bit is written as it is. -/
theorem setLines_tapped {bits : UInt32} (h : bits &&& ~~~directionLine = bits) (s : Tapped σ) :
    setLines bits s = ⟨RegisterBus.write .lines bits s.inner, s.log ++ [.write .lines bits]⟩ := by
  rw [setLines, h]
  rfl

/-- The accesses of one bit. -/
theorem log_exchangeBit (d : Bool) (s : Tapped σ) :
    let risen := setLines (dataLevel d ||| clockLine) (setLines (dataLevel d) s)
    (RegisterBus.read .input risen).2.log =
      s.log ++ bitLog d (RegisterBus.read .input risen).1 := by
  have hlow : dataLevel d &&& ~~~directionLine = dataLevel d := by cases d <;> decide
  have hhigh : (dataLevel d ||| clockLine) &&& ~~~directionLine = dataLevel d ||| clockLine := by
    cases d <;> decide
  rw [setLines_tapped hhigh, setLines_tapped hlow]
  show s.log ++ [_] ++ [_] ++ [_] = _
  rw [List.append_assoc, List.append_assoc]
  rfl

/-- The accesses of the low `n` bits of a byte. -/
theorem exchangeBits_tapped (out : UInt8) {n : Nat} (hn : n ≤ 8) (input : UInt8) (s : Tapped σ) :
    ∃ samples inner, samples.length = n ∧
      exchangeBits out n input s.inner = (samples.foldl pushSample input, inner) ∧
      exchangeBits out n input s = (samples.foldl pushSample input,
        ⟨inner, s.log ++ bitLogs ((byteBits out).drop (8 - n)) samples⟩) := by
  induction n generalizing input s with
  | zero => exact ⟨[], s.inner, rfl, rfl, by simp [exchangeBits, bitLogs]⟩
  | succ n ih =>
    -- Bit `n` goes first; the induction hypothesis takes over after its sample.
    let d := decide ((out >>> n.toUInt8) &&& 1 = 1)
    have hdata : (if (out >>> n.toUInt8) &&& 1 = 1 then mosiLine else 0) = dataLevel d := by
      simp [d, dataLevel]
    let s₁ := setLines (dataLevel d ||| clockLine) (setLines (dataLevel d) s)
    let x := (RegisterBus.read .input s₁).1
    have hlog : (RegisterBus.read .input s₁).2.log = s.log ++ bitLog d x := log_exchangeBit d s
    obtain ⟨samples, inner, hlength, hinner, hlater⟩ := ih (by omega) (pushSample input x)
      (RegisterBus.read .input s₁).2
    refine ⟨x :: samples, inner, by rw [List.length_cons, hlength], ?_, ?_⟩
    · rw [exchangeBits, hdata]
      exact hinner
    · rw [show 8 - (n + 1) = 7 - n by omega, drop_byteBits out n (by omega), exchangeBits, hdata]
      show exchangeBits out n (pushSample input x) (RegisterBus.read .input s₁).2 = _
      rw [hlater, hlog, List.append_assoc]
      rfl

/-- The accesses of a byte: its bits, and a write that lets the lines fall. -/
theorem exchangeByte_tapped (out : UInt8) (s : Tapped σ) :
    ∃ samples inner, samples.length = 8 ∧
      exchangeByte out s.inner = (samples.foldl pushSample 0, inner) ∧
      exchangeByte out s = (samples.foldl pushSample 0,
        ⟨inner, s.log ++ (bitLogs (byteBits out) samples ++ [.write .lines 0])⟩) := by
  obtain ⟨samples, inner, hlength, hinner, hbits⟩ := exchangeBits_tapped out (Nat.le_refl 8) 0 s
  refine ⟨samples, setLines 0 inner, hlength, ?_, ?_⟩
  · rw [exchangeByte, hinner]
  · rw [exchangeByte, hbits, ← List.append_assoc]
    show (_, setLines 0 _) = _
    rw [setLines_tapped (by decide)]
    rfl

/-- The accesses of a list of bytes on a selected part; a byte comes back for each of them. -/
theorem exchange_tapped (bytes : List UInt8) (s : Tapped σ) :
    ∃ samples log received inner, Shifted bytes samples log ∧ received.length = bytes.length ∧
      received.flatMap byteBits = samples.map sampleBit ∧
      exchange bytes s.inner = (received, inner) ∧
      exchange bytes s = (received, ⟨inner, s.log ++ log⟩) := by
  induction bytes generalizing s with
  | nil => exact ⟨[], [], [], s.inner, .nil, rfl, rfl, rfl, by simp [exchange]⟩
  | cons b rest ih =>
    obtain ⟨samples, inner, hlength, hinner, hbyte⟩ := exchangeByte_tapped b s
    obtain ⟨later, log, received, inner', hshifted, hcount, hbits, hinner', hrest⟩ :=
      -- The rest starts from the bus that the byte leaves behind.
      ih ⟨inner, s.log ++ (bitLogs (byteBits b) samples ++ [.write .lines 0])⟩
    refine ⟨samples ++ later, _, samples.foldl pushSample 0 :: received, inner',
      .cons hlength hshifted, ?_, ?_, ?_, ?_⟩
    · rw [List.length_cons, hcount, List.length_cons]
    · rw [List.flatMap_cons, byteBits_pushSample hlength, hbits, List.map_append]
    · simp only [exchange, hinner, hinner']
    · simp only [exchange, hbyte, hrest, List.append_assoc, List.cons_append, List.nil_append]

/-- The parts of a transaction on a selected part. -/
theorem exchangeOps_tapped (ops : List SpiOp) (s : Tapped σ) :
    ∃ samples log received inner, Shifted (ops.flatMap wireBytes) samples log ∧
      Filled ops (samples.map sampleBit) received ∧
      exchangeOps ops s.inner = (received, inner) ∧
      exchangeOps ops s = (received, ⟨inner, s.log ++ log⟩) := by
  induction ops generalizing s with
  | nil => exact ⟨[], [], [], s.inner, .nil, .nil, rfl, by simp [exchangeOps]⟩
  | cons op rest ih =>
    obtain ⟨samples, log, received, inner, hshifted, hcount, hbits, hinner, hop⟩ :=
      exchange_tapped (wireBytes op) s
    obtain ⟨samples', log', buffers, inner', hshifted', hfilled, hinner', hrest⟩ :=
      ih ⟨inner, s.log ++ log⟩
    refine ⟨samples ++ samples', log ++ log', received.take (keptCount op) :: buffers, inner',
      hshifted.append hshifted', ?_, ?_, ?_⟩
    · rw [List.map_append]
      refine .cons ?_ ?_ ?_ hfilled
      · rw [List.length_map, hshifted.length_samples]
      · rw [List.length_take, hcount, Nat.min_eq_left (keptCount_le op)]
      · -- A buffer that is shorter than what is sent keeps the front of what came in.
        rw [flatMap_take_byteBits, hbits]
    · simp only [exchangeOps, sentBytes_eq_wireBytes, hinner, hinner']
    · simp only [exchangeOps, sentBytes_eq_wireBytes, hop, hrest, List.append_assoc]

end NorDisk.Firmware
