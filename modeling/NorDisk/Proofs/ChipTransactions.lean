import Mathlib.Data.Nat.ModEq
import Mathlib.Tactic.Ring
import NorDisk.Firmware.Machine

/-!
# Transactions at the pins of a chip

A byte crosses the lines in eight bits, each by a register write with the clock low, one with the
clock high and a read. `shiftBits` is what eight such steps do to a shift register at either end: it
then holds the byte of the other (`shiftBits_eight`).

* **`exchangeByte_eq`** — one byte: the chip takes it and gives the byte that it loaded.
* **`transaction_quiet`** — a transaction that asks for no status: the chip acts on its bytes, and
  nothing else changes.
* **`transaction_status`** — a status read: time passes and the busy counter moves.
-/

namespace NorDisk.Firmware

/-! ## Bits -/

/-- A shift register after the low `n` bits of a byte came in, most significant bit first. -/
def shiftBits (b : UInt8) : Nat → UInt8 → UInt8
  | 0, x => x
  | n + 1, x => shiftBits b n ((x <<< 1) ||| (if (b >>> n.toUInt8) &&& 1 = 1 then 1 else 0))

/-- Shifting in a bit doubles the value, up to the width of the register. -/
theorem toNat_shiftBit (x : UInt8) (bit : Prop) [Decidable bit] :
    ((x <<< 1) ||| (if bit then 1 else 0)).toNat =
      (2 * x.toNat) % 256 + (if bit then 1 else 0) := by
  have hshift : (x <<< 1).toNat = 2 ^ 1 * (x.toNat % 128) := by
    rw [UInt8.toNat_shiftLeft]
    simp [Nat.shiftLeft_eq]
    omega
  rw [UInt8.toNat_or, hshift]
  split
  · rw [UInt8.toNat_one, ← Nat.two_pow_add_eq_or_of_lt (by decide)]
    omega
  · simp
    omega

/-- A bit of a byte is a binary digit of its value. -/
theorem bit_eq (b : UInt8) {n : Nat} (hn : n < 8) :
    (if (b >>> n.toUInt8) &&& 1 = 1 then 1 else 0) = b.toNat / 2 ^ n % 2 := by
  have hvalue : ((b >>> n.toUInt8) &&& 1).toNat = b.toNat / 2 ^ n % 2 := by
    have htoNat : n.toUInt8.toNat = n := UInt8.toNat_ofNat_of_lt' (show n < 256 by omega)
    rw [UInt8.toNat_and, UInt8.toNat_shiftRight, htoNat, Nat.mod_eq_of_lt hn, UInt8.toNat_one,
      Nat.and_one_is_mod, Nat.shiftRight_eq_div_pow]
  rw [← hvalue]
  have hlt : ((b >>> n.toUInt8) &&& 1).toNat < 2 := by
    rw [hvalue]
    exact Nat.mod_lt _ (by decide)
  by_cases hset : (b >>> n.toUInt8) &&& 1 = 1
  · rw [if_pos hset, hset]
    rfl
  · have hne : ((b >>> n.toUInt8) &&& 1).toNat ≠ 1 := fun h => hset (UInt8.toNat_inj.mp h)
    rw [if_neg hset]
    omega

/-- The bits that came in are the low digits, what was before is moved up. Induction on the bits. -/
theorem toNat_shiftBits {n : Nat} (hn : n ≤ 8) (b x : UInt8) :
    (shiftBits b n x).toNat = (x.toNat * 2 ^ n + b.toNat % 2 ^ n) % 256 := by
  induction n generalizing x with
  | zero =>
    have := x.toNat_lt
    simp [shiftBits, Nat.mod_one]
  | succ n ih =>
    -- The next bit is the digit that the shorter remainder lacks.
    have hdigit : b.toNat % 2 ^ (n + 1) = 2 ^ n * (b.toNat / 2 ^ n % 2) + b.toNat % 2 ^ n := by
      rw [Nat.pow_succ, Nat.mod_mul]
      omega
    rw [shiftBits, ih (by omega), toNat_shiftBit, bit_eq b (by omega), hdigit]
    have hcut : ((2 * x.toNat) % 256 + b.toNat / 2 ^ n % 2) * 2 ^ n + b.toNat % 2 ^ n ≡
        (2 * x.toNat + b.toNat / 2 ^ n % 2) * 2 ^ n + b.toNat % 2 ^ n [MOD 256] :=
      (((Nat.mod_modEq _ _).add_right _).mul_right _).add_right _
    rw [hcut]
    congr 1
    rw [Nat.pow_succ]
    ring

/-- After eight bits the byte is there, whatever was before. -/
theorem shiftBits_eight (b x : UInt8) : shiftBits b 8 x = b := by
  apply UInt8.toNat_inj.mp
  have hlt := b.toNat_lt
  rw [toNat_shiftBits (Nat.le_refl 8)]
  omega

/-! ## Edges

A bit is two writes of the lines. The first lowers the clock (`lowered`), the second raises it, and
the chip takes the bit. With the first bit of a byte the chip also loads the byte that it will send
(`started`); with the last one it has a byte more (`shifted`).
-/

namespace SpiChip

variable {c : SpiChip}

/-- The byte that a chip sends next: its status, a byte of its identity or zero. -/
def next (c : SpiChip) : UInt8 :=
  if c.sendsStatus then c.status.1
  else if c.taken.getLast? = some Opcode.identity then identity.getD (c.taken.length - 1) 0
  else 0

/-- The busy counter once the next byte is on its way. -/
def nextLeft (c : SpiChip) : Nat := if c.sendsStatus then c.busyLeft - 1 else c.busyLeft

/-- Loading a byte does not touch what was taken in. -/
theorem load_eq (c : SpiChip) :
    c.load = { c with shiftOut := c.next, busyLeft := c.nextLeft } := by
  unfold load next nextLeft
  by_cases hstatus : c.sendsStatus = true
  · simp only [hstatus, if_true]
    rfl
  · simp only [hstatus, if_false, Bool.false_eq_true]
    split <;> rfl

/-- The first bit of a byte loads the one to be sent. -/
theorem clockIn_first (hbits : c.bits = 0 ∨ c.bits = 8) (data : Bool) :
    c.clockIn data =
      { c with
        shiftOut := c.next
        busyLeft := c.nextLeft
        shiftIn := (c.shiftIn <<< 1) ||| (if data then 1 else 0)
        bits := 1 } := by
  have hstarts : (decide (c.bits = 0) || decide (c.bits = 8)) = true := by simpa using hbits
  simp only [clockIn, hstarts, if_true, load_eq]
  rfl

/-- The bits after it are shifted in, and the last one completes the byte. -/
theorem clockIn_next {k : Nat} (hbits : c.bits = k) (hlow : 0 < k) (hhigh : k < 8) (data : Bool) :
    c.clockIn data =
      { c with
        shiftIn := (c.shiftIn <<< 1) ||| (if data then 1 else 0)
        bits := k + 1
        taken := if k = 7 then ((c.shiftIn <<< 1) ||| (if data then 1 else 0)) :: c.taken
          else c.taken } := by
  have hstarts : (decide (c.bits = 0) || decide (c.bits = 8)) = false := by
    simp only [Bool.or_eq_false_iff, decide_eq_false_iff_not]
    omega
  simp only [clockIn, hstarts, Bool.false_eq_true, if_false]
  subst hbits
  by_cases h7 : c.bits = 7
  · simp only [h7, if_true]
  · rw [if_neg (by simpa using h7), if_neg h7]

end SpiChip

namespace Machine

variable {m : Machine}

def dataLine (bit : Bool) : UInt32 := if bit then mosiLine else 0

/-- Writing the lines moves select first, then the clock, with the data as it is. -/
theorem setLines_eq (hbang : m.bitbang = true) {bits : UInt32} (select clock data : Bool)
    (hselect : decide (bits &&& ~~~directionLine &&& deselectLine = 0) = select)
    (hclock : decide (bits &&& ~~~directionLine &&& clockLine ≠ 0) = clock)
    (hdata : decide (bits &&& ~~~directionLine &&& mosiLine ≠ 0) = data) :
    setLines bits m = (m.driveSelect select).driveClock clock data := by
  subst hselect hclock hdata
  show m.driveLines _ = _
  rw [driveLines, if_pos hbang]

theorem driveSelect_self {selected : Bool} (h : m.chip.selected = selected) :
    m.driveSelect selected = m := if_pos h.symm

def lowered (m : Machine) : Machine := { m with chip := { m.chip with clock := false } }

/-- A falling edge is no event for the chip. -/
theorem driveClock_low (m : Machine) (data : Bool) : m.driveClock false data = m.lowered := by
  simp [driveClock, lowered]

/-- A rising edge at a selected chip. A status byte takes its time at its first edge. -/
theorem driveClock_rise (hselected : m.chip.selected = true) (hclock : m.chip.clock = false)
    {starts : Bool} (hstarts : (decide (m.chip.bits = 0) || decide (m.chip.bits = 8)) = starts)
    (data : Bool) :
    m.driveClock true data =
      { m with
        ticks := if starts && m.chip.sendsStatus then m.ticks.advance m.ticksPerStatus else m.ticks
        chip := { m.chip with clock := true }.clockIn data } := by
  have hrising : (!m.chip.clock && m.chip.selected) = true := by simp [hselected, hclock]
  simp only [driveClock, hrising, hstarts, Bool.true_and, if_true]
  split <;> rfl

/-- The clock once the next byte is on its way. -/
def nextTicks (m : Machine) : TickCounter :=
  if m.chip.sendsStatus then m.ticks.advance m.ticksPerStatus else m.ticks

def started (data : Bool) (m : Machine) : Machine :=
  { m with
    ticks := m.nextTicks
    chip := { m.chip with
      clock := true
      shiftOut := m.chip.next
      busyLeft := m.chip.nextLeft
      shiftIn := (m.chip.shiftIn <<< 1) ||| (if data then 1 else 0)
      bits := 1 } }

def shifted (data : Bool) (m : Machine) : Machine :=
  { m with
    chip := { m.chip with
      clock := true
      shiftIn := (m.chip.shiftIn <<< 1) ||| (if data then 1 else 0)
      bits := m.chip.bits + 1
      taken := if m.chip.bits = 7 then
          ((m.chip.shiftIn <<< 1) ||| (if data then 1 else 0)) :: m.chip.taken
        else m.chip.taken } }

/-- Lowering all lines of a selected chip lowers its clock. -/
theorem setLines_zero (hbang : m.bitbang = true) (hselected : m.chip.selected = true) :
    setLines 0 m = m.lowered := by
  rw [setLines_eq hbang true false false (by decide) (by decide) (by decide),
    driveSelect_self hselected, driveClock_low]

/-- Both writes of a bit: the chip takes it at the second one. -/
theorem setLines_bit (hbang : m.bitbang = true) (hselected : m.chip.selected = true)
    (bit : Bool) :
    setLines (dataLine bit ||| clockLine) (setLines (dataLine bit) m) =
      m.lowered.driveClock true bit := by
  have hlow : setLines (dataLine bit) m = m.lowered := by
    rw [setLines_eq hbang true false bit (by cases bit <;> decide) (by cases bit <;> decide)
      (by cases bit <;> decide), driveSelect_self hselected, driveClock_low]
  rw [hlow, setLines_eq (m := m.lowered) hbang true true bit
    (by cases bit <;> decide) (by cases bit <;> decide) (by cases bit <;> decide),
    driveSelect_self (m := m.lowered) hselected]

/-- Both writes of the first bit. -/
theorem setLines_first (hbang : m.bitbang = true) (hselected : m.chip.selected = true)
    (hbits : m.chip.bits = 0 ∨ m.chip.bits = 8) (bit : Bool) :
    setLines (dataLine bit ||| clockLine) (setLines (dataLine bit) m) = m.started bit := by
  have hstarts : (decide (m.chip.bits = 0) || decide (m.chip.bits = 8)) = true := by
    simpa using hbits
  rw [setLines_bit hbang hselected, driveClock_rise (m := m.lowered) hselected rfl hstarts,
    SpiChip.clockIn_first (c := { m.lowered.chip with clock := true }) hbits]
  rfl

/-- Both writes of a later bit. -/
theorem setLines_next (hbang : m.bitbang = true) (hselected : m.chip.selected = true)
    (hlow : 0 < m.chip.bits) (hhigh : m.chip.bits < 8) (bit : Bool) :
    setLines (dataLine bit ||| clockLine) (setLines (dataLine bit) m) = m.shifted bit := by
  have hstarts : (decide (m.chip.bits = 0) || decide (m.chip.bits = 8)) = false := by
    simp only [Bool.or_eq_false_iff, decide_eq_false_iff_not]
    omega
  rw [setLines_bit hbang hselected, driveClock_rise (m := m.lowered) hselected rfl hstarts,
    SpiChip.clockIn_next (c := { m.lowered.chip with clock := true }) rfl hlow hhigh]
  rfl

/-- The input shows what a selected chip puts out. -/
theorem readInput_eq (hbang : m.bitbang = true) (hselected : m.chip.selected = true) :
    RegisterBus.read .input m = (if m.chip.output then (1 : UInt32) else 0, m) := by
  show (if m.bitbang && m.chip.selected && m.chip.output then (1 : UInt32) else 0, m) = _
  rw [hbang, hselected, Bool.true_and, Bool.true_and]

/-! ## Bytes

The first bit of a byte is taken by `started`. What the bits after it do is `filled`, by induction
on their number, and a byte with its last falling edge is `exchanged`.
-/

/-- One bit of an exchange, with the machine that its writes lead to. -/
theorem exchangeBits_succ {out : UInt8} {n : Nat} (input : UInt8) {m' : Machine}
    (hset : ∀ bit, bit = decide ((out >>> n.toUInt8) &&& 1 = 1) →
      setLines (dataLine bit ||| clockLine) (setLines (dataLine bit) m) = m')
    (hbang : m'.bitbang = true) (hselected : m'.chip.selected = true) (hbits : m'.chip.bits = 8 - n)
    (hn : n ≤ 8) :
    exchangeBits out (n + 1) input m =
      exchangeBits out n
        ((input <<< 1) ||| (if (m'.chip.shiftOut >>> n.toUInt8) &&& 1 = 1 then 1 else 0)) m' := by
  have hdata : (if (out >>> n.toUInt8) &&& 1 = 1 then mosiLine else 0) =
      dataLine (decide ((out >>> n.toUInt8) &&& 1 = 1)) := by
    simp [dataLine]
  have hplace : 8 - m'.chip.bits = n := by omega
  -- Of the input register only the low bit is looked at.
  have hsample : ((if m'.chip.output then (1 : UInt32) else 0) &&& 1).toUInt8 =
      if (m'.chip.shiftOut >>> n.toUInt8) &&& 1 = 1 then 1 else 0 := by
    simp only [SpiChip.output, hplace, decide_eq_true_eq]
    split <;> rfl
  rw [exchangeBits]
  simp only [hdata, hset _ rfl, readInput_eq hbang hselected, hsample]

def filled (out : UInt8) (n : Nat) (m : Machine) : Machine :=
  { m with
    chip := { m.chip with
      clock := true
      bits := 8
      shiftIn := shiftBits out n m.chip.shiftIn
      taken := shiftBits out n m.chip.shiftIn :: m.chip.taken } }

/-- One of the later bits. -/
theorem exchangeBits_next {n : Nat} (hn : n ≤ 6) (hbang : m.bitbang = true)
    (hselected : m.chip.selected = true) (hbits : m.chip.bits = 7 - n) (out input : UInt8) :
    exchangeBits out (n + 1) input m =
      exchangeBits out n
        ((input <<< 1) ||| (if (m.chip.shiftOut >>> n.toUInt8) &&& 1 = 1 then 1 else 0))
        (m.shifted (decide ((out >>> n.toUInt8) &&& 1 = 1))) := by
  have hset : ∀ bit, bit = decide ((out >>> n.toUInt8) &&& 1 = 1) →
      setLines (dataLine bit ||| clockLine) (setLines (dataLine bit) m) =
        m.shifted (decide ((out >>> n.toUInt8) &&& 1 = 1)) := by
    rintro _ rfl
    exact setLines_next hbang hselected (by omega) (by omega) _
  have hbits' : (m.shifted (decide ((out >>> n.toUInt8) &&& 1 = 1))).chip.bits = 8 - n := by
    show m.chip.bits + 1 = _
    omega
  exact exchangeBits_succ input hset hbang hselected hbits' (by omega)

/-- The rest of a byte that has been started; induction on the bits that are left. -/
theorem exchangeBits_rest {n : Nat} (hn : n ≤ 6) (hbang : m.bitbang = true)
    (hselected : m.chip.selected = true) (hbits : m.chip.bits = 7 - n) (out input : UInt8) :
    exchangeBits out (n + 1) input m =
      (shiftBits m.chip.shiftOut (n + 1) input, m.filled out (n + 1)) := by
  induction n generalizing m input with
  | zero =>
    have hbits : m.chip.bits = 7 := hbits
    rw [exchangeBits_next hn hbang hselected hbits]
    simp [exchangeBits, shiftBits, filled, shifted, hbits]
  | succ n ih =>
    have hne : m.chip.bits ≠ 7 := by omega
    rw [exchangeBits_next hn hbang hselected hbits, ih (m := m.shifted _) (by omega) hbang hselected
      (by show m.chip.bits + 1 = _; omega)]
    simp [shiftBits, filled, shifted, hne]

def exchanged (out : UInt8) (m : Machine) : Machine :=
  { m with
    ticks := m.nextTicks
    chip := { m.chip with
      clock := false
      shiftOut := m.chip.next
      busyLeft := m.chip.nextLeft
      bits := 8
      shiftIn := out
      taken := out :: m.chip.taken } }

/-- **One byte.** The chip takes the byte that is sent, and its own arrives. -/
theorem exchangeByte_eq (hbang : m.bitbang = true) (hselected : m.chip.selected = true)
    (hbits : m.chip.bits = 0 ∨ m.chip.bits = 8) (out : UInt8) :
    exchangeByte out m = (m.chip.next, m.exchanged out) := by
  have hset : ∀ bit, bit = decide ((out >>> (7 : Nat).toUInt8) &&& 1 = 1) →
      setLines (dataLine bit ||| clockLine) (setLines (dataLine bit) m) =
        m.started (decide ((out >>> (7 : Nat).toUInt8) &&& 1 = 1)) := by
    rintro _ rfl
    exact setLines_first hbang hselected hbits _
  -- Eight bits on either side fill the register of the other.
  have hgiven : shiftBits m.chip.next 7
      (((0 : UInt8) <<< 1) ||| (if (m.chip.next >>> (7 : Nat).toUInt8) &&& 1 = 1 then 1 else 0)) =
        m.chip.next := shiftBits_eight m.chip.next 0
  have htaken : shiftBits out 7
      (m.started (decide ((out >>> (7 : Nat).toUInt8) &&& 1 = 1))).chip.shiftIn = out := by
    simp only [started, decide_eq_true_eq]
    exact shiftBits_eight out m.chip.shiftIn
  have hall : exchangeBits out 8 0 m = (m.chip.next,
      { m.exchanged out with chip := { (m.exchanged out).chip with clock := true } }) := by
    rw [exchangeBits_succ 0 hset hbang hselected rfl (by omega),
      exchangeBits_rest (m := m.started _) (Nat.le_refl 6) hbang hselected rfl]
    simp only [filled, htaken]
    exact congrArg (·, _) hgiven
  rw [exchangeByte, hall]
  refine congrArg (Prod.mk _) ((setLines_zero ?_ ?_).trans ?_)
  · exact hbang
  · exact hselected
  · rfl

/-! ## Transactions

A transaction selects the chip (`opened`), exchanges its bytes and deselects it; the chip acts on
the bytes only then. A status read is kept apart, since it takes time and counts the busy polls down
(`polled`).
-/

/-- A list of bytes is exchanged byte by byte. -/
theorem exchange_cons (hbang : m.bitbang = true) (hselected : m.chip.selected = true)
    (hbits : m.chip.bits = 0 ∨ m.chip.bits = 8) (out : UInt8) (rest : List UInt8) :
    exchange (out :: rest) m =
      (m.chip.next :: (exchange rest (m.exchanged out)).1,
        (exchange rest (m.exchanged out)).2) := by
  rw [exchange, exchangeByte_eq hbang hselected hbits]

/-- Bytes that ask for no status only reach the shift registers. Induction on the bytes; what
decides is the first byte since the chip was selected. -/
theorem exchange_quiet (bytes : List UInt8) (hbang : m.bitbang = true)
    (hselected : m.chip.selected = true) (hclock : m.chip.clock = false)
    (hbits : m.chip.bits = 0 ∨ m.chip.bits = 8)
    (hquiet : (m.chip.taken.reverse ++ bytes).head? ≠ some Opcode.readStatus) :
    ∃ bits shiftIn shiftOut, (exchange bytes m).2 =
      { m with
        chip := { m.chip with
          bits, shiftIn, shiftOut, taken := bytes.reverse ++ m.chip.taken } } := by
  induction bytes generalizing m with
  | nil => exact ⟨m.chip.bits, m.chip.shiftIn, m.chip.shiftOut, rfl⟩
  | cons out rest ih =>
    rw [exchange_cons hbang hselected hbits]
    -- A chip whose first byte is no status read never sends its status.
    have hstatus : m.chip.sendsStatus = false := by
      rw [SpiChip.sendsStatus, decide_eq_false_iff_not]
      intro hlast
      rw [List.head?_append, List.head?_reverse, hlast] at hquiet
      exact hquiet rfl
    obtain ⟨bits, shiftIn, shiftOut, hrest⟩ := ih (m := m.exchanged out) hbang hselected rfl
      (Or.inr rfl) (by simpa [exchanged] using hquiet)
    refine ⟨bits, shiftIn, shiftOut, ?_⟩
    rw [hrest]
    simp [exchanged, nextTicks, SpiChip.nextLeft, hstatus, hclock]

theorem exchange_append (first rest : List UInt8) (m : Machine) :
    (exchange (first ++ rest) m).2 = (exchange rest (exchange first m).2).2 := by
  induction first generalizing m with
  | nil => rfl
  | cons out first ih => exact ih _

/-- For the chip, the parts of a transaction are one list of bytes. -/
theorem exchangeOps_state (ops : List SpiOp) (m : Machine) :
    (exchangeOps ops m).2 = (exchange (ops.flatMap sentBytes) m).2 := by
  induction ops generalizing m with
  | nil => rfl
  | cons op rest ih =>
    rw [List.flatMap_cons, exchange_append, ← ih]
    rfl

end Machine

namespace SpiChip

/-- The chip once it was deselected after these bytes. -/
def obeying (bytes : List UInt8) (c : SpiChip) : SpiChip :=
  { (c.act bytes).2.select false with clock := false }

/-- What a chip does with its bytes does not depend on its shift registers. -/
theorem act_registers (bytes : List UInt8) (c : SpiChip) (selected clock : Bool)
    (taken : List UInt8) (bits : Nat) (shiftIn shiftOut : UInt8) :
    { c with selected, clock, taken, bits, shiftIn, shiftOut }.act bytes =
      ((c.act bytes).1,
        { (c.act bytes).2 with selected, clock, taken, bits, shiftIn, shiftOut }) := by
  -- Only the status and the memory have a part in what a command does.
  have hchange (f : ByteArray → ByteArray) :
      { c with selected, clock, taken, bits, shiftIn, shiftOut }.change f =
        ((c.change f).1,
          { (c.change f).2 with selected, clock, taken, bits, shiftIn, shiftOut }) := by
    unfold change isBusy
    split <;> rfl
  rcases bytes with _ | ⟨opcode, _ | ⟨a2, _ | ⟨a1, _ | ⟨a0, data⟩⟩⟩⟩
  · rfl
  all_goals
    simp only [act, hchange]
    split
    · rfl
    · split
      · rfl
      · first
        | rfl
        | split
          · rfl
          · split <;> rfl

end SpiChip

namespace Machine

variable {m : Machine}

def opened (m : Machine) : Machine :=
  { m with chip := { m.chip.select true with clock := false } }

/-- Selecting a chip forgets the bytes before. -/
theorem setLines_select (hbang : m.bitbang = true) (hselected : m.chip.selected = false) :
    setLines 0 m = m.opened := by
  have hne : true ≠ m.chip.selected := by simp [hselected]
  rw [setLines_eq hbang true false false (by decide) (by decide) (by decide), driveClock_low,
    driveSelect, if_neg hne, if_pos rfl]
  rfl

/-- A deselected chip acts on the bytes that it took. -/
theorem setLines_deselect (hbang : m.bitbang = true) (hselected : m.chip.selected = true) :
    setLines deselectLine m =
      { m with chip := m.chip.obeying m.chip.taken.reverse }.record
        (.transaction m.chip.taken.reverse (m.chip.act m.chip.taken.reverse).1) := by
  have hne : false ≠ m.chip.selected := by simp [hselected]
  rw [setLines_eq hbang false false false (by decide) (by decide) (by decide), driveClock_low,
    driveSelect, if_neg hne, if_neg Bool.false_ne_true]
  rfl

/-- **A transaction that asks for no status.** The chip acts on its bytes; nothing else changes. -/
theorem transaction_quiet (ops : List SpiOp) (hbang : m.bitbang = true)
    (hselected : m.chip.selected = false)
    (hquiet : (ops.flatMap sentBytes).head? ≠ some Opcode.readStatus) :
    (transaction ops m).2 =
      { m with chip := m.chip.obeying (ops.flatMap sentBytes) }.record
        (.transaction (ops.flatMap sentBytes) (m.chip.act (ops.flatMap sentBytes)).1) := by
  obtain ⟨bits, shiftIn, shiftOut, hexchange⟩ := exchange_quiet (m := m.opened)
    (ops.flatMap sentBytes) hbang rfl rfl (Or.inl rfl) hquiet
  show setLines deselectLine (exchangeOps ops (setLines 0 m)).2 = _
  rw [setLines_select hbang hselected, exchangeOps_state, hexchange, setLines_deselect]
  · have htaken : ((ops.flatMap sentBytes).reverse ++ m.opened.chip.taken).reverse =
        ops.flatMap sentBytes := by simp [opened, SpiChip.select]
    have hact := SpiChip.act_registers (ops.flatMap sentBytes) m.chip true false
      ((ops.flatMap sentBytes).reverse ++ m.opened.chip.taken) bits shiftIn shiftOut
    simp only [htaken, SpiChip.obeying]
    simp only [opened, SpiChip.select] at hact ⊢
    rw [hact]
  · exact hbang
  · rfl

def polled (m : Machine) : Machine :=
  { m with
    ticks := m.ticks.advance m.ticksPerStatus
    chip := { m.chip with busyLeft := m.chip.busyLeft - 1 }.obeying [] }.record
      (.transaction [Opcode.readStatus, 0xFF] true)

/-- **A status read.** The status byte arrives, time passes and the busy counter moves. -/
theorem transaction_status (hbang : m.bitbang = true) (hselected : m.chip.selected = false) :
    transaction [.write [Opcode.readStatus], .read 1] m = ([[], [m.chip.status.1]], m.polled) := by
  have hfirst : exchange [Opcode.readStatus] m.opened =
      ([m.opened.chip.next], m.opened.exchanged Opcode.readStatus) :=
    exchange_cons (m := m.opened) hbang rfl (Or.inl rfl) Opcode.readStatus []
  -- The second byte brings the status that was loaded when it began.
  have hsecond : exchange [0xFF] (m.opened.exchanged Opcode.readStatus) =
      ([m.chip.status.1], (m.opened.exchanged Opcode.readStatus).exchanged 0xFF) :=
    exchange_cons (m := m.opened.exchanged _) hbang rfl (Or.inr rfl) 0xFF []
  have hops : exchangeOps [.write [Opcode.readStatus], .read 1] m.opened =
      ([[], [m.chip.status.1]], (m.opened.exchanged Opcode.readStatus).exchanged 0xFF) := by
    simp only [exchangeOps, sentBytes, List.replicate_one, hfirst, hsecond]
    rfl
  rw [transaction, setLines_select hbang hselected]
  simp only [hops]
  refine congrArg (Prod.mk _) ((setLines_deselect ?_ ?_).trans ?_)
  · exact hbang
  · rfl
  · rfl

end Machine

end NorDisk.Firmware
