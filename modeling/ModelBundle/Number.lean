/-!
Numbers with bounds: 64-bit words, binary floating point, and decimal texts.  Sums of words come
in two kinds that do not wrap: one refuses to exceed a word, one stops at the largest word.
-/

namespace ModelBundle.Word

def add? (a b : UInt64) : Option UInt64 :=
  if a.toNat + b.toNat < UInt64.size then some (a + b) else none

def cappedAdd (a b : UInt64) : UInt64 :=
  (add? a b).getD (UInt64.ofNat (UInt64.size - 1))

theorem add?_eq_some_iff {a b sum : UInt64} :
    add? a b = some sum ↔ a.toNat + b.toNat = sum.toNat := by
  have hsum := sum.toNat_lt
  unfold add? UInt64.size
  split
  case isTrue h =>
    rw [Option.some.injEq, ← UInt64.toNat_inj, UInt64.toNat_add]
    omega
  case isFalse h =>
    simp only [reduceCtorEq, false_iff]
    omega

theorem add?_eq_none_iff {a b : UInt64} : add? a b = none ↔ UInt64.size ≤ a.toNat + b.toNat := by
  unfold add?
  split <;> simp_all

theorem toNat_pos_iff {a : UInt64} : 0 < a.toNat ↔ a ≠ 0 := by
  rw [Nat.pos_iff_ne_zero, ne_eq, ← UInt64.toNat_zero, UInt64.toNat_inj]

theorem toNat_cappedAdd (a b : UInt64) :
    (cappedAdd a b).toNat = min (a.toNat + b.toNat) (UInt64.size - 1) := by
  unfold cappedAdd
  cases h : add? a b with
  | none =>
    have := add?_eq_none_iff.mp h
    have hmax : (UInt64.ofNat (UInt64.size - 1)).toNat = UInt64.size - 1 := by decide
    rw [Option.getD_none, hmax]
    omega
  | some sum =>
    have := add?_eq_some_iff.mp h
    have := sum.toNat_lt_size
    simp only [Option.getD_some]
    omega

end ModelBundle.Word

/-!
Rounding of exact fractions to whole numbers.  A half goes to the even neighbour, so rounding
has no drift in either direction.
-/

namespace ModelBundle.Number

def tenTo (exponent : Nat) : Nat := Nat.pow 10 exponent

/-- `num / den` to the nearest whole number; a half goes to the even neighbour. -/
def roundDiv (num den : Nat) : Nat :=
  let floor := num / den
  let rest := num % den
  if 2 * rest < den then floor
  else if den < 2 * rest then floor + 1
  else floor + floor % 2

/-!
Binary numbers with a bounded significand.  A value is a whole significand times a power of two;
a format says how wide the significand may be and which exponents exist.  Every conversion is
one rounding of an exact fraction.
-/

structure BinaryValue where
  significand : Nat
  exponent : Int
deriving DecidableEq, Repr, Inhabited

namespace BinaryValue

def num (d : BinaryValue) : Nat := d.significand <<< d.exponent.toNat
def den (d : BinaryValue) : Nat := 1 <<< (-d.exponent).toNat

end BinaryValue

structure BinaryFormat where
  precision : Nat
  least : Int
  greatest : Int

namespace BinaryFormat

def single : BinaryFormat := ⟨24, -149, 104⟩
def double : BinaryFormat := ⟨53, -1074, 971⟩

/-- The position of the leading bit of `num / den`, both positive. -/
def leading (num den : Nat) : Int :=
  let guess : Int := (Nat.log2 num : Int) - Nat.log2 den
  if den <<< guess.toNat ≤ num <<< (-guess).toNat then guess else guess - 1

def units (num den : Nat) (exponent : Int) : Nat :=
  roundDiv (num <<< (-exponent).toNat) (den <<< exponent.toNat)

/-- The nearest value of the format, or nothing when it lies beyond the largest one. -/
def round (format : BinaryFormat) (num den : Nat) : Option BinaryValue :=
  if num = 0 then some ⟨0, format.least⟩
  else
    let exponent := max format.least (leading num den - (format.precision - 1 : Nat))
    let significand := units num den exponent
    let value : BinaryValue :=
      if significand = 1 <<< format.precision then ⟨1 <<< (format.precision - 1), exponent + 1⟩
      else ⟨significand, exponent⟩
    if format.greatest < value.exponent then none else some value

end BinaryFormat

namespace BinaryValue

def mul (format : BinaryFormat) (a b : BinaryValue) : Option BinaryValue :=
  format.round (a.num * b.num) (a.den * b.den)

def div (format : BinaryFormat) (a b : BinaryValue) : Option BinaryValue :=
  format.round (a.num * b.den) (a.den * b.num)

end BinaryValue

/-!
Decimal texts of numbers: the shortest decimal that still rounds to a given binary value, and a
fraction with two decimal places.  Both are positional; no exponent is ever written.
-/

structure Decimal where
  digits : Nat
  exponent : Int
deriving DecidableEq, Repr, Inhabited

namespace Decimal

/-- Digits with a point where the exponent puts it, padded with zeros on either side. -/
def positional (d : Decimal) : String :=
  let digits := Nat.toDigits 10 d.digits
  if 0 ≤ d.exponent then
    String.ofList (digits ++ List.replicate d.exponent.toNat '0')
  else
    let places := (-d.exponent).toNat
    let padded := List.replicate (places + 1 - digits.length) '0' ++ digits
    let whole := padded.length - places
    String.ofList (padded.take whole ++ '.' :: padded.drop whole)

end Decimal

/-- The reals that round to one binary value, in quarters of its last bit: from `low` to `high`
with the value itself at `middle`, ends included or not. -/
structure RoundingRange where
  low : Nat
  middle : Nat
  high : Nat
  closed : Bool
  exponent : Int

/-- Below a power of two the spacing halves, so the range reaches only half as far down there. -/
def BinaryFormat.range (format : BinaryFormat) (value : BinaryValue) : RoundingRange :=
  let m := value.significand
  let narrow := m = 1 <<< (format.precision - 1) ∧ format.least < value.exponent
  { low := 4 * m - if narrow then 1 else 2
    middle := 4 * m
    high := 4 * m + 2
    closed := m % 2 = 0
    exponent := value.exponent - 2 }

namespace RoundingRange

/-- The multiple of `10 ^ place` nearest to the middle, among those in the range.  Of two equally
near ones it is the larger. -/
def pick (r : RoundingRange) (place : Int) : Option Decimal :=
  let scale := tenTo (-place).toNat <<< r.exponent.toNat
  let unit := tenTo place.toNat <<< (-r.exponent).toNat
  let below := r.middle * scale / unit
  let within (x y : Nat) : Bool := if r.closed then x ≤ y else x < y
  let belowFits := 0 < below && within (r.low * scale) (below * unit)
  let aboveFits := within ((below + 1) * unit) (r.high * scale)
  if belowFits && (!aboveFits || 2 * (r.middle * scale - below * unit) < unit) then
    some ⟨below, place⟩
  else if aboveFits then some ⟨below + 1, place⟩
  else none

def coarsest (r : RoundingRange) : Int :=
  let bits : Int := Nat.log2 r.high + r.exponent + 1
  if 0 ≤ bits then bits / 3 + 1 else bits / 4 + 1

def finest (r : RoundingRange) : Int :=
  min 0 r.exponent

/-- The decimal with the fewest digits in the range: the first hit from the coarsest place down. -/
def shortest (r : RoundingRange) : Decimal :=
  let places := List.range ((r.coarsest - r.finest).toNat + 1)
  (places.findSome? fun (step : Nat) => r.pick (r.coarsest - step)).getD ⟨0, 0⟩

end RoundingRange

def twoPlaces (num den : Nat) : String :=
  Decimal.positional ⟨roundDiv (num * 100) den, -2⟩

/-- A count divided by `2 ^ shift`, with two decimal places.  The count is first brought to the
precision of a double. -/
def scaledCount (count shift : Nat) : String :=
  let value := (BinaryFormat.double.round count 1).getD ⟨0, 0⟩
  twoPlaces value.num (value.den <<< shift)

example : twoPlaces 1 8 = "0.12" := by decide
example : twoPlaces 3 8 = "0.38" := by decide
example : Decimal.positional ⟨25, -4⟩ = "0.0025" := by decide
example : Decimal.positional ⟨25, 2⟩ = "2500" := by decide

/-!
Single-precision numbers, held as their 32 bits: sign, exponent field, fraction.  Reading a
decimal rounds once to nearest, ties to even; writing gives the shortest decimal that reads back.
-/

structure Single where
  bits : UInt32
deriving DecidableEq, Repr, Inhabited

namespace Single

def hiddenBit : Nat := 0x800000

def signBit : Nat := 0x80000000

def isNegative (x : Single) : Bool := signBit ≤ x.bits.toNat
def exponentField (x : Single) : Nat := x.bits.toNat / hiddenBit % 256
def fraction (x : Single) : Nat := x.bits.toNat % hiddenBit

private def ofFields (negative : Bool) (magnitude : Nat) : Single :=
  ⟨UInt32.ofNat ((if negative then signBit else 0) + magnitude)⟩

def nan : Single := ⟨0x7fc00000⟩
def infinity (negative : Bool) : Single := ofFields negative (255 * hiddenBit)

def ofBinary (negative : Bool) : Option BinaryValue → Single
  | none => infinity negative
  | some value =>
    if value.significand < hiddenBit then ofFields negative value.significand
    else
      ofFields negative
        ((value.exponent + 150).toNat * hiddenBit + (value.significand - hiddenBit))

def ofRatio (negative : Bool) (num den : Nat) : Single :=
  ofBinary negative (BinaryFormat.single.round num den)

def ofNat (n : Nat) : Single := ofRatio false n 1

/-- The single nearest to `digits * 10 ^ exponent`.  Far outside the range of the format the
power itself is not computed. -/
def ofDecimal (negative : Bool) (value : Decimal) : Single :=
  let size := value.exponent + (Nat.toDigits 10 value.digits).length
  if value.digits = 0 || size < -60 then ofFields negative 0
  else if 60 < size then infinity negative
  else ofRatio negative (value.digits * tenTo value.exponent.toNat) (tenTo (-value.exponent).toNat)

def magnitude? (x : Single) : Option BinaryValue :=
  if x.exponentField = 255 then none
  else if x.exponentField = 0 then some ⟨x.fraction, -149⟩
  else some ⟨x.fraction + hiddenBit, (x.exponentField : Int) - 150⟩

theorem fraction_lt (x : Single) : x.fraction < hiddenBit :=
  Nat.mod_lt _ (by decide)

private theorem ofFields_fields (x : Single) :
    ofFields x.isNegative (x.exponentField * hiddenBit + x.fraction) = x := by
  obtain ⟨bits⟩ := x
  have hbits : (if isNegative ⟨bits⟩ then signBit else 0) +
      (exponentField ⟨bits⟩ * hiddenBit + fraction ⟨bits⟩) = bits.toNat := by
    have hlt := bits.toNat_lt
    simp only [isNegative, exponentField, fraction, decide_eq_true_eq]
    unfold hiddenBit signBit
    split <;> omega
  rw [ofFields, hbits, UInt32.ofNat_toNat]

theorem ofBinary_magnitude? {x : Single} {value : BinaryValue} (h : x.magnitude? = some value) :
    ofBinary x.isNegative (some value) = x := by
  have hfraction := x.fraction_lt
  have hfields := ofFields_fields x
  unfold magnitude? at h
  split at h
  · simp at h
  · split at h
    · rename_i hfield
      obtain rfl := Option.some.inj h
      rw [hfield, Nat.zero_mul, Nat.zero_add] at hfields
      rw [ofBinary, if_pos hfraction, hfields]
    · obtain rfl := Option.some.inj h
      have hplace : ((x.exponentField : Int) - 150 + 150).toNat = x.exponentField := by omega
      rw [ofBinary, if_neg (by simp), hplace, Nat.add_sub_cancel, hfields]

theorem infinity_of_fields {x : Single} (hfield : x.exponentField = 255)
    (hfraction : x.fraction = 0) : infinity x.isNegative = x := by
  have hfields := ofFields_fields x
  rw [hfield, hfraction] at hfields
  exact hfields

def text (x : Single) : String :=
  let sign := if x.isNegative then "-" else ""
  match x.magnitude? with
  | none => if x.fraction = 0 then sign ++ "inf" else "NaN"
  | some value =>
    if value.significand = 0 then sign ++ "0"
    else sign ++ (BinaryFormat.single.range value).shortest.positional

def digitRun (text : List Char) : List Char × List Char :=
  (text.takeWhile Char.isDigit, text.dropWhile Char.isDigit)

theorem digitRun_append {digits rest : List Char} (hdigits : ∀ c ∈ digits, c.isDigit = true)
    (hrest : ∀ c ∈ rest.head?, c.isDigit = false) : digitRun (digits ++ rest) = (digits, rest) := by
  have htake : rest.takeWhile Char.isDigit = [] := by
    cases rest with
    | nil => rfl
    | cons c rest => rw [List.takeWhile_cons_of_neg (by simp [hrest c rfl])]
  have hdrop : rest.dropWhile Char.isDigit = rest := by
    cases rest with
    | nil => rfl
    | cons c rest => rw [List.dropWhile_cons_of_neg (by simp [hrest c rfl])]
  rw [digitRun, List.takeWhile_append_of_pos hdigits, List.dropWhile_append_of_pos hdigits, htake,
    hdrop, List.append_nil]

def numeral (digits : List Char) : Nat :=
  digits.foldl (fun value digit => 10 * value + (digit.toNat - 48)) 0

def exponentPart? : List Char → Option Int
  | [] => some 0
  | mark :: rest =>
    if mark = 'e' || mark = 'E' then
      let (negative, rest) := match rest with
        | '-' :: rest => (true, rest)
        | '+' :: rest => (false, rest)
        | rest => (false, rest)
      let (digits, rest) := digitRun rest
      if digits.isEmpty || !rest.isEmpty then none
      else some (if negative then -(numeral digits) else numeral digits)
    else none

def unsigned? (negative : Bool) (text : List Char) : Option Single :=
  let word := String.ofList (text.map Char.toLower)
  if word = "inf" || word = "infinity" then some (infinity negative)
  else if word = "nan" then some nan
  else
    let (whole, rest) := digitRun text
    let (places, rest) := match rest with
      | '.' :: rest => digitRun rest
      | rest => ([], rest)
    if whole.isEmpty && places.isEmpty then none
    else (exponentPart? rest).map fun exponent =>
      ofDecimal negative ⟨numeral (whole ++ places), exponent - places.length⟩

/-- Reads a number as a command line gives it: digits with an optional point, sign and exponent,
or the words for infinity and not-a-number in any case. -/
def parse? (text : String) : Option Single :=
  match text.toList with
  | '-' :: rest => unsigned? true rest
  | '+' :: rest => unsigned? false rest
  | rest => unsigned? false rest

example : (ofDecimal false ⟨7, -1⟩).bits = 0x3f333333 := by decide
example : text ⟨0x3f333333⟩ = "0.7" := by decide +kernel
example : text ⟨0x461c4000⟩ = "10000" := by decide +kernel

end Single

end ModelBundle.Number
