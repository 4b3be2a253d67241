import Mathlib
import ModelBundle.Number

/-!
Rounding to a binary format, and the shortest decimals that undo it.  Fractions are taken as
rational numbers here, and one that lies in the range of a value is rounded to that value.
-/

namespace ModelBundle.Number

theorem tenTo_eq (n : Nat) : tenTo n = 10 ^ n := rfl

/-- The nearest whole number, told by a bound of half a unit. -/
theorem roundDiv_eq {num den r : Nat} (hlow : 2 * (r * den) ≤ 2 * num + den)
    (hhigh : 2 * num ≤ 2 * (r * den) + den)
    (htie : r % 2 = 0 ∨ 2 * (r * den) < 2 * num + den ∧ 2 * num < 2 * (r * den) + den)
    (hden : 0 < den) : roundDiv num den = r := by
  have hsplit : num / den * den + num % den = num := by
    rw [Nat.mul_comm]
    exact Nat.div_add_mod num den
  have hrest := Nat.mod_lt num hden
  have hcases : num / den = r ∨ num / den + 1 = r := by
    by_contra hne
    rw [not_or] at hne
    rcases Nat.lt_or_gt_of_ne hne.1 with hlt | hgt
    · have hle : (num / den + 2) * den ≤ r * den := Nat.mul_le_mul_right _ (by omega)
      rw [Nat.add_mul] at hle
      omega
    · have hle : (r + 1) * den ≤ num / den * den := Nat.mul_le_mul_right _ (by omega)
      rw [Nat.add_mul] at hle
      omega
  unfold roundDiv
  dsimp only
  rcases hcases with heq | heq
  · rw [heq] at hsplit ⊢
    split
    · rfl
    · split
      · omega
      · omega
  · have hr : r * den = num / den * den + den := by rw [← heq, Nat.add_mul, Nat.one_mul]
    split
    · omega
    · split
      · omega
      · omega

theorem shifted_div (num den : Nat) (k : Int) :
    ((num <<< (-k).toNat : Nat) : ℚ) / (den <<< k.toNat : Nat) = num / den / 2 ^ k := by
  rw [Nat.shiftLeft_eq, Nat.shiftLeft_eq]
  push_cast
  rcases Int.le_total 0 k with h | h
  · obtain ⟨n, rfl⟩ := Int.eq_ofNat_of_zero_le h
    simp
    ring
  · obtain ⟨n, hn⟩ := Int.eq_ofNat_of_zero_le (Int.neg_nonneg_of_nonpos h)
    obtain rfl : k = -n := by omega
    simp
    ring

/-- A value that the format has, in its one form: the significand is as wide as can be. -/
structure BinaryFormat.Holds (format : BinaryFormat) (value : BinaryValue) : Prop where
  narrow : value.significand < 2 ^ format.precision
  least : format.least ≤ value.exponent
  greatest : value.exponent ≤ format.greatest
  wide : value.exponent = format.least ∨ 2 ^ (format.precision - 1) ≤ value.significand

/-- A number in the range: between the ends, or at an end that belongs to it. -/
structure RoundingRange.Within (range : RoundingRange) (x : ℚ) : Prop where
  low : range.low * 2 ^ range.exponent ≤ x
  high : x ≤ range.high * 2 ^ range.exponent
  inside : range.closed ∨ range.low * 2 ^ range.exponent < x ∧ x < range.high * 2 ^ range.exponent

namespace BinaryFormat

variable {format : BinaryFormat} {value : BinaryValue} {num den : Nat}

theorem range_ends (format : BinaryFormat) (hpos : 0 < value.significand) :
    (format.range value).low < (format.range value).middle ∧ 0 < (format.range value).middle ∧
      (format.range value).middle < (format.range value).high := by
  simp only [range]
  refine ⟨?_, by omega, by omega⟩
  split <;> omega

theorem scaled_within {x : ℚ} (hpos : 0 < value.significand)
    (within : (format.range value).Within x) :
    let scaled := x / 2 ^ value.exponent
    let narrow := value.significand = 2 ^ (format.precision - 1) ∧ format.least < value.exponent
    (value.significand : ℚ) - 1 / 2 ≤ scaled ∧ scaled ≤ value.significand + 1 / 2 ∧
      (narrow → (value.significand : ℚ) - 1 / 4 ≤ scaled) ∧
      (value.significand % 2 = 0 ∨
        (value.significand : ℚ) - 1 / 2 < scaled ∧ scaled < value.significand + 1 / 2) := by
  intro scaled narrow
  obtain ⟨hlow, hhigh, hinside⟩ := within
  have hunit : (0 : ℚ) < 2 ^ value.exponent := by positivity
  have hquarter : (2 : ℚ) ^ (value.exponent - 2) = 2 ^ value.exponent / 4 := by
    rw [zpow_sub₀ two_ne_zero]
    norm_num
  have hx : x = scaled * 2 ^ value.exponent := (div_mul_cancel₀ x hunit.ne').symm
  simp only [range, hquarter, Nat.shiftLeft_eq, one_mul, decide_eq_true_eq] at hlow hhigh hinside
  rw [hx] at hlow hhigh hinside
  generalize (2 : ℚ) ^ value.exponent = unit at hunit hlow hhigh hinside
  have hends : ((4 * value.significand - if narrow then 1 else 2 : Nat) : ℚ) =
      4 * value.significand - if narrow then 1 else 2 := by
    rw [Nat.cast_sub (by split <;> omega)]
    push_cast
    rfl
  rw [hends] at hlow hinside
  have hlow : (4 * value.significand - if narrow then 1 else 2 : ℚ) / 4 ≤ scaled :=
    le_of_mul_le_mul_right (by linarith) hunit
  have hhigh : scaled ≤ (4 * value.significand + 2 : ℚ) / 4 :=
    le_of_mul_le_mul_right (by push_cast at hhigh; linarith) hunit
  have hinside : value.significand % 2 = 0 ∨
      (4 * value.significand - if narrow then 1 else 2 : ℚ) / 4 < scaled ∧
        scaled < (4 * value.significand + 2) / 4 := by
    refine hinside.imp_right fun ⟨hl, hh⟩ => ⟨?_, ?_⟩
    · exact lt_of_mul_lt_mul_right (by linarith) hunit.le
    · exact lt_of_mul_lt_mul_right (by push_cast at hh; linarith) hunit.le
  have hpart : (if narrow then 1 else 2 : ℚ) ≤ 2 := by split <;> norm_num
  refine ⟨by linarith, by linarith, fun h => ?_, hinside.imp_right fun ⟨hl, hh⟩ =>
    ⟨by linarith, by linarith⟩⟩
  rw [if_pos h] at hlow
  linarith

theorem units_eq {r : Nat} {k : Int} (hden : 0 < den)
    (hlow : (r : ℚ) - 1 / 2 ≤ num / den / 2 ^ k) (hhigh : (num : ℚ) / den / 2 ^ k ≤ r + 1 / 2)
    (htie : r % 2 = 0 ∨ (r : ℚ) - 1 / 2 < num / den / 2 ^ k ∧ (num : ℚ) / den / 2 ^ k < r + 1 / 2) :
    units num den k = r := by
  have hpos : 0 < den <<< k.toNat := by
    rw [Nat.shiftLeft_eq]
    positivity
  have hcast : (0 : ℚ) < (den <<< k.toNat : Nat) := by exact_mod_cast hpos
  rw [← shifted_div] at hlow hhigh htie
  rw [le_div_iff₀ hcast] at hlow
  rw [div_le_iff₀ hcast] at hhigh
  rw [lt_div_iff₀ hcast, div_lt_iff₀ hcast] at htie
  unfold units
  generalize num <<< (-k).toNat = n at *
  generalize den <<< k.toNat = d at *
  refine roundDiv_eq ?_ ?_ ?_ hpos
  · have : (2 : ℚ) * (r * d) ≤ 2 * n + d := by linarith
    exact_mod_cast this
  · have : (2 : ℚ) * n ≤ 2 * (r * d) + d := by linarith
    exact_mod_cast this
  · refine htie.imp_right fun ⟨hl, hh⟩ => ⟨?_, ?_⟩
    · have : (2 : ℚ) * (r * d) < 2 * n + d := by linarith
      exact_mod_cast this
    · have : (2 : ℚ) * n < 2 * (r * d) + d := by linarith
      exact_mod_cast this

theorem leading_spec (hnum : 0 < num) (hden : 0 < den) :
    (2 : ℚ) ^ leading num den ≤ num / den ∧ (num : ℚ) / den < 2 ^ (leading num den + 1) := by
  have hnumLow : (2 : ℚ) ^ (Nat.log2 num : Int) ≤ num := by
    have := Nat.log2_self_le (n := num) (by omega)
    exact_mod_cast this
  have hnumHigh : (num : ℚ) < 2 ^ ((Nat.log2 num : Int) + 1) := by
    have := Nat.lt_log2_self (n := num)
    exact_mod_cast this
  have hdenLow : (2 : ℚ) ^ (Nat.log2 den : Int) ≤ den := by
    have := Nat.log2_self_le (n := den) (by omega)
    exact_mod_cast this
  have hdenHigh : (den : ℚ) < 2 ^ ((Nat.log2 den : Int) + 1) := by
    have := Nat.lt_log2_self (n := den)
    exact_mod_cast this
  have hcast : (0 : ℚ) < den := by exact_mod_cast hden
  unfold leading
  dsimp only
  generalize hguess : (Nat.log2 num : Int) - Nat.log2 den = guess
  have hcompare : den <<< guess.toNat ≤ num <<< (-guess).toNat ↔ (2 : ℚ) ^ guess ≤ num / den := by
    have hshift := shifted_div num den guess
    have hpos : (0 : ℚ) < (den <<< guess.toNat : Nat) := by
      rw [Nat.shiftLeft_eq]
      positivity
    have hpower : (0 : ℚ) < 2 ^ guess := by positivity
    rw [← one_le_div₀ hpower, ← hshift, one_le_div₀ hpos, Nat.cast_le]
  split
  case isTrue h =>
    refine ⟨hcompare.mp h, ?_⟩
    rw [div_lt_iff₀ hcast]
    calc (num : ℚ) < 2 ^ ((Nat.log2 num : Int) + 1) := hnumHigh
      _ = 2 ^ (guess + 1) * 2 ^ (Nat.log2 den : Int) := by
        rw [← zpow_add₀ two_ne_zero]
        congr 1
        omega
      _ ≤ 2 ^ (guess + 1) * den := by gcongr
  case isFalse h =>
    rw [hcompare, not_le] at h
    refine ⟨?_, by rwa [Int.sub_add_cancel]⟩
    rw [le_div_iff₀ hcast]
    calc (2 : ℚ) ^ (guess - 1) * den ≤ 2 ^ (guess - 1) * 2 ^ ((Nat.log2 den : Int) + 1) := by gcongr
      _ = 2 ^ (Nat.log2 num : Int) := by
        rw [← zpow_add₀ two_ne_zero]
        congr 1
        omega
      _ ≤ num := hnumLow

theorem leading_lt {k : Int} (hnum : 0 < num) (hden : 0 < den) (h : (num : ℚ) / den < 2 ^ k) :
    leading num den < k :=
  (zpow_lt_zpow_iff_right₀ one_lt_two).mp ((leading_spec hnum hden).1.trans_lt h)

theorem le_leading {k : Int} (hnum : 0 < num) (hden : 0 < den) (h : (2 : ℚ) ^ k ≤ num / den) :
    k ≤ leading num den :=
  Int.lt_add_one_iff.mp
    ((zpow_lt_zpow_iff_right₀ one_lt_two).mp (h.trans_lt (leading_spec hnum hden).2))

theorem round_of_units {m : Nat} {e : Int} (hnum : 0 < num)
    (hplace : max format.least (leading num den - (format.precision - 1 : Nat)) = e)
    (hunits : units num den e = m) (hm : m < 2 ^ format.precision)
    (hgreatest : e ≤ format.greatest) : format.round num den = some ⟨m, e⟩ := by
  have hwhole : m ≠ 1 <<< format.precision := by
    rw [Nat.one_shiftLeft]
    omega
  simp only [round, hnum.ne', if_false, hplace, hunits, hwhole]
  exact if_neg (by omega)

theorem round_of_carry {e : Int} (hnum : 0 < num)
    (hplace : max format.least (leading num den - (format.precision - 1 : Nat)) = e - 1)
    (hunits : units num den (e - 1) = 2 ^ format.precision) (hgreatest : e ≤ format.greatest) :
    format.round num den = some ⟨2 ^ (format.precision - 1), e⟩ := by
  simp only [round, hnum.ne', if_false, hplace, hunits, Nat.one_shiftLeft, if_true,
    Int.sub_add_cancel]
  exact if_neg (by omega)

theorem round_of_within (hprecision : 2 ≤ format.precision) (holds : format.Holds value)
    (hpos : 0 < value.significand) (hnum : 0 < num) (hden : 0 < den)
    (within : (format.range value).Within (num / den)) : format.round num den = some value := by
  obtain ⟨hlow, hhigh, hnarrow, htie⟩ := scaled_within hpos within
  obtain ⟨m, e⟩ := value
  obtain ⟨hbound, hexponent, hgreatest, hwide⟩ := holds
  obtain ⟨p, least, greatest⟩ := format
  dsimp only at *
  have hunit : (0 : ℚ) < 2 ^ e := by positivity
  have hscale : ∀ (k : Int) (c : ℚ), c = 2 ^ k → c * 2 ^ e = 2 ^ (k + e) := by
    rintro k c rfl
    rw [zpow_add₀ two_ne_zero]
  have hless : leading num den < p + e := by
    apply leading_lt hnum hden
    rw [← hscale p (2 ^ p) (zpow_natCast _ _).symm, ← div_lt_iff₀ hunit]
    have hsmall : (m : ℚ) + 1 ≤ 2 ^ p := by exact_mod_cast hbound
    linarith
  by_cases hcase : (2 : ℚ) ^ (p - 1) ≤ num / den / 2 ^ e ∨ e = least
  · -- the fraction has the exponent of the value
    have hplace : max least (leading num den - (p - 1 : Nat)) = e := by
      rcases hcase with hcase | rfl
      · have := le_leading (k := (p - 1 : Nat) + e) hnum hden
          (by rwa [← hscale _ _ (zpow_natCast _ _).symm, ← le_div_iff₀ hunit])
        omega
      · omega
    exact round_of_units hnum hplace (units_eq hden hlow hhigh htie) hbound hgreatest
  · -- the value is a power of two, and the fraction is below it
    rw [not_or, not_le] at hcase
    obtain ⟨hbelow, hne⟩ := hcase
    have hover : least < e := by omega
    have hpower : m = 2 ^ (p - 1) := by
      have hwide := hwide.resolve_left hne
      have : m < 2 ^ (p - 1) + 1 := by
        have : (m : ℚ) < 2 ^ (p - 1) + 1 := by linarith
        exact_mod_cast this
      omega
    have hnear := hnarrow ⟨hpower, hover⟩
    have hdouble : (2 : ℚ) ^ (p - 1) = 2 * 2 ^ (p - 2) := by
      rw [← pow_succ', show p - 2 + 1 = p - 1 by omega]
    have hone : (1 : ℚ) ≤ 2 ^ (p - 2) := one_le_pow₀ one_le_two
    have hm : (m : ℚ) = 2 ^ (p - 1) := by exact_mod_cast hpower
    have hplace : max least (leading num den - (p - 1 : Nat)) = e - 1 := by
      have hlt := leading_lt (k := (p - 1 : Nat) + e) hnum hden
        (by rwa [← hscale _ _ (zpow_natCast _ _).symm, ← div_lt_iff₀ hunit])
      have hle := le_leading (k := (p - 2 : Nat) + e) hnum hden (by
        rw [← hscale _ _ (zpow_natCast _ _).symm, ← le_div_iff₀ hunit]
        linarith)
      omega
    have hhalf : (num : ℚ) / den / 2 ^ (e - 1) = 2 * (num / den / 2 ^ e) := by
      rw [zpow_sub_one₀ two_ne_zero]
      field_simp
    have hunits : units num den (e - 1) = 2 * m := by
      apply units_eq hden
      · rw [hhalf]
        push_cast
        linarith
      · rw [hhalf]
        push_cast
        linarith
      · exact .inl (by omega)
    have hcarry : 2 * m = 2 ^ p := by
      rw [hpower, ← pow_succ', show p - 1 + 1 = p by omega]
    rw [hpower]
    exact round_of_carry hnum hplace (hunits.trans hcarry) hgreatest

end BinaryFormat

end ModelBundle.Number

/-!
The decimal that stands for a binary value.  The search for it always hits, what it hits lies in the
range of the value, and its text has the digits and the places that it tells.
-/

namespace ModelBundle.Number

theorem pow_toNat_mul_zpow {a : ℚ} (ha : a ≠ 0) (k : Int) :
    a ^ (-k).toNat * a ^ k = a ^ k.toNat := by
  rw [← zpow_natCast, ← zpow_natCast, ← zpow_add₀ ha]
  congr 1
  omega

namespace RoundingRange

variable {r : RoundingRange} {place : Int} {d : Decimal}

theorem unit_eq (exponent place : Int) :
    ((tenTo place.toNat <<< (-exponent).toNat : Nat) : ℚ) * 2 ^ exponent =
      (tenTo (-place).toNat <<< exponent.toNat : Nat) * 10 ^ place := by
  rw [Nat.shiftLeft_eq, Nat.shiftLeft_eq, tenTo_eq, tenTo_eq]
  push_cast
  rw [mul_assoc, pow_toNat_mul_zpow two_ne_zero, ← pow_toNat_mul_zpow (a := 10) (by norm_num) place]
  ring

theorem tenTo_shifted_pos (n k : Nat) : 0 < tenTo n <<< k := by
  rw [Nat.shiftLeft_eq, tenTo_eq]
  positivity

theorem within_of_units (n : Nat) {unit scale : Nat} (hscale : 0 < scale)
    (hunits : (unit : ℚ) * 2 ^ r.exponent = scale * 10 ^ place) (hlow : r.low * scale ≤ n * unit)
    (hhigh : n * unit ≤ r.high * scale)
    (hinside : r.closed = true ∨ r.low * scale < n * unit ∧ n * unit < r.high * scale) :
    r.Within (n * 10 ^ place) := by
  have hpower : (0 : ℚ) < 2 ^ r.exponent := by positivity
  have hpos : (0 : ℚ) < scale := by exact_mod_cast hscale
  have hturn : (n * unit : ℚ) * 2 ^ r.exponent = scale * (n * 10 ^ place) := by
    rw [mul_assoc, hunits]
    ring
  have hmove : ∀ c : Nat, (c * scale : ℚ) * 2 ^ r.exponent = scale * (c * 2 ^ r.exponent) :=
    fun c => by ring
  have hle : ∀ a b : ℚ, a ≤ b → a * 2 ^ r.exponent ≤ b * 2 ^ r.exponent :=
    fun a b hab => mul_le_mul_of_nonneg_right hab hpower.le
  have hlt : ∀ a b : ℚ, a < b → a * 2 ^ r.exponent < b * 2 ^ r.exponent :=
    fun a b hab => mul_lt_mul_of_pos_right hab hpower
  refine ⟨?_, ?_, hinside.imp_right fun ⟨hl, hh⟩ => ⟨?_, ?_⟩⟩
  · refine le_of_mul_le_mul_left ?_ hpos
    rw [← hmove, ← hturn]
    exact hle _ _ (by exact_mod_cast hlow)
  · refine le_of_mul_le_mul_left ?_ hpos
    rw [← hmove, ← hturn]
    exact hle _ _ (by exact_mod_cast hhigh)
  · refine lt_of_mul_lt_mul_left ?_ hpos.le
    rw [← hmove, ← hturn]
    exact hlt _ _ (by exact_mod_cast hl)
  · refine lt_of_mul_lt_mul_left ?_ hpos.le
    rw [← hmove, ← hturn]
    exact hlt _ _ (by exact_mod_cast hh)

theorem within_of_pick (hlow : r.low ≤ r.middle) (hhigh : r.middle < r.high)
    (h : r.pick place = some d) :
    0 < d.digits ∧ r.Within (d.digits * 10 ^ d.exponent) := by
  have hunits := unit_eq r.exponent place
  have hunit := tenTo_shifted_pos place.toNat (-r.exponent).toNat
  have hscale := tenTo_shifted_pos (-place).toNat r.exponent.toNat
  unfold pick at h
  dsimp only at h
  generalize tenTo place.toNat <<< (-r.exponent).toNat = unit at *
  generalize tenTo (-place).toNat <<< r.exponent.toNat = scale at *
  have hfloor := Nat.div_mul_le_self (r.middle * scale) unit
  have hceiling : r.middle * scale < (r.middle * scale / unit + 1) * unit :=
    Nat.lt_mul_of_div_lt (Nat.lt_succ_self _) hunit
  generalize r.middle * scale / unit = below at *
  have hlowScale : r.low * scale ≤ r.middle * scale := Nat.mul_le_mul_right _ hlow
  have hhighScale : r.middle * scale < r.high * scale := Nat.mul_lt_mul_of_pos_right hhigh hscale
  have hfits : ∀ x y : Nat, (if r.closed = true then decide (x ≤ y) else decide (x < y)) =
      decide (x < y ∨ r.closed = true ∧ x = y) := by
    intro x y
    split <;> simp [*, Nat.le_iff_lt_or_eq]
  simp only [hfits, Bool.and_eq_true, decide_eq_true_eq] at h
  split at h
  · rename_i hbelow
    obtain rfl := Option.some.inj h
    obtain ⟨⟨hpos, hlowest⟩, -⟩ := hbelow
    refine ⟨hpos, within_of_units below hscale hunits (by omega) (by omega) ?_⟩
    exact hlowest.symm.imp And.left fun hlt => ⟨hlt, by omega⟩
  · split at h
    · rename_i hhighest
      obtain rfl := Option.some.inj h
      refine ⟨Nat.succ_pos below,
        within_of_units (below + 1) hscale hunits (by omega) (by omega) ?_⟩
      exact hhighest.symm.imp And.left fun hlt => ⟨by omega, hlt⟩
    · simp at h

theorem pick_finest (hpos : 0 < r.middle) (hlow : r.low < r.middle) :
    ∃ d, r.pick r.finest = some d := by
  have hdivides : tenTo r.finest.toNat <<< (-r.exponent).toNat ∣
      tenTo (-r.finest).toNat <<< r.exponent.toNat := by
    rw [Nat.shiftLeft_eq, Nat.shiftLeft_eq, tenTo_eq, tenTo_eq, finest]
    rcases Int.le_total 0 r.exponent with h | h
    · rw [Int.min_eq_left h, show (-r.exponent).toNat = 0 by omega]
      simp
    · rw [Int.min_eq_right h, show r.exponent.toNat = 0 by omega]
      simpa using pow_dvd_pow_of_dvd (show 2 ∣ 10 by decide) _
  have hunit := tenTo_shifted_pos r.finest.toNat (-r.exponent).toNat
  have hscale := tenTo_shifted_pos (-r.finest).toNat r.exponent.toNat
  unfold pick
  dsimp only
  generalize tenTo r.finest.toNat <<< (-r.exponent).toNat = unit at *
  generalize tenTo (-r.finest).toNat <<< r.exponent.toNat = scale at *
  have hexact : r.middle * scale / unit * unit = r.middle * scale :=
    Nat.div_mul_cancel (hdivides.mul_left _)
  have hbelow : 0 < r.middle * scale / unit := by
    have : 0 < r.middle * scale := Nat.mul_pos hpos hscale
    exact Nat.div_pos (Nat.le_of_dvd this (hdivides.mul_left _)) hunit
  have hlowScale : r.low * scale < r.middle * scale := Nat.mul_lt_mul_of_pos_right hlow hscale
  refine ⟨⟨r.middle * scale / unit, r.finest⟩, if_pos ?_⟩
  have hfits : (if r.closed then decide (r.low * scale ≤ r.middle * scale)
      else decide (r.low * scale < r.middle * scale)) = true := by
    split <;> simp only [decide_eq_true_eq] <;> omega
  rw [hexact, hfits]
  simp [hbelow, hunit]

theorem finest_le_coarsest (r : RoundingRange) : r.finest ≤ r.coarsest := by
  unfold finest coarsest
  dsimp only
  split <;> omega

/-- The shortest decimal of a range lies in it. -/
theorem within_shortest (hpos : 0 < r.middle) (hlow : r.low < r.middle)
    (hhigh : r.middle < r.high) :
    0 < r.shortest.digits ∧ r.Within (r.shortest.digits * 10 ^ r.shortest.exponent) := by
  unfold shortest
  dsimp only
  cases hfound : (List.range ((r.coarsest - r.finest).toNat + 1)).findSome?
      fun (step : Nat) => r.pick (r.coarsest - step) with
  | some d =>
    obtain ⟨step, -, hpick⟩ := List.exists_of_findSome?_eq_some hfound
    exact within_of_pick hlow.le hhigh hpick
  | none =>
    have hfinest := r.finest_le_coarsest
    obtain ⟨d, hd⟩ := pick_finest hpos hlow
    have hmiss := List.findSome?_eq_none_iff.mp hfound (r.coarsest - r.finest).toNat
      (List.mem_range.mpr (Nat.lt_succ_self _))
    have hplace : r.coarsest - ((r.coarsest - r.finest).toNat : Nat) = r.finest := by omega
    rw [hplace, hd] at hmiss
    simp at hmiss

end RoundingRange

namespace Decimal

def spread (d : Decimal) : Decimal := ⟨d.digits * tenTo d.exponent.toNat, min d.exponent 0⟩

def pointed (places : List Char) : List Char := if places = [] then [] else '.' :: places

theorem spread_eq (d : Decimal) :
    (d.spread.digits : ℚ) * 10 ^ d.spread.exponent = d.digits * 10 ^ d.exponent := by
  have hsum : d.exponent = (d.exponent.toNat : Int) + min d.exponent 0 := by omega
  rw [Decimal.spread, tenTo_eq]
  dsimp only
  push_cast
  rw [mul_assoc, ← zpow_natCast, ← zpow_add₀ (by norm_num), ← hsum]

theorem positional_eq (d : Decimal) : ∃ whole places : List Char,
    d.positional = String.ofList (whole ++ pointed places) ∧ whole ≠ [] ∧
      (∀ c ∈ whole ++ places, c.isDigit = true) ∧
      Nat.ofDigitChars 10 (whole ++ places) 0 = d.spread.digits ∧
      (places.length : Int) = -d.spread.exponent := by
  have hdigit : ∀ c ∈ Nat.toDigits 10 d.digits, c.isDigit = true := fun _ h =>
    Nat.isDigit_of_mem_toDigits (by decide) (by decide) h
  have hzeros : ∀ n, ∀ c ∈ List.replicate n '0', c.isDigit = true := fun n c h => by
    rw [List.eq_of_mem_replicate h]
    rfl
  have hne : Nat.toDigits 10 d.digits ≠ [] := Nat.toDigits_ne_nil
  unfold positional
  dsimp only
  split
  case isTrue h =>
    refine ⟨_, [], by rw [pointed, if_pos rfl, List.append_nil], ?_, ?_, ?_, ?_⟩
    · simp [hne]
    · intro c hc
      rw [List.append_nil] at hc
      exact (List.mem_append.mp hc).elim (hdigit c) (hzeros _ c)
    · rw [List.append_nil, Nat.ofDigitChars_append, Nat.ofDigitChars_ten_toDigits,
        Nat.ofDigitChars_replicate_zero, Nat.mul_comm]
      rfl
    · simp only [List.length_nil, spread]
      omega
  case isFalse h =>
    generalize hpadded : List.replicate ((-d.exponent).toNat + 1 -
      (Nat.toDigits 10 d.digits).length) '0' ++ Nat.toDigits 10 d.digits = padded
    have hlong : (-d.exponent).toNat < padded.length := by
      rw [← hpadded, List.length_append, List.length_replicate]
      omega
    have hplaces : (padded.drop (padded.length - (-d.exponent).toNat)).length =
        (-d.exponent).toNat := by
      rw [List.length_drop]
      omega
    refine ⟨padded.take (padded.length - (-d.exponent).toNat),
      padded.drop (padded.length - (-d.exponent).toNat), ?_, ?_, ?_, ?_, ?_⟩
    · rw [pointed, if_neg]
      intro hnil
      rw [hnil, List.length_nil] at hplaces
      omega
    · intro hnil
      have := congrArg List.length hnil
      rw [List.length_take, List.length_nil] at this
      omega
    · rw [List.take_append_drop, ← hpadded]
      intro c hc
      exact (List.mem_append.mp hc).elim (hzeros _ c) (hdigit c)
    · rw [List.take_append_drop, ← hpadded, Nat.ofDigitChars_append,
        Nat.ofDigitChars_replicate_zero, Nat.mul_zero, Nat.ofDigitChars_ten_toDigits]
      have hflat : d.exponent.toNat = 0 := by omega
      rw [spread, hflat]
      exact (Nat.mul_one _).symm
    · rw [hplaces, spread]
      dsimp only
      omega

end Decimal

end ModelBundle.Number
