import ModelBundle.Number
import ModelBundle.Proofs.Numbers.Rounding

/-!
Texts of single-precision numbers.  What is written is read back, so a text loses nothing but which
of the many forms of not-a-number it stands for.
-/

namespace ModelBundle.Number.Single

theorem not_word_of_digit {c : Char} (h : c.isDigit = true) (text : List Char) {word : String}
    (hword : word ∈ ["inf", "infinity", "nan"]) :
    String.ofList ((c :: text).map Char.toLower) ≠ word := by
  intro heq
  have hlist := congrArg String.toList heq
  rw [String.toList_ofList, List.map_cons] at hlist
  have hhead : c.toLower = 'i' ∨ c.toLower = 'n' := by
    simp only [List.mem_cons, List.not_mem_nil, or_false] at hword
    rcases hword with rfl | rfl | rfl
    · exact .inl (List.cons.inj hlist).1
    · exact .inl (List.cons.inj hlist).1
    · exact .inr (List.cons.inj hlist).1
  have hlow : c.toLower = c := by
    rw [Char.toLower, dif_neg]
    intro hupper
    simp only [Char.isDigit, Bool.and_eq_true, decide_eq_true_eq] at h
    have := h.2
    grind
  rw [hlow] at hhead
  rcases hhead with rfl | rfl <;> simp at h

theorem unsigned?_digits (negative : Bool) {whole places : List Char} (hne : whole ≠ [])
    (hdigits : ∀ c ∈ whole ++ places, c.isDigit = true) :
    unsigned? negative (whole ++ Decimal.pointed places) =
      some (ofDecimal negative ⟨Nat.ofDigitChars 10 (whole ++ places) 0, -places.length⟩) := by
  have hwhole : ∀ c ∈ whole, c.isDigit = true :=
    fun c h => hdigits c (List.mem_append_left _ h)
  have hplaces : ∀ c ∈ places, c.isDigit = true :=
    fun c h => hdigits c (List.mem_append_right _ h)
  obtain ⟨c, rest, rfl⟩ := List.exists_cons_of_ne_nil hne
  have hword := fun word => @not_word_of_digit c (hwhole c List.mem_cons_self)
    (rest ++ Decimal.pointed places) word
  have hrun : digitRun (places ++ []) = (places, []) := digitRun_append hplaces (by simp)
  rw [List.append_nil] at hrun
  unfold unsigned?
  rw [List.cons_append] at *
  simp only [hword "inf" (by simp), hword "infinity" (by simp), hword "nan" (by simp),
    decide_false, Bool.or_self, Bool.false_eq_true, if_false]
  rw [← List.cons_append, digitRun_append hwhole]
  · unfold Decimal.pointed
    split
    · rename_i hnone
      subst hnone
      simp [exponentPart?, numeral, Nat.ofDigitChars]
    · simp [hrun, exponentPart?, numeral, Nat.ofDigitChars]
  · unfold Decimal.pointed
    split <;> simp

theorem parse?_positional (negative : Bool) (d : Decimal) :
    parse? ((if negative then "-" else "") ++ d.positional) =
      some (ofDecimal negative d.spread) := by
  obtain ⟨whole, places, htext, hne, hdigits, hvalue, hplaces⟩ := d.positional_eq
  have hread := fun negative => unsigned?_digits negative hne hdigits
  rw [hvalue, hplaces, Int.neg_neg] at hread
  rw [parse?, htext, String.toList_append, String.toList_ofList]
  cases negative with
  | true => exact hread true
  | false =>
    obtain ⟨c, rest, rfl⟩ := List.exists_cons_of_ne_nil hne
    have hdigit := hdigits c (by simp)
    rw [List.cons_append] at hread
    simp only [Bool.false_eq_true, if_false, String.toList_empty, List.nil_append, List.cons_append]
    split
    · rename_i heq
      cases heq
      simp at hdigit
    · rename_i heq
      cases heq
      simp at hdigit
    · exact hread false

/-! Finite singles. -/

theorem holds_of_magnitude? {x : Single} {value : BinaryValue} (h : x.magnitude? = some value) :
    BinaryFormat.single.Holds value := by
  have hfraction := x.fraction_lt
  unfold magnitude? at h
  unfold hiddenBit at *
  split at h
  · simp at h
  · split at h
    · obtain rfl := Option.some.inj h
      exact ⟨by simp only [BinaryFormat.single]; omega, Int.le_refl _,
        show (-149 : Int) ≤ 104 by decide, .inl rfl⟩
    · rename_i hfinite hnormal
      obtain rfl := Option.some.inj h
      have hfield : x.exponentField < 256 := Nat.mod_lt _ (by decide)
      refine ⟨?_, ?_, ?_, .inr ?_⟩ <;> simp only [BinaryFormat.single] <;> omega

theorem toDigits_bounds {n : Nat} (hpos : 0 < n) :
    (10 : ℚ) ^ (((Nat.toDigits 10 n).length : Int) - 1) ≤ n ∧
      (n : ℚ) < 10 ^ ((Nat.toDigits 10 n).length : Int) := by
  have hlength : 0 < (Nat.toDigits 10 n).length := Nat.length_toDigits_pos
  have hless : n < 10 ^ (Nat.toDigits 10 n).length :=
    (Nat.length_toDigits_le_iff (by decide) hlength).mp (Nat.le_refl _)
  have hmore : 10 ^ ((Nat.toDigits 10 n).length - 1) ≤ n := by
    rcases Nat.eq_or_lt_of_le hlength with hone | hmany
    · rw [← hone]
      exact hpos
    · rw [← Nat.not_lt, ← Nat.length_toDigits_le_iff (by decide) (by omega)]
      omega
  refine ⟨?_, by exact_mod_cast hless⟩
  rw [show ((Nat.toDigits 10 n).length : Int) - 1 = ((Nat.toDigits 10 n).length - 1 : Nat) by omega]
  exact_mod_cast hmore

theorem bounds_of_within {value : BinaryValue} (holds : BinaryFormat.single.Holds value)
    (hpos : 0 < value.significand) {x : ℚ} (within : (BinaryFormat.single.range value).Within x) :
    (10 : ℚ) ^ (-60 : Int) < x ∧ x < 10 ^ (60 : Int) := by
  obtain ⟨hnarrow, hleast, hgreatest, -⟩ := holds
  obtain ⟨hlow, hhigh, -⟩ := within
  have hlowest : 2 ≤ (BinaryFormat.single.range value).low := by
    simp only [BinaryFormat.range]
    split <;> omega
  have hhighest : (BinaryFormat.single.range value).high ≤ 2 ^ 26 := by
    simp only [BinaryFormat.range, BinaryFormat.single] at hnarrow ⊢
    omega
  have hexponent : (BinaryFormat.single.range value).exponent = value.exponent - 2 := rfl
  simp only [BinaryFormat.single] at hleast hgreatest
  constructor
  · calc (10 : ℚ) ^ (-60 : Int) < 2 * 2 ^ (-151 : Int) := by norm_num
      _ ≤ (BinaryFormat.single.range value).low *
          2 ^ (BinaryFormat.single.range value).exponent := by
        gcongr
        · exact_mod_cast hlowest
        · norm_num
        · omega
      _ ≤ x := hlow
  · calc x ≤ (BinaryFormat.single.range value).high *
          2 ^ (BinaryFormat.single.range value).exponent := hhigh
      _ ≤ 2 ^ 26 * 2 ^ (102 : Int) := by
        gcongr
        · exact_mod_cast hhighest
        · norm_num
        · omega
      _ < 10 ^ (60 : Int) := by norm_num

theorem ofDecimal_of_within {value : BinaryValue} (holds : BinaryFormat.single.Holds value)
    (hpos : 0 < value.significand) {d : Decimal} (hdigits : 0 < d.digits)
    (within : (BinaryFormat.single.range value).Within (d.digits * 10 ^ d.exponent))
    (negative : Bool) : ofDecimal negative d = ofBinary negative (some value) := by
  have hratio : ((d.digits * tenTo d.exponent.toNat : Nat) : ℚ) /
      (tenTo (-d.exponent).toNat : Nat) = d.digits * 10 ^ d.exponent := by
    rw [tenTo_eq, tenTo_eq, div_eq_iff (by positivity)]
    push_cast
    rw [← pow_toNat_mul_zpow (a := 10) (by norm_num) d.exponent]
    ring
  have hten : ∀ n, 0 < tenTo n := fun n => Nat.pow_pos (by decide)
  have hround := BinaryFormat.round_of_within (by decide) holds hpos
    (Nat.mul_pos hdigits (hten d.exponent.toNat)) (hten (-d.exponent).toNat)
    (by rwa [hratio])
  obtain ⟨hmore, hless⟩ := toDigits_bounds hdigits
  obtain ⟨hsmall, hlarge⟩ := bounds_of_within holds hpos within
  have hpower : (0 : ℚ) < 10 ^ d.exponent := by positivity
  have hplaces : -60 < d.exponent + (Nat.toDigits 10 d.digits).length := by
    apply (zpow_lt_zpow_iff_right₀ (show (1 : ℚ) < 10 by norm_num)).mp
    rw [Int.add_comm, zpow_add₀ (by norm_num)]
    exact hsmall.trans (mul_lt_mul_of_pos_right hless hpower)
  have hleading : (Nat.toDigits 10 d.digits).length - 1 + d.exponent < 60 := by
    apply (zpow_lt_zpow_iff_right₀ (show (1 : ℚ) < 10 by norm_num)).mp
    rw [zpow_add₀ (by norm_num)]
    exact (mul_le_mul_of_nonneg_right hmore hpower.le).trans_lt hlarge
  unfold ofDecimal
  dsimp only
  rw [if_neg, if_neg, ofRatio, hround]
  · omega
  · simp only [Bool.or_eq_true, decide_eq_true_eq]
    omega

/-- Not a number; there are many forms of that, and one of them stands for all. -/
def isNan (x : Single) : Bool := x.exponentField = 255 && x.fraction ≠ 0

def canonical (x : Single) : Single := if x.isNan then nan else x

/-- Equal numbers, or neither of them is one. -/
def Same (x y : Single) : Prop := x = y ∨ (x.isNan ∧ y.isNan)

theorem canonical_eq_canonical_iff {x y : Single} : x.canonical = y.canonical ↔ x.Same y := by
  have hnan : nan.isNan = true := by decide
  unfold canonical Same
  by_cases hx : x.isNan = true <;> by_cases hy : y.isNan = true
  · simp [hx, hy]
  · rw [if_pos hx, if_neg hy]
    refine ⟨fun h => absurd (h ▸ hnan) hy, ?_⟩
    rintro (rfl | ⟨-, h⟩)
    · exact absurd hx hy
    · exact absurd h hy
  · rw [if_neg hx, if_pos hy]
    refine ⟨fun h => absurd (h ▸ hnan) hx, ?_⟩
    rintro (rfl | ⟨h, -⟩)
    · exact absurd hy hx
    · exact absurd h hx
  · simp [hx, hy]

/-- What is written is read back, up to the form of what is not a number. -/
theorem parse?_text (x : Single) : parse? x.text = some x.canonical := by
  unfold text canonical isNan
  dsimp only
  cases hvalue : x.magnitude? with
  | none =>
    have hfield : x.exponentField = 255 := by
      unfold magnitude? at hvalue
      by_contra hne
      rw [if_neg hne] at hvalue
      split at hvalue <;> simp at hvalue
    dsimp only
    by_cases hfraction : x.fraction = 0
    · have hinfinity := infinity_of_fields hfield hfraction
      simp only [hfraction, if_true, ne_eq, not_true_eq_false, decide_false, Bool.and_false,
        Bool.false_eq_true, if_false]
      refine Eq.trans ?_ (congrArg some hinfinity)
      cases x.isNegative <;> rfl
    · simp only [hfraction, hfield, if_false, ne_eq, not_false_eq_true, decide_true, Bool.and_self,
        if_true]
      decide
  | some value =>
    have hself := ofBinary_magnitude? hvalue
    have hfinite : x.exponentField ≠ 255 := by
      intro heq
      rw [magnitude?, if_pos heq] at hvalue
      simp at hvalue
    simp only [hfinite, decide_false, Bool.false_and, Bool.false_eq_true, if_false]
    split
    · rename_i hzero
      have hplain : ofBinary x.isNegative (some value) = ofBinary x.isNegative (some ⟨0, 0⟩) := by
        simp only [ofBinary, hzero, show (0 : Nat) < hiddenBit by decide, if_true]
      refine Eq.trans ?_ (congrArg some (hplain.symm.trans hself))
      cases x.isNegative <;> rfl
    · rename_i hpos
      have holds := holds_of_magnitude? hvalue
      have hpos : 0 < value.significand := Nat.pos_of_ne_zero hpos
      obtain ⟨hlow, hmiddle, hhigh⟩ := BinaryFormat.range_ends .single hpos
      obtain ⟨hdigits, within⟩ := RoundingRange.within_shortest hmiddle hlow hhigh
      have hspread : 0 < (BinaryFormat.single.range value).shortest.spread.digits :=
        Nat.mul_pos hdigits (Nat.pow_pos (by decide))
      have hread := ofDecimal_of_within holds hpos hspread (by rwa [Decimal.spread_eq]) x.isNegative
      rw [parse?_positional]
      exact congrArg some (hread.trans hself)

theorem text_canonical (x : Single) : x.canonical.text = x.text := by
  unfold canonical
  split
  · rename_i h
    simp only [isNan, Bool.and_eq_true, decide_eq_true_eq] at h
    have hvalue : x.magnitude? = none := by rw [magnitude?, if_pos h.1]
    rw [show nan.text = "NaN" by decide, text]
    simp only [hvalue, if_neg h.2]
  · rfl

theorem space_not_mem_text (x : Single) : ' ' ∉ x.text.toList := by
  unfold text
  dsimp only
  have hsign : ' ' ∉ (if x.isNegative = true then "-" else "").toList := by
    split <;> decide
  have happend : ∀ word : String, ' ' ∉ word.toList →
      ' ' ∉ ((if x.isNegative = true then "-" else "") ++ word).toList := by
    intro word hword hmem
    rw [String.toList_append] at hmem
    exact (List.mem_append.mp hmem).elim hsign hword
  split
  · split
    · exact happend _ (by decide)
    · decide
  · split
    · exact happend _ (by decide)
    · apply happend
      obtain ⟨whole, places, htext, -, hdigits, -⟩ :=
        (BinaryFormat.single.range ‹_›).shortest.positional_eq
      rw [htext, String.toList_ofList, Decimal.pointed]
      have hplain : ∀ digits : List Char, (∀ c ∈ digits, c ∈ whole ++ places) → ' ' ∉ digits :=
        fun digits hsub hmem => absurd (hdigits ' ' (hsub ' ' hmem)) (by decide)
      have hplaces : ' ' ∉ places := hplain places fun _ => List.mem_append_right _
      rw [List.mem_append, not_or]
      refine ⟨hplain whole fun _ => List.mem_append_left _, ?_⟩
      split
      · exact List.not_mem_nil
      · rw [List.mem_cons, not_or]
        exact ⟨by decide, hplaces⟩

end ModelBundle.Number.Single
