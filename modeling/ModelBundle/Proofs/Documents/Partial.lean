import ModelBundle.Proofs.Documents.Meaning
import ModelBundle.Proofs.Documents.Records
import ModelBundle.Proofs.Numbers.Rounding
import ModelBundle.Settings.File

/-!
Settings that a text gives in part, decimals included.  A decimal of few digits and with a small
power of ten is read as the nearest double: its digits and the power are doubles themselves, so
that only one step rounds.
-/

namespace ModelBundle.Document

open Number (BinaryValue BinaryFormat)

/-- A number with a point or an exponent: its digits, and the power of ten they are times. -/
structure Numeral.IsDecimal (numeral : Numeral) (digits : Nat) (exponent : Int) : Prop where
  marked : numeral.fraction ≠ none ∨ numeral.exponent ≠ none
  digits : ofDigits 0 (numeral.whole ++ numeral.fraction.getD []) = digits
  exponent : exponent =
    (match numeral.exponent with
      | none => 0
      | some (false, digits) => (ofDigits 0 digits : Int)
      | some (true, digits) => -(ofDigits 0 digits : Int)) - (numeral.fraction.getD []).length

def digitLimit : Nat := 2 ^ 53

def exactPower : Nat := 22

theorem den_pos (value : BinaryValue) : 0 < value.den := by
  rw [BinaryValue.den, Nat.one_shiftLeft]
  exact Nat.two_pow_pos _

theorem exists_round_natural {n : Nat} (h : n < digitLimit) :
    ∃ value, BinaryFormat.double.round n 1 = some value ∧ value.num = n * value.den := by
  rcases Nat.eq_zero_or_pos n with rfl | hpos
  · exact ⟨⟨0, -1074⟩, rfl, by simp [BinaryValue.num]⟩
  · have hlog : n.log2 < 53 := (Nat.log2_lt hpos.ne').mpr h
    have hone : Nat.log2 1 = 0 := rfl
    have hleading : BinaryFormat.leading n 1 = n.log2 := by
      have hlow := Nat.log2_self_le hpos.ne'
      simp only [BinaryFormat.leading, hone]
      rw [if_pos (by simpa [Nat.one_shiftLeft] using hlow)]
      simp
    obtain ⟨k, hk⟩ : ∃ k : Nat, n.log2 + k = 52 := ⟨52 - n.log2, by omega⟩
    have hunits : BinaryFormat.units n 1 (-k) = n <<< k := by
      simp [BinaryFormat.units, Number.roundDiv, Nat.mod_one]
    have hwidth : n <<< k < 2 ^ 53 := by
      have hhigh : n < 2 ^ (n.log2 + 1) := Nat.lt_log2_self
      calc n <<< k = n * 2 ^ k := Nat.shiftLeft_eq n k
        _ < 2 ^ (n.log2 + 1) * 2 ^ k := Nat.mul_lt_mul_of_pos_right hhigh (Nat.two_pow_pos k)
        _ = 2 ^ 53 := by rw [← Nat.pow_add, Nat.add_right_comm, hk]
    have hplace : max BinaryFormat.double.least
        (BinaryFormat.leading n 1 - (BinaryFormat.double.precision - 1 : Nat)) = -k := by
      rw [hleading]
      simp only [BinaryFormat.double]
      omega
    have hround : BinaryFormat.double.round n 1 = some ⟨n <<< k, -k⟩ :=
      BinaryFormat.round_of_units hpos hplace hunits hwidth
        (by simp only [BinaryFormat.double]; omega)
    refine ⟨_, hround, ?_⟩
    simp [BinaryValue.num, BinaryValue.den, Nat.shiftLeft_eq]

namespace Numeral

theorem num_power : ∀ e ≤ exactPower, (power e).num = 10 ^ e * (power e).den := by
  decide +kernel

theorem takeFraction_of_lt {start : Scaled} {digits : List Nat}
    (h : ofDigits start.significand digits < wordLimit) :
    takeFraction start digits =
      ⟨ofDigits start.significand digits, start.exponent - digits.length⟩ := by
  induction digits generalizing start with
  | nil => simp [takeFraction]
  | cons digit digits ih =>
    rw [ofDigits_cons] at h
    have hfits : start.significand * 10 + digit < wordLimit := by
      have := le_ofDigits (10 * start.significand + digit) digits
      omega
    rw [takeFraction, if_pos hfits, ih (by rwa [Nat.mul_comm])]
    simp only [ofDigits_cons, Nat.mul_comm, List.length_cons, Scaled.mk.injEq, true_and]
    omega

theorem IsDecimal.scaled_eq {numeral : Numeral} {digits : Nat} {exponent : Int}
    (h : numeral.IsDecimal digits exponent) (hdigits : digits < wordLimit) :
    numeral.scaled = ⟨digits, exponent⟩ := by
  obtain ⟨-, rfl, rfl⟩ := h
  rw [ofDigits_append] at hdigits ⊢
  have hwhole : ofDigits 0 numeral.whole < wordLimit :=
    Nat.lt_of_le_of_lt (le_ofDigits _ _) hdigits
  have hexponent : exponentValue numeral.exponent =
      match numeral.exponent with
      | none => 0
      | some (false, digits) => (ofDigits 0 digits : Int)
      | some (true, digits) => -(ofDigits 0 digits : Int) := by
    rcases numeral.exponent with _ | ⟨_ | _, digits⟩ <;> rfl
  rw [scaled, takeWhole_of_lt hwhole, takeFraction_of_lt hdigits, hexponent]
  simp only [Scaled.mk.injEq, true_and]
  omega

theorem pos_of_within {d : BinaryValue} {digits : Nat} {exponent : Int} (hpos : 0 < d.significand)
    (within : (BinaryFormat.double.range d).Within (digits * 10 ^ exponent)) : 0 < digits := by
  have hlow : 0 < (BinaryFormat.double.range d).low := by
    simp only [BinaryFormat.range]
    split <;> omega
  rcases Nat.eq_zero_or_pos digits with rfl | h
  · have := within.low
    rw [Nat.cast_zero, zero_mul] at this
    have : (0 : ℚ) <
        (BinaryFormat.double.range d).low * 2 ^ (BinaryFormat.double.range d).exponent := by
      positivity
    linarith
  · exact h

theorem scale_eq {value d : BinaryValue} {digits : Nat} {exponent : Int}
    (hvalue : value.num = digits * value.den) (hexponent : exponent.natAbs ≤ exactPower)
    (holds : BinaryFormat.double.Holds d) (hpos : 0 < d.significand)
    (within : (BinaryFormat.double.range d).Within (digits * 10 ^ exponent)) :
    scale value exponent = some d := by
  have hdigits : 0 < digits := pos_of_within hpos within
  have hpower := num_power exponent.natAbs hexponent
  have hden := den_pos value
  have hpowerDen := den_pos (power exponent.natAbs)
  have hsmall : exponent.natAbs ≤ greatestPower := Nat.le_trans hexponent (by decide)
  have hnum : 0 < value.num := by
    rw [hvalue]
    positivity
  have hpowerNum : 0 < (power exponent.natAbs).num := by
    rw [hpower]
    positivity
  have hdenCast : (value.den : ℚ) ≠ 0 := by exact_mod_cast hden.ne'
  have hpowerCast : ((power exponent.natAbs).den : ℚ) ≠ 0 := by exact_mod_cast hpowerDen.ne'
  unfold scale
  by_cases hsign : 0 ≤ exponent
  · have hratio : ((value.num * (power exponent.natAbs).num : Nat) : ℚ) /
        (value.den * (power exponent.natAbs).den : Nat) = digits * 10 ^ exponent := by
      have hten : (10 : ℚ) ^ exponent = 10 ^ exponent.natAbs := by
        rw [← zpow_natCast, Int.natAbs_of_nonneg hsign]
      rw [hvalue, hpower, hten]
      push_cast
      field_simp
    simp only [hsign, hsmall, if_true, BinaryValue.mul]
    exact BinaryFormat.round_of_within (by decide) holds hpos (by positivity) (by positivity)
      (hratio ▸ within)
  · have hratio : ((value.num * (power exponent.natAbs).den : Nat) : ℚ) /
        (value.den * (power exponent.natAbs).num : Nat) = digits * 10 ^ exponent := by
      have hten : (10 : ℚ) ^ exponent = (10 ^ exponent.natAbs)⁻¹ := by
        rw [← zpow_natCast, ← zpow_neg, Int.ofNat_natAbs_of_nonpos (by omega), Int.neg_neg]
      rw [hvalue, hpower, hten]
      push_cast
      field_simp
    have hsteps : (exponent.natAbs - 1) / greatestPower = 0 :=
      Nat.div_eq_of_lt (Nat.lt_of_lt_of_le (by omega) (show exactPower + 1 ≤ _ by decide))
    simp only [hsign, if_false, hsteps, scaleDown, Option.bind_some, Nat.zero_mul, Nat.sub_zero,
      BinaryValue.div]
    exact BinaryFormat.round_of_within (by decide) holds hpos (by positivity) (by positivity)
      (hratio ▸ within)

theorem quantity_of_isDecimal {numeral : Numeral} {digits : Nat} {exponent : Int}
    (h : numeral.IsDecimal digits exponent) (hdigits : digits < digitLimit) :
    numeral.quantity = real numeral.negative ⟨digits, exponent⟩ := by
  have hscaled := h.scaled_eq (Nat.lt_trans hdigits (by decide))
  unfold quantity
  rw [hscaled]
  refine if_pos ?_
  rcases h.marked with hfraction | hexponent
  · simp [Option.isSome_iff_ne_none.mpr hfraction]
  · simp [Option.isSome_iff_ne_none.mpr hexponent]

theorem scale_zero {exponent : Int} (h : exponent.natAbs ≤ exactPower) :
    scale ⟨0, -1074⟩ exponent = some ⟨0, -1074⟩ := by
  have hsmall : exponent.natAbs ≤ greatestPower := Nat.le_trans h (by decide)
  have hsteps : (exponent.natAbs - 1) / greatestPower = 0 :=
    Nat.div_eq_of_lt (Nat.lt_of_lt_of_le (by omega) (show exactPower + 1 ≤ _ by decide))
  have hnum : BinaryValue.num ⟨0, -1074⟩ = 0 := by simp [BinaryValue.num]
  unfold scale
  by_cases hsign : 0 ≤ exponent
  · simp only [hsign, hsmall, if_true, BinaryValue.mul, hnum, Nat.zero_mul, BinaryFormat.round]
    rfl
  · simp only [hsign, if_false, hsteps, scaleDown, Option.bind_some, BinaryValue.div, hnum,
      Nat.zero_mul, BinaryFormat.round]
    rfl

/-- How a decimal is read that doubles are exact for. -/
structure Exact : Prop where
  /-- As the double in the range of which it lies. -/
  nearest : ∀ {numeral : Numeral} {digits : Nat} {exponent : Int} {d : BinaryValue},
    numeral.IsDecimal digits exponent → digits < digitLimit → exponent.natAbs ≤ exactPower →
    BinaryFormat.double.Holds d → 0 < d.significand →
    (BinaryFormat.double.range d).Within (digits * 10 ^ exponent) →
    numeral.quantity = .ok (.real numeral.negative d)
  zero : ∀ {numeral : Numeral} {exponent : Int}, numeral.IsDecimal 0 exponent →
    exponent.natAbs ≤ exactPower →
    ∃ d, d.significand = 0 ∧ numeral.quantity = .ok (.real numeral.negative d)

theorem exact : Exact where
  nearest {numeral digits exponent d} h hdigits hexponent holds hpos within := by
    obtain ⟨value, hround, hvalue⟩ := exists_round_natural hdigits
    rw [quantity_of_isDecimal h hdigits, real, hround, Option.bind_some,
      scale_eq hvalue hexponent holds hpos within]
  zero {numeral exponent} h hexponent := by
    have hround : BinaryFormat.double.round 0 1 = some ⟨0, -1074⟩ := rfl
    refine ⟨⟨0, -1074⟩, rfl, ?_⟩
    rw [quantity_of_isDecimal h (by decide), real, hround, Option.bind_some, scale_zero hexponent]

end Numeral

end ModelBundle.Document

/-!
Settings that a text gives in part.  Every field is what is given under its name, or else its
default, and nothing but that counts.
-/

namespace ModelBundle

open Document

namespace LoadSettings

def meanings : List (MeaningOf LoadSettings) :=
  [meaning "model_path" IsOptionalText fun settings modelPath => { settings with modelPath },
    meaning "force_heap" IsBool fun settings forceCopy => { settings with forceCopy },
    meaning "use_mmap" IsBool fun settings useMapping => { settings with useMapping },
    meaning "mmap_ceiling" IsWord64 fun settings ceiling => { settings with ceiling },
    meaning "invalid_magic" (fun document policy => Names document policy.name)
      fun settings policy => { settings with policy }]

theorem policy_eq_ok_iff {document : Document} {policy : MagicPolicy} :
    choice MagicPolicy.ofName? document = .ok policy ↔ document.Names policy.name := by
  have hlookup :
      ∀ {name : String}, MagicPolicy.ofName? name = some policy ↔ name = policy.name := by
    intro name
    unfold MagicPolicy.ofName?
    split_ifs with habort hwarn <;> cases policy <;> simp_all [MagicPolicy.name]
  simp only [choice_eq_ok_iff, hlookup, exists_eq_right]

theorem faithful : Faithful fields meanings := by
  refine .of_means ?_ (by decide) ?_
  · unfold fields meanings
    repeat' first
      | exact List.Forall₂.nil
      | refine List.Forall₂.cons (means_field fun _ _ => ?_) ?_
    · exact optionalText_eq_ok_iff
    · exact asBool_eq_ok_iff
    · exact asBool_eq_ok_iff
    · exact word64_eq_ok_iff
    · exact policy_eq_ok_iff
  · unfold meanings
    repeat' first
      | exact commutes_meaning fun _ _ _ => rfl
      | exact List.forall_mem_nil _
      | refine List.forall_mem_cons.mpr ⟨?_, ?_⟩
      | exact List.Pairwise.nil
      | refine List.Pairwise.cons ?_ ?_

end LoadSettings

namespace EngineSettings

def meanings : List (MeaningOf EngineSettings) :=
  [meaning "ctx_size" IsWord32 fun settings contextSize => { settings with contextSize },
    meaning "n_gpu_layers" IsInt32 fun settings gpuLayers => { settings with gpuLayers },
    meaning "n_predict" IsInt32 fun settings predictions => { settings with predictions },
    meaning "seed" IsWord32 fun settings seed => { settings with seed },
    meaning "n_batch" IsWord32 fun settings batchSize => { settings with batchSize },
    meaning "grp_attn_n" IsWord32 fun settings groupFactor => { settings with groupFactor },
    meaning "grp_attn_w" IsWord32 fun settings groupWidth => { settings with groupWidth },
    meaning "rope_freq_base" IsSingle fun settings ropeBase => { settings with ropeBase },
    meaning "rope_freq_scale" IsSingle fun settings ropeScale => { settings with ropeScale },
    meaning "main_gpu" IsWord32 fun settings mainGpu => { settings with mainGpu },
    meaning "temperature" IsSingle fun settings temperature => { settings with temperature },
    meaning "top_k" IsWord32 fun settings topK => { settings with topK },
    meaning "top_p" IsSingle fun settings topP => { settings with topP },
    meaning "min_p" IsSingle fun settings minP => { settings with minP },
    meaning "log_disable" IsBool fun settings logDisabled => { settings with logDisabled }]

theorem faithful : Faithful fields meanings := by
  refine .of_means ?_ (by decide) ?_
  · unfold fields meanings
    repeat' first
      | exact List.Forall₂.nil
      | refine List.Forall₂.cons (means_field fun _ _ => ?_) ?_
    all_goals
      first
        | exact word32_eq_ok_iff
        | exact int32_eq_ok_iff
        | exact single_eq_ok_iff
        | exact asBool_eq_ok_iff
  · unfold meanings
    repeat' first
      | exact commutes_meaning fun _ _ _ => rfl
      | exact List.forall_mem_nil _
      | refine List.forall_mem_cons.mpr ⟨?_, ?_⟩
      | exact List.Pairwise.nil
      | refine List.Pairwise.cons ?_ ?_

end EngineSettings

end ModelBundle
