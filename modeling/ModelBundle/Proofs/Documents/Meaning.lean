import ModelBundle.Proofs.Documents.Writing
import ModelBundle.Proofs.Steps

/-!
What documents say, told by their digits and characters, and that a value of some kind is read from
the documents that say it and from no others.
-/

namespace ModelBundle.Document

/-! Texts. -/

/-- A character beyond the basic plane may be written as two units, ten of its bits in each. -/
inductive Spells : List Piece → List Char → Prop
  | nil : Spells [] []
  | char (c : Char) {pieces : List Piece} {text : List Char} (h : Spells pieces text) :
    Spells (.char c :: pieces) (c :: text)
  | unit {code : Nat} {pieces : List Piece} {text : List Char}
    (hcode : code < 0xd800 ∨ 0xe000 ≤ code) (h : Spells pieces text) :
    Spells (.unit code :: pieces) (Char.ofNat code :: text)
  | pair {lead trail : Nat} {pieces : List Piece} {text : List Char} (hlead : lead < 0x400)
    (htrail : trail < 0x400) (h : Spells pieces text) :
    Spells (.unit (0xd800 + lead) :: .unit (0xdc00 + trail) :: pieces)
      (Char.ofNat (0x10000 + lead * 0x400 + trail) :: text)

theorem spell_eq_ok_iff {flaw : Option Flaw} {pieces : List Piece} {text : List Char} :
    spell flaw pieces = .ok text ↔ flaw = none ∧ Spells pieces text := by
  constructor
  · intro h
    fun_induction spell flaw pieces generalizing text with
    | case1 hflaw =>
      cases h
      exact ⟨hflaw, .nil⟩
    | case3 c rest ih =>
      obtain ⟨found, hfound, rfl⟩ := map_eq_ok_iff.mp h
      exact ⟨(ih hfound).1, .char c (ih hfound).2⟩
    | case4 code rest hcode ih =>
      obtain ⟨found, hfound, rfl⟩ := map_eq_ok_iff.mp h
      exact ⟨(ih hfound).1, .unit (by simpa using hcode) (ih hfound).2⟩
    | case7 code hcode hlead trail rest htrail whole =>
      rename_i ih
      obtain ⟨found, hfound, rfl⟩ := map_eq_ok_iff.mp h
      simp only [Bool.or_eq_true, Bool.and_eq_true, decide_eq_true_eq] at hcode htrail
      obtain ⟨lead, rfl⟩ := Nat.exists_eq_add_of_le (show 0xd800 ≤ code by omega)
      obtain ⟨trail, rfl⟩ := Nat.exists_eq_add_of_le htrail.1
      have hwhole : whole = 0x10000 + lead * 0x400 + trail := by
        simp only [whole, Nat.add_sub_cancel_left]
      rw [hwhole]
      exact ⟨(ih hfound).1, .pair (by omega) (by omega) (ih hfound).2⟩
    | _ => cases h
  · rintro ⟨rfl, h⟩
    induction h with
    | nil => rfl
    | char c _ ih =>
      rw [spell, ih]
      rfl
    | unit hcode _ ih =>
      rw [spell.eq_def]
      dsimp only
      rw [if_pos (by simpa using hcode), ih]
      rfl
    | @pair lead trail _ _ hlead htrail _ ih =>
      have hfirst : ¬ (0xd800 + lead < 0xd800 || 0xe000 ≤ 0xd800 + lead) := by simp; omega
      have hsecond : 0xdc00 ≤ 0xdc00 + trail && 0xdc00 + trail < 0xe000 := by simp; omega
      rw [spell, if_neg hfirst, if_neg (by omega), if_pos hsecond, ih,
        Nat.add_sub_cancel_left, Nat.add_sub_cancel_left]
      rfl

structure Quoted.Spells (quoted : Quoted) (text : String) : Prop where
  sound : quoted.flaw = none
  spells : Document.Spells quoted.pieces text.toList

theorem Quoted.text_eq_ok_iff {quoted : Quoted} {text : String} :
    quoted.text = .ok text ↔ quoted.Spells text := by
  rw [Quoted.text, map_eq_ok_iff]
  constructor
  · rintro ⟨found, hfound, rfl⟩
    rw [spell_eq_ok_iff] at hfound
    exact ⟨hfound.1, by rw [String.toList_ofList]; exact hfound.2⟩
  · intro h
    exact ⟨text.toList, spell_eq_ok_iff.mpr ⟨h.sound, h.spells⟩, String.ofList_toList⟩

theorem Quoted.Spells.unique {quoted : Quoted} {text other : String} (h : quoted.Spells text)
    (h' : quoted.Spells other) : text = other :=
  Except.ok.inj ((text_eq_ok_iff.mpr h).symm.trans (text_eq_ok_iff.mpr h'))

/-! Whole numbers. -/

/-- The number with these digits in front of which another one stands. -/
def ofDigits (before : Nat) (digits : List Nat) : Nat :=
  digits.foldl (fun value digit => 10 * value + digit) before

@[simp] theorem ofDigits_nil (before : Nat) : ofDigits before [] = before := rfl

@[simp] theorem ofDigits_cons (before digit : Nat) (digits : List Nat) :
    ofDigits before (digit :: digits) = ofDigits (10 * before + digit) digits := rfl

theorem ofDigits_append (before : Nat) (digits more : List Nat) :
    ofDigits before (digits ++ more) = ofDigits (ofDigits before digits) more :=
  List.foldl_append

theorem le_ofDigits (before : Nat) (digits : List Nat) : before ≤ ofDigits before digits := by
  induction digits generalizing before with
  | nil => exact Nat.le_refl before
  | cons digit digits ih => exact Nat.le_trans (by omega) (ih (10 * before + digit))

namespace Numeral

theorem takeWhole_of_lt {before : Nat} {digits : List Nat}
    (h : ofDigits before digits < wordLimit) :
    takeWhole before digits = ⟨ofDigits before digits, 0⟩ := by
  induction digits generalizing before with
  | nil => rfl
  | cons digit digits ih =>
    rw [ofDigits_cons] at h
    have hfits : before * 10 + digit < wordLimit := by
      have := le_ofDigits (10 * before + digit) digits
      omega
    rw [takeWhole, if_pos hfits, ofDigits_cons, Nat.mul_comm before, ih h]

theorem lt_of_takeWhole {before : Nat} {digits : List Nat} (hbefore : before < wordLimit)
    (h : (takeWhole before digits).exponent = 0) : ofDigits before digits < wordLimit := by
  induction digits generalizing before with
  | nil => exact hbefore
  | cons digit digits ih =>
    rw [takeWhole] at h
    split at h
    · rename_i hfits
      rw [ofDigits_cons, Nat.mul_comm 10]
      exact ih hfits h
    · simp only [List.length_cons] at h
      omega

structure IsWhole (numeral : Numeral) (negative : Bool) (n : Nat) : Prop where
  sign : numeral.negative = negative
  pointless : numeral.fraction = none
  unscaled : numeral.exponent = none
  digits : ofDigits 0 numeral.whole = n

theorem IsWhole.scaled_eq {numeral : Numeral} {negative : Bool} {n : Nat}
    (h : numeral.IsWhole negative n) (hn : n < wordLimit) : numeral.scaled = ⟨n, 0⟩ := by
  obtain ⟨rfl, hpointless, hunscaled, rfl⟩ := h
  simp [scaled, hpointless, hunscaled, takeWhole_of_lt hn, takeFraction, exponentValue]

/-- What is not a double in a document is a whole number that fits a word. -/
theorem isWhole_of_scaled {numeral : Numeral}
    (h : ¬ (numeral.fraction.isSome || numeral.exponent.isSome || numeral.scaled.exponent ≠ 0)) :
    numeral.IsWhole numeral.negative numeral.scaled.significand ∧
      numeral.scaled.significand < wordLimit := by
  simp only [Bool.or_eq_true, Option.isSome_iff_ne_none, not_or, decide_eq_true_eq, not_not] at h
  obtain ⟨⟨hpointless, hunscaled⟩, hexponent⟩ := h
  have hwhole : (takeWhole 0 numeral.whole).exponent = 0 := by
    simpa [scaled, hpointless, hunscaled, takeFraction, exponentValue] using hexponent
  have hlt := lt_of_takeWhole (by decide) hwhole
  have hscaled : numeral.scaled = ⟨ofDigits 0 numeral.whole, 0⟩ :=
    IsWhole.scaled_eq ⟨rfl, hpointless, hunscaled, rfl⟩ hlt
  rw [hscaled]
  exact ⟨⟨rfl, hpointless, hunscaled, rfl⟩, hlt⟩

theorem exists_real_of_real {negative : Bool} {s : Scaled} {quantity : Quantity}
    (h : real negative s = .ok quantity) : ∃ value, quantity = .real negative value := by
  unfold real at h
  split at h
  · exact ⟨_, (Except.ok.inj h).symm⟩
  · cases h

theorem quantity_cases (numeral : Numeral) :
    (∃ n : UInt64, numeral.IsWhole false n.toNat ∧ numeral.quantity = .ok (.unsigned n)) ∨
    (∃ n, (numeral.IsWhole true n ∧ 0 < n ∧ n ≤ Numeral.negativeLimit) ∧
      numeral.quantity = .ok (.negative n)) ∨
    ∃ negative, numeral.quantity = real negative numeral.scaled := by
  unfold quantity
  dsimp only
  by_cases hreal : numeral.fraction.isSome || numeral.exponent.isSome ||
      numeral.scaled.exponent ≠ 0
  · exact .inr (.inr ⟨numeral.negative, if_pos hreal⟩)
  · obtain ⟨whole, hlt⟩ := isWhole_of_scaled hreal
    rw [if_neg hreal]
    cases hsign : numeral.negative with
    | false =>
      refine .inl ⟨.ofNat numeral.scaled.significand, ?_, rfl⟩
      rw [UInt64.toNat_ofNat_of_lt' hlt, ← hsign]
      exact whole
    | true =>
      by_cases hrange : 0 < numeral.scaled.significand && numeral.scaled.significand ≤ negativeLimit
      · refine .inr (.inl ⟨numeral.scaled.significand, ⟨hsign ▸ whole, ?_⟩, if_pos hrange⟩)
        simpa using hrange
      · exact .inr (.inr ⟨true, if_neg hrange⟩)

theorem quantity_eq_unsigned_iff {numeral : Numeral} {n : UInt64} :
    numeral.quantity = .ok (.unsigned n) ↔ numeral.IsWhole false n.toNat := by
  constructor
  · intro h
    obtain ⟨m, whole, hm⟩ | ⟨m, -, hm⟩ | ⟨negative, hreal⟩ := numeral.quantity_cases
    · cases hm.symm.trans h
      exact whole
    · cases hm.symm.trans h
    · obtain ⟨value, hvalue⟩ := exists_real_of_real (hreal.symm.trans h)
      cases hvalue
  · intro whole
    have hscaled := whole.scaled_eq n.toNat_lt
    simp [quantity, hscaled, whole.sign, whole.pointless, whole.unscaled]

theorem quantity_eq_negative_iff {numeral : Numeral} {n : Nat} :
    numeral.quantity = .ok (.negative n) ↔
      numeral.IsWhole true n ∧ 0 < n ∧ n ≤ negativeLimit := by
  constructor
  · intro h
    obtain ⟨m, -, hm⟩ | ⟨m, hwhole, hm⟩ | ⟨negative, hreal⟩ := numeral.quantity_cases
    · cases hm.symm.trans h
    · cases hm.symm.trans h
      exact hwhole
    · obtain ⟨value, hvalue⟩ := exists_real_of_real (hreal.symm.trans h)
      cases hvalue
  · rintro ⟨whole, hpos, hlimit⟩
    have hscaled := whole.scaled_eq (Nat.lt_of_le_of_lt hlimit (by decide))
    simp [quantity, hscaled, whole.sign, whole.pointless, whole.unscaled, hpos, hlimit]

end Numeral

/-! Values of one kind. -/

def IsBool (document : Document) (value : Bool) : Prop := document = .bool value

def IsNatural (document : Document) (n : Nat) : Prop :=
  ∃ numeral, document = .number numeral ∧ numeral.IsWhole false n

/-- There is a sign only in front of a number below zero: minus zero is no whole number. -/
def IsInteger (document : Document) (z : Int) : Prop :=
  ∃ numeral n, document = .number numeral ∧
    (numeral.IsWhole false n ∧ z = n ∨ numeral.IsWhole true n ∧ 0 < n ∧ z = -n)

def IsWord32 (document : Document) (n : UInt32) : Prop := document.IsNatural n.toNat

def IsWord64 (document : Document) (n : UInt64) : Prop := document.IsNatural n.toNat

def IsInt32 (document : Document) (z : Int32) : Prop := document.IsInteger z.toInt

def IsText (document : Document) (text : String) : Prop :=
  ∃ quoted, document = .string quoted ∧ quoted.Spells text

inductive IsOptionalText : Document → Option String → Prop
  | null : IsOptionalText .null none
  | text {document : Document} {text : String} (h : document.IsText text) :
    IsOptionalText document (some text)

inductive Names (document : Document) (name : String) : Prop
  | text (h : document.IsText name)
  | member {quoted : Quoted} {misplaced : Option Document} (h : quoted.Spells name)
    (hdocument : document = .object [(quoted, .null)] none misplaced)

/-- The single that a number comes to: the nearest to a whole number that fits a word, and otherwise
the nearest to the double that the number is read as. -/
inductive IsSingle (document : Document) : Number.Single → Prop
  | natural {n : Nat} (h : document.IsNatural n) (hn : n < UInt64.size) :
    IsSingle document (.ofNat n)
  | negative {n : Nat} (h : document.IsInteger (-n)) (hpos : 0 < n)
    (hn : n ≤ Numeral.negativeLimit) :
    IsSingle document (.ofRatio true n 1)
  | real {numeral : Numeral} {negative : Bool} {value : Number.BinaryValue}
    (hdocument : document = .number numeral)
    (h : numeral.quantity = .ok (.real negative value)) :
    IsSingle document (.ofRatio negative value.num value.den)

theorem asBool_eq_ok_iff {document : Document} {value : Bool} :
    document.asBool = .ok value ↔ document.IsBool value := by
  cases document <;> simp [asBool, IsBool]

theorem asText_eq_ok_iff {document : Document} {text : String} :
    document.asText = .ok text ↔ document.IsText text := by
  cases document <;> simp [asText, IsText, Quoted.text_eq_ok_iff]

theorem optionalText_eq_ok_iff {document : Document} {text : Option String} :
    document.optionalText = .ok text ↔ IsOptionalText document text := by
  cases document with
  | null =>
    constructor
    · intro h
      cases h
      exact .null
    · rintro (_ | ⟨quoted, hquoted, -⟩)
      · rfl
      · cases hquoted
  | _ =>
    rw [optionalText, map_eq_ok_iff]
    · constructor
      · rintro ⟨found, hfound, rfl⟩
        exact .text (asText_eq_ok_iff.mp hfound)
      · rintro (_ | h)
        exact ⟨_, asText_eq_ok_iff.mpr h, rfl⟩
    · simp

theorem fitting_eq_ok_iff {α : Type} {convert : Quantity → Option α} {document : Document}
    {value : α} : document.fitting convert = .ok value ↔
      ∃ numeral quantity, document = .number numeral ∧ numeral.quantity = .ok quantity ∧
        convert quantity = some value := by
  rw [fitting, bind_eq_ok_iff]
  constructor
  · rintro ⟨quantity, hquantity, h⟩
    cases document with
    | number numeral =>
      refine ⟨numeral, quantity, rfl, hquantity, ?_⟩
      split at h
      · rename_i heq
        rw [heq, Except.ok.inj h]
      · cases h
    | _ => cases hquantity
  · rintro ⟨numeral, quantity, rfl, hquantity, h⟩
    exact ⟨quantity, hquantity, by rw [h]⟩

theorem fitting_below_eq_ok_iff {limit n : Nat} (hlimit : limit ≤ UInt64.size)
    {document : Document} :
    document.fitting (Quantity.below? limit) = .ok n ↔ document.IsNatural n ∧ n < limit := by
  rw [fitting_eq_ok_iff]
  constructor
  · rintro ⟨numeral, quantity, rfl, hquantity, h⟩
    cases quantity with
    | unsigned m =>
      simp only [Quantity.below?, Option.ite_none_right_eq_some, Option.some.injEq] at h
      obtain ⟨hm, rfl⟩ := h
      exact ⟨⟨numeral, rfl, Numeral.quantity_eq_unsigned_iff.mp hquantity⟩, hm⟩
    | negative | real => cases h
  · rintro ⟨⟨numeral, rfl, whole⟩, hn⟩
    have htoNat : (UInt64.ofNat n).toNat = n :=
      UInt64.toNat_ofNat_of_lt' (Nat.lt_of_lt_of_le hn hlimit)
    refine ⟨numeral, .unsigned (.ofNat n), rfl, ?_, ?_⟩
    · rw [Numeral.quantity_eq_unsigned_iff, htoNat]
      exact whole
    · rw [Quantity.below?, htoNat, if_pos hn]

theorem word32_eq_ok_iff {document : Document} {n : UInt32} :
    document.word32 = .ok n ↔ document.IsWord32 n := by
  rw [word32, IsWord32, map_eq_ok_iff]
  constructor
  · rintro ⟨m, hm, rfl⟩
    obtain ⟨hnatural, hlt⟩ := (fitting_below_eq_ok_iff (by decide)).mp hm
    rwa [UInt32.toNat_ofNat_of_lt' hlt]
  · intro h
    exact ⟨n.toNat, (fitting_below_eq_ok_iff (by decide)).mpr ⟨h, n.toNat_lt⟩, UInt32.ofNat_toNat⟩

theorem word64_eq_ok_iff {document : Document} {n : UInt64} :
    document.word64 = .ok n ↔ document.IsWord64 n := by
  rw [word64, IsWord64, map_eq_ok_iff]
  constructor
  · rintro ⟨m, hm, rfl⟩
    obtain ⟨hnatural, hlt⟩ := (fitting_below_eq_ok_iff (Nat.le_refl _)).mp hm
    rwa [UInt64.toNat_ofNat_of_lt' hlt]
  · intro h
    exact ⟨n.toNat, (fitting_below_eq_ok_iff (Nat.le_refl _)).mpr ⟨h, n.toNat_lt⟩,
      UInt64.ofNat_toNat⟩

theorem int32_eq_ok_iff {document : Document} {z : Int32} :
    document.int32 = .ok z ↔ document.IsInt32 z := by
  rw [int32, IsInt32, fitting_eq_ok_iff]
  constructor
  · rintro ⟨numeral, quantity, rfl, hquantity, h⟩
    cases quantity with
    | unsigned m =>
      simp only [Quantity.int32?, Option.ite_none_right_eq_some, Option.some.injEq] at h
      obtain ⟨hm, rfl⟩ := h
      refine ⟨numeral, m.toNat, rfl, .inl ⟨Numeral.quantity_eq_unsigned_iff.mp hquantity, ?_⟩⟩
      exact Int32.toInt_ofNat_of_lt hm
    | negative n =>
      simp only [Quantity.int32?, Option.ite_none_right_eq_some, Option.some.injEq] at h
      obtain ⟨hn, rfl⟩ := h
      obtain ⟨whole, hpos, -⟩ := Numeral.quantity_eq_negative_iff.mp hquantity
      refine ⟨numeral, n, rfl, .inr ⟨whole, hpos, ?_⟩⟩
      have hn : n ≤ 2 ^ 31 := hn
      exact Int32.toInt_ofInt_of_le (by omega) (by omega)
    | real => cases h
  · have hleast := z.le_toInt
    have hgreatest := z.toInt_lt
    rintro ⟨numeral, n, rfl, ⟨whole, hz⟩ | ⟨whole, hpos, hz⟩⟩
    · have hn : n < Quantity.int32Limit := by
        show n < 2 ^ 31
        omega
      have htoNat : (UInt64.ofNat n).toNat = n :=
        UInt64.toNat_ofNat_of_lt' (Nat.lt_trans hn (by decide))
      refine ⟨numeral, .unsigned (.ofNat n), rfl, ?_, ?_⟩
      · rw [Numeral.quantity_eq_unsigned_iff, htoNat]
        exact whole
      · rw [Quantity.int32?, htoNat, if_pos hn, Option.some.injEq, ← Int32.toInt_inj, hz]
        exact Int32.toInt_ofNat_of_lt hn
    · have hn : n ≤ Quantity.int32Limit := by
        show n ≤ 2 ^ 31
        omega
      refine ⟨numeral, .negative n, rfl, ?_, ?_⟩
      · exact Numeral.quantity_eq_negative_iff.mpr ⟨whole, hpos, Nat.le_trans hn (by decide)⟩
      · rw [Quantity.int32?, if_pos hn, ← hz, Int32.ofInt_toInt]

theorem single_eq_ok_iff {document : Document} {x : Number.Single} :
    document.single = .ok x ↔ document.IsSingle x := by
  rw [single, fitting_eq_ok_iff]
  constructor
  · rintro ⟨numeral, quantity, rfl, hquantity, h⟩
    obtain rfl := Option.some.inj h
    cases quantity with
    | unsigned m =>
      exact .natural ⟨numeral, rfl, Numeral.quantity_eq_unsigned_iff.mp hquantity⟩ m.toNat_lt
    | negative n =>
      obtain ⟨whole, hpos, hlimit⟩ := Numeral.quantity_eq_negative_iff.mp hquantity
      exact .negative ⟨numeral, n, rfl, .inr ⟨whole, hpos, rfl⟩⟩ hpos hlimit
    | real => exact .real rfl hquantity
  · rintro (⟨⟨numeral, rfl, whole⟩, hn⟩ | ⟨⟨numeral, m, rfl, hsign⟩, hpos, hn⟩ | ⟨rfl, h⟩)
    · rename_i n
      have htoNat : (UInt64.ofNat n).toNat = n := UInt64.toNat_ofNat_of_lt' hn
      refine ⟨numeral, .unsigned (.ofNat n), rfl, ?_, ?_⟩
      · rw [Numeral.quantity_eq_unsigned_iff, htoNat]
        exact whole
      · rw [Quantity.single, htoNat]
    · rename_i n
      obtain ⟨-, hm⟩ | ⟨whole, -, hm⟩ := hsign
      · omega
      · obtain rfl : n = m := by omega
        exact ⟨numeral, .negative n, rfl,
          Numeral.quantity_eq_negative_iff.mpr ⟨whole, hpos, hn⟩, rfl⟩
    · exact ⟨_, _, rfl, h, rfl⟩

theorem choice_eq_ok_iff {α : Type} {lookup : String → Option α} {document : Document} {value : α} :
    choice lookup document = .ok value ↔
      ∃ name, document.Names name ∧ lookup name = some value := by
  unfold choice
  constructor
  · intro h
    split at h
    · obtain ⟨name, hname, h⟩ := bind_eq_ok_iff.mp h
      exact ⟨name, .text ⟨_, rfl, Quoted.text_eq_ok_iff.mp hname⟩, named_eq_ok_iff.mp h⟩
    · split at h <;> cases h
    · rename_i quoted content rest flaw misplaced
      obtain ⟨name, hname, h⟩ := bind_eq_ok_iff.mp h
      obtain ⟨found, hfound, h⟩ := bind_eq_ok_iff.mp h
      obtain rfl : content = .null := by
        cases content with
        | null => rfl
        | _ => cases h
      cases rest with
      | cons => cases h
      | nil =>
        cases flaw with
        | some => cases h
        | none =>
          cases h
          exact ⟨name, .member (Quoted.text_eq_ok_iff.mp hname) rfl, named_eq_ok_iff.mp hfound⟩
    · cases h
    · cases h
  · rintro ⟨name, ⟨quoted, rfl, hname⟩ | ⟨hname, rfl⟩, h⟩
    · exact bind_eq_ok_iff.mpr ⟨name, Quoted.text_eq_ok_iff.mpr hname, named_eq_ok_iff.mpr h⟩
    · refine bind_eq_ok_iff.mpr ⟨name, Quoted.text_eq_ok_iff.mpr hname, ?_⟩
      exact bind_eq_ok_iff.mpr ⟨value, named_eq_ok_iff.mpr h, rfl⟩

end ModelBundle.Document
