import Mathlib.Data.List.DropRight
import ModelBundle.Document.Text

/-!
How documents are written, and that what is written is read.  The grammar allows blanks wherever a
value, an item or a member may begin, and all ways to write a number or a character.
-/

namespace ModelBundle.Document

open Number (Single.digitRun Single.digitRun_append)

def Blanks (text : List Char) : Prop := ∀ c ∈ text, isBlank c = true

theorem dropBlanks_append {blanks : List Char} (h : Blanks blanks) (text : List Char) :
    dropBlanks (blanks ++ text) = dropBlanks text :=
  List.dropWhile_append_of_pos h

theorem dropBlanks_dropBlanks (text : List Char) : dropBlanks (dropBlanks text) = dropBlanks text :=
  List.dropWhile_idempotent isBlank text

theorem dropBlanks_cons_of_not {c : Char} (h : isBlank c = false) (text : List Char) :
    dropBlanks (c :: text) = c :: text :=
  List.dropWhile_cons_of_neg (by simp [h])

/-! Numbers. -/

/-- What can stand behind a value: nothing, or what a number does not go on with. -/
def Ends (rest : List Char) : Prop :=
  ∀ c ∈ rest.head?, isBlank c = true ∨ c = ',' ∨ c = ']' ∨ c = '}'

theorem Ends.not_digit {rest : List Char} (h : Ends rest) :
    ∀ c ∈ rest.head?, c.isDigit = false := by
  intro c hmem
  have hc := h c hmem
  simp only [isBlank, Bool.or_eq_true, decide_eq_true_eq] at hc
  rcases hc with ((((rfl | rfl) | rfl) | rfl) | rfl | rfl | rfl) <;> decide

def Digits (text : List Char) : Prop := text ≠ [] ∧ ∀ c ∈ text, c.isDigit = true

theorem someDigits_append {digits rest : List Char} (h : Digits digits)
    (hrest : ∀ c ∈ rest.head?, c.isDigit = false) :
    someDigits (digits ++ rest) = .ok (digits.map digitValue, rest) := by
  have hrun : Document.digits (digits ++ rest) = (digits.map digitValue, rest) := by
    have := Single.digitRun_append h.2 hrest
    simp only [Single.digitRun, Prod.mk.injEq] at this
    rw [Document.digits, this.1, this.2]
  obtain ⟨c, more, rfl⟩ := List.exists_cons_of_ne_nil h.1
  rw [someDigits, hrun]
  rfl

inductive Fraction : Option (List Nat) → List Char → Prop
  | none : Fraction none []
  | some {digits : List Char} (h : Digits digits) :
    Fraction (some (digits.map digitValue)) ('.' :: digits)

inductive Exponent : Option (Bool × List Nat) → List Char → Prop
  | none : Exponent none []
  | plain {mark : Char} {digits : List Char} (hmark : mark = 'e' ∨ mark = 'E') (h : Digits digits) :
    Exponent (some (false, digits.map digitValue)) (mark :: digits)
  | signed {mark sign : Char} {digits : List Char} (hmark : mark = 'e' ∨ mark = 'E')
    (hsign : sign = '+' ∨ sign = '-') (h : Digits digits) :
    Exponent (some (sign = '-', digits.map digitValue)) (mark :: sign :: digits)

theorem exponentPart_mark {mark : Char} (h : mark = 'e' ∨ mark = 'E') (rest : List Char) :
    exponentPart (mark :: rest) =
      match rest with
      | '-' :: rest => exponentDigits true rest
      | '+' :: rest => exponentDigits false rest
      | rest => exponentDigits false rest := by
  have hmark : (decide (mark = 'e') || decide (mark = 'E')) = true := by simpa using h
  unfold exponentPart
  exact if_pos hmark

theorem exponentDigits_append (negative : Bool) {digits rest : List Char} (h : Digits digits)
    (hrest : ∀ c ∈ rest.head?, c.isDigit = false) :
    exponentDigits negative (digits ++ rest) =
      .ok (some (negative, digits.map digitValue), rest) := by
  rw [exponentDigits, someDigits_append h hrest]
  rfl

theorem Exponent.read {exponent : Option (Bool × List Nat)} {text rest : List Char}
    (h : Exponent exponent text) (ends : Ends rest) :
    exponentPart (text ++ rest) = .ok (exponent, rest) := by
  cases h with
  | none =>
    cases rest with
    | nil => rfl
    | cons c rest =>
      have hc : ¬ (c = 'e' ∨ c = 'E') := by
        have := ends c rfl
        rintro (rfl | rfl) <;> simp [isBlank] at this
      simp [exponentPart, hc]
  | plain hmark h =>
    have hread := exponentDigits_append false h ends.not_digit
    obtain ⟨c, digits, rfl⟩ := List.exists_cons_of_ne_nil h.1
    have hdigit := h.2 c List.mem_cons_self
    rw [List.cons_append, exponentPart_mark hmark]
    split
    · rename_i heq
      obtain rfl := (List.cons.inj heq).1
      simp at hdigit
    · rename_i heq
      obtain rfl := (List.cons.inj heq).1
      simp at hdigit
    · exact hread
  | signed hmark hsign h =>
    rw [List.cons_append, exponentPart_mark hmark]
    rcases hsign with rfl | rfl <;> exact exponentDigits_append _ h ends.not_digit

theorem Exponent.head {exponent : Option (Bool × List Nat)} {text rest : List Char}
    (h : Exponent exponent text) (ends : Ends rest) :
    ∀ c ∈ (text ++ rest).head?, c.isDigit = false ∧ c ≠ '.' := by
  have hmark : ∀ {mark : Char}, mark = 'e' ∨ mark = 'E' → mark.isDigit = false ∧ mark ≠ '.' := by
    rintro mark (rfl | rfl) <;> decide
  intro c hmem
  cases h with
  | none =>
    refine ⟨ends.not_digit c hmem, ?_⟩
    rintro rfl
    have := ends '.' hmem
    simp [isBlank] at this
  | plain h =>
    cases hmem
    exact hmark h
  | signed h =>
    cases hmem
    exact hmark h

theorem Fraction.read {fraction : Option (List Nat)} {text rest : List Char}
    (h : Fraction fraction text) (hrest : ∀ c ∈ rest.head?, c.isDigit = false ∧ c ≠ '.') :
    fractionPart (text ++ rest) = .ok (fraction, rest) := by
  cases h with
  | none =>
    rw [List.nil_append]
    unfold fractionPart
    split
    · exact absurd rfl (hrest '.' rfl).2
    · rfl
  | some h =>
    rw [List.cons_append, fractionPart, someDigits_append h fun c hmem => (hrest c hmem).1]
    rfl

theorem Fraction.head {fraction : Option (List Nat)} {text rest : List Char}
    (h : Fraction fraction text) (hrest : ∀ c ∈ rest.head?, c.isDigit = false) :
    ∀ c ∈ (text ++ rest).head?, c.isDigit = false := by
  intro c hmem
  cases h with
  | none => exact hrest c hmem
  | some =>
    cases hmem
    decide

theorem digitValue_eq_zero {c : Char} (h : c.isDigit = true) (hvalue : digitValue c = 0) :
    c = '0' := by
  simp only [Char.isDigit, Bool.and_eq_true, decide_eq_true_eq] at h
  apply Char.toNat_inj.mp
  have hleast : 48 ≤ c.toNat := h.1
  have hgreatest : c.toNat - 48 = 0 := hvalue
  show c.toNat = 48
  omega

theorem unsignedNumber_written (negative : Bool) {whole fractionText exponentText rest : List Char}
    {fraction : Option (List Nat)} {exponent : Option (Bool × List Nat)} (hwhole : Digits whole)
    (hzero : whole.head? = some '0' → whole.length = 1) (hfraction : Fraction fraction fractionText)
    (hexponent : Exponent exponent exponentText) (ends : Ends rest) :
    unsignedNumber negative (whole ++ (fractionText ++ (exponentText ++ rest))) =
      (number ⟨negative, whole.map digitValue, fraction, exponent⟩, some rest) := by
  have hhead := hexponent.head ends
  have hdigits := someDigits_append hwhole (hfraction.head fun c hmem => (hhead c hmem).1)
  have hplain : ¬ ((whole.map digitValue).head? = some 0 && 1 < (whole.map digitValue).length) := by
    simp only [Bool.and_eq_true, decide_eq_true_eq]
    rintro ⟨hfirst, hlong⟩
    obtain ⟨c, more, rfl⟩ := List.exists_cons_of_ne_nil hwhole.1
    have hc := digitValue_eq_zero (hwhole.2 c List.mem_cons_self) (Option.some.inj hfirst)
    have := hzero (by rw [hc]; rfl)
    rw [List.length_map] at hlong
    omega
  unfold unsignedNumber
  simp only [hdigits, bind, Except.bind, if_neg hplain, pure, Except.pure, hfraction.read hhead,
    hexponent.read ends]

/-! Quoted texts. -/

/-- What a text consists of, and how it is written from behind its opening quote on. -/
inductive Quotes : List Piece → List Char → Prop
  | close : Quotes [] ['"']
  | plain {c : Char} {pieces : List Piece} {text : List Char} (hquote : c ≠ '"')
    (hescape : c ≠ '\\') (hcontrol : 32 ≤ c.toNat) (h : Quotes pieces text) :
    Quotes (.char c :: pieces) (c :: text)
  | escape {c meaning : Char} {pieces : List Piece} {text : List Char}
    (hmeaning : escape? c = some meaning) (h : Quotes pieces text) :
    Quotes (.char meaning :: pieces) ('\\' :: c :: text)
  | unit {a b c d : Char} {code : Nat} {pieces : List Piece} {text : List Char}
    (hcode : unitCode? a b c d = some code) (h : Quotes pieces text) :
    Quotes (.unit code :: pieces) ('\\' :: 'u' :: a :: b :: c :: d :: text)

theorem Quotes.read {pieces : List Piece} {text : List Char} (h : Quotes pieces text)
    (rest : List Char) : quoted (text ++ rest) = (⟨pieces, none⟩, some rest) := by
  induction h with
  | close => rfl
  | plain hquote hescape hcontrol _ ih =>
    have hcontrol := Nat.not_lt.mpr hcontrol
    simp only [List.cons_append, quoted, hescape, if_neg hcontrol, ih, false_implies, implies_true]
    rfl
  | escape hmeaning _ ih =>
    have hunit : ∀ {c meaning : Char}, escape? c = some meaning → c ≠ 'u' := by
      rintro c meaning h rfl
      simp [escape?] at h
    simp only [List.cons_append, quoted, hunit hmeaning, hmeaning, ih, false_implies, implies_true]
    rfl
  | unit hcode _ ih =>
    simp only [List.cons_append, quoted, hcode, ih]
    rfl

/-! Values. -/

/-- What is written in a piece of text: a value, or what follows the opening of an array or of an
object, up to its end. -/
inductive Part where
  | value (document : Document)
  /-- Items behind an opening bracket, or behind another item. -/
  | items (first : Bool) (items : List Document)
  | itemsFrom (items : List Document)
  | members (first : Bool) (members : List (Quoted × Document))
  | membersFrom (members : List (Quoted × Document))

inductive Written : Part → List Char → Prop
  | blank {document : Document} {c : Char} {text : List Char} (hblank : isBlank c = true)
    (h : Written (.value document) text) : Written (.value document) (c :: text)
  | null : Written (.value .null) "null".toList
  | bool (value : Bool) : Written (.value (.bool value)) (toString value).toList
  | number (negative : Bool) {whole fractionText exponentText : List Char}
    {fraction : Option (List Nat)} {exponent : Option (Bool × List Nat)} (hwhole : Digits whole)
    (hzero : whole.head? = some '0' → whole.length = 1) (hfraction : Fraction fraction fractionText)
    (hexponent : Exponent exponent exponentText) :
    Written (.value (.number ⟨negative, whole.map digitValue, fraction, exponent⟩))
      ((if negative then ['-'] else []) ++ (whole ++ (fractionText ++ exponentText)))
  | string {pieces : List Piece} {text : List Char} (h : Quotes pieces text) :
    Written (.value (.string ⟨pieces, none⟩)) ('"' :: text)
  | array {items : List Document} {text : List Char} (h : Written (.items true items) text) :
    Written (.value (.array items none)) ('[' :: text)
  | object {members : List (Quoted × Document)} {text : List Char}
    (h : Written (.members true members) text) :
    Written (.value (.object members none none)) ('{' :: text)
  | itemsBlank {first : Bool} {items : List Document} {c : Char} {text : List Char}
    (hblank : isBlank c = true) (h : Written (.items first items) text) :
    Written (.items first items) (c :: text)
  | itemsEnd (first : Bool) : Written (.items first []) [']']
  | itemsFirst {items : List Document} {text : List Char} (h : Written (.itemsFrom items) text) :
    Written (.items true items) text
  | itemsNext {items : List Document} {text : List Char} (h : Written (.itemsFrom items) text) :
    Written (.items false items) (',' :: text)
  | item {item : Document} {items : List Document} {text rest : List Char}
    (h : Written (.value item) text) (hrest : Written (.items false items) rest) :
    Written (.itemsFrom (item :: items)) (text ++ rest)
  | membersBlank {first : Bool} {members : List (Quoted × Document)} {c : Char} {text : List Char}
    (hblank : isBlank c = true) (h : Written (.members first members) text) :
    Written (.members first members) (c :: text)
  | membersEnd (first : Bool) : Written (.members first []) ['}']
  | membersFirst {members : List (Quoted × Document)} {text : List Char}
    (h : Written (.membersFrom members) text) : Written (.members true members) text
  | membersNext {members : List (Quoted × Document)} {blanks text : List Char}
    (hblanks : Blanks blanks) (h : Written (.membersFrom members) text) :
    Written (.members false members) (',' :: (blanks ++ text))
  | member {pieces : List Piece} {content : Document} {members : List (Quoted × Document)}
    {name blanks text rest : List Char} (hname : Quotes pieces name) (hblanks : Blanks blanks)
    (h : Written (.value content) text) (hrest : Written (.members false members) rest) :
    Written (.membersFrom ((⟨pieces, none⟩, content) :: members))
      ('"' :: (name ++ (blanks ++ ':' :: (text ++ rest))))

theorem Written.pos {part : Part} {text : List Char} (h : Written part text) : 0 < text.length := by
  induction h with
  | bool value => cases value <;> decide
  | number negative hwhole =>
    have := List.length_pos_of_ne_nil hwhole.1
    simp only [List.length_append]
    omega
  | itemsFirst _ ih | membersFirst _ ih => exact ih
  | item _ _ ih _ =>
    rw [List.length_append]
    omega
  | _ => simp

def Part.follows : Part → Bool
  | items false _ | members false _ => true
  | _ => false

theorem Written.ends {part : Part} {text : List Char} (h : Written part text)
    (hfollows : part.follows = true) (rest : List Char) : Ends (text ++ rest) := by
  intro c hmem
  cases h with
  | itemsBlank hblank _ | membersBlank hblank _ =>
    cases hmem
    exact .inl hblank
  | itemsEnd | itemsNext _ | membersEnd | membersNext _ _ =>
    cases hmem
    simp
  | _ => cases hfollows

/-! Blanks in front count for nothing. -/

theorem value_dropBlanks (fuel : Nat) (text : List Char) :
    value fuel (dropBlanks text) = value fuel text := by
  cases fuel with
  | zero => rfl
  | succ fuel => rw [value, value, dropBlanks_dropBlanks]

theorem items_dropBlanks (fuel : Nat) (first : Bool) (text : List Char) :
    items fuel first (dropBlanks text) = items fuel first text := by
  cases fuel with
  | zero => rfl
  | succ fuel => rw [items, items, dropBlanks_dropBlanks]

theorem itemsFrom_dropBlanks (fuel : Nat) (text : List Char) :
    itemsFrom fuel (dropBlanks text) = itemsFrom fuel text := by
  cases fuel with
  | zero => rfl
  | succ fuel => rw [itemsFrom, itemsFrom, value_dropBlanks]

theorem members_dropBlanks (fuel : Nat) (first : Bool) (text : List Char) :
    members fuel first (dropBlanks text) = members fuel first text := by
  cases fuel with
  | zero => rfl
  | succ fuel => rw [members, members, dropBlanks_dropBlanks]

theorem dropBlanks_cons {c : Char} (h : isBlank c = true) (text : List Char) :
    dropBlanks (c :: text) = dropBlanks text :=
  List.dropWhile_cons_of_pos h

/-! One step of reading for every way to write a part. -/

theorem word_append (expected rest : List Char) : word expected (expected ++ rest) = .ok rest := by
  induction expected with
  | nil => cases rest <;> rfl
  | cons c expected ih => rw [List.cons_append, word, if_pos rfl, ih]

theorem literal_append (document : Document) (expected : String) (rest : List Char) :
    literal document expected (expected.toList ++ rest) = (document, some rest) := by
  rw [literal, word_append]

section Steps

variable {fuel : Nat} {text rest behind : List Char}

theorem value_null (fuel : Nat) (rest : List Char) :
    value (fuel + 1) ("null".toList ++ rest) = (null, some rest) :=
  literal_append null "ull" rest

theorem value_bool (fuel : Nat) (content : Bool) (rest : List Char) :
    value (fuel + 1) ((toString content).toList ++ rest) = (bool content, some rest) := by
  cases content with
  | true => exact literal_append (bool true) "rue" rest
  | false => exact literal_append (bool false) "alse" rest

theorem value_of_digit (fuel : Nat) {c : Char} (h : c.isDigit = true) (rest : List Char) :
    value (fuel + 1) (c :: rest) = unsignedNumber false (c :: rest) := by
  have hblank : isBlank c = false := by
    rw [Bool.eq_false_iff]
    intro hblank
    simp only [isBlank, Bool.or_eq_true, decide_eq_true_eq] at hblank
    rcases hblank with ((rfl | rfl) | rfl) | rfl <;> simp at h
  rw [value.eq_def]
  dsimp only
  rw [dropBlanks_cons_of_not hblank]
  split
  all_goals
    rename_i heq
    cases heq
  any_goals simp at h
  rw [if_pos h]

theorem value_string (fuel : Nat) {pieces : List Piece} (h : Quotes pieces text)
    (rest : List Char) :
    value (fuel + 1) ('"' :: (text ++ rest)) = (string ⟨pieces, none⟩, some rest) := by
  rw [value, dropBlanks_cons_of_not (by decide)]
  simp only [h.read]

theorem value_array {found : List Document}
    (h : items fuel true text = (found, none, some rest)) :
    value (fuel + 1) ('[' :: text) = (array found none, some rest) := by
  rw [value, dropBlanks_cons_of_not (by decide)]
  simp only [h]

theorem items_end (fuel : Nat) (first : Bool) (rest : List Char) :
    items (fuel + 1) first (']' :: rest) = ([], none, some rest) := by
  rw [items, dropBlanks_cons_of_not (by decide)]
  rfl

theorem value_opening {document : Document} (h : value fuel text = (document, some rest)) :
    ∃ c more, dropBlanks text = c :: more ∧ c ≠ ']' := by
  cases fuel with
  | zero => cases h
  | succ fuel =>
    cases htext : dropBlanks text with
    | nil =>
      rw [value, htext] at h
      cases h
    | cons c more =>
      refine ⟨c, more, rfl, ?_⟩
      rintro rfl
      rw [value, htext] at h
      cases h

theorem items_first {found : List Document}
    (h : itemsFrom fuel text = (found, none, some rest)) :
    items (fuel + 1) true text = (found, none, some rest) := by
  obtain ⟨c, more, htext, hc⟩ : ∃ c more, dropBlanks text = c :: more ∧ c ≠ ']' := by
    cases fuel with
    | zero => cases h
    | succ fuel =>
      rw [itemsFrom] at h
      split at h
      · cases h
      · rename_i hvalue
        exact value_opening hvalue
  rw [← itemsFrom_dropBlanks, htext] at h
  simp only [items, htext, if_true, h]

theorem items_next {found : List Document}
    (h : itemsFrom fuel text = (found, none, some rest)) :
    items (fuel + 1) false (',' :: text) = (found, none, some rest) := by
  rw [items, dropBlanks_cons_of_not (by decide)]
  exact h

theorem itemsFrom_cons {item : Document} {found : List Document}
    (hitem : value fuel text = (item, some behind))
    (h : items fuel false behind = (found, none, some rest)) :
    itemsFrom (fuel + 1) text = (item :: found, none, some rest) := by
  rw [itemsFrom, hitem]
  simp only [h]

theorem members_end (fuel : Nat) (first : Bool) (rest : List Char) :
    members (fuel + 1) first ('}' :: rest) = ([], none, some rest) := by
  rw [members, dropBlanks_cons_of_not (by decide)]
  rfl

theorem membersFrom_opening {found : List (Quoted × Document)}
    (h : membersFrom fuel text = (found, none, some rest)) : ∃ more, text = '"' :: more := by
  cases fuel with
  | zero => cases h
  | succ fuel =>
    rw [membersFrom.eq_def] at h
    dsimp only at h
    split at h
    · cases h
    · exact ⟨_, rfl⟩
    · cases h

theorem members_first {found : List (Quoted × Document)}
    (h : membersFrom fuel text = (found, none, some rest)) :
    members (fuel + 1) true text = (found, none, some rest) := by
  obtain ⟨more, rfl⟩ := membersFrom_opening h
  rw [members, dropBlanks_cons_of_not (by decide)]
  exact h

theorem members_next {blanks : List Char} (hblanks : Blanks blanks)
    {found : List (Quoted × Document)} (h : membersFrom fuel text = (found, none, some rest)) :
    members (fuel + 1) false (',' :: (blanks ++ text)) = (found, none, some rest) := by
  obtain ⟨more, rfl⟩ := membersFrom_opening h
  rw [members, dropBlanks_cons_of_not (by decide)]
  show membersFrom fuel (dropBlanks (blanks ++ _)) = _
  rw [dropBlanks_append hblanks, dropBlanks_cons_of_not (by decide)]
  exact h

theorem membersFrom_cons {name blanks : List Char} {pieces : List Piece} {content : Document}
    {found : List (Quoted × Document)} (hname : Quotes pieces name) (hblanks : Blanks blanks)
    (hcontent : value fuel text = (content, some behind))
    (h : members fuel false behind = (found, none, some rest)) :
    membersFrom (fuel + 1) ('"' :: (name ++ (blanks ++ ':' :: text))) =
      ((⟨pieces, none⟩, content) :: found, none, some rest) := by
  rw [membersFrom]
  simp only [hname.read, dropBlanks_append hblanks]
  rw [dropBlanks_cons_of_not (by decide)]
  simp only [hcontent, h]

theorem members_opening {found : List (Quoted × Document)}
    (h : members fuel true text = (found, none, some rest)) :
    ∃ more, dropBlanks text = '"' :: more ∨ dropBlanks text = '}' :: more := by
  cases fuel with
  | zero => cases h
  | succ fuel =>
    rw [members.eq_def] at h
    dsimp only at h
    split at h
    · cases h
    · exact ⟨_, .inr ‹_›⟩
    · obtain ⟨more, hmore⟩ := membersFrom_opening h
      exact ⟨more, .inl (hmore ▸ ‹_›)⟩

theorem value_object {found : List (Quoted × Document)}
    (h : members fuel true text = (found, none, some rest)) :
    value (fuel + 1) ('{' :: text) = (object found none none, some rest) := by
  obtain ⟨more, hmore⟩ := members_opening h
  rw [value, dropBlanks_cons_of_not (by decide)]
  rcases hmore with hmore | hmore <;> simp only [hmore, h]

end Steps

/-- What is read of a part: just what is written, up to the rest. -/
def Part.Reads (fuel : Nat) (text rest : List Char) : Part → Prop
  | .value document => Document.value fuel text = (document, some rest)
  | .items first found => Document.items fuel first text = (found, none, some rest)
  | .itemsFrom found => Document.itemsFrom fuel text = (found, none, some rest)
  | .members first found => Document.members fuel first text = (found, none, some rest)
  | .membersFrom found => Document.membersFrom fuel text = (found, none, some rest)

def Part.slack : Part → Nat
  | .items _ _ | .members _ _ => 1
  | _ => 0

/-- With fuel for its length, a part is read as it is written. -/
theorem Written.reads {part : Part} {text : List Char} (h : Written part text) {fuel : Nat}
    {rest : List Char} (hfuel : 4 * text.length + part.slack ≤ fuel + 1) (ends : Ends rest) :
    part.Reads (fuel + 1) (text ++ rest) rest := by
  -- Every step takes one of the fuel; those that take no character are at most three in a row.
  induction h generalizing fuel rest with
  | blank hblank _ ih =>
    simp only [List.length_cons] at hfuel
    show Document.value (fuel + 1) (_ :: _) = _
    rw [← value_dropBlanks, dropBlanks_cons hblank, value_dropBlanks]
    exact ih (by omega) ends
  | itemsBlank hblank _ ih =>
    simp only [List.length_cons] at hfuel
    show Document.items (fuel + 1) _ (_ :: _) = _
    rw [← items_dropBlanks, dropBlanks_cons hblank, items_dropBlanks]
    exact ih (by omega) ends
  | membersBlank hblank _ ih =>
    simp only [List.length_cons] at hfuel
    show Document.members (fuel + 1) _ (_ :: _) = _
    rw [← members_dropBlanks, dropBlanks_cons hblank, members_dropBlanks]
    exact ih (by omega) ends
  | null => exact value_null fuel rest
  | bool content => exact value_bool fuel content rest
  | number negative hwhole hzero hfraction hexponent =>
    have hread := unsignedNumber_written negative hwhole hzero hfraction hexponent ends
    simp only [List.append_assoc]
    cases negative with
    | true => exact hread
    | false =>
      obtain ⟨c, more, rfl⟩ := List.exists_cons_of_ne_nil hwhole.1
      exact (value_of_digit fuel (hwhole.2 c List.mem_cons_self) _).trans hread
  | string h => exact value_string fuel h rest
  | array h ih =>
    simp only [List.length_cons, Part.slack] at hfuel ih
    obtain ⟨fuel, rfl⟩ := Nat.exists_eq_add_one_of_ne_zero (show fuel ≠ 0 by omega)
    exact value_array (ih (by omega) ends)
  | object h ih =>
    simp only [List.length_cons, Part.slack] at hfuel ih
    obtain ⟨fuel, rfl⟩ := Nat.exists_eq_add_one_of_ne_zero (show fuel ≠ 0 by omega)
    exact value_object (ih (by omega) ends)
  | itemsEnd first => exact items_end fuel first rest
  | itemsFirst h ih =>
    have hpos := h.pos
    simp only [Part.slack] at hfuel ih
    obtain ⟨fuel, rfl⟩ := Nat.exists_eq_add_one_of_ne_zero (show fuel ≠ 0 by omega)
    exact items_first (ih (by omega) ends)
  | itemsNext h ih =>
    simp only [List.length_cons, Part.slack] at hfuel ih
    obtain ⟨fuel, rfl⟩ := Nat.exists_eq_add_one_of_ne_zero (show fuel ≠ 0 by omega)
    exact items_next (ih (by omega) ends)
  | item h hrest ih ihrest =>
    have hpos := h.pos
    have hmore := hrest.pos
    simp only [List.length_append, Part.slack] at hfuel ih ihrest
    obtain ⟨fuel, rfl⟩ := Nat.exists_eq_add_one_of_ne_zero (show fuel ≠ 0 by omega)
    rw [List.append_assoc]
    exact itemsFrom_cons (ih (by omega) (hrest.ends rfl rest)) (ihrest (by omega) ends)
  | membersEnd first => exact members_end fuel first rest
  | membersFirst h ih =>
    have hpos := h.pos
    simp only [Part.slack] at hfuel ih
    obtain ⟨fuel, rfl⟩ := Nat.exists_eq_add_one_of_ne_zero (show fuel ≠ 0 by omega)
    exact members_first (ih (by omega) ends)
  | membersNext hblanks h ih =>
    simp only [List.length_cons, List.length_append, Part.slack] at hfuel ih
    obtain ⟨fuel, rfl⟩ := Nat.exists_eq_add_one_of_ne_zero (show fuel ≠ 0 by omega)
    rw [List.cons_append, List.append_assoc]
    exact members_next hblanks (ih (by omega) ends)
  | member hname hblanks h hrest ih ihrest =>
    have hmore := hrest.pos
    simp only [List.length_cons, List.length_append, Part.slack] at hfuel ih ihrest
    obtain ⟨fuel, rfl⟩ := Nat.exists_eq_add_one_of_ne_zero (show fuel ≠ 0 by omega)
    simp only [List.cons_append, List.append_assoc]
    exact membersFrom_cons hname hblanks (ih (by omega) (hrest.ends rfl rest))
      (ihrest (by omega) ends)

def Writes (text : String) (document : Document) : Prop :=
  ∃ body blanks, text.toList = body ++ blanks ∧ Written (.value document) body ∧ Blanks blanks

/-- All that decides how a text is decoded is the document in it. -/
theorem decode_of_writes {α : Type} {text : String} {document : Document}
    (h : Writes text document) (convert : Document → Except Flaw α) :
    decode text convert = convert document := by
  obtain ⟨body, blanks, htext, hbody, hblanks⟩ := h
  have hread : value (4 * text.toList.length + 4) text.toList = (document, some blanks) := by
    rw [htext]
    refine hbody.reads ?_ fun c hmem => .inl (hblanks c (List.mem_of_mem_head? hmem))
    rw [List.length_append]
    show 4 * body.length + 0 ≤ _
    omega
  have hnothing : dropBlanks blanks = [] := by
    rw [← List.append_nil blanks, dropBlanks_append hblanks]
    rfl
  rw [decode, hread]
  dsimp only
  cases convert document with
  | error flaw => rfl
  | ok result => simp [hnothing, bind, Except.bind, pure, Except.pure]

def Part.Sound : Part → Prop
  | .value document => skip document = .ok ()
  | .items _ found | .itemsFrom found => skipItems found = .ok ()
  | .members _ found | .membersFrom found => skipMembers found = .ok ()

theorem Written.sound {part : Part} {text : List Char} (h : Written part text) : part.Sound := by
  induction h with
  | blank _ _ ih | itemsBlank _ _ ih | membersBlank _ _ ih | itemsFirst _ ih | itemsNext _ ih
  | membersFirst _ ih | membersNext _ _ ih => exact ih
  | null | bool | number | string | itemsEnd | membersEnd => rfl
  | array _ ih =>
    simp only [Part.Sound] at ih ⊢
    rw [skip, ih]
    rfl
  | object _ ih =>
    simp only [Part.Sound] at ih ⊢
    rw [skip, ih]
    rfl
  | item _ _ ih ihrest =>
    simp only [Part.Sound] at ih ihrest ⊢
    rw [skipItems, ih, ihrest]
    rfl
  | member _ _ _ _ ih ihrest =>
    simp only [Part.Sound] at ih ihrest ⊢
    rw [skipMembers, ih, ihrest]
    rfl

end ModelBundle.Document
