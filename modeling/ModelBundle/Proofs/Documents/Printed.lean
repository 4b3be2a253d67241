import ModelBundle.Document.Text
import ModelBundle.Proofs.Documents.Meaning

/-!
What is printed can be read, and says what it was made of.
-/

namespace ModelBundle.Document

theorem Written.blanks {document : Document} {blanks text : List Char} (hblanks : Blanks blanks)
    (h : Written (.value document) text) : Written (.value document) (blanks ++ text) := by
  induction blanks with
  | nil => exact h
  | cons c blanks ih =>
    obtain ⟨hc, hblanks⟩ := List.forall_mem_cons.mp hblanks
    exact .blank hc (ih hblanks)

theorem Written.itemsBlanks {first : Bool} {items : List Document} {blanks text : List Char}
    (hblanks : Blanks blanks) (h : Written (.items first items) text) :
    Written (.items first items) (blanks ++ text) := by
  induction blanks with
  | nil => exact h
  | cons c blanks ih =>
    obtain ⟨hc, hblanks⟩ := List.forall_mem_cons.mp hblanks
    exact .itemsBlank hc (ih hblanks)

theorem Written.membersBlanks {first : Bool} {members : List (Quoted × Document)}
    {blanks text : List Char} (hblanks : Blanks blanks)
    (h : Written (.members first members) text) :
    Written (.members first members) (blanks ++ text) := by
  induction blanks with
  | nil => exact h
  | cons c blanks ih =>
    obtain ⟨hc, hblanks⟩ := List.forall_mem_cons.mp hblanks
    exact .membersBlank hc (ih hblanks)

def WrittenMember (member : Quoted × Document) (text : List Char) : Prop :=
  ∃ name content, member.1.flaw = none ∧ Quotes member.1.pieces name ∧
    Written (.value member.2) content ∧ text = '"' :: (name ++ ':' :: ' ' :: content)

theorem intercalate_cons (separator text : List Char) (texts : List (List Char)) :
    separator.intercalate (text :: texts) = text ++ texts.flatMap (separator ++ ·) := by
  induction texts generalizing text with
  | nil => simp
  | cons next texts ih => rw [List.intercalate_cons_cons, ih, List.flatMap_cons]; simp

section Separated

variable {between behind : List Char}

theorem written_items (hbetween : Blanks between) (hbehind : Blanks behind) {items : List Document}
    {texts : List (List Char)}
    (h : List.Forall₂ (fun item text => Written (.value item) text) items texts) :
    Written (.items false items) (texts.flatMap (',' :: between ++ ·) ++ (behind ++ [']'])) := by
  induction h with
  | nil =>
    have hend : Written (.items false []) (behind ++ [']']) :=
      .itemsBlanks hbehind (.itemsEnd false)
    exact hend
  | cons hitem _ ih =>
    have hnext := Written.item (.blanks hbetween hitem) ih
    simpa using Written.itemsNext hnext

theorem written_members (hbetween : Blanks between) (hbehind : Blanks behind)
    {members : List (Quoted × Document)} {texts : List (List Char)}
    (h : List.Forall₂ WrittenMember members texts) :
    Written (.members false members)
      (texts.flatMap (',' :: between ++ ·) ++ (behind ++ ['}'])) := by
  induction h with
  | nil =>
    have hend : Written (.members false []) (behind ++ ['}']) :=
      .membersBlanks hbehind (.membersEnd false)
    exact hend
  | @cons member _ members _ hmember _ ih =>
    obtain ⟨⟨pieces, flaw⟩, document⟩ := member
    obtain ⟨name, content, rfl, hname, hcontent, rfl⟩ := hmember
    have hnext := Written.member hname (show Blanks [] from nofun)
      (hcontent.blank (show isBlank ' ' = true from rfl)) ih
    simpa using Written.membersNext hbetween hnext

end Separated

namespace Content

mutual

/-- What a document says that is made of this. -/
def Tells : Content → Document → Prop
  | null, document => document = .null
  | bool value, document => document = .bool value
  | number n, document => document.IsNatural n
  | string text, document => document.IsText text
  | list contents, document => ∃ items, document = .array items none ∧ TellItems contents items
  | record contents, document =>
    ∃ members, document = .object members none none ∧ TellMembers contents members

def TellItems : List Content → List Document → Prop
  | [], items => items = []
  | content :: contents, items =>
    ∃ item rest, items = item :: rest ∧ Tells content item ∧ TellItems contents rest

def TellMembers : List (String × Content) → List (Quoted × Document) → Prop
  | [], members => members = []
  | (name, content) :: contents, members => ∃ quoted document rest,
    members = (quoted, document) :: rest ∧ quoted.Spells name ∧ Tells content document ∧
      TellMembers contents rest

end

theorem blanks_newLine (depth : Nat) : Blanks (newLine depth).toList := by
  intro c hmem
  simp only [newLine, String.toList_append, String.toList_ofList, List.mem_append,
    List.mem_replicate] at hmem
  rcases hmem with hmem | ⟨-, rfl⟩
  · obtain rfl : c = '\n' := by simpa using hmem
    rfl
  · rfl

theorem eq_zero_of_head?_toDigits {n : Nat} (h : (Nat.toDigits 10 n).head? = some '0') : n = 0 := by
  induction n using Nat.strong_induction_on with
  | _ n ih =>
    rcases Nat.lt_or_ge n 10 with hlt | hge
    · rw [Nat.toDigits_of_lt_base hlt] at h
      have hfirst : ∀ n < 10, Nat.digitChar n = '0' → n = 0 := by decide
      exact hfirst n hlt (Option.some.inj h)
    · rw [Nat.toDigits_of_base_le (by decide) hge] at h
      have hne : Nat.toDigits 10 (n / 10) ≠ [] := Nat.toDigits_ne_nil
      rw [List.head?_append_of_ne_nil _ hne] at h
      have := ih (n / 10) (by omega) h
      omega

theorem ofDigits_digitValue (digits : List Char) (before : Nat) :
    ofDigits before (digits.map digitValue) = Nat.ofDigitChars 10 digits before := by
  induction digits generalizing before with
  | nil => rfl
  | cons c digits ih => simp [ih, Nat.ofDigitChars_cons, digitValue]

theorem written_number (n : Nat) :
    ∃ document, Written (.value document) (toString n).toList ∧ document.IsNatural n := by
  have hdigits : Digits (Nat.toDigits 10 n) :=
    ⟨Nat.toDigits_ne_nil, fun _ h => Nat.isDigit_of_mem_toDigits (by decide) (by decide) h⟩
  have hzero : (Nat.toDigits 10 n).head? = some '0' → (Nat.toDigits 10 n).length = 1 := by
    intro h
    rw [eq_zero_of_head?_toDigits h]
    rfl
  have written := Written.number false hdigits hzero .none .none
  have whole : Numeral.IsWhole ⟨false, (Nat.toDigits 10 n).map digitValue, none, none⟩ false n :=
    ⟨rfl, rfl, rfl, (ofDigits_digitValue _ 0).trans Nat.ofDigitChars_ten_toDigits⟩
  refine ⟨_, ?_, _, rfl, whole⟩
  show Written _ n.repr.toList
  rw [Nat.toList_repr]
  simpa using written

theorem unitCode?_hexDigit {n : Nat} (h : n < 32) :
    unitCode? '0' '0' (hexDigit (n / 16)) (hexDigit (n % 16)) = some n := by
  have hall : ∀ n < 32, unitCode? '0' '0' (hexDigit (n / 16)) (hexDigit (n % 16)) = some n := by
    decide
  exact hall n h

theorem quotes_escape (c : Char) : ∃ piece, (∀ {pieces text}, Spells pieces text →
      Spells (piece :: pieces) (c :: text)) ∧
    ∀ {pieces text}, Quotes pieces text → Quotes (piece :: pieces) (escape c ++ text) := by
  by_cases hletter : ∃ letter, escape c = ['\\', letter] ∧ escape? letter = some c
  · obtain ⟨letter, hescape, hmeaning⟩ := hletter
    exact ⟨.char c, .char c, fun h => hescape ▸ .escape hmeaning h⟩
  · by_cases hcontrol : c.toNat < 32
    · have hescape : escape c = ['\\', 'u', '0', '0', hexDigit (c.toNat / 16),
          hexDigit (c.toNat % 16)] := by
        unfold escape at hletter ⊢
        split_ifs at hletter ⊢
        all_goals first | rfl | simp_all [escape?]
      refine ⟨.unit c.toNat, fun h => ?_, fun h => hescape ▸ .unit (unitCode?_hexDigit hcontrol) h⟩
      have hunit := Spells.unit (.inl (show c.toNat < 0xd800 by omega)) h
      rwa [Char.ofNat_toNat] at hunit
    · have hplain : c ≠ '"' ∧ c ≠ '\\' ∧ escape c = [c] := by
        unfold escape at hletter ⊢
        split_ifs at hletter ⊢
        all_goals simp_all [escape?]
      obtain ⟨hquote, hslash, hescape⟩ := hplain
      exact ⟨.char c, .char c, fun h => hescape ▸ .plain hquote hslash (Nat.not_lt.mp hcontrol) h⟩

theorem quotes_quote (text : List Char) :
    ∃ pieces, Spells pieces text ∧ Quotes pieces (text.flatMap escape ++ ['"']) := by
  induction text with
  | nil => exact ⟨[], .nil, .close⟩
  | cons c text ih =>
    obtain ⟨pieces, spells, quotes⟩ := ih
    obtain ⟨piece, hspells, hquotes⟩ := quotes_escape c
    refine ⟨piece :: pieces, hspells spells, ?_⟩
    rw [List.flatMap_cons, List.append_assoc]
    exact hquotes quotes

theorem toList_quote (text : String) :
    (quote text).toList = '"' :: (text.toList.flatMap escape ++ ['"']) := by
  simp [quote]

theorem toList_enclosed (opening closing : Char) (depth : Nat) (piece : String)
    (pieces : List String) :
    (enclosed (String.singleton opening) (String.singleton closing) depth
        (piece :: pieces)).toList =
      opening :: ((newLine (depth + 1)).toList ++ piece.toList ++
        ((pieces.map String.toList).flatMap (',' :: (newLine (depth + 1)).toList ++ ·) ++
          ((newLine depth).toList ++ [closing]))) := by
  simp [enclosed, String.toList_intercalate, intercalate_cons]

theorem written_list (depth : Nat) {items : List Document} {pieces : List String}
    (h : List.Forall₂ (fun item text => Written (.value item) text) items
      (pieces.map String.toList)) :
    Written (.value (.array items none)) (enclosed "[" "]" depth pieces).toList := by
  cases pieces with
  | nil =>
    cases h
    have htext : (enclosed "[" "]" depth []).toList = ['[', ']'] := by simp [enclosed]
    exact htext ▸ .array (.itemsEnd true)
  | cons piece pieces =>
    cases h with
    | cons hitem hrest =>
      have hnext := written_items (blanks_newLine (depth + 1)) (blanks_newLine depth) hrest
      have hfirst := Written.item (hitem.blanks (blanks_newLine (depth + 1))) hnext
      rw [show "[" = String.singleton '[' from rfl, show "]" = String.singleton ']' from rfl,
        toList_enclosed]
      exact .array (.itemsFirst hfirst)

theorem written_record (depth : Nat) {members : List (Quoted × Document)} {pieces : List String}
    (h : List.Forall₂ WrittenMember members (pieces.map String.toList)) :
    Written (.value (.object members none none))
      (enclosed "\x7b" "\x7d" depth pieces).toList := by
  cases pieces with
  | nil =>
    cases h
    have htext : (enclosed "\x7b" "\x7d" depth []).toList = ['{', '}'] := by simp [enclosed]
    exact htext ▸ .object (.membersEnd true)
  | cons piece pieces =>
    rw [List.map_cons] at h
    cases h with
    | @cons member _ _ _ hmember hrest =>
      obtain ⟨⟨spelled, flaw⟩, document⟩ := member
      obtain ⟨name, content, rfl, hname, hcontent, htext⟩ := hmember
      have hnext := written_members (blanks_newLine (depth + 1)) (blanks_newLine depth) hrest
      have hfirst := Written.member hname (show Blanks [] from nofun)
        (hcontent.blank (show isBlank ' ' = true from rfl)) hnext
      rw [show "\x7b" = String.singleton '{' from rfl, show "\x7d" = String.singleton '}' from rfl,
        toList_enclosed, htext]
      have hmembers := (Written.membersFirst hfirst).membersBlanks (blanks_newLine (depth + 1))
      simpa using Written.object hmembers

mutual

theorem written_printAt (depth : Nat) (content : Content) :
    ∃ document, Written (.value document) (printAt depth content).toList ∧
      content.Tells document := by
  cases content with
  | null => exact ⟨.null, .null, rfl⟩
  | bool value =>
    refine ⟨.bool value, ?_, rfl⟩
    have written := Written.bool value
    cases value <;> exact written
  | number n => exact written_number n
  | string text =>
    obtain ⟨pieces, spells, quotes⟩ := quotes_quote text.toList
    refine ⟨.string ⟨pieces, none⟩, ?_, _, rfl, ⟨rfl, spells⟩⟩
    rw [printAt, toList_quote]
    exact .string quotes
  | list contents =>
    obtain ⟨items, written, tell⟩ := written_printItems (depth + 1) contents
    exact ⟨.array items none, written_list depth written, items, rfl, tell⟩
  | record contents =>
    obtain ⟨members, written, tell⟩ := written_printMembers (depth + 1) contents
    exact ⟨.object members none none, written_record depth written, members, rfl, tell⟩

theorem written_printItems (depth : Nat) (contents : List Content) :
    ∃ items, List.Forall₂ (fun item text => Written (.value item) text) items
        ((printItems depth contents).map String.toList) ∧ TellItems contents items := by
  cases contents with
  | nil => exact ⟨[], .nil, rfl⟩
  | cons content contents =>
    obtain ⟨document, written, tells⟩ := written_printAt depth content
    obtain ⟨items, rest, tell⟩ := written_printItems depth contents
    exact ⟨document :: items, .cons written rest, document, items, rfl, tells, tell⟩

theorem written_printMembers (depth : Nat) (contents : List (String × Content)) :
    ∃ members, List.Forall₂ WrittenMember members
        ((printMembers depth contents).map String.toList) ∧ TellMembers contents members := by
  match contents with
  | [] => exact ⟨[], .nil, rfl⟩
  | (name, content) :: contents =>
    obtain ⟨document, written, tells⟩ := written_printAt depth content
    obtain ⟨members, rest, tell⟩ := written_printMembers depth contents
    obtain ⟨pieces, spells, quotes⟩ := quotes_quote name.toList
    refine ⟨(⟨pieces, none⟩, document) :: members, .cons ?_ rest,
      _, document, members, rfl, ⟨rfl, spells⟩, tells, tell⟩
    refine ⟨_, _, rfl, quotes, written, ?_⟩
    simp [toList_quote]

end

/-- A text that is printed is a document that says what was to be printed. -/
theorem writes_print (content : Content) :
    ∃ document, Writes content.print document ∧ content.Tells document := by
  obtain ⟨document, written, tells⟩ := written_printAt 0 content
  exact ⟨document, ⟨_, [], (List.append_nil _).symm, written, nofun⟩, tells⟩

end Content

end ModelBundle.Document
