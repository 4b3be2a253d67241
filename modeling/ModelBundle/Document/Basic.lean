import ModelBundle.Number

/-!
Documents and what is read from them: numbers, values of one kind, records.  A numeral is kept
digit by digit; its value is a word if it is whole and small enough, and a double otherwise.  The
double is the significand, cut to a word, times or divided by one power of ten, so it may differ
from the nearest one by a rounding.
-/

namespace ModelBundle.Document

/-- Why a text is not the document that was asked for. -/
inductive Flaw where
  | malformed
  /-- It is one of another form: a wrong kind or range of value, a field given twice. -/
  | unfit
  | cutOff
deriving DecidableEq, Repr

structure Numeral where
  negative : Bool
  whole : List Nat
  fraction : Option (List Nat)
  /-- Whether the exponent is negative, and its digits. -/
  exponent : Option (Bool × List Nat)
deriving DecidableEq, Repr

inductive Quantity where
  | unsigned (n : UInt64)
  | negative (magnitude : Nat)
  | real (negative : Bool) (magnitude : Number.BinaryValue)
deriving DecidableEq, Repr

namespace Numeral

open Number (BinaryValue BinaryFormat tenTo)

structure Scaled where
  significand : Nat
  exponent : Int

def wordLimit : Nat := UInt64.size

/-- Takes digits in as long as the significand fits a word; the others only count. -/
def takeWhole (significand : Nat) : List Nat → Scaled
  | [] => ⟨significand, 0⟩
  | digit :: rest =>
    if significand * 10 + digit < wordLimit then takeWhole (significand * 10 + digit) rest
    else ⟨significand, (digit :: rest).length⟩

def takeFraction (start : Scaled) : List Nat → Scaled
  | [] => start
  | digit :: rest =>
    if start.significand * 10 + digit < wordLimit then
      takeFraction ⟨start.significand * 10 + digit, start.exponent - 1⟩ rest
    else start

def exponentValue : Option (Bool × List Nat) → Int
  | none => 0
  | some (negative, digits) =>
    let n : Int := (digits.foldl (fun value digit => 10 * value + digit) 0 : Nat)
    if negative then -n else n

def scaled (n : Numeral) : Scaled :=
  let s := takeFraction (takeWhole 0 n.whole) (n.fraction.getD [])
  ⟨s.significand, s.exponent + exponentValue n.exponent⟩

def greatestPower : Nat := 308

def power (exponent : Nat) : BinaryValue :=
  (BinaryFormat.double.round (tenTo exponent) 1).getD ⟨0, 0⟩

def scaleDown : (steps : Nat) → BinaryValue → Option BinaryValue
  | 0, value => some value
  | steps + 1, value =>
    if value.significand = 0 then some value
    else (BinaryValue.div BinaryFormat.double value (power greatestPower)).bind (scaleDown steps)

/-- Scales a double by a power of ten, in steps of the greatest one if need be.  There is no
result when it would be infinite. -/
def scale (value : BinaryValue) (exponent : Int) : Option BinaryValue :=
  let size := exponent.natAbs
  if 0 ≤ exponent then
    if size ≤ greatestPower then BinaryValue.mul BinaryFormat.double value (power size)
    else if value.significand = 0 then some value
    else none
  else
    let steps := (size - 1) / greatestPower
    (scaleDown steps value).bind fun value =>
      BinaryValue.div BinaryFormat.double value (power (size - steps * greatestPower))

def real (negative : Bool) (s : Scaled) : Except Flaw Quantity :=
  match (BinaryFormat.double.round s.significand 1).bind fun value => scale value s.exponent with
  | some value => .ok (.real negative value)
  | none => .error .malformed

def negativeLimit : Nat := 1 <<< 63

/-- What a numeral stands for.  One that no double can hold is refused. -/
def quantity (n : Numeral) : Except Flaw Quantity :=
  let s := n.scaled
  if n.fraction.isSome || n.exponent.isSome || s.exponent ≠ 0 then real n.negative s
  else if !n.negative then .ok (.unsigned (.ofNat s.significand))
  else if 0 < s.significand && s.significand ≤ negativeLimit then .ok (.negative s.significand)
  else real true s

end Numeral

namespace Quantity

def below? (limit : Nat) : Quantity → Option Nat
  | unsigned n => if n.toNat < limit then some n.toNat else none
  | _ => none

def int32Limit : Nat := 1 <<< 31

def int32? : Quantity → Option Int32
  | unsigned n => if n.toNat < int32Limit then some (.ofNat n.toNat) else none
  | negative magnitude =>
    if magnitude ≤ int32Limit then some (.ofInt (-(magnitude : Int))) else none
  | real .. => none

def single : Quantity → Number.Single
  | unsigned n => .ofNat n.toNat
  | negative magnitude => .ofRatio true magnitude 1
  | real isNegative magnitude => .ofRatio isNegative magnitude.num magnitude.den

end Quantity

end ModelBundle.Document

/-!
Documents in JSON, as read from a text.  Reading never fails: where the text goes wrong the tree
has a mark, and nothing comes after it.  Whoever walks the tree in order meets the faults of the
text and the values that do not fit in the order in which they stand.
-/

namespace ModelBundle

namespace Document

inductive Piece where
  | char (c : Char)
  /-- A unit of sixteen bits, written by its code. -/
  | unit (code : Nat)
deriving DecidableEq, Repr

structure Quoted where
  pieces : List Piece
  flaw : Option Flaw
deriving DecidableEq, Repr

/-- What pieces spell.  Units above the basic plane come in pairs, a leading and a trailing one. -/
def spell (flaw : Option Flaw) : List Piece → Except Flaw (List Char)
  | [] =>
    match flaw with
    | none => .ok []
    | some flaw => .error flaw
  | .char c :: rest => (c :: ·) <$> spell flaw rest
  | .unit code :: rest =>
    if code < 0xd800 || 0xe000 ≤ code then (Char.ofNat code :: ·) <$> spell flaw rest
    else if 0xdc00 ≤ code then .error .malformed
    else match rest with
      | [] => .error (flaw.getD .malformed)
      | .unit trail :: rest =>
        if 0xdc00 ≤ trail && trail < 0xe000 then
          let whole := 0x10000 + (code - 0xd800) * 0x400 + (trail - 0xdc00)
          (Char.ofNat whole :: ·) <$> spell flaw rest
        else .error .malformed
      | _ => .error .malformed

def Quoted.text (quoted : Quoted) : Except Flaw String :=
  String.ofList <$> spell quoted.flaw quoted.pieces

end Document

inductive Document where
  | null
  | bool (value : Bool)
  | number (numeral : Document.Numeral)
  | string (quoted : Document.Quoted)
  /-- An array; it may go wrong after its last item. -/
  | array (items : List Document) (flaw : Option Document.Flaw)
  /-- An object; it may go wrong after its last member.  If it goes wrong at once because
  something else than a name stands there, that is kept. -/
  | object (members : List (Document.Quoted × Document)) (flaw : Option Document.Flaw)
      (misplaced : Option Document)
  | broken (flaw : Document.Flaw)
  | brokenNumber
deriving Repr

namespace Document

def ending : Option Flaw → Except Flaw Unit
  | none => .ok ()
  | some flaw => .error flaw

mutual

/-- Passes over a document that nobody asked for.  Its form must be right; how large its numbers
are and what its texts spell does not matter. -/
def skip : Document → Except Flaw Unit
  | null | bool _ | number _ => .ok ()
  | string quoted => ending quoted.flaw
  | array items flaw => do
    skipItems items
    ending flaw
  | object members flaw _ => do
    skipMembers members
    ending flaw
  | broken flaw => .error flaw
  | brokenNumber => .error .malformed

def skipItems : List Document → Except Flaw Unit
  | [] => .ok ()
  | item :: rest => do
    skip item
    skipItems rest

def skipMembers : List (Quoted × Document) → Except Flaw Unit
  | [] => .ok ()
  | (name, value) :: rest => do
    ending name.flaw
    skip value
    skipMembers rest

end

/-- The flaw of a document where another kind of value was wanted.  The value itself must be
sound for that; what is inside an array or an object is not looked at. -/
def mismatch : Document → Flaw
  | number numeral =>
    match numeral.quantity with
    | .ok _ => .unfit
    | .error flaw => flaw
  | string quoted =>
    match quoted.text with
    | .ok _ => .unfit
    | .error flaw => flaw
  | broken flaw => flaw
  | brokenNumber => .cutOff
  | null | bool _ | array .. | object .. => .unfit

/-! Reading values of one kind. -/

def asBool : Document → Except Flaw Bool
  | bool value => .ok value
  | other => .error other.mismatch

def asText : Document → Except Flaw String
  | string quoted => quoted.text
  | other => .error other.mismatch

def optionalText : Document → Except Flaw (Option String)
  | null => .ok none
  | other => some <$> asText other

def quantity (document : Document) : Except Flaw Quantity :=
  match document with
  | number numeral => numeral.quantity
  | other => .error other.mismatch

def fitting {α : Type} (convert : Quantity → Option α) (document : Document) :
    Except Flaw α := do
  match convert (← document.quantity) with
  | some value => .ok value
  | none => .error .unfit

def word32 (document : Document) : Except Flaw UInt32 :=
  UInt32.ofNat <$> document.fitting (Quantity.below? UInt32.size)

def word64 (document : Document) : Except Flaw UInt64 :=
  UInt64.ofNat <$> document.fitting (Quantity.below? UInt64.size)

def int32 (document : Document) : Except Flaw Int32 := document.fitting Quantity.int32?

def single (document : Document) : Except Flaw Number.Single :=
  document.fitting fun q => some q.single

def named {α : Type} (lookup : String → Option α) (name : String) : Except Flaw α :=
  match lookup name with
  | some value => .ok value
  | none => .error .unfit

theorem named_eq_ok_iff {α : Type} {lookup : String → Option α} {name : String} {value : α} :
    named lookup name = .ok value ↔ lookup name = some value := by
  unfold named
  cases lookup name <;> simp

/-- One of some names: as a text, or as an object with that one member, which is null. -/
def choice {α : Type} (lookup : String → Option α) : Document → Except Flaw α
  | string quoted => do named lookup (← quoted.text)
  | object [] flaw misplaced =>
    match misplaced with
    | some other => .error other.mismatch
    | none => .error (flaw.getD .malformed)
  | object ((name, content) :: rest) flaw _ => do
    let value ← named lookup (← name.text)
    match content with
    | null => pure ()
    | other => .error other.mismatch
    if rest.isEmpty then ending flaw else .error .malformed
    return value
  | broken flaw => .error flaw
  | _ => .error .malformed

end Document

end ModelBundle

/-!
Records in documents.  A record starts from its default value and takes over the fields that a
document gives: by name in any order, each at most once, or by position in an array.  Other names
are passed over.
-/

namespace ModelBundle.Document

structure FieldOf (σ : Type) where
  name : String
  read : Document → Except Flaw (σ → σ)

def field {σ α : Type} (name : String) (read : Document → Except Flaw α) (store : σ → α → σ) :
    FieldOf σ where
  name
  read document := do
    let value ← read document
    return fun record => store record value

variable {σ : Type}

/-- Takes over members one after the other; `seen` holds the names of fields given before. -/
def takeMembers (fields : List (FieldOf σ)) (flaw : Option Flaw) (seen : List String) (record : σ) :
    List (Quoted × Document) → Except Flaw σ
  | [] => do
    ending flaw
    return record
  | (quoted, value) :: rest => do
    let name ← quoted.text
    match fields.find? (·.name = name) with
    | none =>
      skip value
      takeMembers fields flaw seen record rest
    | some field =>
      if seen.contains name then .error .unfit
      else
        let change ← field.read value
        takeMembers fields flaw (name :: seen) (change record) rest

def takeItems (flaw : Option Flaw) (record : σ) :
    List (FieldOf σ) → List Document → Except Flaw σ
  | _, [] => do
    ending flaw
    return record
  | [], _ :: _ => .error .malformed
  | field :: fields, item :: rest => do
    let change ← field.read item
    takeItems flaw (change record) fields rest

def record (fields : List (FieldOf σ)) (default : σ) : Document → Except Flaw σ
  | object members flaw _ => takeMembers fields flaw [] default members
  | array items flaw => takeItems flaw default fields items
  | other => .error other.mismatch

end ModelBundle.Document
