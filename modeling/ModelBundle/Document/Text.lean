import ModelBundle.Document.Basic

/-!
From a text to a document.  Blanks, literals, numbers, quoted texts, arrays and objects are read
from left to right; reading stops at the first place where the text goes wrong.
-/

namespace ModelBundle.Document

def isBlank (c : Char) : Bool := c = ' ' || c = '\n' || c = '\t' || c = '\r'

def dropBlanks (text : List Char) : List Char := text.dropWhile isBlank

abbrev Rest := Option (List Char)

/-! Literals and numbers. -/

def word (expected text : List Char) : Except Flaw (List Char) :=
  match expected, text with
  | [], rest => .ok rest
  | _ :: _, [] => .error .cutOff
  | e :: expected, c :: rest => if c = e then word expected rest else .error .malformed

def literal (value : Document) (expected : String) (text : List Char) : Document × Rest :=
  match word expected.toList text with
  | .ok rest => (value, some rest)
  | .error flaw => (broken flaw, none)

def digitValue (c : Char) : Nat := c.toNat - 48

def digits (text : List Char) : List Nat × List Char :=
  ((text.takeWhile Char.isDigit).map digitValue, text.dropWhile Char.isDigit)

def someDigits (text : List Char) : Except Document (List Nat × List Char) :=
  match digits text with
  | ([], []) => .error brokenNumber
  | ([], _) => .error (broken .malformed)
  | found => .ok found

def fractionPart : List Char → Except Document (Option (List Nat) × List Char)
  | '.' :: rest => (fun found => (some found.1, found.2)) <$> someDigits rest
  | rest => .ok (none, rest)

def exponentDigits (negative : Bool) (text : List Char) :
    Except Document (Option (Bool × List Nat) × List Char) :=
  (fun found => (some (negative, found.1), found.2)) <$> someDigits text

def exponentPart : List Char → Except Document (Option (Bool × List Nat) × List Char)
  | mark :: rest =>
    if mark = 'e' || mark = 'E' then
      match rest with
      | '-' :: rest => exponentDigits true rest
      | '+' :: rest => exponentDigits false rest
      | rest => exponentDigits false rest
    else .ok (none, mark :: rest)
  | [] => .ok (none, [])

def unsignedNumber (negative : Bool) (text : List Char) : Document × Rest :=
  let read : Except Document (Numeral × List Char) := do
    let (whole, rest) ← someDigits text
    if whole.head? = some 0 && 1 < whole.length then .error (broken .malformed)
    let (fraction, rest) ← fractionPart rest
    let (exponent, rest) ← exponentPart rest
    return (⟨negative, whole, fraction, exponent⟩, rest)
  match read with
  | .ok (numeral, rest) => (number numeral, some rest)
  | .error mark => (mark, none)

/-! Quoted texts. -/

def hexValue? (c : Char) : Option Nat :=
  if '0' ≤ c && c ≤ '9' then some (c.toNat - 48)
  else if 'a' ≤ c && c ≤ 'f' then some (c.toNat - 87)
  else if 'A' ≤ c && c ≤ 'F' then some (c.toNat - 55)
  else none

def unitCode? (a b c d : Char) : Option Nat := do
  let a ← hexValue? a
  let b ← hexValue? b
  let c ← hexValue? c
  let d ← hexValue? d
  pure (((a * 16 + b) * 16 + c) * 16 + d)

def escape? (c : Char) : Option Char :=
  if c = '"' || c = '\\' || c = '/' then some c
  else if c = 'b' then some '\x08'
  else if c = 'f' then some '\x0c'
  else if c = 'n' then some '\n'
  else if c = 'r' then some '\r'
  else if c = 't' then some '\t'
  else none

private def stop (flaw : Flaw) : Quoted × Rest := (⟨[], some flaw⟩, none)

private def add (piece : Piece) (read : Quoted × Rest) : Quoted × Rest :=
  (⟨piece :: read.1.pieces, read.1.flaw⟩, read.2)

/-- The flaw of a unit code that is not complete: four bytes decide whether the text was long
enough. -/
private def codeFlaw (text : List Char) : Flaw :=
  if (String.ofList text).utf8ByteSize < 4 then .cutOff else .malformed

def quoted : List Char → Quoted × Rest
  | [] => stop .cutOff
  | '"' :: rest => (⟨[], none⟩, some rest)
  | '\\' :: 'u' :: a :: b :: c :: d :: rest =>
    match unitCode? a b c d with
    | some code => add (.unit code) (quoted rest)
    | none => stop .malformed
  | '\\' :: 'u' :: rest => stop (codeFlaw rest)
  | '\\' :: c :: rest =>
    match escape? c with
    | some c => add (.char c) (quoted rest)
    | none => stop .malformed
  | '\\' :: [] => stop .cutOff
  | c :: rest => if c.toNat < 32 then stop .malformed else add (.char c) (quoted rest)

/-! Values.  The fuel bounds the length of what is read. -/

mutual

def value : (fuel : Nat) → List Char → Document × Rest
  | 0, _ => (broken .malformed, none)
  | fuel + 1, text =>
    match dropBlanks text with
    | [] => (broken .cutOff, none)
    | 'n' :: rest => literal null "ull" rest
    | 't' :: rest => literal (bool true) "rue" rest
    | 'f' :: rest => literal (bool false) "alse" rest
    | '-' :: rest => unsignedNumber true rest
    | '"' :: rest =>
      let read := quoted rest
      (string read.1, read.2)
    | '[' :: rest =>
      let (found, flaw, rest) := items fuel true rest
      (array found flaw, rest)
    | '{' :: rest =>
      match dropBlanks rest with
      | '"' :: _ | '}' :: _ | [] =>
        let (found, flaw, rest) := members fuel true rest
        (object found flaw none, rest)
      | other => (object [] (some .malformed) (some (value fuel other).1), none)
    | c :: rest => if c.isDigit then unsignedNumber false (c :: rest) else (broken .malformed, none)

def items : (fuel : Nat) → (first : Bool) → List Char → List Document × Option Flaw × Rest
  | 0, _, _ => ([], some .malformed, none)
  | fuel + 1, first, text =>
    match dropBlanks text with
    | [] => ([], some .cutOff, none)
    | ']' :: rest => ([], none, some rest)
    | c :: rest =>
      if first then itemsFrom fuel (c :: rest)
      else if c = ',' then itemsFrom fuel rest
      else ([], some .malformed, none)

def itemsFrom : (fuel : Nat) → List Char → List Document × Option Flaw × Rest
  | 0, _ => ([], some .malformed, none)
  | fuel + 1, text =>
    match value fuel text with
    | (item, none) => ([item], none, none)
    | (item, some rest) =>
      let (found, flaw, rest) := items fuel false rest
      (item :: found, flaw, rest)

def members : (fuel : Nat) → (first : Bool) → List Char →
    List (Quoted × Document) × Option Flaw × Rest
  | 0, _, _ => ([], some .malformed, none)
  | fuel + 1, first, text =>
    match dropBlanks text with
    | [] => ([], some .cutOff, none)
    | '}' :: rest => ([], none, some rest)
    | c :: rest =>
      if first then membersFrom fuel (c :: rest)
      else if c = ',' then membersFrom fuel (dropBlanks rest)
      else ([], some .malformed, none)

/-- One member and what follows it.  Where the text ends in place of a member, one without a name
stands for it, so that the comma in front of it is not lost. -/
def membersFrom : (fuel : Nat) → List Char → List (Quoted × Document) × Option Flaw × Rest
  | 0, _ => ([], some .malformed, none)
  | fuel + 1, text =>
    match text with
    | [] => ([(⟨[], some .cutOff⟩, broken .cutOff)], none, none)
    | '"' :: rest =>
      match quoted rest with
      | (name, none) => ([(name, broken .malformed)], none, none)
      | (name, some rest) =>
        match dropBlanks rest with
        | [] => ([(name, broken .cutOff)], none, none)
        | ':' :: rest =>
          match value fuel rest with
          | (content, none) => ([(name, content)], none, none)
          | (content, some rest) =>
            let (found, flaw, rest) := members fuel false rest
            ((name, content) :: found, flaw, rest)
        | _ => ([(name, broken .malformed)], none, none)
    | _ => ([], some .malformed, none)

end

/-- Reads a text that should be one document and nothing else, and hands the document on.  What
follows the document is looked at last. -/
def decode {α : Type} (text : String) (convert : Document → Except Flaw α) : Except Flaw α := do
  let chars := text.toList
  let (document, rest) := value (4 * chars.length + 4) chars
  let result ← convert document
  match rest with
  | some rest => if (dropBlanks rest).isEmpty then return result else .error .malformed
  | none => .error .malformed

/-!
Documents to be written.  Every value stands on lines of its own, two more blanks in than what it
belongs to.
-/

/-- A document as a program builds it: numbers are natural, members keep their order. -/
inductive Content where
  | null
  | bool (value : Bool)
  | number (value : Nat)
  | string (text : String)
  | list (items : List Content)
  | record (members : List (String × Content))

namespace Content

def hexDigit (value : Nat) : Char :=
  if value < 10 then Char.ofNat (48 + value) else Char.ofNat (87 + value)

def escape (c : Char) : List Char :=
  if c = '"' then ['\\', '"']
  else if c = '\\' then ['\\', '\\']
  else if c = '\x08' then ['\\', 'b']
  else if c = '\x0c' then ['\\', 'f']
  else if c = '\n' then ['\\', 'n']
  else if c = '\r' then ['\\', 'r']
  else if c = '\t' then ['\\', 't']
  else if c.toNat < 32 then
    ['\\', 'u', '0', '0', hexDigit (c.toNat / 16), hexDigit (c.toNat % 16)]
  else [c]

def quote (text : String) : String :=
  "\"" ++ String.ofList (text.toList.flatMap escape) ++ "\""

def newLine (depth : Nat) : String := "\n" ++ String.ofList (List.replicate (2 * depth) ' ')

def enclosed (opening closing : String) (depth : Nat) (pieces : List String) : String :=
  if pieces.isEmpty then opening ++ closing
  else opening ++ newLine (depth + 1) ++ String.intercalate ("," ++ newLine (depth + 1)) pieces ++
    newLine depth ++ closing

mutual

def printAt (depth : Nat) : Content → String
  | null => "null"
  | bool value => if value then "true" else "false"
  | number value => toString value
  | string text => quote text
  | list items => enclosed "[" "]" depth (printItems (depth + 1) items)
  | record members => enclosed "\x7b" "\x7d" depth (printMembers (depth + 1) members)

def printItems (depth : Nat) : List Content → List String
  | [] => []
  | item :: rest => printAt depth item :: printItems depth rest

def printMembers (depth : Nat) : List (String × Content) → List String
  | [] => []
  | (name, value) :: rest =>
    (quote name ++ ": " ++ printAt depth value) :: printMembers depth rest

end

def print : Content → String := printAt 0

def optional {α : Type} (content : α → Content) : Option α → Content
  | none => null
  | some value => content value

end Content

end ModelBundle.Document
