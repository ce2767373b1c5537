import FilterLang.Decimal
import FilterLang.Span

/-! Reads JSON texts straight into values of known kinds, from left to right. The first problem on
the way decides the answer, so a value of the wrong kind is found before a malformed text after it.
Values that nobody asked for are skipped and only have to be JSON. -/

namespace FilterLang.Json

inductive Problem
  /-- It is not JSON. -/
  | malformed
  /-- It is JSON of the wrong shape. -/
  | mismatched
  /-- It ends too early. -/
  | truncated
  deriving DecidableEq

abbrev Reader (α : Type) := List Char → Except Problem (α × List Char)

def isBlank (c : Char) : Bool := c == ' ' || c == '\n' || c == '\t' || c == '\r'

def skipBlanks (s : List Char) : List Char := s.dropWhile isBlank

def readWord : List Char → List Char → Except Problem (List Char)
  | [], rest => .ok rest
  | _ :: _, [] => .error .truncated
  | w :: ws, c :: rest => if w = c then readWord ws rest else .error .malformed

def readMark (mark : Char) (s : List Char) : Except Problem (List Char) :=
  match skipBlanks s with
  | [] => .error .truncated
  | c :: rest => if c = mark then .ok rest else .error .malformed

/-- Whether text is read for its value or only passed over. A text that is passed over may hold
halves of surrogate pairs and numbers of any size, and in it a number that is cut short counts as
malformed. -/
inductive Purpose
  | value
  | skip
  deriving DecidableEq

namespace Purpose

def numberEnd : Purpose → Problem
  | value => .truncated
  | skip => .malformed

end Purpose

def readDigits (p : Purpose) (s : List Char) : Except Problem (List Char × List Char) :=
  match s with
  | [] => .error p.numberEnd
  | c :: _ =>
    if c.isDigit then .ok (s.takeWhile Char.isDigit, s.dropWhile Char.isDigit)
    else .error .malformed

/-- Digits without a needless zero at the front. -/
def readWhole (p : Purpose) (s : List Char) : Except Problem (List Char × List Char) :=
  match s with
  | '0' :: c :: rest => if c.isDigit then .error .malformed else .ok (['0'], c :: rest)
  | _ => readDigits p s

def readFraction (p : Purpose) : List Char → Except Problem (List Char × List Char)
  | '.' :: rest => readDigits p rest
  | rest => .ok ([], rest)

def readExponent (p : Purpose) : List Char → Except Problem (Option Int × List Char)
  | c :: rest =>
    if c = 'e' ∨ c = 'E' then do
      let (negative, rest) := Decimal.splitSign rest
      let (digits, rest) ← readDigits p rest
      let size : Int := Decimal.digitsValue digits
      return (some (if negative then -size else size), rest)
    else .ok (none, c :: rest)
  | [] => .ok (none, [])

inductive Numeral
  | natural (n : Nat)
  | other
  deriving DecidableEq

/-- A number after its sign. A number too large for a floating-point number is malformed unless it
is skipped. -/
def readUnsigned (p : Purpose) (negative : Bool) : Reader Numeral := fun s => do
  let (whole, rest) ← readWhole p s
  let (fraction, rest) ← readFraction p rest
  let (exponent, rest) ← readExponent p rest
  let significand := Decimal.digitsValue (whole ++ fraction)
  let size : Decimal := ⟨false, significand, exponent.getD 0 - fraction.length⟩
  if p = .value ∧ (size.toBinary .double).isFinite = false then .error .malformed
  else if negative ∨ fraction ≠ [] ∨ exponent.isSome ∨ Nat.pow 2 64 ≤ significand then .ok (.other, rest)
  else .ok (.natural significand, rest)

def readNumeral (p : Purpose) : Reader Numeral
  | '-' :: rest => readUnsigned p true rest
  | rest => readUnsigned p false rest

def hexValue? (c : Char) : Option Nat :=
  if c.isDigit then some (c.toNat - '0'.toNat)
  else if 'a' ≤ c ∧ c ≤ 'f' then some (c.toNat - 'a'.toNat + 10)
  else if 'A' ≤ c ∧ c ≤ 'F' then some (c.toNat - 'A'.toNat + 10)
  else none

/-- Four hexadecimal digits. Whether the text is long enough is counted in bytes. -/
def readHex (s : List Char) : Except Problem (Nat × List Char) :=
  if utf8Length (s.take 4) < 4 then .error .truncated
  else
    match s with
    | a :: b :: c :: d :: rest =>
      match hexValue? a, hexValue? b, hexValue? c, hexValue? d with
      | some a, some b, some c, some d => .ok (((a * 16 + b) * 16 + c) * 16 + d, rest)
      | _, _, _, _ => .error .malformed
    | _ => .error .malformed

def isLowSurrogate (n : Nat) : Bool := 0xDC00 ≤ n && n ≤ 0xDFFF

def isHighSurrogate (n : Nat) : Bool := 0xD800 ≤ n && n ≤ 0xDBFF

def readLowSurrogate (high : Nat) (s : List Char) : Except Problem (Char × List Char) := do
  let rest ← readWord ['\\', 'u'] s
  let (low, rest) ← readHex rest
  if isLowSurrogate low then
    return (Char.ofNat (0x10000 + (high - 0xD800) * 0x400 + (low - 0xDC00)), rest)
  else .error .malformed

def readUnicode (p : Purpose) (s : List Char) : Except Problem (Char × List Char) := do
  let (n, rest) ← readHex s
  if p = .skip then return (Char.ofNat n, rest)
  else if isLowSurrogate n then .error .malformed
  else if isHighSurrogate n then readLowSurrogate n rest
  else return (Char.ofNat n, rest)

def shortEscape? (c : Char) : Option Char :=
  if c = '"' ∨ c = '\\' ∨ c = '/' then some c
  else if c = 'b' then some '\x08'
  else if c = 'f' then some '\x0c'
  else if c = 'n' then some '\n'
  else if c = 'r' then some '\r'
  else if c = 't' then some '\t'
  else none

def readEscape (p : Purpose) : List Char → Except Problem (Char × List Char)
  | [] => .error .truncated
  | 'u' :: rest => readUnicode p rest
  | c :: rest =>
    match shortEscape? c with
    | some c => .ok (c, rest)
    | none => .error .malformed

/-- The rest of a string after its opening quote. Each round takes a character, so as many rounds
as there are characters suffice. -/
def readStringIn (p : Purpose) : Nat → String → Reader String
  | 0, _, _ => .error .truncated
  | rounds + 1, text, s =>
    match s with
    | [] => .error .truncated
    | '"' :: rest => .ok (text, rest)
    | '\\' :: rest => do
      let (c, rest) ← readEscape p rest
      readStringIn p rounds (text.push c) rest
    | c :: rest =>
      if c.toNat < 0x20 then .error .malformed else readStringIn p rounds (text.push c) rest

def readQuoted (p : Purpose) : Reader String := fun s => readStringIn p (s.length + 1) "" s

/-- What is wrong with a value of another kind than asked for: it may itself be malformed or cut
short. Arrays and objects are not looked into. -/
def wrongKind (s : List Char) : Problem :=
  let judge {α : Type} (r : Except Problem α) : Problem :=
    match r with
    | .ok _ => .mismatched
    | .error e => e
  match s with
  | [] => .truncated
  | 'n' :: rest => judge (readWord "ull".toList rest)
  | 't' :: rest => judge (readWord "rue".toList rest)
  | 'f' :: rest => judge (readWord "alse".toList rest)
  | '"' :: rest => judge (readQuoted .value rest)
  | '[' :: _ => .mismatched
  | '{' :: _ => .mismatched
  | c :: rest =>
    if c = '-' ∨ c.isDigit then judge (readNumeral .value (c :: rest)) else .malformed

def readNull : Reader Unit := fun s =>
  match skipBlanks s with
  | 'n' :: rest => do return ((), ← readWord "ull".toList rest)
  | rest => .error (wrongKind rest)

def readBool : Reader Bool := fun s =>
  match skipBlanks s with
  | 't' :: rest => do return (true, ← readWord "rue".toList rest)
  | 'f' :: rest => do return (false, ← readWord "alse".toList rest)
  | rest => .error (wrongKind rest)

def readString : Reader String := fun s =>
  match skipBlanks s with
  | '"' :: rest => readQuoted .value rest
  | rest => .error (wrongKind rest)

/-- A natural number of 64 bits, written without sign, point and exponent. -/
def readNatural : Reader Nat := fun s =>
  match skipBlanks s with
  | c :: rest =>
    if c = '-' ∨ c.isDigit then do
      match ← readNumeral .value (c :: rest) with
      | (.natural n, rest) => .ok (n, rest)
      | (.other, _) => .error .mismatched
    else .error (wrongKind (c :: rest))
  | [] => .error .truncated

/-- One of some names: as a string, or as the key of an object that holds only `null`. -/
def readChoice {α : Type} (named : String → Option α) : Reader α := fun s =>
  match skipBlanks s with
  | [] => .error .truncated
  | '"' :: rest => do
    let (name, rest) ← readQuoted .value rest
    match named name with
    | some a => .ok (a, rest)
    | none => .error .mismatched
  | '{' :: rest => do
    let (name, rest) ← readString rest
    match named name with
    | some a =>
      let ((), rest) ← readNull (← readMark ':' rest)
      return (a, ← readMark '}' rest)
    | none => .error .mismatched
  | _ => .error .malformed

inductive Bracket
  | array
  | object
  deriving DecidableEq

def skipScalar : List Char → Except Problem (List Char)
  | [] => .error .truncated
  | 'n' :: rest => readWord "ull".toList rest
  | 't' :: rest => readWord "rue".toList rest
  | 'f' :: rest => readWord "alse".toList rest
  | '"' :: rest => do return (← readQuoted .skip rest).2
  | c :: rest =>
    if c = '-' ∨ c.isDigit then do return (← readNumeral .skip (c :: rest)).2
    else .error .malformed

def skipKey (s : List Char) : Except Problem (List Char) := do
  let rest ← readMark '"' s
  readMark ':' (← readQuoted .skip rest).2

mutual

/-- Skips a value inside the brackets that are open, innermost first. Each round takes a character
or follows one that did. -/
def skipValueIn : Nat → List Bracket → List Char → Except Problem (List Char)
  | 0, _, _ => .error .truncated
  | rounds + 1, brackets, s =>
    match skipBlanks s with
    | '[' :: rest =>
      match skipBlanks rest with
      | ']' :: rest => skipEndIn rounds brackets rest
      | [] => .error .truncated
      | rest => skipValueIn rounds (.array :: brackets) rest
    | '{' :: rest =>
      match skipBlanks rest with
      | '}' :: rest => skipEndIn rounds brackets rest
      | rest => do skipValueIn rounds (.object :: brackets) (← skipKey rest)
    | rest => do skipEndIn rounds brackets (← skipScalar rest)

/-- Skips what follows a value: closing brackets, then perhaps a comma and more. -/
def skipEndIn : Nat → List Bracket → List Char → Except Problem (List Char)
  | _, [], s => .ok s
  | 0, _ :: _, _ => .error .truncated
  | rounds + 1, bracket :: brackets, s =>
    match skipBlanks s, bracket with
    | [], _ => .error .truncated
    | ']' :: rest, .array => skipEndIn rounds brackets rest
    | '}' :: rest, .object => skipEndIn rounds brackets rest
    | ',' :: rest, .array => skipValueIn rounds (.array :: brackets) rest
    | ',' :: rest, .object => do skipValueIn rounds (.object :: brackets) (← skipKey rest)
    | _ :: _, _ => .error .malformed

end

def skipValue (s : List Char) : Except Problem (List Char) := skipValueIn (2 * s.length + 2) [] s

/-- Steps to the next item of an array; none is left at the closing bracket, which stays. -/
def nextItem (first : Bool) (s : List Char) : Except Problem (Option (List Char)) :=
  match skipBlanks s with
  | [] => .error .truncated
  | ']' :: _ => .ok none
  | ',' :: rest =>
    if first then .ok (some (',' :: rest))
    else
      match skipBlanks rest with
      | [] => .error .truncated
      | ']' :: _ => .error .malformed
      | rest => .ok (some rest)
  | rest => if first then .ok (some rest) else .error .malformed

def endArray (s : List Char) : Except Problem (List Char) := readMark ']' s

def readItemsIn {α : Type} (read : Reader α) : Nat → Bool → List α → Reader (List α)
  | 0, _, _, _ => .error .truncated
  | rounds + 1, first, items, s => do
    match ← nextItem first s with
    | none => return (items.reverse, ← endArray s)
    | some s =>
      let (item, rest) ← read s
      readItemsIn read rounds false (item :: items) rest

def readArray {α : Type} (read : Reader α) : Reader (List α) := fun s =>
  match skipBlanks s with
  | '[' :: rest => readItemsIn read (rest.length + 1) true [] rest
  | rest => .error (wrongKind rest)

/-- A field of a record: its key, and how its value becomes part of the record. -/
structure Field (σ : Type) where
  key : String
  read : σ → Reader σ

/-- Steps to the next key of an object; none is left at the closing brace, which is taken. The
opening quote of the key is taken too. -/
def nextKey (first : Bool) (s : List Char) : Except Problem (Bool × List Char) :=
  match skipBlanks s with
  | [] => .error .truncated
  | '}' :: rest => .ok (false, rest)
  | ',' :: rest => if first then .error .malformed else do return (true, ← readMark '"' rest)
  | rest => if first then do return (true, ← readMark '"' rest) else .error .malformed

/-- Reads the members of an object. A key that no field has is skipped with its value, a field may
come only once. -/
def readMembersIn {σ : Type} (fields : List (Field σ)) :
    Nat → Bool → List String → σ → Reader σ
  | 0, _, _, _, _ => .error .truncated
  | rounds + 1, first, seen, record, s => do
    let (more, rest) ← nextKey first s
    if more then
      let (key, rest) ← readQuoted .value rest
      match fields.find? (·.key == key) with
      | none =>
        readMembersIn fields rounds false seen record (← skipValue (← readMark ':' rest))
      | some field =>
        if seen.contains key then .error .mismatched
        else
          let (record, rest) ← field.read record (← readMark ':' rest)
          readMembersIn fields rounds false (key :: seen) record rest
    else return (record, rest)

/-- Reads the fields of a record as the items of an array, in order, as far as there are items. -/
def readInOrder {σ : Type} : List (Field σ) → Bool → σ → Reader σ
  | [], _, record, s => .ok (record, s)
  | field :: fields, first, record, s => do
    match ← nextItem first s with
    | none => return (record, s)
    | some s =>
      let (record, rest) ← field.read record s
      readInOrder fields false record rest

/-- A record, as an object or as an array of its fields. What has been read must be complete. -/
def readRecord {σ α : Type} (fields : List (Field σ)) (blank : σ) (complete : σ → Option α) :
    Reader α := fun s => do
  match skipBlanks s with
  | '{' :: rest =>
    let (record, rest) ← readMembersIn fields (rest.length + 1) true [] blank rest
    match complete record with
    | some a => .ok (a, rest)
    | none => .error .mismatched
  | '[' :: rest =>
    let (record, rest) ← readInOrder fields true blank rest
    match complete record with
    | some a => return (a, ← endArray rest)
    | none => .error .mismatched
  | rest => .error (wrongKind rest)

def readText {α : Type} (read : Reader α) (text : String) : Except Problem α := do
  let (a, rest) ← read text.toList
  if skipBlanks rest = [] then .ok a else .error .malformed

end FilterLang.Json
