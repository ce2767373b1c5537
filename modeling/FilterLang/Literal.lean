import FilterLang.Decimal.Layout

/-! Values that a filter is built from, and the text each is written as. -/

namespace FilterLang

inductive Literal
  | text (s : String)
  | integer (n : Int)
  | binary (f : Binary.Format) (x : Binary)
  | truth (b : Bool)
  | character (c : Char)

namespace Literal

def write : Literal → String
  | text s => s
  | integer n => toString n
  | binary f x => x.text .plain f
  | truth b => if b then "true" else "false"
  | character c => c.toString

/-- Reads an integer within the given bounds, which are themselves allowed. -/
def readInteger? (least greatest : Int) (s : String) : Option Literal :=
  ((Decimal.readInteger? s.toList).filter fun n => least ≤ n ∧ n ≤ greatest).map integer

def readBinary? (f : Binary.Format) (s : String) : Option Literal :=
  (Binary.read? f s).map (binary f)

def readTruth? (s : String) : Option Literal :=
  if s = "true" then some (truth true) else if s = "false" then some (truth false) else none

def readCharacter? (s : String) : Option Literal :=
  match s.toList with
  | [c] => some (character c)
  | _ => none

end Literal

end FilterLang
