/-! JSON values and their two written forms: compact, with no blank between tokens, and indented by
two blanks a level. Members of an object keep their order. -/

namespace FilterLang

inductive Json
  | null
  | bool (b : Bool)
  | natural (n : Nat)
  | string (s : String)
  | array (items : List Json)
  | object (members : List (String × Json))

namespace Json

/-- How a character stands inside a string: quotes, backslashes and controls are escaped, by a
letter where JSON has one. -/
def escape (c : Char) : List Char :=
  if c = '"' then ['\\', '"']
  else if c = '\\' then ['\\', '\\']
  else if c = '\x08' then ['\\', 'b']
  else if c = '\t' then ['\\', 't']
  else if c = '\n' then ['\\', 'n']
  else if c = '\x0c' then ['\\', 'f']
  else if c = '\r' then ['\\', 'r']
  else if c.toNat < 0x20 then
    ['\\', 'u', '0', '0', Nat.digitChar (c.toNat / 16), Nat.digitChar (c.toNat % 16)]
  else [c]

def quote (s : String) : String :=
  "\"" ++ String.ofList (s.toList.flatMap escape) ++ "\""

def boolText (b : Bool) : String := if b then "true" else "false"

mutual

def compact : Json → String
  | null => "null"
  | bool b => boolText b
  | natural n => toString n
  | string s => quote s
  | array items => "[" ++ compactItems items ++ "]"
  | object members => "\x7b" ++ compactMembers members ++ "\x7d"

def compactItems : List Json → String
  | [] => ""
  | [j] => compact j
  | j :: js => compact j ++ "," ++ compactItems js

def compactMembers : List (String × Json) → String
  | [] => ""
  | [(key, j)] => quote key ++ ":" ++ compact j
  | (key, j) :: ms => quote key ++ ":" ++ compact j ++ "," ++ compactMembers ms

end

mutual

/-- The indented form; every line but the first starts with `margin`. -/
def indented (margin : String) : Json → String
  | null => "null"
  | bool b => boolText b
  | natural n => toString n
  | string s => quote s
  | array [] => "[]"
  | array (j :: js) =>
    "[" ++ indentedItems (margin ++ "  ") (j :: js) ++ "\n" ++ margin ++ "]"
  | object [] => "\x7b\x7d"
  | object (m :: ms) =>
    "\x7b" ++ indentedMembers (margin ++ "  ") (m :: ms) ++ "\n" ++ margin ++ "\x7d"

def indentedItems (margin : String) : List Json → String
  | [] => ""
  | [j] => "\n" ++ margin ++ indented margin j
  | j :: js => "\n" ++ margin ++ indented margin j ++ "," ++ indentedItems margin js

def indentedMembers (margin : String) : List (String × Json) → String
  | [] => ""
  | [(key, j)] => "\n" ++ margin ++ quote key ++ ": " ++ indented margin j
  | (key, j) :: ms =>
    "\n" ++ margin ++ quote key ++ ": " ++ indented margin j ++ "," ++ indentedMembers margin ms

end

end Json

end FilterLang
