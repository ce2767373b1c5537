import FilterLang.Filter.Definition
import FilterLang.Filter.Outline
import FilterLang.Filter.Parser
import FilterLang.TypedLine
import FilterLang.Whitespace

/-! What is printed for filters: the definition of one that is accepted, or the error with carets
under the place it is about. An interactive session reads a typed line at a time, with commands to
switch further forms of accepted filters on and off. -/

namespace FilterLang

namespace Session

/-- The lines of a text; what stands after the last line break is a line if it is not empty. -/
def splitLines : List Char → List (List Char)
  | [] => []
  | c :: cs =>
    if c = '\n' then [] :: splitLines cs
    else
      match splitLines cs with
      | [] => [[c]]
      | l :: ls => (c :: l) :: ls

def joinLines (ls : List String) : String :=
  ls.foldr (fun l rest => l ++ "\n" ++ rest) ""

/-- The forms that are shown after the definition of an accepted filter. -/
structure Shown where
  outline : Bool := false
  json : Bool := false
  deriving DecidableEq

def queryLines (shown : Shown) (q : Filter) : List String :=
  [q.definition] ++ (if shown.outline then [q.outline.lines ""] else []) ++
    (if shown.json then [q.toJson.indented ""] else [])

def errorLines (filter : String) (e : ParseError) : List String :=
  ("✗ " ++ e.message) ::
    match e.span? with
    | some s => ["  " ++ filter, "  " ++ s.caretLine filter]
    | none => []

def report (c : Config) (shown : Shown) (filter : String) : String :=
  joinLines <|
    match Filter.ofText c filter with
    | .ok (some q) => queryLines shown q
    | .ok none => ["(no filter)"]
    | .error e => errorLines filter e

def help : String := joinLines
  ["Enter a filter, e.g. age > 20 AND (name LIKE 'pippo' OR id IN (1,2,3))",
    "  :tree   toggle the debug tree output",
    "  :json   toggle the JSON output",
    "  :help   show this message",
    "  :quit   exit"]

def switchText (name : String) (on : Bool) : String :=
  joinLines [name ++ " output " ++ (if on then "on" else "off")]

inductive Command
  | quit
  | help
  | toggleOutline
  | toggleJson
  | filter (text : String)
  deriving DecidableEq

def Command.ofText (text : String) : Command :=
  if text = ":quit" ∨ text = ":q" then quit
  else if text = ":help" then help
  else if text = ":tree" then toggleOutline
  else if text = ":json" then toggleJson
  else filter text

/-- What is printed for a command, and the forms shown from then on; nothing follows a quit. -/
def obey (c : Config) (shown : Shown) : Command → Option (String × Shown)
  | .quit => none
  | .help => some (Session.help, shown)
  | .toggleOutline =>
    some (switchText "tree" (!shown.outline), { shown with outline := !shown.outline })
  | .toggleJson => some (switchText "json" (!shown.json), { shown with json := !shown.json })
  | .filter text => some (report c shown text, shown)

/-- What a line gives to do; a blank line gives nothing. -/
def command? (line : String) : Option Command :=
  let text := Whitespace.trim line
  if text = "" then none else some (Command.ofText text)

/-- What one line prints and leaves, and nothing where the line ends the session. -/
def step (c : Config) (shown : Shown) (line : String) : Option (String × Shown) :=
  match command? line with
  | none => some ("", shown)
  | some command => obey c shown command

def answers (c : Config) (shown : Shown) : List String → String
  | [] => ""
  | line :: lines =>
    match step c shown line with
    | none => ""
    | some (said, shown) => said ++ answers c shown lines

def interactive (c : Config) (lines : List String) : String :=
  help ++ answers c {} lines

def batch (c : Config) (filters : List String) : String :=
  filters.foldr (fun filter rest => report c {} filter ++ rest) ""

/-- The lines as they stand when they are typed, up to one that cannot be read. -/
def readLines : List (List Char) → List String
  | [] => []
  | typed :: rest =>
    match TypedLine.read? typed with
    | some line => String.ofList line :: readLines rest
    | none => []

/-- A line that cannot be read comes before any that ends the session. -/
def breaksOff : List (List Char) → Bool
  | [] => false
  | typed :: rest =>
    match TypedLine.read? typed with
    | some line => command? (String.ofList line) ≠ some .quit && breaksOff rest
    | none => true

structure Outcome where
  output : String
  status : Nat

def brokenOff : Nat := 101

/-- A run for the filters given, or else for the lines of the input. -/
def run (c : Config) (filters : List String) (input : String) : Outcome :=
  if filters.isEmpty then
    let typed := splitLines input.toList
    ⟨interactive c (readLines typed), if breaksOff typed then brokenOff else 0⟩
  else ⟨batch c filters, 0⟩

end Session

end FilterLang
