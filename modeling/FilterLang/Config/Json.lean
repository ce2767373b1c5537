import FilterLang.Config
import FilterLang.Json
import FilterLang.Json.Reader

/-! Configurations as JSON. A key that is missing leaves its default, other keys are ignored. -/

namespace FilterLang

namespace NumberText

def code : NumberText → String
  | verbatim => "verbatim"
  | normalized => "normalized"

def named (s : String) : Option NumberText :=
  if s = "verbatim" then some verbatim else if s = "normalized" then some normalized else none

theorem named_code (n : NumberText) : named n.code = some n := by cases n <;> rfl

end NumberText

namespace Config

def toJson (c : Config) : Json :=
  .object [("lenient", .bool c.lenient), ("max_depth", .natural c.maxDepth),
    ("numeric_literals", .string c.numbers.code)]

def readLenient (c : Config) : Json.Reader Config := fun s => do
  let (lenient, rest) ← Json.readBool s
  return ({ c with lenient }, rest)

def readMaxDepth (c : Config) : Json.Reader Config := fun s => do
  let (maxDepth, rest) ← Json.readNatural s
  return ({ c with maxDepth }, rest)

def readNumbers (c : Config) : Json.Reader Config := fun s => do
  let (numbers, rest) ← Json.readChoice NumberText.named s
  return ({ c with numbers }, rest)

def fields : List (Json.Field Config) :=
  [⟨"lenient", readLenient⟩, ⟨"max_depth", readMaxDepth⟩, ⟨"numeric_literals", readNumbers⟩]

def ofJson (text : String) : Except Json.Problem Config :=
  Json.readText (Json.readRecord fields {} some) text

end Config

/-- What is found where a file of configuration is looked for. -/
inductive FileContent
  | missing
  | directory
  | bytes (content : ByteArray)

/-- Why a file gives no text. -/
inductive FileFault
  | missing
  | directory
  | notText
  deriving DecidableEq

namespace FileFault

def reason : FileFault → String
  | missing => "No such file or directory (os error 2)"
  | directory => "Is a directory (os error 21)"
  | notText => "stream did not contain valid UTF-8"

def message (path : String) (f : FileFault) : String :=
  "cannot read config file " ++ path ++ ": " ++ f.reason

end FileFault

namespace FileContent

def text : FileContent → Except FileFault String
  | missing => .error .missing
  | directory => .error .directory
  | bytes content =>
    match String.fromUTF8? content with
    | some text => .ok text
    | none => .error .notText

end FileContent

/-- Why a file gives no configuration. -/
inductive ConfigError
  | file (f : FileFault)
  | json (p : Json.Problem)
  deriving DecidableEq

namespace Config

def ofFile (content : FileContent) : Except ConfigError Config :=
  match content.text with
  | .error f => .error (.file f)
  | .ok text => (ofJson text).mapError .json

/-- The configuration in a file, or the default where the file is of no use. -/
def ofFileOrDefault (content : FileContent) : Config :=
  match ofFile content with
  | .ok c => c
  | .error _ => {}

end Config

end FilterLang
