import FilterLang.Json
import FilterLang.Json.Reader
import FilterLang.SortOrder

/-! Sort orders as JSON. A key that is repeated counts where it stands first. -/

namespace FilterLang

namespace SortKey

def toJson (k : SortKey) : Json := .object [("name", .string k.name), ("asc", .bool k.ascending)]

/-- A key of which some parts have been read. -/
structure Parts where
  name : Option String
  ascending : Option Bool

namespace Parts

def readName (p : Parts) : Json.Reader Parts := fun s => do
  let (name, rest) ← Json.readString s
  return ({ p with name := some name }, rest)

def readAscending (p : Parts) : Json.Reader Parts := fun s => do
  let (ascending, rest) ← Json.readBool s
  return ({ p with ascending := some ascending }, rest)

def complete (p : Parts) : Option SortKey := do
  return ⟨← p.name, ← p.ascending⟩

end Parts

def read : Json.Reader SortKey :=
  Json.readRecord [⟨"name", Parts.readName⟩, ⟨"asc", Parts.readAscending⟩] ⟨none, none⟩
    Parts.complete

end SortKey

namespace SortOrder

def toJson (o : SortOrder) : Json := .object [("orders", .array (o.keys.map SortKey.toJson))]

def readKeys (_ : Option (List SortKey)) : Json.Reader (Option (List SortKey)) := fun s => do
  let (keys, rest) ← Json.readArray SortKey.read s
  return (some keys, rest)

def ofJson (text : String) : Except Json.Problem SortOrder :=
  Json.readText (Json.readRecord [⟨"orders", readKeys⟩] none fun keys => keys.map ofKeys) text

end SortOrder

end FilterLang
