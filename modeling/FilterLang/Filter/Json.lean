import FilterLang.Filter
import FilterLang.Json

/-! Filters as JSON: an object with one member, whose key names the kind of the node. -/

namespace FilterLang

def Comparison.code : Comparison → String
  | .equal => "Eq"
  | .notEqual => "NotEq"
  | .greater => "Gt"
  | .greaterOrEqual => "Gte"
  | .lower => "Lt"
  | .lowerOrEqual => "Lte"
  | .like => "Like"

def Connective.code : Connective → String
  | .and => "And"
  | .or => "Or"

namespace Filter

def tagged (tag : String) (j : Json) : Json := .object [(tag, j)]

def valueJson (text : String) : Json := .object [("value", .string text)]

mutual

def toJson : Filter → Json
  | name text => tagged "field_name" (.object [("name", .string text)])
  | value text => tagged "field_value" (valueJson text)
  | values texts => tagged "value_list" (.object [("values", .array (texts.map valueJson))])
  | group inner => tagged "parenthesis" inner.toJson
  | negation operand =>
    tagged "unary" (.object [("op", .string "Not"), ("operand", operand.toJson)])
  | comparison op left right =>
    tagged "binary"
      (.object [("op", .string op.code), ("left", left.toJson), ("right", right.toJson)])
  | membership field among =>
    tagged "variadic"
      (.object [("op", .string "In"), ("field", field.toJson), ("values", .array (toJsons among))])
  | connection op left right =>
    tagged "logical"
      (.object [("op", .string op.code), ("left", left.toJson), ("right", right.toJson)])

def toJsons : List Filter → List Json
  | [] => []
  | q :: qs => q.toJson :: toJsons qs

end

end Filter

end FilterLang
