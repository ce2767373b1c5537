import FilterLang.Filter.Json
import FilterLang.Outline

/-! Filters as outlines. -/

namespace FilterLang.Filter

def nameOutline (text : String) : Outline := .record "FieldNameOperand" [("name", .text text)]

def valueOutline (text : String) : Outline := .record "FieldValueOperand" [("value", .text text)]

mutual

def outline : Filter → Outline
  | name text => .wrapped "FieldName" (nameOutline text)
  | value text => .wrapped "FieldValue" (valueOutline text)
  | values texts =>
    .wrapped "ValueList"
      (.record "FieldValueListOperand" [("values", .list (texts.map valueOutline))])
  | group inner => .wrapped "Parenthesis" inner.outline
  | negation operand => .record "Unary" [("op", .word "Not"), ("operand", operand.outline)]
  | comparison op left right =>
    .record "Binary" [("op", .word op.code), ("left", left.outline), ("right", right.outline)]
  | membership field among =>
    .record "Variadic"
      [("op", .word "In"), ("field", field.outline), ("values", .list (outlines among))]
  | connection op left right =>
    .record "Logical" [("op", .word op.code), ("left", left.outline), ("right", right.outline)]

def outlines : List Filter → List Outline
  | [] => []
  | q :: qs => q.outline :: outlines qs

end

end FilterLang.Filter
