import FilterLang.Config
import FilterLang.Filter.Error

/-! Reads a filter from tokens, one token at a time, with a stack of unfinished nodes.

An expression is a primary and at most one operator: `a AND b AND c` is `a AND (b AND c)`, for the
right operand of a connective is an expression itself. Whole expressions form a chain that grows to
the left: `a = 1 AND b = 2 OR c = 3` is `(a = 1 AND b = 2) OR c = 3`, for a finished comparison ends
its expression. A group holds a chain of its own. -/

namespace FilterLang

/-- A node whose last operand is being read. -/
inductive Frame
  | connection (op : Connective) (left : Filter)
  | negation
  /-- A negation that is itself the right operand of a relation. -/
  | negatedValue (r : Relation) (left : Filter)
  deriving DecidableEq

/-- A group that is open, what is unfinished around it, and the depth there. -/
structure Group where
  opening : Span
  frames : List Frame
  depth : Nat
  deriving DecidableEq

inductive Expect
  /-- A primary in the place of a field. -/
  | field
  | value (r : Relation) (left : Filter)
  /-- The operator after a primary, or the end of its expression. -/
  | operator (left : Filter)
  /-- More characters of an operator, which are joined while each touches the one before. -/
  | symbols (left : Filter) (text : String) (span : Span)
  /-- The operator after a finished expression, or the end of the chain. -/
  | chain (left : Filter)
  | elements (r : Relation) (left : Filter) (opening : Span) (texts : List String)
  deriving DecidableEq

/-- The unfinished nodes of the innermost chain, the groups around it, and the depth counter. -/
structure ParseState where
  expect : Expect
  frames : List Frame
  groups : List Group
  depth : Nat
  deriving DecidableEq

/-- Why reading stopped, and whether the token at hand was taken before. -/
structure Fault where
  error : ParseError
  taken : Bool
  deriving DecidableEq

namespace ParseState

def start (depth : Nat) : ParseState := ⟨.field, [], [], depth⟩

def descend (c : Config) (s : ParseState) (taken : Bool) : Except Fault ParseState :=
  if c.maxDepth ≤ s.depth then .error ⟨.tooDeep c.maxDepth, taken⟩
  else .ok { s with depth := s.depth + 1 }

def push (s : ParseState) (frame : Frame) : ParseState :=
  { s with expect := .field, frames := frame :: s.frames }

def node (o : Operator) (operands : List Filter) (taken : Bool) : Except Fault Filter :=
  match Filter.operation o operands with
  | .ok q => .ok q
  | .error e => .error ⟨.arity e, taken⟩

theorem node_negation (q : Filter) (taken : Bool) :
    node .negation [q] taken = .ok (.negation q) := rfl

/-- An operand ends its expression. Every node that ends with it is built, up to a negation in the
place of a field: an operator may follow that. -/
def finishOperand (taken : Bool) (groups : List Group) (q : Filter) (depth : Nat) :
    List Frame → Except Fault ParseState
  | [] => .ok ⟨.chain q, [], groups, depth⟩
  | .connection op left :: frames => do
    let q ← node (.connective op) [left, q] taken
    finishOperand taken groups q (depth - 1) frames
  | .negatedValue r left :: frames => do
    let negated ← node .negation [q] taken
    let q ← node (.relation r) [left, negated] taken
    finishOperand taken groups q (depth - 1) frames
  | .negation :: frames => do
    let q ← node .negation [q] taken
    .ok ⟨.operator q, frames, groups, depth - 1⟩

def finishExpression (q : Filter) (depth : Nat) : List Frame → Except Fault (Filter × Nat)
  | [] => .ok (q, depth)
  | .connection op left :: frames => do
    let q ← node (.connective op) [left, q] false
    finishExpression q (depth - 1) frames
  | .negatedValue r left :: frames => do
    let negated ← node .negation [q] false
    let q ← node (.relation r) [left, negated] false
    finishExpression q (depth - 1) frames
  -- no operator follows, so this is not an operand of one
  | .negation :: frames => do
    let q ← node .negation [q] false
    finishExpression q (depth - 1) frames

def unrecognized (t : Token) : Except Fault ParseState :=
  .error ⟨.unrecognizedToken t.kind.text t.span, false⟩

/-- An operator has been read after `left`. A negation after its operand is complete. -/
def readOperation (c : Config) (s : ParseState) (left : Filter) (text : String) (span : Span)
    (taken : Bool) : Except Fault ParseState :=
  match Operator.lookup text with
  | none => .error ⟨.unknownOperator text span, taken⟩
  | some (.connective op) => do
    let s ← s.descend c taken
    .ok (s.push (.connection op left))
  | some (.relation r) => .ok { s with expect := .value r left }
  | some .negation => do
    let q ← node .negation [left] taken
    finishOperand taken s.groups q s.depth s.frames

def readField (c : Config) (s : ParseState) (t : Token) : Except Fault ParseState :=
  match t.kind with
  | .openParen => do
    let inside ← s.descend c true
    .ok ⟨.field, [], ⟨t.span, s.frames, s.depth⟩ :: s.groups, inside.depth⟩
  | .word text =>
    if (Operator.lookupBefore text).isSome then do
      let s ← s.descend c true
      .ok (s.push .negation)
    else .ok { s with expect := .operator (.name text) }
  | .quoted _ text => .ok { s with expect := .operator (.name text) }
  | .number text x => .ok { s with expect := .operator (.value (c.numbers.write text x)) }
  | _ => unrecognized t

def readOperand (s : ParseState) (r : Relation) (left right : Filter) :
    Except Fault ParseState := do
  let q ← node (.relation r) [left, right] true
  finishOperand true s.groups q s.depth s.frames

def readValue (c : Config) (s : ParseState) (r : Relation) (left : Filter) (t : Token) :
    Except Fault ParseState :=
  match t.kind with
  | .openParen => do
    let s ← s.descend c true
    .ok { s with expect := .elements r left t.span [] }
  | .word text =>
    if (Operator.lookupBefore text).isSome then do
      let s ← s.descend c true
      .ok (s.push (.negatedValue r left))
    else s.readOperand r left (.value text)
  | .quoted _ text => s.readOperand r left (.value text)
  | .number text x => s.readOperand r left (.value (c.numbers.write text x))
  | _ => unrecognized t

/-- In a list every word is a value, and commas may stand anywhere. -/
def readElement (c : Config) (s : ParseState) (r : Relation) (left : Filter) (opening : Span)
    (texts : List String) (t : Token) : Except Fault ParseState :=
  let add (text : String) : ParseState :=
    { s with expect := .elements r left opening (texts ++ [text]) }
  match t.kind with
  | .closeParen => { s with depth := s.depth - 1 }.readOperand r left (.values texts)
  | .comma => .ok s
  | .word text => .ok (add text)
  | .quoted _ text => .ok (add text)
  | .number text x => .ok (add (c.numbers.write text x))
  | _ => unrecognized t

/-- Inside a group a parenthesis closes the chain. Any other token has to be an operator, and costs
a level before it is looked at. -/
def readChain (c : Config) (s : ParseState) (left : Filter) (t : Token) :
    Except Fault ParseState :=
  match t.kind, s.groups with
  | .closeParen, g :: groups => .ok ⟨.operator (.group left), g.frames, groups, g.depth⟩
  | .word text, _ => do
    let s ← s.descend c false
    s.readOperation c left text t.span true
  | .symbol ch, _ => do
    let s ← s.descend c false
    .ok { s with expect := .symbols left ch.toString t.span }
  | _, _ => do
    let _ ← s.descend c false
    unrecognized t

def readOperator (c : Config) (s : ParseState) (left : Filter) (t : Token) :
    Except Fault ParseState :=
  match t.kind with
  | .word text => s.readOperation c left text t.span true
  | .symbol ch => .ok { s with expect := .symbols left ch.toString t.span }
  | .number _ _ | .closeParen => do
    let (q, depth) ← finishExpression left s.depth s.frames
    readChain c ⟨.chain q, [], s.groups, depth⟩ q t
  | _ => unrecognized t

def readPlain (c : Config) (s : ParseState) (t : Token) : Except Fault ParseState :=
  match s.expect with
  | .field => s.readField c t
  | .value r left => s.readValue c r left t
  | .operator left => s.readOperator c left t
  | .chain left => s.readChain c left t
  | .elements r left opening texts => s.readElement c r left opening texts t
  | .symbols _ _ _ => .ok s

def adjacentSymbol? (span : Span) (t : Token) : Option Char :=
  match t.kind with
  | .symbol ch => if t.span.start = span.stop then some ch else none
  | _ => none

/-- Reads a token other than the end of the text. A token that does not go on with an operator that
is being spelled completes it first. -/
def read (c : Config) (s : ParseState) (t : Token) : Except Fault ParseState :=
  match s.expect with
  | .symbols left text span =>
    match adjacentSymbol? span t with
    | some ch =>
      .ok { s with expect := .symbols left (text.push ch) { span with stop := t.span.stop } }
    | none => do
      let s ← s.readOperation c left text span false
      s.readPlain c t
  | _ => s.readPlain c t

/-- A chain ends at the end of the text only if no group is open. -/
def closeChain (groups : List Group) (q : Filter) : Except ParseError Filter :=
  match groups with
  | [] => .ok q
  | g :: _ => .error (.missingParen g.opening)

def close (s : ParseState) : Except ParseError Filter :=
  match s.expect with
  | .field | .value _ _ | .symbols _ _ _ => .error .unexpectedEnd
  | .elements _ _ opening _ => .error (.missingParen opening)
  | .chain q => closeChain s.groups q
  | .operator left =>
    match finishExpression left s.depth s.frames with
    | .ok (q, _) => closeChain s.groups q
    | .error e => .error e.error

/-- The end of the text also completes an operator that is being spelled. -/
def readEnd (c : Config) (s : ParseState) : Except ParseError Filter :=
  match s.expect with
  | .symbols left text span =>
    match s.readOperation c left text span false with
    | .ok s => s.close
    | .error e => .error e.error
  | _ => s.close

/-- Reads tokens up to the end of the text. The tokens that are left start at that end, or where
the fault was found. -/
def run (c : Config) (s : ParseState) : List Token → Except ParseError Filter × List Token
  | [] => (s.readEnd c, [])
  | t :: ts =>
    if t.kind = .endOfInput then (s.readEnd c, t :: ts)
    else
      match s.read c t with
      | .ok s => run c s ts
      | .error e => (.error e.error, if e.taken then ts else t :: ts)

end ParseState

end FilterLang
