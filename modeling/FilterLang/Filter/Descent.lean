import FilterLang.Filter.Parser

/-! Reads filters by recursive descent, one function for each kind of phrase, with a cursor among
the tokens and a counter of the levels that are open. What is unfinished is on no stack here but in
the calls that are open, so each place where a token is taken or a level is entered or left is to be
seen, and a trail keeps where the cursor has been. -/

namespace FilterLang

/-- Where a reader stands: how many tokens it has taken, and its depth counter. -/
structure Cursor where
  position : Nat
  /-- An integer, which a level that is left twice would take below zero. -/
  depth : Int
  deriving DecidableEq

/-- The cursor of a reader, and all that it has been before, the latest first. -/
structure Trail where
  now : Cursor
  past : List Cursor
  deriving DecidableEq

/-- The token at a position; there is a token for the end behind the last one. -/
def tokenAt (tokens : List Token) (position : Nat) : Token :=
  tokens.getD position ⟨.endOfInput, 0, 0⟩

namespace Trail

def start : Trail := ⟨⟨0, 0⟩, []⟩

def token (h : Trail) (tokens : List Token) : Token := tokenAt tokens h.now.position

def ahead (h : Trail) (tokens : List Token) : List Token := tokens.drop h.now.position

theorem token_eq_headD (h : Trail) (tokens : List Token) :
    h.token tokens = (h.ahead tokens).headD ⟨.endOfInput, 0, 0⟩ := by
  simp [token, tokenAt, ahead, List.headD_eq_head?_getD, List.head?_drop]

theorem ahead_eq_cons {h : Trail} {tokens : List Token}
    (ht : (h.token tokens).kind ≠ .endOfInput) :
    ∃ ts, h.ahead tokens = h.token tokens :: ts := by
  rw [token_eq_headD] at ht ⊢
  cases hahead : h.ahead tokens with
  | nil =>
    rw [hahead] at ht
    exact absurd rfl ht
  | cons t ts => exact ⟨ts, rfl⟩

theorem of_ahead_eq_cons {h : Trail} {tokens ts : List Token} {t : Token}
    (hahead : h.ahead tokens = t :: ts) :
    h.now.position < tokens.length ∧ h.token tokens = t ∧
      tokens.drop (h.now.position + 1) = ts := by
  have hlt : h.now.position < tokens.length := by
    refine Nat.lt_of_not_le fun hle => ?_
    rw [ahead, List.drop_eq_nil_of_le hle] at hahead
    cases hahead
  refine ⟨hlt, by rw [token_eq_headD, hahead, List.headD_cons], ?_⟩
  rw [ahead, List.drop_eq_getElem_cons hlt] at hahead
  exact (List.cons.inj hahead).2

def visited (h : Trail) : List Cursor := h.now :: h.past

def move (h : Trail) (v : Cursor) : Trail := ⟨v, h.visited⟩

end Trail

/-- A reading that can fail. The trail goes on behind a failure too. -/
abbrev Descent := ExceptT ParseError (StateM Trail)

namespace Descent

def cursor : Descent Cursor := return (← get).now

def move (f : Cursor → Cursor) : Descent Unit := modify fun h => h.move (f h.now)

section

variable {α β : Type}

theorem bind_apply (m : Descent α) (f : α → Descent β) (h : Trail) :
    (m >>= f) h = match m h with
      | (.ok a, h') => f a h'
      | (.error e, h') => (.error e, h') := by
  simp only [bind, ExceptT.bind, ExceptT.mk, StateT.bind]
  rcases m h with ⟨r, h'⟩
  cases r <;> rfl

theorem cursor_bind (f : Cursor → Descent α) (h : Trail) : (cursor >>= f) h = f h.now h := rfl

theorem finally_move_apply (m : Descent α) (f : Cursor → Cursor) (h : Trail) :
    (tryFinally m (move f)) h = ((m h).1, (m h).2.move (f (m h).2.now)) := by
  simp only [tryFinally, tryFinally', Functor.map, ExceptT.map, ExceptT.mk, StateT.bind, bind]
  rcases m h with ⟨r, h'⟩
  cases r <;> rfl

end

section Tokens

variable (tokens : List Token)

def current : Descent Token := return (← get).token tokens

def rest : Descent (List Token) := return (← get).ahead tokens

def advance : Descent Unit := do
  if (← cursor).position < tokens.length then move fun v => { v with position := v.position + 1 }

def unrecognized {α : Type} : Descent α := do
  let t ← current tokens
  match t.kind with
  | .endOfInput => throw .unexpectedEnd
  | kind => throw (.unrecognizedToken kind.text t.span)

def take {α : Type} (x : α) : Descent α := do
  advance tokens
  return x

/-- Joins symbols that touch; `text` is joined already, and some tokens are ahead. -/
def symbols (text : String) (span : Span) : List Token → Descent (String × Span)
  | [] => return (text, span)
  | t :: ahead =>
    match t.kind with
    | .symbol ch =>
      if text ≠ "" ∧ t.span.start ≠ span.stop then return (text, span)
      else do
        advance tokens
        symbols (text.push ch) { span with stop := t.span.stop } ahead
    | _ => return (text, span)

def symbolOperator : Descent (String × Span) := do
  let t ← current tokens
  let (text, span) ← symbols tokens "" t.span (← rest tokens)
  if text = "" then unrecognized tokens else return (text, span)

variable {tokens}

theorem current_bind {α : Type} (f : Token → Descent α) (h : Trail) :
    (current tokens >>= f) h = f (h.token tokens) h := rfl

theorem rest_bind {α : Type} (f : List Token → Descent α) (h : Trail) :
    (rest tokens >>= f) h = f (h.ahead tokens) h := rfl

theorem advance_apply (h : Trail) :
    advance tokens h =
      (.ok (), if h.now.position < tokens.length then
        h.move { h.now with position := h.now.position + 1 } else h) := by
  rw [advance, cursor_bind]
  split <;> rfl

theorem symbols_cons {t : Token} {ch : Char} (hch : t.kind = .symbol ch) (text : String)
    (span : Span) (ahead : List Token) :
    symbols tokens text span (t :: ahead) =
      if text ≠ "" ∧ t.span.start ≠ span.stop then pure (text, span)
      else advance tokens >>= fun _ =>
        symbols tokens (text.push ch) { span with stop := t.span.stop } ahead := by
  rw [symbols, hch]

theorem symbols_cons_of_ne {t : Token} (hch : ∀ ch, t.kind ≠ .symbol ch) (text : String)
    (span : Span) (ahead : List Token) :
    symbols tokens text span (t :: ahead) = pure (text, span) := by
  rw [symbols]
  split
  · next ch hsymbol => exact absurd hsymbol (hch ch)
  · rfl

end Tokens

section Levels

variable (c : Config)

def descend : Descent Unit := do
  if c.maxDepth ≤ (← cursor).depth then throw (.tooDeep c.maxDepth)
  else move fun v => { v with depth := v.depth + 1 }

/-- Reads one level deeper. The level is left again behind a failure too. -/
def nested {α : Type} (inner : Descent α) : Descent α := do
  descend c
  try inner finally move fun v => { v with depth := v.depth - 1 }

/-- The depth counter is set back to what it was, behind a failure too. -/
def keepingDepth {α : Type} (inner : Descent α) : Descent α := do
  let outer ← cursor
  try inner finally move fun v => { v with depth := outer.depth }

variable {c}

theorem descend_bind {α : Type} (f : Unit → Descent α) (h : Trail) :
    (descend c >>= f) h =
      if c.maxDepth ≤ h.now.depth then (.error (.tooDeep c.maxDepth), h)
      else f () (h.move { h.now with depth := h.now.depth + 1 }) := by
  rw [bind_apply, descend, cursor_bind]
  by_cases hdeep : c.maxDepth ≤ h.now.depth
  · rw [if_pos hdeep, if_pos hdeep]
    rfl
  · rw [if_neg hdeep, if_neg hdeep]
    rfl

theorem nested_apply {α : Type} (inner : Descent α) (h : Trail) :
    nested c inner h =
      if c.maxDepth ≤ h.now.depth then (.error (.tooDeep c.maxDepth), h)
      else
        let (r, h') := inner (h.move { h.now with depth := h.now.depth + 1 })
        (r, h'.move { h'.now with depth := h'.now.depth - 1 }) := by
  rw [nested, descend_bind]
  split
  · rfl
  · exact finally_move_apply _ _ _

theorem keepingDepth_apply {α : Type} (inner : Descent α) (h : Trail) :
    keepingDepth inner h =
      let (r, h') := inner h
      (r, h'.move { h'.now with depth := h.now.depth }) := by
  rw [keepingDepth, cursor_bind]
  exact finally_move_apply _ _ _

end Levels

def build (o : Operator) (operands : List Filter) : Descent Filter :=
  match Filter.operation o operands with
  | .ok q => return q
  | .error e => throw (.arity e)

structure Inside where
  expression : Descent Filter
  group : Descent Filter

section Phrases

variable (c : Config) (tokens : List Token)

/-- The values of a list up to its end; `texts` are read already, and some tokens are ahead. -/
def valueList (texts : List String) : List Token → Descent Filter
  | [] => return .values texts
  | t :: ahead =>
    match t.kind with
    | .closeParen | .endOfInput => return .values texts
    | .comma => do
      advance tokens
      valueList texts ahead
    | .word text | .quoted _ text => do
      advance tokens
      valueList (texts ++ [text]) ahead
    | .number text x => do
      advance tokens
      valueList (texts ++ [c.numbers.write text x]) ahead
    | _ => unrecognized tokens

variable (inside : Inside)

/-- What stands in parentheses: a group in the place of a field, and a list of values elsewhere. -/
def enclosed (asField : Bool) : Descent Filter := do
  if asField then return .group (← inside.group)
  else valueList c tokens [] (← rest tokens)

def parenthesis (asField : Bool) : Descent Filter := do
  let opening ← current tokens
  advance tokens
  let q ← nested c (enclosed c tokens inside asField)
  let t ← current tokens
  if t.kind = .closeParen then take tokens q else throw (.missingParen opening.span)

/-- The least phrase: a group or list, a negation, a name or a value. -/
def primary (asField : Bool) : Descent Filter := do
  let t ← current tokens
  match t.kind with
  | .openParen => parenthesis c tokens inside asField
  | .word text =>
    match Operator.lookupBefore text with
    | some o => do
      advance tokens
      nested c do build o [← inside.expression]
    | none => take tokens (if asField then .name text else .value text)
  | .quoted _ text => take tokens (if asField then .name text else .value text)
  | .number text x => take tokens (.value (c.numbers.write text x))
  | _ => unrecognized tokens

def values : Nat → Descent (List Filter)
  | 0 => return []
  | n + 1 => do
    let q ← primary c tokens inside false
    return q :: (← values n)

/-- What an operator makes of `left` and of what follows it. -/
def operation (left : Filter) (text : String) (span : Span) : Descent Filter :=
  match Operator.lookup text with
  | none => throw (.unknownOperator text span)
  | some o =>
    if o.takesExpression then do
      let right ← nested c inside.expression
      build o [left, right]
    else do
      let others ← values c tokens inside (o.arity.least - 1)
      build o (left :: others)

/-- What goes on with `left`: an operator, or nothing. -/
def continuation (left : Filter) : Descent Filter := do
  let t ← current tokens
  match t.kind with
  | .word text => do
    advance tokens
    operation c tokens inside left text t.span
  | .number _ _ | .closeParen | .endOfInput => return left
  | _ => do
    let (text, span) ← symbolOperator tokens
    operation c tokens inside left text span

def expression : Descent Filter := do
  continuation c tokens inside (← primary c tokens inside true)

end Phrases

variable (c : Config) (tokens : List Token)

mutual

/-- What can be read inside while so many levels are left here. -/
def inside : Nat → Inside
  | 0 => ⟨throw (.tooDeep c.maxDepth), throw (.tooDeep c.maxDepth)⟩
  | levels + 1 =>
    { expression := expression c tokens (inside levels)
      group := do
        let first ← expression c tokens (inside levels)
        keepingDepth (chain levels true first) }

/-- Expressions go on with `left` up to the end of the text or of the group. Each takes a level. -/
def chain : Nat → Bool → Filter → Descent Filter
  | levels, inGroup, left => do
    let t ← current tokens
    if t.kind = .endOfInput ∨ t.kind = .closeParen ∧ inGroup then return left
    else do
      descend c
      let start ← cursor
      match levels with
      | 0 => throw (.tooDeep c.maxDepth)
      | levels + 1 =>
        let q ← continuation c tokens (inside levels) left
        if (← cursor).position = start.position then unrecognized tokens
        else chain levels inGroup q

end

def whole (levels : Nat) : Descent Filter := do
  let first ← expression c tokens (inside c tokens levels)
  keepingDepth (chain c tokens levels false first)

/-- Reads what is ahead, if there is anything ahead. -/
def next : Descent (Option Filter) := do
  let t ← current tokens
  if t.kind = .endOfInput then return none
  else return some (← whole c tokens (c.maxDepth - (← cursor).depth).toNat)

end Descent

end FilterLang
