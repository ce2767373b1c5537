import FilterLang.Filter.Parser
import FilterLang.Proofs.Grammar

/-! What reading comes to from each state, as equations between outcomes: a leaf, an opening or
closing parenthesis, a spelled operator, a list of values and the end of an expression. What is
unfinished around a phrase is the same before and after it. -/

namespace FilterLang

theorem Operator.isSome_lookupBefore {text : String} :
    (lookupBefore text).isSome = true ↔ text = negation.spelling := by
  constructor
  · intro h
    obtain ⟨o, ho⟩ := Option.isSome_iff_exists.mp h
    obtain ⟨hlookup, hbefore⟩ := Option.filter_eq_some_iff.mp ho
    have htext := lookup_eq_some_iff.mp hlookup
    cases o with
    | negation => exact htext
    | connective => cases hbefore
    | relation => cases hbefore
  · rintro rfl
    rfl

namespace ParseState

theorem node_relation (r : Relation) (left right : Filter) (taken : Bool) :
    node (.relation r) [left, right] taken = .ok (r.apply left right) := by
  cases r <;> rfl

/-- The state after an operand that ends its expression. -/
def finished (groups : List Group) : Filter → Nat → List Frame → ParseState
  | q, depth, [] => ⟨.chain q, [], groups, depth⟩
  | q, depth, .connection op left :: frames =>
    finished groups (.connection op left q) (depth - 1) frames
  | q, depth, .negatedValue r left :: frames =>
    finished groups (r.apply left (.negation q)) (depth - 1) frames
  | q, depth, .negation :: frames => ⟨.operator (.negation q), frames, groups, depth - 1⟩

theorem finishOperand_eq (taken : Bool) (groups : List Group) (q : Filter) (depth : Nat)
    (frames : List Frame) :
    finishOperand taken groups q depth frames = .ok (finished groups q depth frames) := by
  induction frames generalizing q depth with
  | nil => rfl
  | cons f frames ih =>
    cases f with
    | connection op left => exact ih _ _
    | negation => rfl
    | negatedValue r left =>
      rw [finishOperand, node_negation]
      simp only [bind, Except.bind, node_relation]
      exact ih _ _

theorem readOperand_eq (s : ParseState) (r : Relation) (left right : Filter) :
    s.readOperand r left right =
      .ok (finished s.groups (r.apply left right) s.depth s.frames) := by
  simp only [readOperand, node_relation, bind, Except.bind, finishOperand_eq]

/-- The tree of an expression with every unfinished node around it. -/
def wrapped : Filter → List Frame → Filter
  | q, [] => q
  | q, .connection op left :: frames => wrapped (.connection op left q) frames
  | q, .negatedValue r left :: frames => wrapped (r.apply left (.negation q)) frames
  | q, .negation :: frames => wrapped (.negation q) frames

theorem finishExpression_eq (q : Filter) (depth : Nat) (frames : List Frame) :
    finishExpression q depth frames = .ok (wrapped q frames, depth - frames.length) := by
  induction frames generalizing q depth with
  | nil => rfl
  | cons f frames ih =>
    have hdepth : depth - (f :: frames).length = depth - 1 - frames.length := by
      simp only [List.length_cons]
      omega
    rw [hdepth]
    cases f with
    | connection op left => exact ih _ _
    | negation => exact ih _ _
    | negatedValue r left =>
      rw [finishExpression, node_negation]
      simp only [bind, Except.bind, node_relation]
      exact ih _ _

/-- What reading comes to. -/
def outcome (c : Config) (s : ParseState) (ts : List Token) : Except ParseError Filter :=
  (run c s ts).1

/-- What reading comes to after a step. -/
def after (c : Config) (step : Except Fault ParseState) (ts : List Token) :
    Except ParseError Filter :=
  match step with
  | .ok s => outcome c s ts
  | .error e => .error e.error

/-- Reads on after a step that has taken all the tokens before `ts`. -/
def resume (c : Config) (step : Except Fault ParseState) (ts : List Token) :
    Except ParseError Filter × List Token :=
  match step with
  | .ok s => run c s ts
  | .error e => (.error e.error, ts)

variable {c : Config} {s : ParseState} {t : Token} {ts rest : List Token}
  {frames : List Frame} {groups : List Group} {depth : Nat} {q Q : Filter}

theorem fst_resume (step : Except Fault ParseState) : (resume c step ts).1 = after c step ts := by
  cases step <;> rfl

theorem run_end (h : t.kind = .endOfInput) : run c s (t :: ts) = (s.readEnd c, t :: ts) := by
  simp [run, h]

theorem run_of_read {s' : ParseState} (ht : t.kind ≠ .endOfInput) (h : s.read c t = .ok s') :
    run c s (t :: ts) = run c s' ts := by
  simp only [run, ht, h, if_false]

theorem run_of_fault {e : ParseError} (ht : t.kind ≠ .endOfInput)
    (h : s.read c t = .error ⟨e, false⟩) : run c s (t :: ts) = (.error e, t :: ts) := by
  simp only [run, ht, h, if_false, Bool.false_eq_true]

theorem run_of_taken {step : Except Fault ParseState} (ht : t.kind ≠ .endOfInput)
    (h : s.read c t = step) (htaken : ∀ e, step = .error e → e.taken = true) :
    run c s (t :: ts) = resume c step ts := by
  simp only [run, ht, h, if_false]
  cases hstep : step with
  | ok s' => rfl
  | error e => simp only [htaken e hstep, if_true, resume]

theorem run_of_descend {f : ParseState → ParseState} (ht : t.kind ≠ .endOfInput)
    (h : s.read c t = s.descend c true >>= fun s => .ok (f s)) :
    run c s (t :: ts) = resume c (s.descend c true >>= fun s => .ok (f s)) ts := by
  refine run_of_taken ht h fun e he => ?_
  unfold descend at he
  split_ifs at he
  · cases he
    rfl
  · cases he

theorem outcome_nil : outcome c s [] = s.readEnd c := rfl

theorem outcome_end (h : t.kind = .endOfInput) : outcome c s (t :: ts) = s.readEnd c := by
  rw [outcome, run_end h]

theorem outcome_cons (h : t.kind ≠ .endOfInput) :
    outcome c s (t :: ts) = after c (s.read c t) ts := by
  simp only [outcome, run, h, after, if_false]
  cases s.read c t <;> rfl

/-- A level is entered if there is one. -/
theorem resume_descend {taken : Bool} {f : ParseState → Except Fault ParseState} :
    resume c (s.descend c taken >>= f) ts =
      if c.maxDepth ≤ s.depth then (.error (.tooDeep c.maxDepth), ts)
      else resume c (f { s with depth := s.depth + 1 }) ts := by
  unfold descend
  split_ifs <;> rfl

theorem after_descend {taken : Bool} {f : ParseState → Except Fault ParseState} :
    after c (s.descend c taken >>= f) ts =
      if c.maxDepth ≤ s.depth then .error (.tooDeep c.maxDepth)
      else after c (f { s with depth := s.depth + 1 }) ts := by
  rw [← fst_resume, resume_descend]
  split_ifs
  · rfl
  · exact fst_resume _

/-- The token for the end of a text is as good as no token. -/
theorem outcome_append_end (hts : ∀ u ∈ ts, u.kind ≠ .endOfInput) (ht : t.kind = .endOfInput) :
    outcome c s (ts ++ [t]) = outcome c s ts := by
  induction ts generalizing s with
  | nil => exact outcome_end ht
  | cons u ts ih =>
    have hu : u.kind ≠ .endOfInput := hts u (by simp)
    rw [List.cons_append, outcome_cons hu, outcome_cons hu]
    cases s.read c u with
    | ok s => exact ih fun v hv => hts v (by simp [hv])
    | error e => rfl

/-- What stands behind a token for the end is not read. -/
theorem run_takeWhile (s : ParseState) (ts : List Token) :
    run c s (ts.takeWhile (·.kind ≠ .endOfInput)) =
      ((run c s ts).1, (run c s ts).2.takeWhile (·.kind ≠ .endOfInput)) := by
  induction ts generalizing s with
  | nil => rfl
  | cons t ts ih =>
    by_cases ht : t.kind = .endOfInput
    · rw [List.takeWhile_cons_of_neg (by simpa using ht), run_end ht,
        List.takeWhile_cons_of_neg (by simpa using ht)]
      rfl
    · rw [List.takeWhile_cons_of_pos (by simpa using ht), run, run, if_neg ht, if_neg ht]
      cases s.read c t with
      | ok s => exact ih s
      | error e =>
        simp only
        split_ifs
        · rfl
        · rw [List.takeWhile_cons_of_pos (by simpa using ht)]

theorem read_operator_eq_chain (ht : t.kind = .closeParen ∨ ∃ text x, t.kind = .number text x) :
    read c ⟨.operator q, frames, groups, depth⟩ t =
      read c ⟨.chain (wrapped q frames), [], groups, depth - frames.length⟩ t := by
  rcases ht with ht | ⟨text, x, ht⟩ <;>
    simp only [read, readPlain, readOperator, ht, finishExpression_eq, bind, Except.bind]

/-- No operator comes next, so an expression ends here. -/
def NoOperator (ts : List Token) : Prop :=
  ∀ t ∈ ts.head?, (t.kind = .closeParen ∨ ∃ text x, t.kind = .number text x) ∨
    t.kind = .endOfInput

theorem run_operator_eq_chain (h : NoOperator rest) :
    run c ⟨.operator q, frames, groups, depth⟩ rest =
      run c ⟨.chain (wrapped q frames), [], groups, depth - frames.length⟩ rest := by
  have hend : readEnd c ⟨.operator q, frames, groups, depth⟩ =
      readEnd c ⟨.chain (wrapped q frames), [], groups, depth - frames.length⟩ := by
    simp only [readEnd, close, finishExpression_eq]
  cases rest with
  | nil => rw [run, run, hend]
  | cons t rest =>
    rcases h t (by simp) with ht | ht
    · rw [run, run, hend, read_operator_eq_chain ht]
    · rw [run_end ht, run_end ht, hend]

theorem run_finished_eq_chain (h : NoOperator rest) :
    run c (finished groups q depth frames) rest =
      run c ⟨.chain (wrapped q frames), [], groups, depth - frames.length⟩ rest := by
  induction frames generalizing q depth with
  | nil => rfl
  | cons f frames ih =>
    have hdepth : depth - (f :: frames).length = depth - 1 - frames.length := by
      simp only [List.length_cons]
      omega
    rw [hdepth]
    cases f with
    | connection op left => exact ih
    | negatedValue r left => exact ih
    | negation => exact run_operator_eq_chain h

/-- Where no operator follows an operand may stand alone. -/
theorem run_operator_eq_finished (h : NoOperator rest) :
    run c ⟨.operator q, frames, groups, depth⟩ rest =
      run c (finished groups q depth frames) rest := by
  rw [run_operator_eq_chain h, run_finished_eq_chain h]

theorem outcome_operator_of_closes (h : Closes rest) :
    outcome c ⟨.operator q, frames, groups, depth⟩ rest =
      outcome c (finished groups q depth frames) rest :=
  congrArg Prod.fst (run_operator_eq_finished fun t ht => .inl (.inl (h t ht)))

theorem outcome_chain_closeParen {g : Group} (ht : t.kind = .closeParen) :
    outcome c ⟨.chain q, frames, g :: groups, depth⟩ (t :: rest) =
      outcome c ⟨.operator (.group q), g.frames, groups, g.depth⟩ rest := by
  rw [outcome_cons (by simp [ht])]
  simp only [read, readPlain, readChain, ht, after]

/-- What reading comes to after an operator in an expression that starts with `left`. -/
def afterOperator (c : Config) (o : Operator) (left : Filter) (frames : List Frame)
    (groups : List Group) (depth : Nat) (ts : List Token) : Except ParseError Filter :=
  match o with
  | .connective op =>
    if c.maxDepth ≤ depth then .error (.tooDeep c.maxDepth)
    else outcome c ⟨.field, .connection op left :: frames, groups, depth + 1⟩ ts
  | .relation r => outcome c ⟨.value r left, frames, groups, depth⟩ ts
  | .negation => outcome c (finished groups (.negation left) depth frames) ts

/-- Whether no operator is being spelled. -/
def IsPlain (s : ParseState) : Prop := ∀ left text span, s.expect ≠ .symbols left text span

theorem isPlain_finished : (finished groups q depth frames).IsPlain := by
  induction frames generalizing q depth with
  | nil => simp [finished, IsPlain]
  | cons f frames ih =>
    cases f with
    | connection op left => exact ih
    | negatedValue r left => exact ih
    | negation => simp [finished, IsPlain]

theorem IsPlain.readEnd_eq (h : s.IsPlain) : s.readEnd c = s.close := by
  unfold readEnd
  split
  · next left text span he => exact absurd he (h left text span)
  · rfl

theorem IsPlain.read_eq (h : s.IsPlain) : s.read c t = s.readPlain c t := by
  unfold read
  split
  · next left text span he => exact absurd he (h left text span)
  · rfl

variable {text : String} {span : Span} {taken : Bool} {o : Operator}

theorem readOperation_of_lookup_none (h : Operator.lookup text = none) :
    readOperation c s q text span taken = .error ⟨.unknownOperator text span, taken⟩ := by
  simp only [readOperation, h]

theorem after_readOperation (h : Operator.lookup text = some o) :
    after c (readOperation c s q text span taken) ts =
      afterOperator c o q s.frames s.groups s.depth ts := by
  unfold readOperation afterOperator
  simp only [h]
  cases o with
  | connective op => exact after_descend
  | relation r => rfl
  | negation =>
    simp only [node_negation, bind, Except.bind, finishOperand_eq]
    rfl

theorem isPlain_of_readOperation {s' : ParseState}
    (h : readOperation c s q text span taken = .ok s') : s'.IsPlain := by
  unfold readOperation at h
  split at h
  · cases h
  · simp only [descend, bind, Except.bind] at h
    split_ifs at h
    cases h
    intro left text span
    simp [push]
  · cases h
    simp [IsPlain]
  · simp only [node_negation, bind, Except.bind, finishOperand_eq] at h
    cases h
    exact isPlain_finished

theorem taken_of_readOperation {e : Fault}
    (h : readOperation c s q text span taken = .error e) : e.taken = taken := by
  unfold readOperation at h
  split at h
  · cases h
    rfl
  · simp only [descend, bind, Except.bind] at h
    split_ifs at h
    cases h
    rfl
  · cases h
  · simp only [node_negation, bind, Except.bind, finishOperand_eq] at h
    cases h

theorem adjacentSymbol?_of_touches {u : Token} {ch : Char} (h : span.stop = t.span.stop)
    (htu : t.Touches u) (hu : u.kind = .symbol ch) : adjacentSymbol? span u = some ch := by
  simp only [adjacentSymbol?, hu, htu.2, h, if_true]

theorem adjacentSymbol?_of_not_touches {u : Token} (h : span.stop = t.span.stop)
    (htu : ¬ t.Touches u) : adjacentSymbol? span u = none := by
  unfold adjacentSymbol?
  split
  · next ch hu => exact if_neg fun hstart => htu ⟨⟨ch, hu⟩, hstart.trans h⟩
  · rfl

/-- A token that does not go on with an operator completes it, and so does the end. -/
theorem run_symbols_done (h : ∀ u ∈ ts.head?, adjacentSymbol? span u = none) :
    run c ⟨.symbols q text span, frames, groups, depth⟩ ts =
      resume c (readOperation c ⟨.symbols q text span, frames, groups, depth⟩ q text span false)
        ts := by
  cases hstep :
    readOperation c ⟨.symbols q text span, frames, groups, depth⟩ q text span false with
  | error e =>
    cases ts with
    | nil => simp only [run, readEnd, hstep, resume]
    | cons u ts =>
      by_cases hu : u.kind = .endOfInput
      · simp only [run_end hu, readEnd, hstep, resume]
      · simp only [run, hu, read, h u (by simp), hstep, bind, Except.bind, resume,
          taken_of_readOperation hstep, if_false, Bool.false_eq_true]
  | ok s' =>
    have hplain := isPlain_of_readOperation hstep
    have hend : readEnd c ⟨.symbols q text span, frames, groups, depth⟩ = s'.readEnd c := by
      rw [hplain.readEnd_eq]
      simp only [readEnd, hstep]
    cases ts with
    | nil => simp only [run, resume, hend]
    | cons u ts =>
      have hread : read c ⟨.symbols q text span, frames, groups, depth⟩ u = s'.read c u := by
        rw [hplain.read_eq]
        simp only [read, h u (by simp), hstep, bind, Except.bind]
      simp only [run, resume, hend, hread]

theorem outcome_symbols_done (h : ∀ u ∈ ts.head?, adjacentSymbol? span u = none) :
    outcome c ⟨.symbols q text span, frames, groups, depth⟩ ts =
      after c (readOperation c ⟨.symbols q text span, frames, groups, depth⟩ q text span false)
        ts := by
  rw [outcome, run_symbols_done h, fst_resume]

/-- All the symbols that touch are joined to one operator. -/
theorem outcome_symbols {cs : List Char} (h : SymbolRun cs ts rest) (text : String) (span : Span)
    (hspan : ∀ u ∈ ts.head?, span.stop = u.span.stop) :
    ∃ e span', outcome c ⟨.symbols q text span, frames, groups, depth⟩ ts.tail =
      after c (readOperation c ⟨e, frames, groups, depth⟩ q
        (text ++ String.ofList cs.tail) span' false) rest := by
  induction h generalizing text span with
  | @last t ch rest ht hrest =>
    have hstop : span.stop = t.span.stop := hspan t (by simp)
    refine ⟨.symbols q text span, span, ?_⟩
    rw [List.tail_cons, List.tail_cons, String.ofList_nil, String.append_empty]
    exact outcome_symbols_done fun u hu => adjacentSymbol?_of_not_touches hstop (hrest u hu)
  | @cons t u ch cs ts rest ht htu hrun ih =>
    obtain ⟨_, _, ch', cs, hts, rfl, hu⟩ := hrun.exists_cons
    cases hts
    have hread : read c ⟨.symbols q text span, frames, groups, depth⟩ u =
        .ok ⟨.symbols q (text.push ch') { span with stop := u.span.stop }, frames, groups,
          depth⟩ := by
      simp only [read, adjacentSymbol?_of_touches (hspan t (by simp)) htu hu]
    obtain ⟨e, span', hih⟩ := ih (text.push ch') { span with stop := u.span.stop } (by simp)
    refine ⟨e, span', ?_⟩
    rw [List.tail_cons, outcome_cons (by simp [hu]), hread]
    rw [List.tail_cons] at hih
    rw [List.tail_cons, ← Scanner.push_append_ofList]
    exact hih

theorem outcome_first_symbol {ch : Char} {cs : List Char} (ht : t.kind = .symbol ch)
    (h : SymbolRun cs (t :: ts) rest) :
    ∃ e span, outcome c ⟨.symbols q ch.toString t.span, frames, groups, depth⟩ ts =
      after c (readOperation c ⟨e, frames, groups, depth⟩ q (String.ofList cs) span false)
        rest := by
  obtain ⟨e, span, hrun⟩ := outcome_symbols h ch.toString t.span (by simp)
  refine ⟨e, span, hrun.trans ?_⟩
  have htext : ch.toString ++ String.ofList cs.tail = String.ofList cs := by
    obtain ⟨_, _, ch', cs, hts, rfl, ht'⟩ := h.exists_cons
    cases hts
    cases ht.symm.trans ht'
    apply String.toList_inj.mp
    simp
  rw [htext]

theorem outcome_operator_spelled (h : Spelled o ts rest) :
    outcome c ⟨.operator q, frames, groups, depth⟩ ts =
      afterOperator c o q frames groups depth rest := by
  cases h with
  | @word t rest _ ht =>
    rw [outcome_cons (by simp [ht])]
    simp only [read, readPlain, readOperator, ht]
    exact after_readOperation (Operator.lookup_spelling o)
  | @symbols cs ts rest _ hcs hrun =>
    obtain ⟨t, ts, ch, _, rfl, -, ht⟩ := hrun.exists_cons
    obtain ⟨e, span, hout⟩ := outcome_first_symbol ht hrun
    rw [outcome_cons (by simp [ht])]
    simp only [read, readPlain, readOperator, ht]
    exact hout.trans (after_readOperation (hcs ▸ Operator.lookup_spelling o))

/-- In a chain an operator costs a level, whatever it is. -/
theorem outcome_chain_spelled (h : Spelled o ts rest) :
    outcome c ⟨.chain q, frames, groups, depth⟩ ts =
      if c.maxDepth ≤ depth then .error (.tooDeep c.maxDepth)
      else afterOperator c o q frames groups (depth + 1) rest := by
  cases h with
  | @word t rest _ ht =>
    rw [outcome_cons (by simp [ht])]
    simp only [read, readPlain, readChain, ht, after_descend,
      after_readOperation (Operator.lookup_spelling o)]
  | @symbols cs ts rest _ hcs hrun =>
    obtain ⟨t, ts, ch, _, rfl, -, ht⟩ := hrun.exists_cons
    obtain ⟨e, span, hout⟩ := outcome_first_symbol ht hrun
    rw [outcome_cons (by simp [ht])]
    simp only [read, readPlain, readChain, ht, after_descend]
    exact congrArg _ (hout.trans (after_readOperation (hcs ▸ Operator.lookup_spelling o)))

theorem eq_word_of_spelled_negation (h : Spelled .negation ts rest) :
    ∃ u, ts = u :: rest ∧ u.kind = .word Operator.negation.spelling := by
  cases h with
  | word _ hu => exact ⟨_, rfl, hu⟩
  | symbols ho => cases ho

theorem outcome_field_leaf (h : t.kind.field? c.numbers = some q) :
    outcome c ⟨.field, frames, groups, depth⟩ (t :: ts) =
      outcome c ⟨.operator q, frames, groups, depth⟩ ts := by
  obtain ⟨kind, span⟩ := t
  cases kind with
  | word text =>
    simp only [TokenKind.field?, TokenKind.leaf?] at h
    split_ifs at h with htext
    cases h
    rw [outcome_cons (by simp)]
    simp only [read, readPlain, readField, Operator.isSome_lookupBefore, htext, if_false, after]
  | quoted d text => cases h; rfl
  | number text x => cases h; rfl
  | openParen | closeParen | comma | symbol | endOfInput => cases h

theorem outcome_field_open (h : t.kind = .openParen) :
    outcome c ⟨.field, frames, groups, depth⟩ (t :: ts) =
      if c.maxDepth ≤ depth then .error (.tooDeep c.maxDepth)
      else outcome c ⟨.field, [], ⟨t.span, frames, depth⟩ :: groups, depth + 1⟩ ts := by
  rw [outcome_cons (by simp [h])]
  simp only [read, readPlain, readField, h]
  exact after_descend

theorem outcome_field_negation (h : Spelled .negation ts rest) :
    outcome c ⟨.field, frames, groups, depth⟩ ts =
      if c.maxDepth ≤ depth then .error (.tooDeep c.maxDepth)
      else outcome c ⟨.field, .negation :: frames, groups, depth + 1⟩ rest := by
  obtain ⟨u, rfl, hu⟩ := eq_word_of_spelled_negation h
  rw [outcome_cons (by simp [hu])]
  simp only [read, readPlain, readField, hu, Operator.isSome_lookupBefore, if_true]
  exact after_descend

theorem outcome_value_leaf {r : Relation} {left : Filter}
    (h : t.kind.value? c.numbers = some q) :
    outcome c ⟨.value r left, frames, groups, depth⟩ (t :: ts) =
      outcome c (finished groups (r.apply left q) depth frames) ts := by
  obtain ⟨kind, span⟩ := t
  cases kind with
  | word text =>
    simp only [TokenKind.value?, TokenKind.leaf?] at h
    split_ifs at h with htext
    cases h
    rw [outcome_cons (by simp)]
    simp only [read, readPlain, readValue, Operator.isSome_lookupBefore, htext, if_false,
      readOperand_eq, after]
  | quoted d text =>
    cases h
    rw [outcome_cons (by simp)]
    simp only [read, readPlain, readValue, readOperand_eq, after]
  | number text x =>
    cases h
    rw [outcome_cons (by simp)]
    simp only [read, readPlain, readValue, readOperand_eq, after]
  | openParen | closeParen | comma | symbol | endOfInput => cases h

theorem outcome_value_open {r : Relation} {left : Filter} (h : t.kind = .openParen) :
    outcome c ⟨.value r left, frames, groups, depth⟩ (t :: ts) =
      if c.maxDepth ≤ depth then .error (.tooDeep c.maxDepth)
      else outcome c ⟨.elements r left t.span [], frames, groups, depth + 1⟩ ts := by
  rw [outcome_cons (by simp [h])]
  simp only [read, readPlain, readValue, h]
  exact after_descend

theorem outcome_value_negation {r : Relation} {left : Filter} (h : Spelled .negation ts rest) :
    outcome c ⟨.value r left, frames, groups, depth⟩ ts =
      if c.maxDepth ≤ depth then .error (.tooDeep c.maxDepth)
      else outcome c ⟨.field, .negatedValue r left :: frames, groups, depth + 1⟩ rest := by
  obtain ⟨u, rfl, hu⟩ := eq_word_of_spelled_negation h
  rw [outcome_cons (by simp [hu])]
  simp only [read, readPlain, readValue, hu, Operator.isSome_lookupBefore, if_true]
  exact after_descend

theorem outcome_elements_cons {r : Relation} {left : Filter} {opening : Span}
    {texts : List String} (h : t.kind = .comma ∨ (t.kind.element? c.numbers).isSome) :
    outcome c ⟨.elements r left opening texts, frames, groups, depth⟩ (t :: ts) =
      outcome c ⟨.elements r left opening (texts ++ (t.kind.element? c.numbers).toList), frames,
        groups, depth⟩ ts := by
  obtain ⟨kind, span⟩ := t
  cases kind with
  | comma =>
    have hnone : TokenKind.element? c.numbers .comma = none := rfl
    rw [hnone, Option.toList_none, List.append_nil]
    rfl
  | word text => rfl
  | quoted d text => rfl
  | number text x => rfl
  | openParen | closeParen | symbol | endOfInput => simp [TokenKind.element?] at h

theorem read_elements_close {r : Relation} {left : Filter} {opening : Span}
    {texts : List String} (h : t.kind = .closeParen) :
    read c ⟨.elements r left opening texts, frames, groups, depth⟩ t =
      .ok (finished groups (r.apply left (.values texts)) (depth - 1) frames) := by
  simp only [read, readPlain, readElement, h, readOperand_eq]

theorem outcome_elements_close {r : Relation} {left : Filter} {opening : Span}
    {texts : List String} (h : t.kind = .closeParen) :
    outcome c ⟨.elements r left opening texts, frames, groups, depth⟩ (t :: ts) =
      outcome c (finished groups (r.apply left (.values texts)) (depth - 1) frames) ts := by
  rw [outcome_cons (by simp [h]), read_elements_close h, after]

theorem outcome_elements {r : Relation} {left : Filter} {opening : Span} {items : List Token}
    (texts : List String)
    (hitems : ∀ e ∈ items, e.kind = .comma ∨ (e.kind.element? c.numbers).isSome)
    (h : t.kind = .closeParen) :
    outcome c ⟨.elements r left opening texts, frames, groups, depth⟩ (items ++ t :: ts) =
      outcome c (finished groups (r.apply left
        (.values (texts ++ items.filterMap (·.kind.element? c.numbers)))) (depth - 1) frames)
        ts := by
  induction items generalizing texts with
  | nil => simpa using outcome_elements_close h
  | cons e items ih =>
    rw [List.cons_append, outcome_elements_cons (hitems e (by simp)),
      ih _ fun e' he' => hitems e' (by simp [he'])]
    cases he : e.kind.element? c.numbers <;> simp [he]

theorem spelled_of_symbols (hts : ∀ u ∈ t :: ts, u.kind.Lexical) {ch : Char}
    (ht : t.kind = .symbol ch)
    (h : outcome c ⟨.symbols q ch.toString t.span, frames, groups, depth⟩ ts = .ok Q) :
    ∃ o rest, Spelled o (t :: ts) rest := by
  obtain ⟨cs, rest, hrun⟩ := SymbolRun.exists_of_symbol ht ts
  obtain ⟨e, span, hout⟩ := outcome_first_symbol ht hrun
  rw [hout] at h
  cases ho : Operator.lookup (String.ofList cs) with
  | none =>
    rw [readOperation_of_lookup_none ho] at h
    cases h
  | some o => exact ⟨o, rest, .of_symbolRun hts hrun ho⟩

theorem closes_or_spelled_of_operator (hts : ∀ u ∈ ts, u.kind.Lexical)
    (h : outcome c ⟨.operator q, frames, groups, depth⟩ ts = .ok Q) :
    Closes ts ∨ ∃ o rest, Spelled o ts rest := by
  rcases ts with _ | ⟨t, ts⟩
  · exact .inl closes_nil
  rw [outcome_cons (hts t (by simp)).ne_endOfInput] at h
  cases ht : t.kind with
  | word text =>
    simp only [read, readPlain, readOperator, ht] at h
    cases ho : Operator.lookup text with
    | none =>
      rw [readOperation_of_lookup_none ho] at h
      cases h
    | some o => exact .inr ⟨o, ts, .of_word hts ht ho⟩
  | symbol ch =>
    simp only [read, readPlain, readOperator, ht] at h
    exact .inr (spelled_of_symbols hts ht h)
  | number text x =>
    rw [read_operator_eq_chain (.inr ⟨text, x, ht⟩)] at h
    simp only [read, readPlain, readChain, ht, after_descend] at h
    split_ifs at h
    cases h
  | closeParen => exact .inl (closes_cons.mpr ht)
  | quoted | openParen | comma =>
    simp only [read, readPlain, readOperator, ht] at h
    cases h
  | endOfInput => exact absurd ht (hts t (by simp)).ne_endOfInput

theorem closes_or_spelled_of_chain (hts : ∀ u ∈ ts, u.kind.Lexical)
    (h : outcome c ⟨.chain q, frames, groups, depth⟩ ts = .ok Q) :
    Closes ts ∨ ∃ o rest, Spelled o ts rest := by
  rcases ts with _ | ⟨t, ts⟩
  · exact .inl closes_nil
  rw [outcome_cons (hts t (by simp)).ne_endOfInput] at h
  cases ht : t.kind with
  | word text =>
    cases ho : Operator.lookup text with
    | none =>
      simp only [read, readPlain, readChain, ht, after_descend,
        readOperation_of_lookup_none ho] at h
      split_ifs at h
      cases h
    | some o => exact .inr ⟨o, ts, .of_word hts ht ho⟩
  | symbol ch =>
    simp only [read, readPlain, readChain, ht, after_descend] at h
    split_ifs at h
    exact .inr (spelled_of_symbols hts ht h)
  | closeParen => exact .inl (closes_cons.mpr ht)
  | quoted | number | openParen | comma =>
    simp only [read, readPlain, readChain, ht, after_descend] at h
    split_ifs at h
    cases h
  | endOfInput => exact absurd ht (hts t (by simp)).ne_endOfInput

theorem field_of_ok (h : outcome c ⟨.field, frames, groups, depth⟩ ts = .ok Q) :
    ∃ t rest, ts = t :: rest ∧ ((∃ q, t.kind.field? c.numbers = some q) ∨
      t.kind = .openParen ∨ Spelled .negation ts rest) := by
  rcases ts with _ | ⟨t, ts⟩
  · cases h
  have ht : t.kind.comesFirst = true := by
    obtain ⟨kind, span⟩ := t
    cases kind with
    | word | quoted | number | openParen => rfl
    | closeParen | comma | symbol | endOfInput => cases h
  exact ⟨t, ts, rfl, leaf_or_of_comesFirst .name ht ts⟩

theorem value_of_ok {r : Relation} {left : Filter}
    (h : outcome c ⟨.value r left, frames, groups, depth⟩ ts = .ok Q) :
    ∃ t rest, ts = t :: rest ∧ ((∃ q, t.kind.value? c.numbers = some q) ∨
      t.kind = .openParen ∨ Spelled .negation ts rest) := by
  rcases ts with _ | ⟨t, ts⟩
  · cases h
  have ht : t.kind.comesFirst = true := by
    obtain ⟨kind, span⟩ := t
    cases kind with
    | word | quoted | number | openParen => rfl
    | closeParen | comma | symbol | endOfInput => cases h
  exact ⟨t, ts, rfl, leaf_or_of_comesFirst .value ht ts⟩

/-- A list that is read to its end is closed by a parenthesis. -/
theorem elements_of_ok {r : Relation} {left : Filter} {opening : Span} {texts : List String}
    (h : outcome c ⟨.elements r left opening texts, frames, groups, depth⟩ ts = .ok Q) :
    ∃ items t rest, ts = items ++ t :: rest ∧ t.kind = .closeParen ∧
      ∀ e ∈ items, e.kind = .comma ∨ (e.kind.element? c.numbers).isSome := by
  induction ts generalizing texts with
  | nil => cases h
  | cons t ts ih =>
    by_cases ht : t.kind = .closeParen
    · exact ⟨[], t, ts, rfl, ht, by simp⟩
    · have hitem : t.kind = .comma ∨ (t.kind.element? c.numbers).isSome := by
        obtain ⟨kind, span⟩ := t
        cases kind with
        | comma => exact .inl rfl
        | word | quoted | number => exact .inr rfl
        | closeParen => exact absurd rfl ht
        | openParen | symbol | endOfInput => cases h
      rw [outcome_elements_cons hitem] at h
      obtain ⟨items, u, rest, rfl, hu, hitems⟩ := ih h
      exact ⟨t :: items, u, rest, rfl, hu, List.forall_mem_cons.mpr ⟨hitem, hitems⟩⟩

end ParseState

end FilterLang
