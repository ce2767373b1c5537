import FilterLang.Proofs.Following

/-! Reading by descent is reading with a stack: `next_eq`. The stack is left as it was found around
each phrase, whatever is on it, so that every phrase `Follows` its stack with all of that general.
The two differ in what they look at twice. A token that cannot go on with an expression is left to
the chain around it, on the stack within one step and by descent after all the calls in between have
returned; and an operator that is spelled in symbols is complete for the stack only when the next
token is looked at. -/

namespace FilterLang

open ParseState

namespace Descent

variable {c : Config} {tokens : List Token} {α : Type} {h : Trail} {t : Token}
  {ahead : List Token} {s : ParseState} {frames : List Frame} {groups : List Group} {d : Nat}
  {q left : Filter}

/-- Reads a closing parenthesis, and then goes on from a state. -/
def closing (c : Config) (opening : Span) (s : ParseState) : Reading
  | [] => (.error (.missingParen opening), [])
  | t :: ts =>
    if t.kind = .closeParen then run c s ts else (.error (.missingParen opening), t :: ts)

/-- What is read inside a level follows the stack as it is there, if the level can be entered. -/
structure Inside.Follows (c : Config) (tokens : List Token) (i : Inside) (d : Nat) : Prop extends
    i.Returns c tokens where
  followsExpression : d < c.maxDepth → ∀ h frames groups, h.now.depth = (d : Int) + 1 →
    Descent.Follows tokens (run c ⟨.field, frames, groups, d + 1⟩) i.expression
      (fun q => run c (finished groups q (d + 1) frames)) h
  followsGroup : d < c.maxDepth → ∀ h opening frames groups, h.now.depth = (d : Int) + 1 →
    Descent.Follows tokens (run c ⟨.field, [], ⟨opening, frames, d⟩ :: groups, d + 1⟩) i.group
      (fun q => closing c opening ⟨.operator (.group q), frames, groups, d⟩) h

variable {i : Inside}

theorem follows_valueList {r : Relation} {opening : Span} {texts : List String}
    (hahead : h.ahead tokens = ahead) :
    Follows tokens (run c ⟨.elements r left opening texts, frames, groups, d + 1⟩)
      (valueList c tokens texts ahead)
      (fun q => closing c opening (finished groups (r.apply left q) d frames)) h := by
  induction ahead generalizing h texts with
  | nil =>
    refine .pure ?_
    rw [hahead]
    rfl
  | cons t ahead ih =>
    obtain ⟨-, ht, -⟩ := Trail.of_ahead_eq_cons hahead
    rw [valueList]
    cases hkind : t.kind with
    | closeParen =>
      refine .pure ?_
      rw [hahead, run_of_read (by simp [hkind]) (read_elements_close hkind), closing, if_pos hkind,
        Nat.add_sub_cancel]
    | endOfInput =>
      refine .pure ?_
      rw [hahead, run_end hkind, closing, if_neg (by simp [hkind])]
      rfl
    | comma | word | quoted | number =>
      refine .bind (.advance hahead (run_of_read (by simp [hkind]) ?_)) fun _ _ =>
        ih (drop_advance hahead)
      simp only [ParseState.read, readPlain, readElement, hkind]
    | openParen | symbol =>
      refine .unrecognized (by simp [ht, hkind]) ?_
      simp only [ParseState.read, readPlain, readElement, ht, hkind]

theorem depth_advance (h : Trail) : (advance tokens h).2.now.depth = h.now.depth := by
  rw [advance_apply]
  split_ifs <;> rfl

theorem closing_of_ne {opening : Span} (ht : (h.token tokens).kind ≠ .closeParen) :
    closing c opening s (h.ahead tokens) =
      (.error (.missingParen opening), h.ahead tokens) := by
  rw [Trail.token_eq_headD] at ht
  cases hahead : h.ahead tokens with
  | nil => rfl
  | cons t ahead =>
    rw [hahead] at ht
    exact if_neg ht

theorem follows_closing {opening : Span} {goal : Filter → ParseState} :
    Follows tokens (closing c opening (goal q))
      (current tokens >>= fun t =>
        if t.kind = .closeParen then take tokens q else throw (.missingParen opening))
      (fun q => run c (goal q)) h := by
  refine .current_bind ?_
  split_ifs with hclose
  · have hend : (h.token tokens).kind ≠ .endOfInput := by simp [hclose]
    obtain ⟨ahead, hahead⟩ := Trail.ahead_eq_cons hend
    exact .take hahead (if_pos hclose)
  · exact .throw (closing_of_ne hclose)

theorem follows_parenthesis {asField : Bool} (g : ParseState → ParseState)
    (goal : Filter → ParseState)
    (ht : (h.token tokens).kind = .openParen) (hdepth : h.now.depth = s.depth)
    (hread : s.read c (h.token tokens) = s.descend c true >>= fun s => .ok (g s))
    (hinside : ∀ h', s.depth < c.maxDepth → h'.now.depth = (s.depth : Int) + 1 →
      Follows tokens (run c (g { s with depth := s.depth + 1 })) (enclosed c tokens i asField)
        (fun q => closing c (h.token tokens).span (goal q)) h') :
    Follows tokens (run c s) (parenthesis c tokens i asField) (fun q => run c (goal q)) h := by
  have hne : (h.token tokens).kind ≠ .endOfInput := by simp [ht]
  obtain ⟨ahead, hahead⟩ := Trail.ahead_eq_cons hne
  refine .current_bind (.bind (.advance hahead (run_of_descend hne hread)) fun _ _ => ?_)
  have hdepth' : (advance tokens h).2.now.depth = s.depth := (depth_advance h).trans hdepth
  refine .bind (.nested hdepth' fun hlt => ?_) fun q _ => follows_closing
  exact hinside _ hlt (by rw [← hdepth']; rfl)

theorem eq_negation_of_lookupBefore {text : String} {o : Operator}
    (ho : Operator.lookupBefore text = some o) : o = .negation := by
  have htext := Operator.isSome_lookupBefore.mp (Option.isSome_of_eq_some ho)
  subst htext
  exact (Option.some.inj ho).symm

/-- A negation is read the same way in either place; `frame` is what is unfinished around it. -/
theorem follows_negation {e : Expect} (frame : Frame) (goal : Filter → ParseState)
    (hi : i.Follows c tokens d) (hdepth : h.now.depth = d)
    (ht : (h.token tokens).kind ≠ .endOfInput)
    (hread : ParseState.read c ⟨e, frames, groups, d⟩ (h.token tokens) =
      ParseState.descend c ⟨e, frames, groups, d⟩ true >>= fun s => .ok (s.push frame))
    (hgoal : ∀ q, finished groups q (d + 1) (frame :: frames) = goal (.negation q)) :
    Follows tokens (run c ⟨e, frames, groups, d⟩)
      (advance tokens >>= fun _ => nested c (i.expression >>= fun q => build .negation [q]))
      (fun q => run c (goal q)) h := by
  obtain ⟨ahead, hahead⟩ := Trail.ahead_eq_cons ht
  refine .bind (.advance hahead (run_of_descend ht hread)) fun _ _ => ?_
  have hdepth' : (advance tokens h).2.now.depth = d := (depth_advance h).trans hdepth
  refine .nested hdepth' fun hlt => ?_
  refine .bind (hi.followsExpression hlt _ (frame :: frames) groups (by rw [← hdepth']; rfl)) ?_
  exact fun q _ => .pure (by rw [hgoal])

theorem follows_field (hi : i.Follows c tokens d) (hdepth : h.now.depth = d) :
    Follows tokens (run c ⟨.field, frames, groups, d⟩) (primary c tokens i true)
      (fun q => run c ⟨.operator q, frames, groups, d⟩) h := by
  refine .current_bind ?_
  by_cases hend : (h.token tokens).kind = .endOfInput
  · rw [hend]
    exact .unexpectedEnd hend rfl
  obtain ⟨ahead, hahead⟩ := Trail.ahead_eq_cons hend
  cases ht : (h.token tokens).kind with
  | openParen =>
    refine follows_parenthesis
      (fun s => ⟨.field, [], ⟨(h.token tokens).span, frames, d⟩ :: groups, s.depth⟩)
      (fun q => ⟨.operator q, frames, groups, d⟩) ht hdepth ?_ fun h' hlt hdepth' => ?_
    · simp only [ParseState.read, readPlain, readField, ht]
    · exact .bind (hi.followsGroup hlt h' _ frames groups hdepth') fun q _ => .pure rfl
  | word text =>
    simp only
    cases ho : Operator.lookupBefore text with
    | none =>
      refine .take hahead (run_of_read hend ?_)
      simp [ParseState.read, readPlain, readField, ht, ho]
    | some o =>
      obtain rfl := eq_negation_of_lookupBefore ho
      refine follows_negation .negation (fun q => ⟨.operator q, frames, groups, d⟩) hi hdepth hend
        ?_ fun q => rfl
      simp [ParseState.read, readPlain, readField, ht, ho]
  | quoted | number =>
    refine .take hahead (run_of_read hend ?_)
    simp [ParseState.read, readPlain, readField, ht]
  | closeParen | comma | symbol =>
    refine .unrecognized hend ?_
    simp only [ParseState.read, readPlain, readField, ht]
  | endOfInput => exact absurd ht hend

theorem follows_value {r : Relation} (hi : i.Follows c tokens d) (hdepth : h.now.depth = d) :
    Follows tokens (run c ⟨.value r left, frames, groups, d⟩) (primary c tokens i false)
      (fun q => run c (finished groups (r.apply left q) d frames)) h := by
  refine .current_bind ?_
  by_cases hend : (h.token tokens).kind = .endOfInput
  · rw [hend]
    exact .unexpectedEnd hend rfl
  obtain ⟨ahead, hahead⟩ := Trail.ahead_eq_cons hend
  cases ht : (h.token tokens).kind with
  | openParen =>
    refine follows_parenthesis
      (fun s => { s with expect := .elements r left (h.token tokens).span [] })
      (fun q => finished groups (r.apply left q) d frames) ht hdepth ?_ fun h' _ hdepth' => ?_
    · simp only [ParseState.read, readPlain, readValue, ht]
    · exact .rest_bind (follows_valueList rfl)
  | word text =>
    simp only
    cases ho : Operator.lookupBefore text with
    | none =>
      refine .take hahead (run_of_read hend ?_)
      simp [ParseState.read, readPlain, readValue, ht, ho, readOperand_eq]
    | some o =>
      obtain rfl := eq_negation_of_lookupBefore ho
      refine follows_negation (.negatedValue r left)
        (fun q => finished groups (r.apply left q) d frames) hi hdepth hend ?_ fun q => rfl
      simp [ParseState.read, readPlain, readValue, ht, ho]
  | quoted | number =>
    refine .take hahead (run_of_read hend ?_)
    simp [ParseState.read, readPlain, readValue, ht, readOperand_eq]
  | closeParen | comma | symbol =>
    refine .unrecognized hend ?_
    simp only [ParseState.read, readPlain, readValue, ht]
  | endOfInput => exact absurd ht hend

/-- Reads on after an operator, wherever it was read and however it was spelled. -/
def operated (c : Config) (frames : List Frame) (groups : List Group) (d : Nat) (left : Filter)
    (spelling : String × Span) : Reading :=
  resume c (readOperation c ⟨.field, frames, groups, d⟩ left spelling.1 spelling.2 false)

theorem resume_readOperation (e : Expect) (left : Filter) (text : String) (span : Span)
    (taken : Bool) (ts : List Token) :
    resume c (readOperation c ⟨e, frames, groups, d⟩ left text span taken) ts =
      operated c frames groups d left (text, span) ts := by
  unfold operated readOperation
  cases Operator.lookup text with
  | none => rfl
  | some o =>
    cases o with
    | connective op =>
      simp only [resume_descend]
      rfl
    | relation r => rfl
    | negation => simp only [node_negation, finishOperand_eq, bind, Except.bind]

theorem follows_operation (hi : i.Follows c tokens d) (hdepth : h.now.depth = d) (left : Filter)
    (text : String) (span : Span) :
    Follows tokens (operated c frames groups d left (text, span))
      (operation c tokens i left text span) (fun q => run c (finished groups q d frames)) h := by
  unfold operated operation readOperation
  cases Operator.lookup text with
  | none => exact .throw rfl
  | some o =>
    cases o with
    | connective op =>
      refine .bind (.nested hdepth fun hlt => ?_) fun q _ => .pure rfl
      exact hi.followsExpression hlt _ (.connection op left :: frames) groups
        (by rw [← hdepth]; rfl)
    | relation r =>
      have hvalues : values c tokens i ((Operator.relation r).arity.least - 1) =
          primary c tokens i false >>= fun q => pure [q] := by
        cases r <;> rfl
      have hbuild (q : Filter) : build (.relation r) [left, q] = pure (r.apply left q) := by
        cases r <;> rfl
      change Follows tokens (run c ⟨.value r left, frames, groups, d⟩)
        (values c tokens i ((Operator.relation r).arity.least - 1) >>= fun others =>
          build (.relation r) (left :: others)) _ h
      rw [hvalues, bind_assoc]
      refine .bind (follows_value hi hdepth) fun q _ => ?_
      rw [pure_bind, hbuild]
      exact .pure rfl
    | negation =>
      simp only [node_negation, finishOperand_eq, bind, Except.bind]
      exact .pure rfl

theorem run_symbols_eq_operated {text : String} {span : Span} {ts : List Token}
    (hts : ∀ u ∈ ts.head?, adjacentSymbol? span u = none) :
    run c ⟨.symbols left text span, frames, groups, d⟩ ts =
      operated c frames groups d left (text, span) ts := by
  rw [run_symbols_done hts, resume_readOperation]

theorem follows_symbols {text : String} {span : Span} (htext : text ≠ "")
    (hahead : h.ahead tokens = ahead) :
    Follows tokens (run c ⟨.symbols left text span, frames, groups, d⟩)
      (symbols tokens text span ahead)
      (operated c frames groups d left) h := by
  induction ahead generalizing h text span with
  | nil => exact .pure (run_symbols_eq_operated (by simp [hahead]))
  | cons t ahead ih =>
    by_cases hsymbol : ∃ ch, t.kind = .symbol ch
    · obtain ⟨ch, hch⟩ := hsymbol
      rw [symbols_cons hch]
      by_cases hgap : t.span.start = span.stop
      · rw [if_neg (by simp [hgap])]
        have hread : ParseState.read c ⟨.symbols left text span, frames, groups, d⟩ t =
            .ok ⟨.symbols left (text.push ch) { span with stop := t.span.stop }, frames, groups,
              d⟩ := by
          simp only [ParseState.read, adjacentSymbol?, hch, hgap, if_true]
        exact .bind (.advance hahead (run_of_read (by simp [hch]) hread)) fun _ _ =>
          ih (by simp) (drop_advance hahead)
      · rw [if_pos ⟨htext, hgap⟩]
        exact .pure (run_symbols_eq_operated (by simp [hahead, adjacentSymbol?, hch, hgap]))
    · rw [symbols_cons_of_ne (not_exists.mp hsymbol)]
      refine .pure (run_symbols_eq_operated ?_)
      rw [hahead]
      exact fun u hu => adjacentSymbol?_of_not_touches (t := ⟨.comma, span⟩) rfl fun htouch =>
        hsymbol (Option.mem_some.mp hu ▸ htouch.1)

theorem symbols_ne_empty {text : String} {span : Span} {spelling : String × Span}
    (htext : text ≠ "") (hok : (symbols tokens text span ahead h).1 = .ok spelling) :
    spelling.1 ≠ "" := by
  induction ahead generalizing h text span with
  | nil =>
    cases hok
    exact htext
  | cons t ahead ih =>
    by_cases hsymbol : ∃ ch, t.kind = .symbol ch
    · obtain ⟨ch, hch⟩ := hsymbol
      rw [symbols_cons hch] at hok
      split_ifs at hok
      · cases hok
        exact htext
      · rw [bind_apply, advance_apply] at hok
        exact ih (by simp) hok
    · rw [symbols_cons_of_ne (not_exists.mp hsymbol)] at hok
      cases hok
      exact htext

/-- In the place of an operator stand symbols, or the token is not recognized. -/
theorem follows_symbolOperator (hend : (h.token tokens).kind ≠ .endOfInput)
    (hother : (∀ ch, (h.token tokens).kind ≠ .symbol ch) →
      ParseState.read c ⟨.operator left, frames, groups, d⟩ (h.token tokens) =
        ParseState.unrecognized (h.token tokens)) :
    Follows tokens (run c ⟨.operator left, frames, groups, d⟩) (symbolOperator tokens)
      (operated c frames groups d left) h := by
  obtain ⟨ahead, hahead⟩ := Trail.ahead_eq_cons hend
  refine .current_bind (.rest_bind ?_)
  by_cases hsymbol : ∃ ch, (h.token tokens).kind = .symbol ch
  · obtain ⟨ch, hch⟩ := hsymbol
    have hread : ParseState.read c ⟨.operator left, frames, groups, d⟩
        (h.token tokens) = .ok ⟨.symbols left ("".push ch)
          (h.token tokens).span, frames, groups, d⟩ := by
      have htext : ch.toString = "".push ch := by
        apply String.toList_inj.mp
        simp
      simp only [ParseState.read, readPlain, readOperator, hch, htext]
    rw [hahead, symbols_cons hch, if_neg (by simp)]
    refine .bind (.bind (.advance hahead (run_of_read hend hread)) fun _ _ =>
      follows_symbols (by simp) (drop_advance hahead)) fun spelling hok => ?_
    rw [bind_apply, advance_apply] at hok
    simp only
    rw [if_neg (symbols_ne_empty (by simp) hok)]
    exact .pure rfl
  · have hne := not_exists.mp hsymbol
    rw [hahead, symbols_cons_of_ne hne, pure_bind]
    exact .unrecognized hend (hother hne)

theorem eq_token_of_mem_head? (ht : t ∈ (h.ahead tokens).head?) : t = h.token tokens := by
  rw [Trail.token_eq_headD, List.headD_eq_head?_getD, Option.mem_def.mp ht]
  rfl

theorem follows_continuation (hi : i.Follows c tokens d) (hdepth : h.now.depth = d)
    (left : Filter) :
    Follows tokens (run c ⟨.operator left, frames, groups, d⟩) (continuation c tokens i left)
      (fun q => run c (finished groups q d frames)) h := by
  refine .current_bind ?_
  cases ht : (h.token tokens).kind with
  | word text =>
    have hend : (h.token tokens).kind ≠ .endOfInput := by simp [ht]
    obtain ⟨ahead, hahead⟩ := Trail.ahead_eq_cons hend
    refine .bind (.advance hahead ?_) fun _ _ =>
      follows_operation hi ((depth_advance h).trans hdepth) left text _
    rw [← resume_readOperation (.operator left) left text _ true]
    refine run_of_taken hend ?_ fun e => taken_of_readOperation
    simp only [ParseState.read, readPlain, readOperator, ht]
  | number | closeParen | endOfInput =>
    refine .pure (run_operator_eq_finished fun t hhead => ?_)
    rw [eq_token_of_mem_head? hhead]
    simp [ht]
  | quoted | openParen | comma | symbol =>
    have hafter : (symbolOperator tokens h).2.now.depth = d :=
      (returns_symbolOperator (c := c)).depth_eq.trans hdepth
    refine .bind (follows_symbolOperator (by simp [ht]) fun hne => ?_) fun spelling _ =>
      follows_operation hi hafter left spelling.1 spelling.2
    simp_all [ParseState.read, readPlain, readOperator]

theorem follows_expression (hi : i.Follows c tokens d) (hdepth : h.now.depth = d) :
    Follows tokens (run c ⟨.field, frames, groups, d⟩) (expression c tokens i)
      (fun q => run c (finished groups q d frames)) h :=
  .bind (follows_field hi hdepth) fun q _ =>
    follows_continuation hi ((returns_primary hi.toReturns _).depth_eq.trans hdepth) q

/-- What becomes of a chain that is complete: it is in a group that has to be closed, or it is the
whole. -/
def completed (c : Config) : List Group → Filter → Reading
  | [], q => fun ts => (.ok q, ts)
  | g :: groups, q => closing c g.opening ⟨.operator (.group q), g.frames, groups, g.depth⟩

theorem run_chain_eq_completed
    (ht : (h.token tokens).kind = .endOfInput ∨
      (h.token tokens).kind = .closeParen ∧ groups ≠ []) :
    run c ⟨.chain q, [], groups, d⟩ (h.ahead tokens) =
      completed c groups q (h.ahead tokens) := by
  rcases ht with hend | ⟨hclose, hgroups⟩
  · rw [run_at_end hend]
    cases groups with
    | nil => rfl
    | cons g groups => exact (closing_of_ne (by simp [hend])).symm
  · obtain ⟨g, groups, rfl⟩ := List.exists_cons_of_ne_nil hgroups
    have hend : (h.token tokens).kind ≠ .endOfInput := by simp [hclose]
    obtain ⟨ahead, hahead⟩ := Trail.ahead_eq_cons hend
    rw [hahead, completed, closing, if_pos hclose]
    refine run_of_read hend ?_
    simp only [ParseState.read, readPlain, readChain, hclose]

/-- A token that does not close a group costs a level before it is looked at. -/
theorem read_chain (ht : ¬ (t.kind = .closeParen ∧ groups ≠ [])) :
    ParseState.read c ⟨.chain q, [], groups, d⟩ t =
      (ParseState.descend c ⟨.chain q, [], groups, d⟩ false >>= fun s =>
        match t.kind with
        | .word text => s.readOperation c q text t.span true
        | .symbol ch => .ok { s with expect := .symbols q ch.toString t.span }
        | _ => ParseState.unrecognized t) := by
  have hread : ParseState.read c ⟨.chain q, [], groups, d⟩ t =
      readChain c ⟨.chain q, [], groups, d⟩ q t := rfl
  rw [hread, readChain]
  cases hkind : t.kind with
  | closeParen =>
    cases groups with
    | nil => rfl
    | cons g groups => exact absurd ⟨hkind, by simp⟩ ht
  | word | quoted | number | openParen | comma | symbol | endOfInput => rfl

/-- A token that goes on with a chain is read as in an expression then. -/
theorem run_chain_eq_operator (hdeep : d < c.maxDepth) (hend : t.kind ≠ .endOfInput)
    (hends : ¬ (t.kind = .closeParen ∨ ∃ text x, t.kind = .number text x)) :
    run c ⟨.chain q, [], groups, d⟩ (t :: ahead) =
      run c ⟨.operator q, [], groups, d + 1⟩ (t :: ahead) := by
  have hdescend : ParseState.descend c ⟨.chain q, [], groups, d⟩ false =
      .ok ⟨.chain q, [], groups, d + 1⟩ := if_neg (by simpa using hdeep)
  have hopen : ¬ (t.kind = .closeParen ∧ groups ≠ []) := fun hclose => hends (.inl hclose.1)
  cases hkind : t.kind with
  | closeParen => exact absurd (.inl hkind) hends
  | number text x => exact absurd (.inr ⟨text, x, hkind⟩) hends
  | endOfInput => exact absurd hkind hend
  | word text =>
    have hchain : ParseState.read c ⟨.chain q, [], groups, d⟩ t =
        readOperation c ⟨.chain q, [], groups, d + 1⟩ q text t.span true := by
      rw [read_chain hopen, hdescend, hkind]
      rfl
    have hoperator : ParseState.read c ⟨.operator q, [], groups, d + 1⟩ t =
        readOperation c ⟨.operator q, [], groups, d + 1⟩ q text t.span true := by
      simp only [ParseState.read, readPlain, readOperator, hkind]
    rw [run_of_taken hend hchain fun e => taken_of_readOperation,
      run_of_taken hend hoperator fun e => taken_of_readOperation, resume_readOperation,
      resume_readOperation]
  | symbol | quoted | openParen | comma =>
    have hread : ParseState.read c ⟨.chain q, [], groups, d⟩ t =
        ParseState.read c ⟨.operator q, [], groups, d + 1⟩ t := by
      rw [read_chain hopen, hdescend]
      simp only [ParseState.read, readPlain, readOperator, hkind, bind, Except.bind]
    simp only [run, hend, if_false, hread]

theorem lt_position_advance_bind {f : Unit → Descent α}
    (hend : (h.token tokens).kind ≠ .endOfInput)
    (hf : Returns c tokens (f ()) (advance tokens h).2) :
    h.now.position < ((advance tokens >>= f) h).2.now.position := by
  obtain ⟨ahead, hahead⟩ := Trail.ahead_eq_cons hend
  obtain ⟨hlt, -, -⟩ := Trail.of_ahead_eq_cons hahead
  have hposition : (advance tokens h).2.now.position = h.now.position + 1 := by
    rw [advance_apply, if_pos hlt]
    rfl
  have hle : (advance tokens h).2.now.position ≤ ((advance tokens >>= f) h).2.now.position := by
    rw [bind_apply, advance_apply]
    rw [advance_apply] at hf
    exact hf.position_le
  omega

theorem fst_unrecognized_ne (a : α) :
    ((unrecognized tokens : Descent α) h).1 ≠ .ok a := by
  rw [unrecognized, current_bind]
  cases (h.token tokens).kind <;> nofun

theorem lt_position_symbolOperator {spelling : String × Span}
    (hend : (h.token tokens).kind ≠ .endOfInput)
    (hok : (symbolOperator tokens h).1 = .ok spelling) :
    h.now.position < (symbolOperator tokens h).2.now.position := by
  obtain ⟨ahead, hahead⟩ := Trail.ahead_eq_cons hend
  rw [symbolOperator, current_bind, rest_bind, hahead] at hok ⊢
  by_cases hsymbol : ∃ ch, (h.token tokens).kind = .symbol ch
  · obtain ⟨ch, hch⟩ := hsymbol
    rw [symbols_cons hch, if_neg (by simp), bind_assoc]
    exact lt_position_advance_bind (c := {}) hend
      ((returns_symbols (drop_advance hahead)).bind fun _ => returns_spelling)
  · rw [symbols_cons_of_ne (not_exists.mp hsymbol), pure_bind] at hok
    exact absurd hok (fst_unrecognized_ne _)

/-- A token that goes on with an expression is taken. -/
theorem lt_position_continuation (hi : i.Returns c tokens)
    (hend : (h.token tokens).kind ≠ .endOfInput)
    (hends : ¬ ((h.token tokens).kind = .closeParen ∨
      ∃ text x, (h.token tokens).kind = .number text x))
    (hok : (continuation c tokens i left h).1 = .ok q) :
    h.now.position < (continuation c tokens i left h).2.now.position := by
  rw [continuation, current_bind] at hok ⊢
  cases ht : (h.token tokens).kind with
  | closeParen => exact absurd (.inl ht) hends
  | number text x => exact absurd (.inr ⟨text, x, ht⟩) hends
  | endOfInput => exact absurd ht hend
  | word text => exact lt_position_advance_bind hend (returns_operation hi _ _ _)
  | symbol | quoted | openParen | comma =>
    rw [ht] at hok
    obtain ⟨_, hspelling, -⟩ := exists_of_bind_eq_ok hok
    have hlt := lt_position_symbolOperator hend hspelling
    exact bind_snd_ind (R := fun h' => h.now.position < h'.now.position) hlt fun _ _ =>
      Nat.lt_of_lt_of_le hlt (returns_operation hi _ _ _).position_le

theorem follows_chain_end (levels : Nat) (inGroup : Bool)
    (hgroup : inGroup = !groups.isEmpty)
    (ht : (h.token tokens).kind = .endOfInput ∨
      (h.token tokens).kind = .closeParen ∧ inGroup) :
    Follows tokens (run c ⟨.chain left, [], groups, d⟩) (chain c tokens levels inGroup left)
      (completed c groups) h := by
  rw [chain]
  refine .current_bind ?_
  rw [if_pos ht]
  refine .pure (run_chain_eq_completed (ht.imp_right (And.imp_right fun hin => ?_)))
  simpa [hgroup] using hin

/-- A chain that goes on where there is no level left. -/
theorem follows_chain_deep (levels : Nat) (inGroup : Bool) (hgroup : inGroup = !groups.isEmpty)
    (ht : ¬ ((h.token tokens).kind = .endOfInput ∨
      (h.token tokens).kind = .closeParen ∧ inGroup))
    (hdepth : h.now.depth = d) (hdeep : c.maxDepth ≤ d) :
    Follows tokens (run c ⟨.chain left, [], groups, d⟩) (chain c tokens levels inGroup left)
      (completed c groups) h := by
  obtain ⟨hend, hclose⟩ := not_or.mp ht
  obtain ⟨ahead, hahead⟩ := Trail.ahead_eq_cons hend
  have hread : ParseState.read c ⟨.chain left, [], groups, d⟩ (h.token tokens) =
      .error ⟨.tooDeep c.maxDepth, false⟩ := by
    have hdescend : ParseState.descend c ⟨.chain left, [], groups, d⟩ false =
        .error ⟨.tooDeep c.maxDepth, false⟩ := if_pos hdeep
    rw [read_chain (by simpa [hgroup] using hclose), hdescend]
    rfl
  rw [chain]
  refine .current_bind ?_
  rw [if_neg ht]
  unfold Follows
  rw [descend_bind, if_pos (by omega), hahead, run_of_fault hend hread, ← hahead]

/-- A chain that goes on with a level of its own. -/
theorem follows_chain_step {levels : Nat} {inGroup : Bool} (hgroup : inGroup = !groups.isEmpty)
    (ht : ¬ ((h.token tokens).kind = .endOfInput ∨
      (h.token tokens).kind = .closeParen ∧ inGroup))
    (hdepth : h.now.depth = d) (hdeep : d < c.maxDepth)
    (hi : (inside c tokens levels).Follows c tokens (d + 1))
    (hchain : ∀ q h, h.now.depth = (d : Int) + 1 →
      Follows tokens (run c ⟨.chain q, [], groups, d + 1⟩) (chain c tokens levels inGroup q)
        (completed c groups) h) :
    Follows tokens (run c ⟨.chain left, [], groups, d⟩)
      (chain c tokens (levels + 1) inGroup left) (completed c groups) h := by
  rw [chain]
  refine .current_bind ?_
  rw [if_neg ht]
  refine .descend (by omega) (.cursor_bind ?_)
  generalize hmove : h.move { h.now with depth := h.now.depth + 1 } = down
  have htoken : h.token tokens = down.token tokens := by
    rw [← hmove]
    rfl
  have hdown : down.now.depth = ((d + 1 : Nat) : Int) := by
    rw [← hmove]
    change h.now.depth + 1 = _
    omega
  rw [htoken] at ht
  obtain ⟨hend, hclose⟩ := not_or.mp ht
  obtain ⟨ahead, hahead⟩ := Trail.ahead_eq_cons hend
  by_cases hends : (down.token tokens).kind = .closeParen ∨
      ∃ text x, (down.token tokens).kind = .number text x
  · -- The expression ends at once, so nothing is taken.
    have hcontinuation : continuation c tokens (inside c tokens levels) left down =
        (.ok left, down) := by
      rw [continuation, current_bind]
      rcases hends with hkind | ⟨text, x, hkind⟩ <;> rw [hkind] <;> rfl
    refine .pure_bind hcontinuation (.cursor_bind ?_)
    rw [if_pos rfl]
    refine .unrecognized hend ?_
    have hdescend : ParseState.descend c ⟨.chain left, [], groups, d⟩ false =
        .ok ⟨.chain left, [], groups, d + 1⟩ := if_neg (by simpa using hdeep)
    rw [read_chain (by simpa [hgroup] using hclose), hdescend]
    rcases hends with hkind | ⟨text, x, hkind⟩ <;> rw [hkind] <;> rfl
  · have hwhole : run c ⟨.chain left, [], groups, d⟩ (down.ahead tokens) =
        run c ⟨.operator left, [], groups, d + 1⟩ (down.ahead tokens) := by
      rw [hahead, run_chain_eq_operator hdeep hend hends]
    refine .of_eq hwhole (.bind (follows_continuation hi hdown left) fun q hok => .cursor_bind ?_)
    have hlt := lt_position_continuation hi.toReturns hend hends hok
    rw [if_neg (by omega)]
    refine hchain q _ ?_
    rw [(returns_continuation hi.toReturns _).depth_eq, hdown]
    simp

/-- Both at once, by induction on the levels that are left. -/
theorem follows_inside_chain (c : Config) (tokens : List Token) (levels : Nat) :
    ∀ d, d + levels = c.maxDepth →
    (inside c tokens levels).Follows c tokens d ∧
      ∀ groups left h, h.now.depth = (d : Int) →
        Follows tokens (run c ⟨.chain left, [], groups, d⟩)
          (chain c tokens levels (!groups.isEmpty) left) (completed c groups) h := by
  induction levels with
  | zero =>
    intro d hd
    refine ⟨⟨(returns_inside_goes_chain 0).1, fun hlt => by omega, fun hlt => by omega⟩,
      fun groups left h hdepth => ?_⟩
    by_cases ht : (h.token tokens).kind = .endOfInput ∨
        (h.token tokens).kind = .closeParen ∧ !groups.isEmpty
    · exact follows_chain_end 0 _ rfl ht
    · exact follows_chain_deep 0 _ rfl ht hdepth (by omega)
  | succ levels ih =>
    intro d hd
    obtain ⟨hi, hchain⟩ := ih (d + 1) (by omega)
    refine ⟨⟨(returns_inside_goes_chain (levels + 1)).1, fun hlt h frames groups hdepth => ?_,
      fun hlt h opening frames groups hdepth => ?_⟩, fun groups left h hdepth => ?_⟩
    · exact follows_expression hi (by omega)
    · refine .bind (follows_expression hi (by omega)) fun first _ => .keepingDepth ?_
      refine hchain (⟨opening, frames, d⟩ :: groups) first _ ?_
      rw [(returns_expression hi.toReturns).depth_eq, hdepth]
      simp
    · by_cases ht : (h.token tokens).kind = .endOfInput ∨
          (h.token tokens).kind = .closeParen ∧ !groups.isEmpty
      · exact follows_chain_end _ _ rfl ht
      · exact follows_chain_step rfl ht hdepth (by omega) hi fun q h hdepth' =>
          hchain groups q h (by omega)

theorem next_apply (hdepth : h.now.depth = 0) :
    next c tokens h =
      if (h.token tokens).kind = .endOfInput then (.ok none, h)
      else ((whole c tokens c.maxDepth h).1.map some, (whole c tokens c.maxDepth h).2) := by
  have hlevels : ((c.maxDepth : Int) - h.now.depth).toNat = c.maxDepth := by omega
  rw [next, current_bind]
  split_ifs with hend
  · rfl
  · rw [cursor_bind, hlevels, bind_apply]
    rcases whole c tokens c.maxDepth h with ⟨r, h'⟩
    cases r <;> rfl

theorem follows_whole (hdepth : h.now.depth = 0) :
    Follows tokens (run c (start 0)) (whole c tokens c.maxDepth) (fun q ts => (.ok q, ts)) h := by
  obtain ⟨hi, hchain⟩ := follows_inside_chain c tokens c.maxDepth 0 (Nat.zero_add _)
  refine .bind (follows_expression hi hdepth) fun first _ => .keepingDepth ?_
  refine hchain [] first _ ?_
  rw [(returns_expression hi.toReturns).depth_eq, hdepth]
  rfl

theorem atEnd_iff :
    (Parser.mk c (h.ahead tokens) 0).atEnd = true ↔ (h.token tokens).kind = .endOfInput := by
  rw [Trail.token_eq_headD, Parser.atEnd]
  cases h.ahead tokens with
  | nil => simp
  | cons t ts => simp

/-- A reader by descent and a reader with a stack give the same, and leave the same tokens. -/
theorem next_eq (hdepth : h.now.depth = 0) :
    (Parser.mk c (h.ahead tokens) 0).next =
      ((next c tokens h).1, ⟨c, (next c tokens h).2.ahead tokens, 0⟩) := by
  rw [next_apply hdepth]
  by_cases hend : (h.token tokens).kind = .endOfInput
  · rw [Parser.next_of_atEnd (atEnd_iff.mpr hend), if_pos hend]
  · have hat : (Parser.mk c (h.ahead tokens) 0).atEnd = false :=
      Bool.eq_false_iff.mpr (mt atEnd_iff.mp hend)
    have hrun : Follows tokens (run c (start 0)) (whole c tokens c.maxDepth)
      (fun q ts => (.ok q, ts)) h := follows_whole hdepth
    unfold Follows at hrun
    rw [if_neg hend, Parser.next, hat]
    simp only [Bool.false_eq_true, if_false]
    rw [hrun]
    rcases whole c tokens c.maxDepth h with ⟨r, h'⟩
    cases r <;> rfl

end Descent

end FilterLang
