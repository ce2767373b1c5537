import FilterLang.Proofs.Acceptance
import FilterLang.Proofs.Writing

/-! Which texts are malformed only because they end: `parse_at_end`. Reading keeps a stack of open
parentheses that is the one of bracket matching on the tokens, so closing them is all that a text
with a missing parenthesis lacks, and one more word is all that any other unfinished text lacks
before that. Neither a word nor a closing parenthesis costs a level, so the limit cannot get in the
way. -/

namespace FilterLang

/-- The opening parentheses that are open after a token, the last one first. -/
def bracket (opened : List Span) (t : Token) : List Span :=
  match t.kind with
  | .openParen => t.span :: opened
  | .closeParen => opened.tail
  | _ => opened

def unclosed (ts : List Token) : List Span := ts.foldl bracket []

def closing (m : Nat) : String := String.ofList (List.replicate m ')')

namespace ParseError

/-- Whether the end of the text is at fault, and not a token before it. -/
def isAtEnd : ParseError → Bool
  | unexpectedEnd | missingParen _ => true
  | _ => false

theorem isAtEnd_iff {e : ParseError} :
    e.isAtEnd = true ↔ e = .unexpectedEnd ∨ ∃ span, e = .missingParen span := by
  cases e <;> simp [isAtEnd]

end ParseError

namespace ParseState

/-- The parentheses that are open in a state, the last one first. -/
def openings (s : ParseState) : List Span :=
  match s.expect with
  | .elements _ _ opening _ => opening :: s.groups.map (·.opening)
  | _ => s.groups.map (·.opening)

/-- A step that leaves these parentheses open, or finds a token at fault. -/
def Leaves (opened : List Span) : Except Fault ParseState → Prop
  | .ok s => s.openings = opened
  | .error e => e.error.isAtEnd = false

variable {c : Config} {s : ParseState} {t : Token} {ts us : List Token} {opened : List Span}
  {q : Filter}

theorem leaves_descend {taken : Bool} {f : ParseState → Except Fault ParseState}
    (h : Leaves opened (f { s with depth := s.depth + 1 })) :
    Leaves opened (s.descend c taken >>= f) := by
  unfold descend
  split_ifs
  · rfl
  · exact h

theorem openings_finished (groups : List Group) (q : Filter) (depth : Nat) (frames : List Frame) :
    (finished groups q depth frames).openings = groups.map (·.opening) := by
  induction frames generalizing q depth with
  | nil => rfl
  | cons f frames ih =>
    cases f with
    | connection op left => exact ih _ _
    | negatedValue r left => exact ih _ _
    | negation => rfl

theorem leaves_readOperation (left : Filter) (text : String) (span : Span) (taken : Bool) :
    Leaves (s.groups.map (·.opening)) (s.readOperation c left text span taken) := by
  unfold readOperation
  split
  · rfl
  · exact leaves_descend rfl
  · rfl
  · simp only [node_negation, bind, Except.bind, finishOperand_eq]
    exact openings_finished _ _ _ _

theorem leaves_readOperand (r : Relation) (left right : Filter) :
    Leaves (s.groups.map (·.opening)) (s.readOperand r left right) := by
  rw [readOperand_eq]
  exact openings_finished _ _ _ _

theorem leaves_readField (h : s.openings = s.groups.map (·.opening)) :
    Leaves (bracket s.openings t) (s.readField c t) := by
  unfold readField bracket
  rw [h]
  cases t.kind with
  | openParen => exact leaves_descend rfl
  | word text =>
    simp only
    split_ifs
    · exact leaves_descend rfl
    · rfl
  | quoted | number | closeParen | comma | symbol | endOfInput => rfl

theorem leaves_readValue {r : Relation} {left : Filter}
    (h : s.openings = s.groups.map (·.opening)) :
    Leaves (bracket s.openings t) (s.readValue c r left t) := by
  unfold readValue bracket
  rw [h]
  cases t.kind with
  | openParen => exact leaves_descend rfl
  | word text =>
    simp only
    split_ifs
    · exact leaves_descend rfl
    · exact leaves_readOperand _ _ _
  | quoted | number => exact leaves_readOperand _ _ _
  | closeParen | comma | symbol | endOfInput => rfl

theorem leaves_readElement {r : Relation} {left : Filter} {opening : Span} {texts : List String}
    (h : s.openings = opening :: s.groups.map (·.opening)) :
    Leaves (bracket s.openings t) (s.readElement c r left opening texts t) := by
  unfold readElement bracket
  rw [h]
  cases t.kind with
  | closeParen => exact leaves_readOperand _ _ _
  | comma => exact h
  | word | quoted | number | openParen | symbol | endOfInput => rfl

theorem leaves_unrecognized (taken : Bool) :
    Leaves opened (s.descend c taken >>= fun _ => unrecognized t) := leaves_descend rfl

theorem leaves_readChain {left : Filter} (h : s.openings = s.groups.map (·.opening)) :
    Leaves (bracket s.openings t) (s.readChain c left t) := by
  unfold readChain bracket
  rw [h]
  cases t.kind with
  | closeParen =>
    cases s.groups with
    | nil => exact leaves_unrecognized _
    | cons g groups => rfl
  | word text => exact leaves_descend (leaves_readOperation _ _ _ _)
  | symbol ch => exact leaves_descend rfl
  | quoted | number | openParen | comma | endOfInput => exact leaves_unrecognized _

theorem leaves_readOperator {left : Filter} (h : s.openings = s.groups.map (·.opening)) :
    Leaves (bracket s.openings t) (s.readOperator c left t) := by
  unfold readOperator
  cases ht : t.kind with
  | word text =>
    simp only [bracket, ht, h]
    exact leaves_readOperation _ _ _ _
  | symbol ch =>
    simp only [bracket, ht, h]
    rfl
  | number | closeParen =>
    simp only [finishExpression_eq, bind, Except.bind, h]
    exact leaves_readChain rfl
  | quoted | openParen | comma | endOfInput => rfl

theorem leaves_readPlain (hs : s.IsPlain) : Leaves (bracket s.openings t) (s.readPlain c t) := by
  unfold readPlain
  split
  · next he => exact leaves_readField (by simp only [openings, he])
  · next he => exact leaves_readValue (by simp only [openings, he])
  · next he => exact leaves_readOperator (by simp only [openings, he])
  · next he => exact leaves_readChain (by simp only [openings, he])
  · next he => exact leaves_readElement (by simp only [openings, he])
  · next left text span he => exact absurd he (hs left text span)

theorem isPlain_or_symbols (s : ParseState) :
    s.IsPlain ∨ ∃ left text span, s.expect = .symbols left text span := by
  cases he : s.expect with
  | symbols left text span => exact .inr ⟨left, text, span, rfl⟩
  | field | value | operator | chain | elements => exact .inl (by simp [IsPlain, he])

theorem kind_of_adjacentSymbol? {span : Span} {ch : Char} (h : adjacentSymbol? span t = some ch) :
    t.kind = .symbol ch := by
  unfold adjacentSymbol? at h
  split at h
  · next ht =>
    split_ifs at h
    cases h
    exact ht
  · cases h

/-- A token changes the open parentheses just as bracket matching does. -/
theorem leaves_read (s : ParseState) (t : Token) :
    Leaves (bracket s.openings t) (s.read c t) := by
  rcases isPlain_or_symbols s with hs | ⟨left, text, span, he⟩
  · rw [hs.read_eq]
    exact leaves_readPlain hs
  · have hopen : s.openings = s.groups.map (·.opening) := by simp only [openings, he]
    simp only [ParseState.read, he]
    split
    · next ch hch => simp only [Leaves, bracket, kind_of_adjacentSymbol? hch, openings, he]
    · -- the operator is completed first, and leaves the groups as they are
      have hstep := leaves_readOperation (c := c) (s := s) left text span false
      cases ho : s.readOperation c left text span false with
      | error e =>
        rw [ho] at hstep
        exact hstep
      | ok s' =>
        rw [ho] at hstep
        rw [hopen, ← hstep]
        exact leaves_readPlain (isPlain_of_readOperation ho)

/-- What every step keeps is kept by a run. Some tokens are at fault themselves, or end in a state
that decides about all that follows. -/
theorem outcome_append_induction {P : List Token → ParseState → Prop}
    {E : List Token → ParseError → Prop}
    (hok : ∀ {ts s t s'}, P ts s → ParseState.read c s t = .ok s' → P (ts ++ [t]) s')
    (herror : ∀ {ts s t e}, P ts s → ParseState.read c s t = .error e →
      ∀ us, E (ts ++ t :: us) e.error)
    (hts : ∀ t ∈ ts, t.kind ≠ .endOfInput) (before : List Token) (h : P before s) :
    (∃ e, E (before ++ ts) e ∧ ∀ us, outcome c s (ts ++ us) = .error e) ∨
      ∃ s', P (before ++ ts) s' ∧ ∀ us, outcome c s (ts ++ us) = outcome c s' us := by
  induction ts generalizing before s with
  | nil => exact .inr ⟨s, by rwa [List.append_nil], fun _ => rfl⟩
  | cons t ts ih =>
    have hread (us : List Token) :
        outcome c s (t :: ts ++ us) = after c (s.read c t) (ts ++ us) :=
      outcome_cons (hts t (by simp))
    cases hstep : s.read c t with
    | error e => exact .inl ⟨e.error, herror h hstep ts, fun us => by rw [hread, hstep]; rfl⟩
    | ok s' =>
      have hrest := ih (fun u hu => hts u (by simp [hu])) _ (hok h hstep)
      rw [List.append_assoc, List.singleton_append] at hrest
      rcases hrest with ⟨e, he, hus⟩ | ⟨s'', hs'', hus⟩
      · exact .inl ⟨e, he, fun us => by rw [hread, hstep]; exact hus us⟩
      · exact .inr ⟨s'', hs'', fun us => by rw [hread, hstep]; exact hus us⟩

theorem outcome_append_cases (hts : ∀ t ∈ ts, t.kind ≠ .endOfInput) (s : ParseState) :
    (∃ e : ParseError, e.isAtEnd = false ∧ ∀ us, outcome c s (ts ++ us) = .error e) ∨
      ∃ s' : ParseState, s'.openings = ts.foldl bracket s.openings ∧
        ∀ us, outcome c s (ts ++ us) = outcome c s' us := by
  refine outcome_append_induction (P := fun us s' => s'.openings = us.foldl bracket s.openings)
    (E := fun _ e => e.isAtEnd = false) ?_ ?_ hts [] rfl
  · intro us s₁ t s' hs₁ hstep
    have hleaves := leaves_read (c := c) s₁ t
    rw [hstep] at hleaves
    rw [hleaves, hs₁, List.foldl_append]
    rfl
  · intro us s₁ t e _ hstep _
    have hleaves := leaves_read (c := c) s₁ t
    rwa [hstep] at hleaves

/-- No operator that is being spelled goes on with the first of these tokens. -/
def Parts (s : ParseState) (us : List Token) : Prop :=
  ∀ left text span, s.expect = .symbols left text span →
    ∀ u ∈ us.head?, adjacentSymbol? span u = none

theorem parts_of_not_symbol (h : ∀ u ∈ us.head?, ∀ ch, u.kind ≠ .symbol ch) : s.Parts us :=
  fun _ _ _ _ u hu => Option.eq_none_iff_forall_ne_some.mpr fun ch hch =>
    h u hu ch (kind_of_adjacentSymbol? hch)

/-- Before a token that does not go on with it no operator is being spelled any more. -/
theorem outcome_plain_cases (s : ParseState) :
    (∃ e : ParseError, e.isAtEnd = false ∧ ∀ us, s.Parts us → outcome c s us = .error e) ∨
      ∃ s' : ParseState, s'.IsPlain ∧ s'.openings = s.openings ∧
        ∀ us, s.Parts us → outcome c s us = outcome c s' us := by
  rcases isPlain_or_symbols s with hs | ⟨left, text, span, he⟩
  · exact .inr ⟨s, hs, rfl, fun _ _ => rfl⟩
  · obtain ⟨_, frames, groups, depth⟩ := s
    subst he
    have hdone (us : List Token)
        (hus : Parts ⟨.symbols left text span, frames, groups, depth⟩ us) :
        outcome c ⟨.symbols left text span, frames, groups, depth⟩ us =
          after c (readOperation c ⟨.symbols left text span, frames, groups, depth⟩ left text span
            false) us :=
      outcome_symbols_done (hus left text span rfl)
    have hleaves := leaves_readOperation (c := c)
      (s := ⟨.symbols left text span, frames, groups, depth⟩) left text span false
    cases hstep : readOperation c ⟨.symbols left text span, frames, groups, depth⟩ left text span
        false with
    | error e =>
      rw [hstep] at hleaves
      exact .inl ⟨e.error, hleaves, fun us hus => by rw [hdone us hus, hstep]; rfl⟩
    | ok s' =>
      rw [hstep] at hleaves
      exact .inr ⟨s', isPlain_of_readOperation hstep, hleaves, fun us hus => by
        rw [hdone us hus, hstep]; rfl⟩

/-- Whether the text could end here, but for the parentheses that are open. -/
def isComplete (s : ParseState) : Bool :=
  match s.expect with
  | .operator _ | .chain _ | .elements _ _ _ _ => true
  | _ => false

theorem isPlain_of_isComplete (h : s.isComplete = true) : s.IsPlain := by
  intro left text span he
  simp [isComplete, he] at h

theorem isComplete_finished (groups : List Group) (q : Filter) (depth : Nat)
    (frames : List Frame) : (finished groups q depth frames).isComplete = true := by
  induction frames generalizing q depth with
  | nil => rfl
  | cons f frames ih =>
    cases f with
    | connection op left => exact ih _ _
    | negatedValue r left => exact ih _ _
    | negation => rfl

theorem close_of_isComplete (h : s.isComplete = true) :
    (s.openings = [] ∧ ∃ q, s.close = .ok q) ∨
      ∃ span opened, s.openings = span :: opened ∧ s.close = .error (.missingParen span) := by
  obtain ⟨expect, frames, groups, depth⟩ := s
  cases expect with
  | operator | chain =>
    simp only [close, finishExpression_eq, openings]
    cases groups with
    | nil => exact .inl ⟨rfl, _, rfl⟩
    | cons g groups => exact .inr ⟨_, _, rfl, rfl⟩
  | elements => exact .inr ⟨_, _, rfl, rfl⟩
  | field | value | symbols => cases h

theorem close_of_not_isComplete (h : s.isComplete = false) : s.close = .error .unexpectedEnd := by
  obtain ⟨expect, frames, groups, depth⟩ := s
  cases expect with
  | field | value | symbols => rfl
  | operator | chain | elements => cases h

theorem isAtEnd_of_close {e : ParseError} (h : s.close = .error e) : e.isAtEnd = true := by
  cases hs : s.isComplete with
  | false =>
    rw [close_of_not_isComplete hs] at h
    cases h
    rfl
  | true =>
    rcases close_of_isComplete hs with ⟨-, q, hq⟩ | ⟨span, opened, -, herror⟩
    · rw [hq] at h
      cases h
    · rw [herror] at h
      cases h
      rfl

/-- A closing parenthesis takes one that is open, in a state where the text could end. -/
theorem read_closeParen (hs : s.isComplete = true) (ht : t.kind = .closeParen) :
    (s.openings = [] ∧ ∃ e, s.read c t = .error e) ∨
      ∃ span s', s.openings = span :: s'.openings ∧ s'.isComplete = true ∧
        s.read c t = .ok s' := by
  have hchain (q : Filter) (frames : List Frame) (groups : List Group) (depth : Nat) :
      (groups.map (·.opening) = [] ∧
        ∃ e, ParseState.read c ⟨.chain q, frames, groups, depth⟩ t = .error e) ∨
      ∃ span s', groups.map (·.opening) = span :: openings s' ∧ s'.isComplete = true ∧
        ParseState.read c ⟨.chain q, frames, groups, depth⟩ t = .ok s' := by
    cases groups with
    | cons g groups =>
      refine .inr ⟨g.opening, ⟨.operator (.group q), g.frames, groups, g.depth⟩, rfl, rfl, ?_⟩
      simp only [ParseState.read, readPlain, readChain, ht]
    | nil =>
      refine .inl ⟨rfl, ?_⟩
      simp only [ParseState.read, readPlain, readChain, ht, descend]
      split_ifs
      · exact ⟨_, rfl⟩
      · exact ⟨_, rfl⟩
  obtain ⟨expect, frames, groups, depth⟩ := s
  cases expect with
  | operator q =>
    rw [read_operator_eq_chain (.inl ht)]
    exact hchain _ _ _ _
  | chain q => exact hchain _ _ _ _
  | elements r left opening texts =>
    refine .inr ⟨opening, finished groups (r.apply left (.values texts)) (depth - 1) frames, ?_,
      isComplete_finished _ _ _ _, read_elements_close ht⟩
    rw [openings_finished]
    rfl
  | field | value | symbols => cases hs

/-- Closing parentheses complete a text just if there is one for each that is open. -/
theorem exists_outcome_closing_iff (hs : s.isComplete = true)
    (hus : ∀ u ∈ us, u.kind = .closeParen) :
    (∃ q, outcome c s us = .ok q) ↔ us.length = s.openings.length := by
  induction us generalizing s with
  | nil =>
    rw [outcome_nil, (isPlain_of_isComplete hs).readEnd_eq]
    rcases close_of_isComplete hs with ⟨hopen, hq⟩ | ⟨span, opened, hopen, herror⟩
    · simp [hopen, hq]
    · simp [hopen, herror]
  | cons u us ih =>
    have hu : u.kind = .closeParen := hus u (by simp)
    rw [outcome_cons (by simp [hu])]
    rcases read_closeParen (c := c) hs hu with ⟨hopen, e, he⟩ | ⟨span, s', hopen, hs', hread⟩
    · simp [hopen, he, after]
    · rw [hread, hopen, after, ih hs' fun v hv => hus v (by simp [hv])]
      simp

/-- No closing parenthesis can stand where a field or a value is read next. -/
theorem outcome_closing_of_not_isComplete (hs : s.IsPlain) (hc : s.isComplete = false)
    (hus : ∀ u ∈ us, u.kind = .closeParen) : outcome c s us ≠ .ok q := by
  cases us with
  | nil =>
    rw [outcome_nil, hs.readEnd_eq, close_of_not_isComplete hc]
    simp
  | cons u us =>
    have hu : u.kind = .closeParen := hus u (by simp)
    rw [outcome_cons (by simp [hu]), hs.read_eq]
    obtain ⟨expect, frames, groups, depth⟩ := s
    cases expect with
    | field =>
      simp only [readPlain, readField, hu]
      rintro ⟨⟩
    | value r left =>
      simp only [readPlain, readValue, hu]
      rintro ⟨⟩
    | symbols left text span => exact absurd rfl (hs left text span)
    | operator | chain | elements => cases hc

/-- One word completes an operand, and opens or closes nothing. -/
theorem read_word {text : String} (hs : s.IsPlain) (hc : s.isComplete = false)
    (ht : t.kind = .word text) (htext : text ≠ Operator.negation.spelling) :
    ∃ s', s'.isComplete = true ∧ s'.openings = s.openings ∧ s.read c t = .ok s' := by
  have hlookup : (Operator.lookupBefore text).isSome = false := by
    rw [Bool.eq_false_iff, ne_eq, Operator.isSome_lookupBefore]
    exact htext
  rw [hs.read_eq]
  obtain ⟨expect, frames, groups, depth⟩ := s
  cases expect with
  | field =>
    refine ⟨⟨.operator (.name text), frames, groups, depth⟩, rfl, rfl, ?_⟩
    simp only [readPlain, readField, ht, hlookup, Bool.false_eq_true, if_false]
  | value r left =>
    refine ⟨finished groups (r.apply left (.value text)) depth frames,
      isComplete_finished _ _ _ _, openings_finished _ _ _ _, ?_⟩
    simp only [readPlain, readValue, ht, hlookup, Bool.false_eq_true, if_false,
      readOperand_eq]
  | symbols left text span => exact absurd rfl (hs left text span)
  | operator | chain | elements => cases hc

end ParseState

open ParseState

variable {c : Config} {f : String} {ts us : List Token}

theorem exists_lexes_closing (k m : Nat) :
    ∃ us, Lexes k (closing m).toList us ∧ us.length = m ∧ ∀ u ∈ us, u.kind = .closeParen := by
  rw [closing, String.toList_ofList]
  induction m generalizing k with
  | zero => exact ⟨[], .nil, rfl, by simp⟩
  | succ m ih =>
    obtain ⟨us, hus, hlength, hclose⟩ := ih (k + ')'.utf8Size)
    exact ⟨_, .single (by decide) (by decide) (by decide) hus, by simp [hlength],
      List.forall_mem_cons.mpr ⟨rfl, hclose⟩⟩

theorem endsWord_closing (m : Nat) : EndsWord (closing m).toList := by
  rw [closing, String.toList_ofList]
  cases m with
  | zero => exact endsWord_nil
  | succ m => exact endsWord_cons.mpr (by decide)

/-- The state that decides about whatever follows some tokens, unless a symbol comes first. -/
structure StopsAt (c : Config) (ts : List Token) (s : ParseState) : Prop where
  plain : s.IsPlain
  openings : s.openings = unclosed ts
  outcome : ∀ us : List Token, (∀ u ∈ us.head?, ∀ ch, u.kind ≠ .symbol ch) →
    outcome c (start 0) (ts ++ us) = outcome c s us

/-- Some tokens are at fault themselves, whatever follows, or they only stop. -/
theorem fault_or_stopsAt (c : Config) (hts : ∀ t ∈ ts, t.kind ≠ .endOfInput) :
    (∃ e : ParseError, e.isAtEnd = false ∧
      ∀ us : List Token, (∀ u ∈ us.head?, ∀ ch, u.kind ≠ .symbol ch) →
        outcome c (start 0) (ts ++ us) = .error e) ∨ ∃ s, StopsAt c ts s := by
  rcases outcome_append_cases (c := c) hts (start 0) with ⟨e, he, hus⟩ | ⟨s, hopen, hus⟩
  · exact .inl ⟨e, he, fun us _ => hus us⟩
  · rcases outcome_plain_cases (c := c) s with ⟨e, he, hplain⟩ | ⟨s', hs', hopen', hplain⟩
    · exact .inl ⟨e, he, fun us h => (hus us).trans (hplain us (parts_of_not_symbol h))⟩
    · exact .inr ⟨s', hs', hopen'.trans hopen, fun us h =>
        (hus us).trans (hplain us (parts_of_not_symbol h))⟩

theorem StopsAt.outcome_nil {s : ParseState} (h : StopsAt c ts s) :
    ParseState.outcome c (start 0) ts = s.close := by
  have hnil := h.outcome [] (by simp)
  rwa [List.append_nil, ParseState.outcome_nil, h.plain.readEnd_eq] at hnil

theorem StopsAt.outcome_closing {s : ParseState} (h : StopsAt c ts s)
    (hus : ∀ u ∈ us, u.kind = .closeParen) :
    ParseState.outcome c (start 0) (ts ++ us) = ParseState.outcome c s us := by
  refine h.outcome us fun u hu ch hch => ?_
  rw [hus u (List.mem_of_head? hu)] at hch
  cases hch

/-- A text that is malformed at its end stops in a state that is closed with this error. -/
theorem exists_stopsAt_of_parse {e : ParseError} (hlex : Lexes 0 f.toList ts)
    (he : e.isAtEnd = true) (h : Filter.parse c f = .error e) :
    ∃ s, StopsAt c ts s ∧ s.close = .error e := by
  have hout := (outcome_of_parse_eq_error hlex h).2
  rcases fault_or_stopsAt c fun t ht => (hlex.lexical t ht).ne_endOfInput with
    ⟨e', he', hfault⟩ | ⟨s, hs⟩
  · have hnil := hfault [] (by simp)
    rw [List.append_nil, hout] at hnil
    cases hnil
    simp [he] at he'
  · exact ⟨s, hs, hs.outcome_nil.symm.trans hout⟩

theorem exists_parse_closing (c : Config) (hlex : Lexes 0 f.toList ts) (m : Nat) :
    ∃ us, us.length = m ∧ (∀ u ∈ us, u.kind = .closeParen) ∧ (ts ++ us ≠ [] →
      Filter.parse c (f ++ closing m) = (outcome c (start 0) (ts ++ us)).map some) := by
  obtain ⟨us, hus, hlength, hclose⟩ := exists_lexes_closing (0 + utf8Length f.toList) m
  have hwhole := hlex.append (.inl (endsWord_closing m)) hus
  rw [← String.toList_append] at hwhole
  exact ⟨us, hlength, hclose, fun hne => by rw [parse_of_lexes hwhole, if_neg hne]⟩

/-- A text with a missing parenthesis is a filter when all that are open are closed. -/
theorem parse_closing_of_missingParen {span : Span} (hlex : Lexes 0 f.toList ts)
    (h : Filter.parse c f = .error (.missingParen span)) :
    (unclosed ts).head? = some span ∧
      ∃ q, Filter.parse c (f ++ closing (unclosed ts).length) = .ok (some q) := by
  obtain ⟨s, hs, hclose⟩ := exists_stopsAt_of_parse hlex rfl h
  have hcomplete : s.isComplete = true := by
    cases hc : s.isComplete with
    | true => rfl
    | false =>
      rw [close_of_not_isComplete hc] at hclose
      cases hclose
  have hhead : (unclosed ts).head? = some span := by
    rcases close_of_isComplete hcomplete with ⟨-, q, hq⟩ | ⟨span', opened, hopen, herror⟩
    · rw [hq] at hclose
      cases hclose
    · rw [herror] at hclose
      cases hclose
      simp [← hs.openings, hopen]
  refine ⟨hhead, ?_⟩
  obtain ⟨us, hlength, hus, hparse⟩ := exists_parse_closing c hlex (unclosed ts).length
  have hne : ts ++ us ≠ [] := by
    intro hnil
    obtain ⟨rfl, -⟩ := List.append_eq_nil_iff.mp hnil
    cases hhead
  obtain ⟨q, hq⟩ := (exists_outcome_closing_iff (c := c) hcomplete hus).mpr
    (hlength.trans (congrArg _ hs.openings.symm))
  exact ⟨q, by rw [hparse hne, hs.outcome_closing hus, hq]; rfl⟩

theorem missingParen_of_parse_closing {m : Nat} {q : Filter} (hlex : Lexes 0 f.toList ts)
    (hm : 1 ≤ m) (h : Filter.parse c (f ++ closing m) = .ok (some q)) :
    m = (unclosed ts).length ∧ ∃ span, Filter.parse c f = .error (.missingParen span) := by
  obtain ⟨us, hlength, hus, hparse⟩ := exists_parse_closing c hlex m
  have hne : us ≠ [] := List.ne_nil_of_length_pos (by omega)
  rw [hparse (List.append_ne_nil_of_right_ne_nil ts hne)] at h
  have hout : outcome c (start 0) (ts ++ us) = .ok q := by
    cases hout : outcome c (start 0) (ts ++ us) with
    | ok q' => simpa [hout, Except.map] using h
    | error e => simp [hout, Except.map] at h
  rcases fault_or_stopsAt c fun t ht => (hlex.lexical t ht).ne_endOfInput with
    ⟨e, -, hfault⟩ | ⟨s, hs⟩
  · rw [hfault us fun u hu ch hch => by simp [hus u (List.mem_of_head? hu)] at hch] at hout
    cases hout
  · rw [hs.outcome_closing hus] at hout
    have hcomplete : s.isComplete = true := by
      cases hc : s.isComplete with
      | true => rfl
      | false => exact absurd hout (outcome_closing_of_not_isComplete hs.plain hc hus)
    have hcount := (exists_outcome_closing_iff hcomplete hus).mp ⟨q, hout⟩
    rw [hlength, hs.openings] at hcount
    refine ⟨hcount, ?_⟩
    have hts : ts ≠ [] := by
      rintro rfl
      rw [hcount] at hm
      cases hm
    rcases close_of_isComplete hcomplete with ⟨hopen, -⟩ | ⟨span, opened, -, herror⟩
    · rw [hs.openings] at hopen
      simp [hopen] at hcount
      omega
    · refine ⟨span, ?_⟩
      rw [parse_of_lexes hlex, if_neg hts, hs.outcome_nil, herror]
      rfl

theorem Lexes.exists_append_word (hlex : Lexes 0 f.toList ts) (m : Nat) :
    ∃ span us, Lexes 0 (f ++ " x" ++ closing m).toList (ts ++ ⟨.word "x", span⟩ :: us) ∧
      us.length = m ∧ ∀ u ∈ us, u.kind = .closeParen := by
  obtain ⟨us, hus, hlength, hclose⟩ :=
    exists_lexes_closing (0 + utf8Length f.toList + 1 + utf8Length ['x']) m
  have hword := Lexes.word (w := ['x']) (by simp) (List.all_eq_true.mp (by decide))
    (endsWord_closing _) hus
  have hkind : TokenKind.ofWord (String.ofList ['x']) = .word "x" :=
    TokenKind.ofWord_eq_word rfl
  rw [hkind] at hword
  have hwhole := hlex.spaced hword
  have htext : f.toList ++ ' ' :: (['x'] ++ (closing m).toList) =
      (f ++ " x" ++ closing m).toList := by
    simp
  exact ⟨_, us, htext ▸ hwhole, hlength, hclose⟩

/-- A text that ends where an operand is missing is a filter when a word follows and then all
parentheses that are open are closed. -/
theorem parse_word_of_unexpectedEnd (hlex : Lexes 0 f.toList ts)
    (h : Filter.parse c f = .error .unexpectedEnd) :
    ∃ q, Filter.parse c (f ++ " x" ++ closing (unclosed ts).length) = .ok (some q) := by
  obtain ⟨s, hs, hclose⟩ := exists_stopsAt_of_parse hlex rfl h
  have hincomplete : s.isComplete = false := by
    cases hc : s.isComplete with
    | false => rfl
    | true =>
      rcases close_of_isComplete hc with ⟨-, q, hq⟩ | ⟨span, opened, -, herror⟩
      · rw [hq] at hclose
        cases hclose
      · rw [herror] at hclose
        cases hclose
  obtain ⟨span, us, hwhole, hlength, hclosing⟩ := hlex.exists_append_word (unclosed ts).length
  obtain ⟨s', hs', hopen, hread⟩ :=
    read_word (c := c) (t := ⟨.word "x", span⟩) hs.plain hincomplete rfl (by decide)
  obtain ⟨q, hq⟩ := (exists_outcome_closing_iff (c := c) hs' hclosing).mpr
    (hlength.trans (congrArg _ (hopen.trans hs.openings).symm))
  refine ⟨q, ?_⟩
  rw [parse_of_lexes hwhole, if_neg (by simp), hs.outcome _ (by simp), outcome_cons (by simp),
    hread, after, hq]
  rfl

/-- A parenthesis is reported missing just if closing parentheses at the end of the text make it a
filter; then there must be one for each that is open, and the last one is reported. Where the end
itself is unexpected, a word and these parentheses make the text a filter. -/
theorem parse_at_end {toks : List Token} (h : Token.ofText f = .ok toks) :
    ((∃ span, Filter.parse c f = .error (.missingParen span)) ↔
      ∃ m q, 1 ≤ m ∧ Filter.parse c (f ++ closing m) = .ok (some q)) ∧
    (∀ m q, 1 ≤ m → Filter.parse c (f ++ closing m) = .ok (some q) →
      m = (unclosed toks).length) ∧
    (∀ span, Filter.parse c f = .error (.missingParen span) →
      (unclosed toks).head? = some span) ∧
    (Filter.parse c f = .error .unexpectedEnd →
      ∃ q, Filter.parse c (f ++ " x" ++ closing (unclosed toks).length) = .ok (some q)) := by
  obtain ⟨ts, hlex, rfl⟩ := Token.ofText_eq_ok_iff.mp h
  -- the token for the end of the text opens and closes nothing
  have hopen (k : Nat) : unclosed (ts ++ [⟨.endOfInput, k, k⟩]) = unclosed ts := by
    rw [unclosed, List.foldl_append]
    rfl
  rw [hopen]
  refine ⟨⟨?_, ?_⟩, ?_, ?_, parse_word_of_unexpectedEnd hlex⟩
  · rintro ⟨span, hspan⟩
    obtain ⟨hhead, q, hq⟩ := parse_closing_of_missingParen hlex hspan
    exact ⟨_, q, List.length_pos_iff.mpr (List.ne_nil_of_mem (List.mem_of_head? hhead)), hq⟩
  · rintro ⟨m, q, hm, hq⟩
    exact (missingParen_of_parse_closing hlex hm hq).2
  · exact fun m q hm hq => (missingParen_of_parse_closing hlex hm hq).1
  · exact fun span hspan => (parse_closing_of_missingParen hlex hspan).1

/-- A list and a group are open after an operand, and a group where an operand is missing. A quoted
parenthesis counts in neither. -/
theorem parse_at_end_list_in_group :
    ∃ toks, Token.ofText "(a = '(' AND b IN (1, " = .ok toks ∧
      Filter.parse {} "(a = '(' AND b IN (1, " = .error (.missingParen ⟨18, 19⟩) ∧
      (unclosed toks).length = 2 ∧
      ∃ m q, 1 ≤ m ∧ Filter.parse {} ("(a = '(' AND b IN (1, " ++ closing m) = .ok (some q) := by
  have hlex : Token.ofText "(a = '(' AND b IN (1, " =
      .ok ((Scanner.ofText "(a = '(' AND b IN (1, ").tokens.push ⟨.endOfInput, 22, 22⟩).toList := by
    rfl
  have hparse : Filter.parse {} "(a = '(' AND b IN (1, " = .error (.missingParen ⟨18, 19⟩) := by
    rfl
  exact ⟨_, hlex, hparse, by rfl, (parse_at_end hlex).1.mp ⟨_, hparse⟩⟩

end FilterLang
