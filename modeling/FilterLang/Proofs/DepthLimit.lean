import FilterLang.Proofs.Blame
import Mathlib.Data.List.TakeWhile
import Mathlib.Data.Nat.Find

/-! The depth limit is a threshold: `exists_depth_threshold`. A step under one limit is the step
under a higher limit unless it runs out of levels, so raising the limit changes a result only where
it was that one error; and no level is entered without a token of its own, so as many levels as
tokens are enough. -/

namespace FilterLang

variable {c c' : Config}

/-- The configurations read numbers alike, and the second allows as many levels or more. -/
structure Config.Allows (c c' : Config) : Prop where
  numbers : c.numbers = c'.numbers
  maxDepth : c.maxDepth ≤ c'.maxDepth

namespace ParseState

/-- Two steps are the same, unless the first runs out of levels. -/
def Agrees (limit : Nat) (step step' : Except Fault ParseState) : Prop :=
  step = step' ∨ ∃ taken, step = .error ⟨.tooDeep limit, taken⟩

variable {s : ParseState} {t : Token} {ts : List Token}

theorem agrees_descend (h : c.Allows c') {taken : Bool}
    {f f' : ParseState → Except Fault ParseState}
    (hf : ∀ s, Agrees c.maxDepth (f s) (f' s)) :
    Agrees c.maxDepth (s.descend c taken >>= f) (s.descend c' taken >>= f') := by
  have hle := h.maxDepth
  unfold descend
  by_cases hdeep : c.maxDepth ≤ s.depth
  · rw [if_pos hdeep]
    exact .inr ⟨taken, rfl⟩
  · rw [if_neg hdeep, if_neg (by omega)]
    exact hf _

theorem agrees_readOperation (h : c.Allows c') (s : ParseState) (left : Filter) (text : String)
    (span : Span) (taken : Bool) :
    Agrees c.maxDepth (s.readOperation c left text span taken)
      (s.readOperation c' left text span taken) := by
  unfold readOperation
  cases Operator.lookup text with
  | none => exact .inl rfl
  | some o =>
    cases o with
    | connective op => exact agrees_descend h fun _ => .inl rfl
    | relation r => exact .inl rfl
    | negation => exact .inl rfl

theorem agrees_readField (h : c.Allows c') :
    Agrees c.maxDepth (s.readField c t) (s.readField c' t) := by
  unfold readField
  rw [h.numbers]
  cases t.kind with
  | openParen => exact agrees_descend h fun _ => .inl rfl
  | word text =>
    simp only
    split_ifs
    · exact agrees_descend h fun _ => .inl rfl
    · exact .inl rfl
  | quoted | number | closeParen | comma | symbol | endOfInput => exact .inl rfl

theorem agrees_readValue (h : c.Allows c') (r : Relation) (left : Filter) :
    Agrees c.maxDepth (s.readValue c r left t) (s.readValue c' r left t) := by
  unfold readValue
  rw [h.numbers]
  cases t.kind with
  | openParen => exact agrees_descend h fun _ => .inl rfl
  | word text =>
    simp only
    split_ifs
    · exact agrees_descend h fun _ => .inl rfl
    · exact .inl rfl
  | quoted | number | closeParen | comma | symbol | endOfInput => exact .inl rfl

theorem agrees_readChain (h : c.Allows c') (s : ParseState) (left : Filter) (t : Token) :
    Agrees c.maxDepth (s.readChain c left t) (s.readChain c' left t) := by
  have hunrecognized :
      Agrees c.maxDepth (s.descend c false >>= fun _ => unrecognized t)
        (s.descend c' false >>= fun _ => unrecognized t) :=
    agrees_descend h fun _ => .inl rfl
  unfold readChain
  cases t.kind with
  | closeParen =>
    cases s.groups with
    | nil => exact hunrecognized
    | cons g groups => exact .inl rfl
  | word text => exact agrees_descend h fun s => agrees_readOperation h s _ _ _ _
  | symbol ch => exact agrees_descend h fun _ => .inl rfl
  | quoted | number | openParen | comma | endOfInput => exact hunrecognized

theorem agrees_readOperator (h : c.Allows c') (left : Filter) :
    Agrees c.maxDepth (s.readOperator c left t) (s.readOperator c' left t) := by
  unfold readOperator
  cases t.kind with
  | word text => exact agrees_readOperation h s _ _ _ _
  | number | closeParen =>
    simp only [finishExpression_eq, bind, Except.bind]
    exact agrees_readChain h _ _ _
  | quoted | openParen | comma | symbol | endOfInput => exact .inl rfl

theorem agrees_readPlain (h : c.Allows c') (s : ParseState) (t : Token) :
    Agrees c.maxDepth (s.readPlain c t) (s.readPlain c' t) := by
  unfold readPlain
  cases s.expect with
  | field => exact agrees_readField h
  | value r left => exact agrees_readValue h r left
  | operator left => exact agrees_readOperator h left
  | chain left => exact agrees_readChain h s left t
  | elements r left opening texts =>
    simp only [readElement, h.numbers]
    exact .inl rfl
  | symbols left text span => exact .inl rfl

theorem agrees_read (h : c.Allows c') (s : ParseState) (t : Token) :
    Agrees c.maxDepth (s.read c t) (s.read c' t) := by
  rcases isPlain_or_symbols s with hs | ⟨left, text, span, he⟩
  · rw [hs.read_eq, hs.read_eq]
    exact agrees_readPlain h s t
  · simp only [ParseState.read, he]
    cases adjacentSymbol? span t with
    | some ch => exact .inl rfl
    | none =>
      rcases agrees_readOperation h s left text span false with ho | ⟨taken, ho⟩
      · simp only [ho]
        cases s.readOperation c' left text span false with
        | ok s' => exact agrees_readPlain h s' t
        | error e => exact .inl rfl
      · simp only [ho]
        exact .inr ⟨taken, rfl⟩

theorem readEnd_agrees (h : c.Allows c') (s : ParseState) :
    s.readEnd c = s.readEnd c' ∨ s.readEnd c = .error (.tooDeep c.maxDepth) := by
  unfold readEnd
  split
  · next left text span _ =>
    rcases agrees_readOperation h s left text span false with ho | ⟨taken, ho⟩
    · rw [ho]
      exact .inl rfl
    · rw [ho]
      exact .inr rfl
  · exact .inl rfl

/-- A higher limit changes only what has run out of levels. -/
theorem outcome_agrees (h : c.Allows c') (s : ParseState) (ts : List Token) :
    outcome c s ts = outcome c' s ts ∨ outcome c s ts = .error (.tooDeep c.maxDepth) := by
  induction ts generalizing s with
  | nil => exact readEnd_agrees h s
  | cons t ts ih =>
    by_cases ht : t.kind = .endOfInput
    · rw [outcome_end ht, outcome_end ht]
      exact readEnd_agrees h s
    · rw [outcome_cons ht, outcome_cons ht]
      rcases agrees_read h s t with hread | ⟨taken, hread⟩
      · rw [hread]
        cases s.read c' t with
        | ok s' => exact ih s'
        | error e => exact .inl rfl
      · rw [hread]
        exact .inr rfl

/-- As many levels as tokens are enough. -/
theorem outcome_ne_tooDeep (hts : ∀ t ∈ ts, t.kind ≠ .endOfInput) (hdepth : ts.length ≤ c.maxDepth)
    (limit : Nat) : outcome c (start 0) ts ≠ .error (.tooDeep limit) := by
  intro h
  have := (blames_of_outcome hts h rfl).eq_of_tooDeep.2
  omega

/-- What stands behind a token for the end is not read. -/
theorem outcome_takeWhile (s : ParseState) (ts : List Token) :
    outcome c s ts = outcome c s (ts.takeWhile (·.kind ≠ .endOfInput)) := by
  rw [outcome, outcome, run_takeWhile]

end ParseState

open ParseState

theorem next_eq (c : Config) (tokens : List Token) :
    (Parser.ofTokens c tokens).next.1 =
      if tokens.takeWhile (·.kind ≠ .endOfInput) = [] then .ok none
      else (outcome c (start 0) (tokens.takeWhile (·.kind ≠ .endOfInput))).map some := by
  have hat : (Parser.ofTokens c tokens).atEnd = true ↔
      tokens.takeWhile (·.kind ≠ .endOfInput) = [] := by
    cases tokens with
    | nil => simp [Parser.atEnd, Parser.ofTokens]
    | cons t ts => simp [Parser.atEnd, Parser.ofTokens, List.takeWhile_cons]
  split_ifs with hnil
  · rw [Parser.next_of_atEnd (hat.mpr hnil)]
  · have hnot : (Parser.ofTokens c tokens).atEnd = false := by simpa using mt hat.mp hnil
    rw [Parser.next, hnot, ← outcome_takeWhile]
    rfl

/-- The configuration with a given limit, as far as reading tokens depends on it. -/
def Config.limited (numbers : NumberText) (limit : Nat) : Config :=
  { maxDepth := limit, numbers := numbers }

/-- The first limit that is enough for some tokens. A reader that runs out of levels reports its own
limit, so no other one is reported either. -/
theorem exists_first_limit (numbers : NumberText) {ts : List Token}
    (hts : ∀ t ∈ ts, t.kind ≠ .endOfInput) :
    ∃ n ≤ ts.length,
      (∀ limit, outcome (.limited numbers n) (start 0) ts ≠ .error (.tooDeep limit)) ∧
      ∀ m < n, outcome (.limited numbers m) (start 0) ts = .error (.tooDeep m) := by
  classical
  have henough : outcome (.limited numbers ts.length) (start 0) ts ≠ .error (.tooDeep ts.length) :=
    outcome_ne_tooDeep hts (Nat.le_refl _) _
  have hex : ∃ n, outcome (.limited numbers n) (start 0) ts ≠ .error (.tooDeep n) := ⟨_, henough⟩
  refine ⟨Nat.find hex, Nat.find_min' hex henough, fun limit hlimit => ?_,
    fun m hm => not_not.mp (Nat.find_min hex hm)⟩
  obtain ⟨rfl, -⟩ := (blames_of_outcome hts hlimit rfl).eq_of_tooDeep
  exact Nat.find_spec hex hlimit

theorem exists_outcome_threshold (numbers : NumberText) {ts : List Token}
    (hts : ∀ t ∈ ts, t.kind ≠ .endOfInput) :
    ∃ n ≤ ts.length, ∃ result : Except ParseError Filter,
      (∀ limit, result ≠ .error (.tooDeep limit)) ∧
      ∀ c : Config, c.numbers = numbers →
        (c.maxDepth < n → outcome c (start 0) ts = .error (.tooDeep c.maxDepth)) ∧
        (n ≤ c.maxDepth → outcome c (start 0) ts = result) := by
  obtain ⟨n, hlength, hn, hfirst⟩ := exists_first_limit numbers hts
  refine ⟨n, hlength, outcome (.limited numbers n) (start 0) ts, hn, fun c hc =>
    ⟨fun hlt => ?_, fun hle => ?_⟩⟩
  · have hallows : c.Allows (.limited numbers c.maxDepth) := ⟨hc, Nat.le_refl _⟩
    rcases outcome_agrees hallows (start 0) ts with hout | hout
    · rw [hout, hfirst c.maxDepth hlt]
    · exact hout
  · have hallows : (Config.limited numbers n).Allows c := ⟨hc.symm, hle⟩
    exact ((outcome_agrees hallows (start 0) ts).resolve_right (hn n)).symm

/-- For each list of tokens there is a limit below which the levels do not suffice and from which on
the result stays the same. It is at most the number of tokens before the end. -/
theorem exists_depth_threshold (numbers : NumberText) (tokens : List Token) :
    ∃ n ≤ (tokens.takeWhile (·.kind ≠ .endOfInput)).length,
    ∃ result : Except ParseError (Option Filter), (∀ limit, result ≠ .error (.tooDeep limit)) ∧
      ∀ c : Config, c.numbers = numbers →
        (c.maxDepth < n → (Parser.ofTokens c tokens).next.1 = .error (.tooDeep c.maxDepth)) ∧
        (n ≤ c.maxDepth → (Parser.ofTokens c tokens).next.1 = result) := by
  have hts : ∀ t ∈ tokens.takeWhile (·.kind ≠ .endOfInput), t.kind ≠ .endOfInput :=
    fun t ht => by simpa using List.mem_takeWhile_imp ht
  simp only [next_eq]
  generalize tokens.takeWhile (·.kind ≠ .endOfInput) = ts at hts ⊢
  by_cases hnil : ts = []
  · simp only [hnil, if_true]
    exact ⟨0, Nat.le_refl 0, .ok none, by simp, fun c _ => ⟨fun h => by omega, fun _ => rfl⟩⟩
  · simp only [hnil, if_false]
    obtain ⟨n, hlength, result, hresult, hthreshold⟩ := exists_outcome_threshold numbers hts
    refine ⟨n, hlength, result.map some, fun limit hlimit => ?_, fun c hc =>
      ⟨fun hlt => ?_, fun hle => ?_⟩⟩
    · cases result with
      | ok q => cases hlimit
      | error e =>
        cases hlimit
        exact hresult limit rfl
    · rw [(hthreshold c hc).1 hlt]
      rfl
    · rw [(hthreshold c hc).2 hle]

end FilterLang
