import FilterLang.Proofs.Completion

/-! Which tokens an error is about: `blames_of_parse`. Whatever has been read, no more levels have
been entered than tokens were read, and an operator that is being spelled is made of symbols that
touch. So an error tells the text and place of some tokens, or that there are more tokens than
levels, or it is about the end. -/

namespace FilterLang

/-- Some of the tokens are symbols that touch one after another, with the text they join to and the
span they cover. -/
inductive Joined (ts : List Token) : String → Span → Prop
  | symbol {t ch} : t ∈ ts → t.kind = .symbol ch → Joined ts ch.toString t.span
  | push {text span t ch} : Joined ts text span → t ∈ ts → t.kind = .symbol ch →
      t.span.start = span.stop → Joined ts (text.push ch) ⟨span.start, t.span.stop⟩

/-- The error is about these tokens themselves, whatever follows them. -/
inductive Blames (limit : Nat) (ts : List Token) : ParseError → Prop
  | token {t} : t ∈ ts → Blames limit ts (.unrecognizedToken t.kind.text t.span)
  | word {t text} : t ∈ ts → t.kind = .word text → Blames limit ts (.unknownOperator text t.span)
  | symbols {text span} : Joined ts text span → Blames limit ts (.unknownOperator text span)
  | levels : limit < ts.length → Blames limit ts (.tooDeep limit)

variable {c : Config} {limit : Nat} {ts us : List Token} {t : Token}

theorem Joined.append {text : String} {span : Span} (h : Joined ts text span) (us : List Token) :
    Joined (ts ++ us) text span := by
  induction h with
  | symbol ht hch => exact .symbol (List.mem_append_left us ht) hch
  | push _ ht hch hstart ih => exact .push ih (List.mem_append_left us ht) hch hstart

theorem Blames.append {e : ParseError} (h : Blames limit ts e) (us : List Token) :
    Blames limit (ts ++ us) e := by
  cases h with
  | token ht => exact .token (List.mem_append_left us ht)
  | word ht htext => exact .word (List.mem_append_left us ht) htext
  | symbols h => exact .symbols (h.append us)
  | levels h => exact .levels (by rw [List.length_append]; omega)

theorem Blames.eq_of_tooDeep {limit' : Nat} (h : Blames limit ts (.tooDeep limit')) :
    limit' = limit ∧ limit < ts.length := by
  cases h with
  | levels h => exact ⟨rfl, h⟩

namespace ParseState

/-- How many tokens have been read besides one for each level, at least. -/
def spare (s : ParseState) : Nat :=
  match s.expect with
  | .field => 0
  | _ => 1

/-- What is known of a state after these tokens. -/
structure Reached (ts : List Token) (s : ParseState) : Prop where
  depth : s.depth + s.spare ≤ ts.length
  groups : ∀ g ∈ s.groups, g.depth < ts.length
  symbols : ∀ left text span, s.expect = .symbols left text span → Joined ts text span

def Tracks (c : Config) (ts : List Token) : Except Fault ParseState → Prop
  | .ok s => Reached ts s
  | .error e => Blames c.maxDepth ts e.error

variable {s : ParseState}

theorem reached_start : Reached [] (start 0) :=
  ⟨Nat.le_refl 0, by simp [start], by simp [start]⟩

theorem Reached.append (h : Reached ts s) (us : List Token) : Reached (ts ++ us) s := by
  have hlength : ts.length ≤ (ts ++ us).length := by simp
  exact ⟨Nat.le_trans h.depth hlength, fun g hg => Nat.lt_of_lt_of_le (h.groups g hg) hlength,
    fun left text span he => (h.symbols left text span he).append us⟩

theorem tracks_unrecognized (ht : t ∈ ts) : Tracks c ts (unrecognized t) := Blames.token ht

/-- One more level may be entered as long as there are fewer of them than tokens. -/
theorem tracks_descend {taken : Bool} {f : ParseState → Except Fault ParseState}
    (hd : s.depth < ts.length) (h : Tracks c ts (f { s with depth := s.depth + 1 })) :
    Tracks c ts (s.descend c taken >>= f) := by
  unfold descend
  split_ifs with hlimit
  · exact Blames.levels (Nat.lt_of_le_of_lt hlimit hd)
  · exact h

theorem reached_finished {groups : List Group} {depth : Nat} (q : Filter) (frames : List Frame)
    (hd : depth < ts.length) (hg : ∀ g ∈ groups, g.depth < ts.length) :
    Reached ts (finished groups q depth frames) := by
  induction frames generalizing q depth with
  | nil => exact ⟨hd, hg, by simp [finished]⟩
  | cons f frames ih =>
    have hless : depth - 1 < ts.length := by omega
    cases f with
    | connection op left => exact ih _ hless
    | negatedValue r left => exact ih _ hless
    | negation => exact ⟨hless, hg, by simp [finished]⟩

theorem tracks_readOperation {left : Filter} {text : String} {span : Span} {taken : Bool}
    (hd : s.depth < ts.length) (hg : ∀ g ∈ s.groups, g.depth < ts.length)
    (hunknown : Blames c.maxDepth ts (.unknownOperator text span)) :
    Tracks c ts (s.readOperation c left text span taken) := by
  unfold readOperation
  split
  · exact hunknown
  · exact tracks_descend hd ⟨hd, hg, by simp [push]⟩
  · exact ⟨hd, hg, by simp⟩
  · simp only [node_negation, bind, Except.bind, finishOperand_eq]
    exact reached_finished _ _ hd hg

theorem tracks_readOperand {r : Relation} {left right : Filter} (hd : s.depth < ts.length)
    (hg : ∀ g ∈ s.groups, g.depth < ts.length) : Tracks c ts (s.readOperand r left right) := by
  rw [readOperand_eq]
  exact reached_finished _ _ hd hg

theorem tracks_readField (ht : t ∈ ts) (hd : s.depth < ts.length)
    (hg : ∀ g ∈ s.groups, g.depth < ts.length) : Tracks c ts (s.readField c t) := by
  unfold readField
  split
  · exact tracks_descend hd ⟨hd, List.forall_mem_cons.mpr ⟨hd, hg⟩, by simp⟩
  · split_ifs
    · exact tracks_descend hd ⟨hd, hg, by simp [push]⟩
    · exact ⟨hd, hg, by simp⟩
  · exact ⟨hd, hg, by simp⟩
  · exact ⟨hd, hg, by simp⟩
  · exact tracks_unrecognized ht

theorem tracks_readValue {r : Relation} {left : Filter} (ht : t ∈ ts)
    (hd : s.depth + 1 < ts.length) (hg : ∀ g ∈ s.groups, g.depth < ts.length) :
    Tracks c ts (s.readValue c r left t) := by
  have hless : s.depth < ts.length := Nat.lt_of_succ_lt hd
  unfold readValue
  split
  · exact tracks_descend hless ⟨hd, hg, by simp⟩
  · split_ifs
    · exact tracks_descend hless ⟨hless, hg, by simp [push]⟩
    · exact tracks_readOperand hless hg
  · exact tracks_readOperand hless hg
  · exact tracks_readOperand hless hg
  · exact tracks_unrecognized ht

theorem tracks_readElement {r : Relation} {left : Filter} {opening : Span} {texts : List String}
    (ht : t ∈ ts) (h : Reached ts s) (hd : s.depth < ts.length) :
    Tracks c ts (s.readElement c r left opening texts t) := by
  unfold readElement
  split
  · exact tracks_readOperand (Nat.lt_of_le_of_lt (Nat.sub_le _ _) hd) h.groups
  · exact h
  · exact ⟨hd, h.groups, by simp⟩
  · exact ⟨hd, h.groups, by simp⟩
  · exact ⟨hd, h.groups, by simp⟩
  · exact tracks_unrecognized ht

/-- In a chain a level is entered before the token is looked at, and a connective enters another
one; the operand before them has a token of its own. -/
theorem tracks_readChain {left : Filter} (ht : t ∈ ts) (hd : s.depth + 1 < ts.length)
    (hg : ∀ g ∈ s.groups, g.depth < ts.length) : Tracks c ts (s.readChain c left t) := by
  have hless : s.depth < ts.length := Nat.lt_of_succ_lt hd
  have hunrecognized : Tracks c ts (s.descend c false >>= fun _ => unrecognized t) :=
    tracks_descend hless (tracks_unrecognized ht)
  unfold readChain
  cases hkind : t.kind with
  | closeParen =>
    cases hgroups : s.groups with
    | nil => exact hunrecognized
    | cons g groups =>
      obtain ⟨hclosed, hrest⟩ := List.forall_mem_cons.mp (hgroups ▸ hg)
      exact ⟨hclosed, hrest, by simp⟩
  | word text => exact tracks_descend hless (tracks_readOperation hd hg (.word ht hkind))
  | symbol ch =>
    refine tracks_descend hless ⟨hd, hg, ?_⟩
    rintro _ _ _ ⟨⟩
    exact .symbol ht hkind
  | quoted | number | openParen | comma | endOfInput => exact hunrecognized

theorem tracks_readOperator {left : Filter} (ht : t ∈ ts) (hd : s.depth + 1 < ts.length)
    (hg : ∀ g ∈ s.groups, g.depth < ts.length) : Tracks c ts (s.readOperator c left t) := by
  have hless : s.depth < ts.length := Nat.lt_of_succ_lt hd
  unfold readOperator
  cases hkind : t.kind with
  | word text => exact tracks_readOperation hless hg (.word ht hkind)
  | symbol ch =>
    refine ⟨hless, hg, ?_⟩
    rintro _ _ _ ⟨⟩
    exact .symbol ht hkind
  | number | closeParen =>
    simp only [finishExpression_eq, bind, Except.bind]
    exact tracks_readChain ht (by simp only; omega) hg
  | quoted | openParen | comma | endOfInput => exact tracks_unrecognized ht

theorem start_of_adjacentSymbol? {span : Span} {ch : Char} (h : adjacentSymbol? span t = some ch) :
    t.span.start = span.stop := by
  unfold adjacentSymbol? at h
  split at h
  · split_ifs at h with hstart
    exact hstart
  · cases h

/-- Only before a field there may be as many levels as tokens. -/
theorem Reached.depth_lt (h : Reached ts s) (hs : s.expect ≠ .field) : s.depth < ts.length := by
  have hspare : s.spare = 1 := by
    unfold spare
    split
    · next he => exact absurd he hs
    · rfl
  have := h.depth
  omega

theorem tracks_readPlain (h : Reached ts s) (hs : s.IsPlain) (t : Token) :
    Tracks c (ts ++ [t]) (s.readPlain c t) := by
  have ht : t ∈ ts ++ [t] := by simp
  have hread := h.append [t]
  have hlength : (ts ++ [t]).length = ts.length + 1 := List.length_append
  unfold readPlain
  split
  · have := h.depth
    exact tracks_readField ht (by omega) hread.groups
  · next he =>
    have := h.depth_lt (by simp [he])
    exact tracks_readValue ht (by omega) hread.groups
  · next he =>
    have := h.depth_lt (by simp [he])
    exact tracks_readOperator ht (by omega) hread.groups
  · next he =>
    have := h.depth_lt (by simp [he])
    exact tracks_readChain ht (by omega) hread.groups
  · next he =>
    have := h.depth_lt (by simp [he])
    exact tracks_readElement ht hread (by omega)
  · next left text span he => exact absurd he (hs left text span)

/-- What is known of a state is known again after one more token, unless that is at fault. -/
theorem tracks_read (h : Reached ts s) (t : Token) : Tracks c (ts ++ [t]) (s.read c t) := by
  rcases isPlain_or_symbols s with hs | ⟨left, text, span, he⟩
  · rw [hs.read_eq]
    exact tracks_readPlain h hs t
  · have hjoined := h.symbols left text span he
    have hd : s.depth < ts.length := h.depth_lt (by simp [he])
    simp only [ParseState.read, he]
    split
    · next ch hch =>
      refine ⟨?_, (h.append [t]).groups, ?_⟩
      · simp only [spare, List.length_append, List.length_singleton]
        omega
      · rintro _ _ _ ⟨⟩
        exact .push (hjoined.append [t]) (by simp) (kind_of_adjacentSymbol? hch)
          (start_of_adjacentSymbol? hch)
    · -- the operator is completed first, by the tokens before this one
      have hstep : Tracks c ts (s.readOperation c left text span false) :=
        tracks_readOperation hd h.groups (.symbols hjoined)
      cases ho : s.readOperation c left text span false with
      | error e =>
        rw [ho] at hstep
        exact Blames.append hstep [t]
      | ok s' =>
        rw [ho] at hstep
        exact tracks_readPlain hstep (isPlain_of_readOperation ho) t

/-- Some tokens are at fault themselves, or lead to a state that decides about all that follows. -/
theorem blames_or_reached (c : Config) (hts : ∀ t ∈ ts, t.kind ≠ .endOfInput) :
    (∃ e, Blames c.maxDepth ts e ∧ ∀ us, outcome c (start 0) (ts ++ us) = .error e) ∨
      ∃ s, Reached ts s ∧ ∀ us, outcome c (start 0) (ts ++ us) = outcome c s us := by
  refine outcome_append_induction (P := Reached) (E := Blames c.maxDepth) ?_ ?_ hts []
    reached_start
  · intro us s t s' hs hstep
    have hread := tracks_read (c := c) hs t
    rwa [hstep] at hread
  · intro us s t e hs hstep rest
    have hread := tracks_read (c := c) hs t
    rw [hstep] at hread
    rw [List.append_cons]
    exact Blames.append hread rest

/-- At the end the last operator is completed, and nothing else can be at fault in the tokens. -/
theorem Reached.blames_of_readEnd {e : ParseError} (h : Reached ts s)
    (hs : s.readEnd c = .error e) (he : e.isAtEnd = false) : Blames c.maxDepth ts e := by
  rcases isPlain_or_symbols s with hplain | ⟨left, text, span, hexpect⟩
  · rw [hplain.readEnd_eq] at hs
    rw [isAtEnd_of_close hs] at he
    cases he
  · have hstep : Tracks c ts (s.readOperation c left text span false) :=
      tracks_readOperation (h.depth_lt (by simp [hexpect])) h.groups
        (.symbols (h.symbols left text span hexpect))
    simp only [readEnd, hexpect] at hs
    cases ho : s.readOperation c left text span false with
    | error fault =>
      rw [ho] at hs hstep
      cases hs
      exact hstep
    | ok s' =>
      rw [ho] at hs
      rw [isAtEnd_of_close hs] at he
      cases he

/-- An error is about the end, or about the tokens. -/
theorem blames_of_outcome {e : ParseError} (hts : ∀ t ∈ ts, t.kind ≠ .endOfInput)
    (h : outcome c (start 0) ts = .error e) (he : e.isAtEnd = false) : Blames c.maxDepth ts e := by
  rcases blames_or_reached c hts with ⟨e', he', hus⟩ | ⟨s, hs, hus⟩
  · have hnil := hus []
    rw [List.append_nil, h] at hnil
    cases hnil
    exact he'
  · have hnil := hus []
    rw [List.append_nil, h, outcome_nil] at hnil
    exact hs.blames_of_readEnd hnil.symm he

end ParseState

theorem blames_of_parse {f : String} {e : ParseError} (hlex : Lexes 0 f.toList ts)
    (h : Filter.parse c f = .error e) (he : e.isAtEnd = false) : Blames c.maxDepth ts e :=
  ParseState.blames_of_outcome (fun t ht => (hlex.lexical t ht).ne_endOfInput)
    (outcome_of_parse_eq_error hlex h).2 he

end FilterLang
