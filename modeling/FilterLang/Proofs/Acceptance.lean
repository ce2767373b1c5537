import FilterLang.Proofs.Reading

/-! The parser accepts just its grammar and builds the tree of the derivation:
`parse_eq_ok_some_iff`. Every phrase is read to the state that its tree leaves behind, whatever is
unfinished around it; and reading that succeeds has read a phrase first, which is shown for the four
places where one can start at once, by induction on how many tokens are left. -/

namespace FilterLang

open ParseState

/-- What reading a phrase comes to, whatever is unfinished around it. -/
def ReadsAs (c : Config) (p : Phrase) (n : Nat) (ts : List Token) (q : Filter)
    (rest : List Token) : Prop :=
  match p with
  | .chain => ∀ groups depth, depth + n ≤ c.maxDepth → ∃ depth',
      outcome c ⟨.field, [], groups, depth⟩ ts = outcome c ⟨.chain q, [], groups, depth'⟩ rest
  | .tails left => ∀ groups depth, depth + n ≤ c.maxDepth → ∃ depth',
      outcome c ⟨.chain left, [], groups, depth⟩ ts =
        outcome c ⟨.chain q, [], groups, depth'⟩ rest
  | .expression => ∀ frames groups depth, depth + n ≤ c.maxDepth →
      outcome c ⟨.field, frames, groups, depth⟩ ts =
        outcome c (finished groups q depth frames) rest
  | .primary => ∀ frames groups depth, depth + n ≤ c.maxDepth →
      outcome c ⟨.field, frames, groups, depth⟩ ts =
        outcome c ⟨.operator q, frames, groups, depth⟩ rest
  | .operand => ∀ r left frames groups depth, depth + n ≤ c.maxDepth →
      outcome c ⟨.value r left, frames, groups, depth⟩ ts =
        outcome c (finished groups (r.apply left q) depth frames) rest

variable {c : Config} {p : Phrase} {n : Nat} {ts rest : List Token} {q : Filter}

theorem Derives.readsAs (h : Derives c.numbers p n ts q rest) : ReadsAs c p n ts q rest := by
  induction h with
  | chain _ _ ih ih' =>
    intro groups depth hd
    obtain ⟨depth', htails⟩ := ih' groups depth hd
    exact ⟨depth', (ih [] groups depth hd).trans htails⟩
  | noTail => exact fun groups depth _ => ⟨depth, rfl⟩
  | connectionTail ho _ _ ih ih' =>
    intro groups depth hd
    obtain ⟨depth', htails⟩ := ih' groups (depth + 1) (by omega)
    refine ⟨depth', ?_⟩
    rw [outcome_chain_spelled ho, if_neg (by omega), afterOperator, if_neg (by omega),
      ih _ groups (depth + 1 + 1) (by omega)]
    exact htails
  | relationTail ho _ _ ih ih' =>
    intro groups depth hd
    obtain ⟨depth', htails⟩ := ih' groups (depth + 1) (by omega)
    refine ⟨depth', ?_⟩
    rw [outcome_chain_spelled ho, if_neg (by omega), afterOperator,
      ih _ _ _ groups (depth + 1) (by omega)]
    exact htails
  | negationTail ho _ ih =>
    intro groups depth hd
    obtain ⟨depth', htails⟩ := ih groups (depth + 1) (by omega)
    refine ⟨depth', ?_⟩
    rw [outcome_chain_spelled ho, if_neg (by omega)]
    exact htails
  | connection _ ho _ ih ih' =>
    intro frames groups depth hd
    rw [ih frames groups depth hd, outcome_operator_spelled ho, afterOperator,
      if_neg (by omega), ih' _ groups (depth + 1) (by omega)]
    rfl
  | relation _ ho _ ih ih' =>
    intro frames groups depth hd
    rw [ih frames groups depth hd, outcome_operator_spelled ho]
    exact ih' _ _ frames groups depth hd
  | negationAfter _ ho ih =>
    intro frames groups depth hd
    rw [ih frames groups depth hd, outcome_operator_spelled ho]
    rfl
  | alone _ hc ih =>
    intro frames groups depth hd
    rw [ih frames groups depth hd]
    exact outcome_operator_of_closes hc
  | group ht _ hu ih =>
    intro frames groups depth hd
    obtain ⟨depth', hchain⟩ := ih (⟨_, frames, depth⟩ :: groups) (depth + 1) (by omega)
    rw [outcome_field_open ht, if_neg (by omega), hchain]
    exact outcome_chain_closeParen hu
  | negation ho _ ih =>
    intro frames groups depth hd
    rw [outcome_field_negation ho, if_neg (by omega)]
    exact ih _ groups (depth + 1) (by omega)
  | field ht =>
    intro frames groups depth _
    exact outcome_field_leaf ht
  | list ht hts hu =>
    intro r left frames groups depth hd
    rw [List.cons_append, outcome_value_open ht, if_neg (by omega)]
    exact outcome_elements [] hts hu
  | negatedOperand ho _ ih =>
    intro r left frames groups depth hd
    rw [outcome_value_negation ho, if_neg (by omega)]
    exact ih _ groups (depth + 1) (by omega)
  | value ht =>
    intro r left frames groups depth _
    exact outcome_value_leaf ht

def FindsPrimary (c : Config) (ts : List Token) : Prop :=
  ∀ n frames groups depth Q, depth + n = c.maxDepth →
    outcome c ⟨.field, frames, groups, depth⟩ ts = .ok Q →
    ∃ q rest, Derives c.numbers .primary n ts q rest ∧
      outcome c ⟨.operator q, frames, groups, depth⟩ rest = .ok Q

def FindsExpression (c : Config) (ts : List Token) : Prop :=
  ∀ n frames groups depth Q, depth + n = c.maxDepth →
    outcome c ⟨.field, frames, groups, depth⟩ ts = .ok Q →
    ∃ q rest, Derives c.numbers .expression n ts q rest ∧
      outcome c (finished groups q depth frames) rest = .ok Q

def FindsOperand (c : Config) (ts : List Token) : Prop :=
  ∀ n r left frames groups depth Q, depth + n = c.maxDepth →
    outcome c ⟨.value r left, frames, groups, depth⟩ ts = .ok Q →
    ∃ q rest, Derives c.numbers .operand n ts q rest ∧
      outcome c (finished groups (r.apply left q) depth frames) rest = .ok Q

/-- After the tails a chain ends. -/
def FindsTails (c : Config) (ts : List Token) : Prop :=
  ∀ n left groups depth Q, depth + n = c.maxDepth →
    outcome c ⟨.chain left, [], groups, depth⟩ ts = .ok Q →
    ∃ q rest depth', Derives c.numbers (.tails left) n ts q rest ∧ Closes rest ∧
      outcome c ⟨.chain q, [], groups, depth'⟩ rest = .ok Q

theorem exists_level {depth n : Nat} (hn : depth + n = c.maxDepth) (h : ¬ c.maxDepth ≤ depth) :
    ∃ m, n = m + 1 ∧ depth + 1 + m = c.maxDepth := ⟨n - 1, by omega, by omega⟩

/-- What is known of fewer tokens while more are looked at. -/
def Shorter (P : Config → List Token → Prop) (c : Config) (ts : List Token) : Prop :=
  ∀ us, us <:+ ts → us.length < ts.length → P c us

theorem findsPrimary (hexpr : Shorter FindsExpression c ts) (htails : Shorter FindsTails c ts) :
    FindsPrimary c ts := by
  intro n frames groups depth Q hn hout
  obtain ⟨t, rest, rfl, ⟨q, ht⟩ | ht | ht⟩ := field_of_ok hout
  · exact ⟨q, rest, .field ht, by rwa [outcome_field_leaf ht] at hout⟩
  · rw [outcome_field_open ht] at hout
    split_ifs at hout with hd
    obtain ⟨m, rfl, hm⟩ := exists_level hn hd
    obtain ⟨left, mid, hleft, hout⟩ :=
      hexpr rest (List.suffix_cons _ _) (by simp) m _ _ _ _ hm hout
    have hmid : mid.length < (t :: rest).length :=
      Nat.lt_succ_of_le (Nat.le_of_add_right_le hleft.length_le)
    obtain ⟨q, rest', depth', hq, hclose, hout⟩ :=
      htails mid (hleft.suffix.trans (List.suffix_cons _ _)) hmid m _ _ _ _ hm hout
    cases rest' with
    | nil => cases hout
    | cons u rest' =>
      have hu : u.kind = .closeParen := closes_cons.mp hclose
      rw [outcome_chain_closeParen hu] at hout
      exact ⟨.group q, rest', .group ht (.chain hleft hq) hu, hout⟩
  · rw [outcome_field_negation ht] at hout
    split_ifs at hout with hd
    obtain ⟨m, rfl, hm⟩ := exists_level hn hd
    obtain ⟨q, rest', hq, hout⟩ := hexpr rest ht.suffix ht.length_lt m _ _ _ _ hm hout
    exact ⟨.negation q, rest', .negation ht hq, hout⟩

theorem findsExpression (hts : ∀ t ∈ ts, t.kind.Lexical) (hprimary : FindsPrimary c ts)
    (hexpr : Shorter FindsExpression c ts) (hoperand : Shorter FindsOperand c ts) :
    FindsExpression c ts := by
  intro n frames groups depth Q hn hout
  obtain ⟨left, mid, hleft, hout⟩ := hprimary n frames groups depth Q hn hout
  have hlex : ∀ t ∈ mid, t.kind.Lexical := fun t ht => hts t (hleft.suffix.subset ht)
  rcases closes_or_spelled_of_operator hlex hout with hclose | ⟨o, mid', ho⟩
  · rw [outcome_operator_of_closes hclose] at hout
    exact ⟨left, mid, .alone hleft hclose, hout⟩
  · have hsuffix : mid' <:+ ts := ho.suffix.trans hleft.suffix
    have hlt : mid'.length < ts.length :=
      Nat.lt_of_lt_of_le ho.length_lt (Nat.le_of_add_right_le hleft.length_le)
    rw [outcome_operator_spelled ho] at hout
    cases o with
    | connective op =>
      simp only [afterOperator] at hout
      split_ifs at hout with hd
      obtain ⟨m, rfl, hm⟩ := exists_level hn hd
      obtain ⟨right, rest, hright, hout⟩ := hexpr mid' hsuffix hlt m _ _ _ _ hm hout
      exact ⟨_, rest, .connection hleft ho hright, hout⟩
    | relation r =>
      obtain ⟨right, rest, hright, hout⟩ := hoperand mid' hsuffix hlt n _ _ _ _ _ _ hn hout
      exact ⟨_, rest, .relation hleft ho hright, hout⟩
    | negation => exact ⟨_, mid', .negationAfter hleft ho, hout⟩

theorem findsOperand (hexpr : Shorter FindsExpression c ts) : FindsOperand c ts := by
  intro n r left frames groups depth Q hn hout
  obtain ⟨t, rest, rfl, ⟨q, ht⟩ | ht | ht⟩ := value_of_ok hout
  · exact ⟨q, rest, .value ht, by rwa [outcome_value_leaf ht] at hout⟩
  · rw [outcome_value_open ht] at hout
    split_ifs at hout with hd
    obtain ⟨m, rfl, hm⟩ := exists_level hn hd
    obtain ⟨items, u, rest, rfl, hu, hitems⟩ := elements_of_ok hout
    rw [outcome_elements [] hitems hu] at hout
    exact ⟨_, rest, .list ht hitems hu, hout⟩
  · rw [outcome_value_negation ht] at hout
    split_ifs at hout with hd
    obtain ⟨m, rfl, hm⟩ := exists_level hn hd
    obtain ⟨q, rest', hq, hout⟩ := hexpr rest ht.suffix ht.length_lt m _ _ _ _ hm hout
    exact ⟨.negation q, rest', .negatedOperand ht hq, hout⟩

theorem findsTails (hts : ∀ t ∈ ts, t.kind.Lexical) (hexpr : Shorter FindsExpression c ts)
    (hoperand : Shorter FindsOperand c ts) (htails : Shorter FindsTails c ts) :
    FindsTails c ts := by
  intro n left groups depth Q hn hout
  rcases closes_or_spelled_of_chain hts hout with hclose | ⟨o, mid, ho⟩
  · exact ⟨left, ts, depth, .noTail, hclose, hout⟩
  · have hlt := ho.length_lt
    rw [outcome_chain_spelled ho] at hout
    split_ifs at hout with hd
    obtain ⟨m, rfl, hm⟩ := exists_level hn hd
    cases o with
    | connective op =>
      simp only [afterOperator] at hout
      split_ifs at hout with hd'
      obtain ⟨k, rfl, hk⟩ := exists_level hm hd'
      obtain ⟨right, mid', hright, hout⟩ := hexpr mid ho.suffix hlt k _ _ _ _ hk hout
      have hle := hright.length_le
      simp only [Phrase.least] at hle
      obtain ⟨q, rest, depth', hq, hclose, hout⟩ :=
        htails mid' (hright.suffix.trans ho.suffix) (by omega) (k + 1) _ _ _ _ hm hout
      exact ⟨q, rest, depth', .connectionTail ho hright hq, hclose, hout⟩
    | relation r =>
      obtain ⟨right, mid', hright, hout⟩ := hoperand mid ho.suffix hlt m _ _ _ _ _ _ hm hout
      have hle := hright.length_le
      simp only [Phrase.least] at hle
      obtain ⟨q, rest, depth', hq, hclose, hout⟩ :=
        htails mid' (hright.suffix.trans ho.suffix) (by omega) m _ _ _ _ hm hout
      exact ⟨q, rest, depth', .relationTail ho hright hq, hclose, hout⟩
    | negation =>
      obtain ⟨q, rest, depth', hq, hclose, hout⟩ :=
        htails mid ho.suffix hlt m _ _ _ _ hm hout
      exact ⟨q, rest, depth', .negationTail ho hq, hclose, hout⟩

theorem finds_all (c : Config) (ts : List Token) (hts : ∀ t ∈ ts, t.kind.Lexical) :
    FindsExpression c ts ∧ FindsOperand c ts ∧ FindsTails c ts := by
  induction hn : ts.length using Nat.strongRecOn generalizing ts with
  | ind n ih =>
  subst hn
  have hshort (us : List Token) (hus : us <:+ ts) (hlt : us.length < ts.length) :=
    ih us.length hlt us (fun t ht => hts t (hus.subset ht)) rfl
  have hexpr : Shorter FindsExpression c ts := fun us hus hlt => (hshort us hus hlt).1
  have hoperand : Shorter FindsOperand c ts := fun us hus hlt => (hshort us hus hlt).2.1
  have htails : Shorter FindsTails c ts := fun us hus hlt => (hshort us hus hlt).2.2
  exact ⟨findsExpression hts (findsPrimary hexpr htails) hexpr hoperand, findsOperand hexpr,
    findsTails hts hexpr hoperand htails⟩

theorem tails_of_outcome (hts : ∀ t ∈ ts, t.kind.Lexical) {left : Filter}
    (hout : outcome c ⟨.chain left, [], [], 0⟩ ts = .ok q) :
    Derives c.numbers (.tails left) c.maxDepth ts q [] := by
  obtain ⟨q', rest, depth, hq', hclose, hrest⟩ :=
    (finds_all c ts hts).2.2 c.maxDepth left [] 0 q (by omega) hout
  cases rest with
  | nil =>
    cases hrest
    exact hq'
  | cons t rest =>
    -- no group is open that a parenthesis could close
    have ht : t.kind = .closeParen := closes_cons.mp hclose
    rw [outcome_cons (by simp [ht])] at hrest
    simp only [ParseState.read, readPlain, readChain, ht, after_descend] at hrest
    split_ifs at hrest
    cases hrest

theorem outcome_start_eq_ok_iff (hts : ∀ t ∈ ts, t.kind.Lexical) :
    outcome c (start 0) ts = .ok q ↔ Derives c.numbers .chain c.maxDepth ts q [] := by
  constructor
  · intro hout
    obtain ⟨left, mid, hleft, hmid⟩ :=
      (finds_all c ts hts).1 c.maxDepth [] [] 0 q (by omega) hout
    exact .chain hleft (tails_of_outcome (fun t ht => hts t (hleft.suffix.subset ht)) hmid)
  · intro h
    obtain ⟨depth, hout⟩ := h.readsAs [] 0 (by omega)
    exact hout

/-- A chain that starts with a given expression goes on with its tails. -/
theorem Derives.tails_of_chain (hts : ∀ t ∈ ts, t.kind.Lexical) {left : Filter} {mid : List Token}
    (hleft : Derives c.numbers .expression c.maxDepth ts left mid)
    (h : Derives c.numbers .chain c.maxDepth ts q []) :
    Derives c.numbers (.tails left) c.maxDepth mid q [] := by
  have hout := (outcome_start_eq_ok_iff hts).mpr h
  rw [start, hleft.readsAs [] [] 0 (by omega)] at hout
  exact tails_of_outcome (fun t ht => hts t (hleft.suffix.subset ht)) hout

theorem next_ofTokens {e : Token} (hne : ts ≠ []) (hts : ∀ t ∈ ts, t.kind.Lexical)
    (he : e.kind = .endOfInput) :
    (Parser.ofTokens c (ts ++ [e])).next.1 = (outcome c (start 0) ts).map some := by
  obtain ⟨t, ts, rfl⟩ := List.exists_cons_of_ne_nil hne
  have ht := (hts t (by simp)).ne_endOfInput
  have hend := outcome_append_end (c := c) (s := start 0)
    (fun u hu => (hts u hu).ne_endOfInput) he
  rw [outcome] at hend
  have hat : (Parser.ofTokens c (t :: ts ++ [e])).atEnd = false := by
    simpa [Parser.atEnd, Parser.ofTokens] using ht
  rw [Parser.next, hat]
  simp only [Parser.ofTokens, Bool.false_eq_true, if_false]
  rw [hend]

/-- A text that splits into tokens is no filter if there are none, else what reading them gives. -/
theorem parse_of_lexes {text : String} (h : Lexes 0 text.toList ts) :
    Filter.parse c text =
      if ts = [] then .ok none else (outcome c (start 0) ts).map some := by
  rw [Filter.parse, Token.ofText_of_lexes h]
  by_cases hne : ts = []
  · subst hne
    rfl
  · rw [if_neg hne]
    exact next_ofTokens hne h.lexical rfl

theorem outcome_of_parse_eq_error {text : String} {e : ParseError} (hts : Lexes 0 text.toList ts)
    (h : Filter.parse c text = .error e) : ts ≠ [] ∧ outcome c (start 0) ts = .error e := by
  rw [parse_of_lexes hts] at h
  split_ifs at h with hne
  refine ⟨hne, ?_⟩
  cases hout : outcome c (start 0) ts with
  | ok q =>
    rw [hout] at h
    cases h
  | error e' =>
    rw [hout] at h
    cases h
    rfl

theorem exists_lexes_of_parse {text : String} {r : Option Filter}
    (h : Filter.parse c text = .ok r) : ∃ ts, Lexes 0 text.toList ts := by
  rcases lexes_or_leavesOpen 0 text.toList with hts | ⟨e, he⟩
  · exact hts
  · rw [Filter.parse, Token.ofText_of_leavesOpen he] at h
    cases h

theorem parse_eq_ok_none_iff {text : String} :
    Filter.parse c text = .ok none ↔ Lexes 0 text.toList [] := by
  constructor
  · intro h
    obtain ⟨ts, hts⟩ := exists_lexes_of_parse h
    rw [parse_of_lexes hts] at h
    split_ifs at h with hne
    · exact hne ▸ hts
    · cases hout : outcome c (start 0) ts <;> simp [hout, Except.map] at h
  · intro h
    rw [parse_of_lexes h, if_pos rfl]

/-- A text is read as a filter just if its tokens derive that filter within the levels there are. -/
theorem parse_eq_ok_some_iff {text : String} :
    Filter.parse c text = .ok (some q) ↔
      ∃ ts, Lexes 0 text.toList ts ∧ Derives c.numbers .chain c.maxDepth ts q [] := by
  constructor
  · intro h
    obtain ⟨ts, hts⟩ := exists_lexes_of_parse h
    rw [parse_of_lexes hts] at h
    split_ifs at h
    · cases h
    · cases hout : outcome c (start 0) ts with
      | error e =>
        rw [hout] at h
        cases h
      | ok q' =>
        rw [hout] at h
        cases h
        exact ⟨ts, hts, (outcome_start_eq_ok_iff hts.lexical).mp hout⟩
  · rintro ⟨ts, hts, hq⟩
    have hne : ts ≠ [] := by
      rintro rfl
      exact absurd hq.length_le (by simp [Phrase.least])
    rw [parse_of_lexes hts, if_neg hne, (outcome_start_eq_ok_iff hts.lexical).mpr hq]
    rfl

/-- The parser gives no filter just for a text without tokens, and a filter just for one whose
tokens are a chain of the grammar, with the tree of its only derivation. -/
theorem parse_iff_denotes {text : String} {toks : List Token}
    (hlex : Token.ofText text = .ok toks) (hdepth : toks.dropLast.length ≤ c.maxDepth) :
    (Filter.parse c text = .ok none ↔ toks.dropLast = []) ∧
    (∀ q, Filter.parse c text = .ok (some q) ↔ Denotes c.numbers toks.dropLast q) ∧
    ∀ q q', Denotes c.numbers toks.dropLast q → Denotes c.numbers toks.dropLast q' → q = q' := by
  obtain ⟨ts, hts, rfl⟩ := Token.ofText_eq_ok_iff.mp hlex
  rw [List.dropLast_concat] at hdepth ⊢
  have hsome (q : Filter) :
      Filter.parse c text = .ok (some q) ↔ Denotes c.numbers ts q := by
    rw [parse_eq_ok_some_iff]
    constructor
    · rintro ⟨us, hus, hq⟩
      exact ⟨c.maxDepth, hts.unique hus ▸ hq⟩
    · rintro ⟨n, hq⟩
      exact ⟨ts, hts, hq.of_length_le (by simp only [List.length_nil]; omega)⟩
  refine ⟨?_, hsome, fun q q' hq hq' => ?_⟩
  · rw [parse_eq_ok_none_iff]
    exact ⟨fun h => hts.unique h, fun h => h ▸ hts⟩
  · have h := (hsome q).mpr hq
    rw [(hsome q').mpr hq'] at h
    simpa using h.symm

/-- In a list `NOT` is a value, after it an operator. -/
theorem parse_iff_denotes_negated_membership :
    let q : Filter := .negation (.membership (.name "a") [.values ["NOT"]])
    ∃ toks, Token.ofText "a IN (NOT,,) NOT" = .ok toks ∧
      toks.dropLast.length ≤ ({} : Config).maxDepth ∧
      Filter.parse {} "a IN (NOT,,) NOT" = .ok (some q) ∧ Denotes .verbatim toks.dropLast q := by
  intro q
  have hlex : Token.ofText "a IN (NOT,,) NOT" =
      .ok ((Scanner.ofText "a IN (NOT,,) NOT").tokens.push ⟨.endOfInput, 16, 16⟩).toList := by rfl
  have hparse : Filter.parse {} "a IN (NOT,,) NOT" = .ok (some q) := by rfl
  exact ⟨_, hlex, by decide, hparse, ((parse_iff_denotes hlex (by decide)).2.1 q).mp hparse⟩

end FilterLang
