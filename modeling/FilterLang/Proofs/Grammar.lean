import FilterLang.Filter.ParseState
import FilterLang.Proofs.Lexing

/-! The grammar of filters over token lists, with the tree that each phrase stands for and the
levels that it nests. A phrase is read from the front of some tokens and leaves a rest. A chain is an
expression and any number of tails, folded to the left; an expression is a primary with at most one
operator after it. Levels matter to the depth limit only: no phrase needs more of them than it
has tokens. -/

namespace FilterLang

/-- The node of a relation between a field and its right operand. -/
def Relation.apply : Relation → Filter → Filter → Filter
  | comparison op, left, right => .comparison op left right
  | membership, left, right => .membership left [right]

/-- Whether an operator is spelled in symbols; the others are words. -/
def Operator.isSymbolic : Operator → Bool
  | relation (.comparison op) => op != .like
  | _ => false

/-- `u` is a symbol that starts where `t` ends. -/
def Token.Touches (t u : Token) : Prop := (∃ c, u.kind = .symbol c) ∧ u.span.start = t.span.stop

/-- Some first tokens are symbols that touch, and no more of them could be taken. -/
inductive SymbolRun : List Char → List Token → List Token → Prop
  | last {t c rest} : t.kind = .symbol c → (∀ u ∈ rest.head?, ¬ t.Touches u) →
      SymbolRun [c] (t :: rest) rest
  | cons {t u c cs ts rest} : t.kind = .symbol c → t.Touches u → SymbolRun cs (u :: ts) rest →
      SymbolRun (c :: cs) (t :: u :: ts) rest

/-- Some first tokens spell the operator: one word, or all the symbols that touch. -/
inductive Spelled (o : Operator) : List Token → List Token → Prop
  | word {t rest} : o.isSymbolic = false → t.kind = .word o.spelling → Spelled o (t :: rest) rest
  | symbols {cs ts rest} : o.isSymbolic = true → String.ofList cs = o.spelling →
      SymbolRun cs ts rest → Spelled o ts rest

theorem Operator.isSymbolic_eq_false {o : Operator}
    (h : ∀ ch ∈ o.spelling.toList, isWordChar ch = true) : o.isSymbolic = false := by
  have all : ∀ o ∈ Operator.all, o.spelling.toList.all isWordChar = true →
      o.isSymbolic = false := by decide
  exact all o (Operator.mem_all o) (List.all_eq_true.mpr h)

theorem Operator.isSymbolic_eq_true {o : Operator}
    (h : ∀ ch ∈ o.spelling.toList, isWordChar ch = false) : o.isSymbolic = true := by
  have all : ∀ o ∈ Operator.all, o.spelling.toList.all (!isWordChar ·) = true →
      o.isSymbolic = true := by decide
  exact all o (Operator.mem_all o) (List.all_eq_true.mpr (by simpa using h))

namespace TokenKind

/-- The text of a token as a value of a list, where every word is a value. -/
def element? (numbers : NumberText) : TokenKind → Option String
  | word text | quoted _ text => some text
  | number text x => some (numbers.write text x)
  | _ => none

/-- The leaf that a token is where texts make leaves in this way. A number is a value anywhere. -/
def leaf? (numbers : NumberText) (make : String → Filter) : TokenKind → Option Filter
  | word text => if text = Operator.negation.spelling then none else some (make text)
  | quoted _ text => some (make text)
  | number text x => some (.value (numbers.write text x))
  | _ => none

/-- The leaf that a token is in the place of a field. -/
def field? (numbers : NumberText) (k : TokenKind) : Option Filter := k.leaf? numbers .name

/-- The leaf that a token is in the place of a value. -/
def value? (numbers : NumberText) (k : TokenKind) : Option Filter := k.leaf? numbers .value

/-- Whether the token may come first in the place of a field or a value. -/
def comesFirst : TokenKind → Bool
  | word _ | quoted _ _ | number _ _ | openParen => true
  | _ => false

end TokenKind

/-- A closing parenthesis or the end comes next. -/
def Closes (ts : List Token) : Prop := ∀ t ∈ ts.head?, t.kind = .closeParen

inductive Phrase
  | chain
  /-- What follows the tree of a chain that is complete so far. -/
  | tails (left : Filter)
  | expression
  /-- What stands in the place of a field. -/
  | primary
  /-- What stands in the place of a value. -/
  | operand

/-- The first of some tokens are the phrase, with its tree and the levels it nests at most. -/
inductive Derives (numbers : NumberText) :
    Phrase → Nat → List Token → Filter → List Token → Prop
  | chain {n ts mid rest left q} : Derives numbers .expression n ts left mid →
      Derives numbers (.tails left) n mid q rest → Derives numbers .chain n ts q rest
  | noTail {n ts q} : Derives numbers (.tails q) n ts q ts
  | connectionTail {n op ts mid mid' rest left right q} : Spelled (.connective op) ts mid →
      Derives numbers .expression n mid right mid' →
      Derives numbers (.tails (.connection op left right)) (n + 1) mid' q rest →
      Derives numbers (.tails left) (n + 2) ts q rest
  | relationTail {n r ts mid mid' rest left right q} : Spelled (.relation r) ts mid →
      Derives numbers .operand n mid right mid' →
      Derives numbers (.tails (r.apply left right)) n mid' q rest →
      Derives numbers (.tails left) (n + 1) ts q rest
  | negationTail {n ts mid rest left q} : Spelled .negation ts mid →
      Derives numbers (.tails (.negation left)) n mid q rest →
      Derives numbers (.tails left) (n + 1) ts q rest
  | connection {n op ts mid mid' rest left right} :
      Derives numbers .primary (n + 1) ts left mid → Spelled (.connective op) mid mid' →
      Derives numbers .expression n mid' right rest →
      Derives numbers .expression (n + 1) ts (.connection op left right) rest
  | relation {n r ts mid mid' rest left right} :
      Derives numbers .primary n ts left mid → Spelled (.relation r) mid mid' →
      Derives numbers .operand n mid' right rest →
      Derives numbers .expression n ts (r.apply left right) rest
  | negationAfter {n ts mid rest q} : Derives numbers .primary n ts q mid →
      Spelled .negation mid rest → Derives numbers .expression n ts (.negation q) rest
  | alone {n ts rest q} : Derives numbers .primary n ts q rest → Closes rest →
      Derives numbers .expression n ts q rest
  | group {n t u ts rest q} : t.kind = .openParen → Derives numbers .chain n ts q (u :: rest) →
      u.kind = .closeParen → Derives numbers .primary (n + 1) (t :: ts) (.group q) rest
  | negation {n ts mid rest q} : Spelled .negation ts mid →
      Derives numbers .expression n mid q rest →
      Derives numbers .primary (n + 1) ts (.negation q) rest
  | field {n t rest q} : t.kind.field? numbers = some q →
      Derives numbers .primary n (t :: rest) q rest
  | list {n t u ts rest} : t.kind = .openParen →
      (∀ e ∈ ts, e.kind = .comma ∨ (e.kind.element? numbers).isSome) → u.kind = .closeParen →
      Derives numbers .operand (n + 1) (t :: ts ++ u :: rest)
        (.values (ts.filterMap (·.kind.element? numbers))) rest
  | negatedOperand {n ts mid rest q} : Spelled .negation ts mid →
      Derives numbers .expression n mid q rest →
      Derives numbers .operand (n + 1) ts (.negation q) rest
  | value {n t rest q} : t.kind.value? numbers = some q →
      Derives numbers .operand n (t :: rest) q rest

/-- The first of some tokens are the phrase, however deep it nests. -/
def Derivable (numbers : NumberText) (p : Phrase) (ts : List Token) (q : Filter)
    (rest : List Token) : Prop := ∃ n, Derives numbers p n ts q rest

/-- The whole of some tokens is a filter with this tree. -/
def Denotes (numbers : NumberText) (ts : List Token) (q : Filter) : Prop :=
  Derivable numbers .chain ts q []

theorem SymbolRun.length_lt {cs : List Char} {ts rest : List Token} (h : SymbolRun cs ts rest) :
    rest.length < ts.length := by
  induction h with
  | last => simp
  | cons _ _ _ ih => exact Nat.lt_succ_of_lt ih

theorem SymbolRun.exists_cons {cs : List Char} {ts rest : List Token}
    (h : SymbolRun cs ts rest) :
    ∃ t ts' ch cs', ts = t :: ts' ∧ cs = ch :: cs' ∧ t.kind = .symbol ch := by
  cases h with
  | last ht => exact ⟨_, _, _, _, rfl, rfl, ht⟩
  | cons ht => exact ⟨_, _, _, _, rfl, rfl, ht⟩

theorem Spelled.length_lt {o : Operator} {ts rest : List Token} (h : Spelled o ts rest) :
    rest.length < ts.length := by
  cases h with
  | word => simp
  | symbols _ _ h => exact h.length_lt

theorem SymbolRun.suffix {cs : List Char} {ts rest : List Token} (h : SymbolRun cs ts rest) :
    rest <:+ ts := by
  induction h with
  | last => exact List.suffix_cons _ _
  | cons _ _ _ ih => exact ih.trans (List.suffix_cons _ _)

theorem Spelled.suffix {o : Operator} {ts rest : List Token} (h : Spelled o ts rest) :
    rest <:+ ts := by
  cases h with
  | word => exact List.suffix_cons _ _
  | symbols _ _ h => exact h.suffix

theorem SymbolRun.exists_of_symbol {t : Token} {ch : Char} (ht : t.kind = .symbol ch)
    (ts : List Token) : ∃ cs rest, SymbolRun cs (t :: ts) rest := by
  induction ts generalizing t ch with
  | nil => exact ⟨_, _, .last ht (by simp)⟩
  | cons u ts ih =>
    by_cases htu : t.Touches u
    · obtain ⟨ch', hu⟩ := htu.1
      obtain ⟨cs, rest, hrun⟩ := ih hu
      exact ⟨_, _, .cons ht htu hrun⟩
    · exact ⟨_, _, .last ht (by simpa using htu)⟩

theorem SymbolRun.not_isWordChar {cs : List Char} {ts rest : List Token}
    (h : SymbolRun cs ts rest) (hts : ∀ u ∈ ts, u.kind.Lexical) :
    ∀ ch ∈ cs, isWordChar ch = false := by
  induction h with
  | @last t ch rest ht =>
    have hch := hts t (by simp)
    rw [ht] at hch
    exact List.forall_mem_singleton.mpr hch
  | @cons t u ch cs ts rest ht _ _ ih =>
    have hch := hts t (by simp)
    rw [ht] at hch
    exact List.forall_mem_cons.mpr ⟨hch, ih fun v hv => hts v (by simp [hv])⟩

theorem Spelled.of_word {o : Operator} {t : Token} {ts : List Token} {text : String}
    (hts : ∀ u ∈ t :: ts, u.kind.Lexical) (ht : t.kind = .word text)
    (ho : Operator.lookup text = some o) : Spelled o (t :: ts) ts := by
  have htext := Operator.lookup_eq_some_iff.mp ho
  have hword := hts t (by simp)
  rw [ht, htext] at hword
  exact .word (Operator.isSymbolic_eq_false hword) (htext ▸ ht)

theorem Spelled.of_symbolRun {o : Operator} {cs : List Char} {ts rest : List Token}
    (hts : ∀ u ∈ ts, u.kind.Lexical) (h : SymbolRun cs ts rest)
    (ho : Operator.lookup (String.ofList cs) = some o) : Spelled o ts rest := by
  have hcs := Operator.lookup_eq_some_iff.mp ho
  refine .symbols (Operator.isSymbolic_eq_true ?_) hcs h
  rw [← hcs]
  simpa using h.not_isWordChar hts

theorem leaf_or_of_comesFirst {numbers : NumberText} {t : Token} (make : String → Filter)
    (ht : t.kind.comesFirst = true) (rest : List Token) :
    (∃ q, t.kind.leaf? numbers make = some q) ∨ t.kind = .openParen ∨
      Spelled .negation (t :: rest) rest := by
  obtain ⟨kind, span⟩ := t
  cases kind with
  | word text =>
    by_cases htext : text = Operator.negation.spelling
    · exact .inr (.inr (.word rfl (htext ▸ rfl)))
    · exact .inl ⟨_, if_neg htext⟩
  | quoted d text => exact .inl ⟨_, rfl⟩
  | number text x => exact .inl ⟨_, rfl⟩
  | openParen => exact .inr (.inl rfl)
  | closeParen | comma | symbol | endOfInput => cases ht

theorem Token.touches_later {t u : Token} {d : Nat} :
    (t.later d).Touches (u.later d) ↔ t.Touches u := by
  simp [Token.Touches, Token.later, Span.later]

theorem SymbolRun.later {cs : List Char} {ts rest : List Token} (h : SymbolRun cs ts rest)
    (d : Nat) : SymbolRun cs (ts.map (·.later d)) (rest.map (·.later d)) := by
  induction h with
  | last ht hrest =>
    refine .last ht fun u hu => ?_
    rw [List.head?_map, Option.mem_def, Option.map_eq_some_iff] at hu
    obtain ⟨v, hv, rfl⟩ := hu
    exact fun h => hrest v hv (Token.touches_later.mp h)
  | cons ht htu _ ih => exact .cons ht (Token.touches_later.mpr htu) ih

theorem Spelled.later {o : Operator} {ts rest : List Token} (h : Spelled o ts rest) (d : Nat) :
    Spelled o (ts.map (·.later d)) (rest.map (·.later d)) := by
  cases h with
  | word ho ht => exact .word ho ht
  | symbols ho hcs h => exact .symbols ho hcs (h.later d)

theorem closes_nil : Closes [] := by simp [Closes]

theorem closes_cons {t : Token} {ts : List Token} :
    Closes (t :: ts) ↔ t.kind = .closeParen := by simp [Closes]

theorem Closes.later {ts : List Token} (h : Closes ts) (d : Nat) :
    Closes (ts.map (·.later d)) := by
  cases ts with
  | nil => exact closes_nil
  | cons t ts =>
    have ht : t.kind = .closeParen := closes_cons.mp h
    exact closes_cons.mpr ht

theorem Closes.append {ts more : List Token} (h : Closes ts) (hmore : Closes more) :
    Closes (ts ++ more) := by
  cases ts with
  | nil => exact hmore
  | cons t ts => exact closes_cons.mpr (closes_cons.mp h)

theorem Closes.not_touches {t : Token} {ts : List Token} (h : Closes ts) :
    ∀ u ∈ ts.head?, ¬ t.Touches u := by
  rintro u hu ⟨⟨c, hc⟩, -⟩
  rw [h u hu] at hc
  cases hc

theorem SymbolRun.extend {cs : List Char} {ts rest more : List Token} (h : SymbolRun cs ts rest)
    (hmore : Closes more) : SymbolRun cs (ts ++ more) (rest ++ more) := by
  induction h with
  | @last t c rest ht hrest =>
    refine .last ht ?_
    cases rest with
    | nil => exact hmore.not_touches
    | cons u rest => simpa using hrest
  | cons ht htu _ ih => exact .cons ht htu ih

theorem Spelled.extend {o : Operator} {ts rest more : List Token} (h : Spelled o ts rest)
    (hmore : Closes more) : Spelled o (ts ++ more) (rest ++ more) := by
  cases h with
  | word ho ht => exact .word ho ht
  | symbols ho hcs h => exact .symbols ho hcs (h.extend hmore)

/-- How many more tokens than levels a phrase has. Only the list of tails can be empty. -/
def Phrase.least : Phrase → Nat
  | tails _ => 0
  | _ => 1

namespace Derives

variable {numbers : NumberText} {p : Phrase} {n : Nat} {ts rest : List Token} {q : Filter}

theorem length_le (h : Derives numbers p n ts q rest) :
    rest.length + p.least ≤ ts.length := by
  induction h with
  | chain _ _ ih ih' => simp only [Phrase.least] at *; omega
  | noTail => simp [Phrase.least]
  | connectionTail ho _ _ ih ih' => have := ho.length_lt; simp only [Phrase.least] at *; omega
  | relationTail ho _ _ ih ih' => have := ho.length_lt; simp only [Phrase.least] at *; omega
  | negationTail ho _ ih => have := ho.length_lt; simp only [Phrase.least] at *; omega
  | connection _ ho _ ih ih' => have := ho.length_lt; simp only [Phrase.least] at *; omega
  | relation _ ho _ ih ih' => have := ho.length_lt; simp only [Phrase.least] at *; omega
  | negationAfter _ ho ih => have := ho.length_lt; simp only [Phrase.least] at *; omega
  | alone _ _ ih => exact ih
  | group _ _ _ ih => simp only [Phrase.least, List.length_cons] at *; omega
  | negation ho _ ih => have := ho.length_lt; simp only [Phrase.least] at *; omega
  | field => simp [Phrase.least]
  | list => simp only [Phrase.least, List.length_cons, List.length_append]; omega
  | negatedOperand ho _ ih => have := ho.length_lt; simp only [Phrase.least] at *; omega
  | value => simp [Phrase.least]

theorem suffix (h : Derives numbers p n ts q rest) : rest <:+ ts := by
  induction h with
  | chain _ _ ih ih' => exact ih'.trans ih
  | noTail => exact List.suffix_refl _
  | connectionTail ho _ _ ih ih' => exact (ih'.trans ih).trans ho.suffix
  | relationTail ho _ _ ih ih' => exact (ih'.trans ih).trans ho.suffix
  | negationTail ho _ ih => exact ih.trans ho.suffix
  | connection _ ho _ ih ih' => exact (ih'.trans ho.suffix).trans ih
  | relation _ ho _ ih ih' => exact (ih'.trans ho.suffix).trans ih
  | negationAfter _ ho ih => exact ho.suffix.trans ih
  | alone _ _ ih => exact ih
  | group _ _ _ ih => exact ((List.suffix_cons _ _).trans ih).trans (List.suffix_cons _ _)
  | negation ho _ ih => exact ih.trans ho.suffix
  | field => exact List.suffix_cons _ _
  | list => exact (List.suffix_cons _ _).trans (List.suffix_append _ _)
  | negatedOperand ho _ ih => exact ih.trans ho.suffix
  | value => exact List.suffix_cons _ _

/-- Levels are enough if they were before, or if there are as many as tokens. -/
theorem of_levels (h : Derives numbers p n ts q rest) {m : Nat}
    (hm : n ≤ m ∨ ts.length ≤ rest.length + m + p.least) : Derives numbers p m ts q rest := by
  induction h generalizing m with
  | chain h h' ih ih' =>
    have := h.length_le
    have := h'.length_le
    simp only [Phrase.least] at *
    exact .chain (ih (by omega)) (ih' (by omega))
  | noTail => exact .noTail
  | connectionTail ho h h' ih ih' =>
    have := ho.length_lt
    have := h.length_le
    have := h'.length_le
    simp only [Phrase.least] at *
    obtain ⟨m, rfl⟩ : ∃ k, m = k + 2 := ⟨m - 2, by omega⟩
    exact .connectionTail ho (ih (by omega)) (ih' (by omega))
  | relationTail ho h h' ih ih' =>
    have := ho.length_lt
    have := h.length_le
    have := h'.length_le
    simp only [Phrase.least] at *
    obtain ⟨m, rfl⟩ : ∃ k, m = k + 1 := ⟨m - 1, by omega⟩
    exact .relationTail ho (ih (by omega)) (ih' (by omega))
  | negationTail ho h ih =>
    have := ho.length_lt
    have := h.length_le
    simp only [Phrase.least] at *
    obtain ⟨m, rfl⟩ : ∃ k, m = k + 1 := ⟨m - 1, by omega⟩
    exact .negationTail ho (ih (by omega))
  | connection h ho h' ih ih' =>
    have := ho.length_lt
    have := h.length_le
    have := h'.length_le
    simp only [Phrase.least] at *
    obtain ⟨m, rfl⟩ : ∃ k, m = k + 1 := ⟨m - 1, by omega⟩
    exact .connection (ih (by omega)) ho (ih' (by omega))
  | relation h ho h' ih ih' =>
    have := ho.length_lt
    have := h.length_le
    have := h'.length_le
    simp only [Phrase.least] at *
    exact .relation (ih (by omega)) ho (ih' (by omega))
  | negationAfter h ho ih =>
    have := ho.length_lt
    simp only [Phrase.least] at *
    exact .negationAfter (ih (by omega)) ho
  | alone h hc ih => exact .alone (ih hm) hc
  | group ht h hu ih =>
    have := h.length_le
    simp only [Phrase.least, List.length_cons] at *
    obtain ⟨m, rfl⟩ : ∃ k, m = k + 1 := ⟨m - 1, by omega⟩
    exact .group ht (ih (by omega)) hu
  | negation ho h ih =>
    have := ho.length_lt
    have := h.length_le
    simp only [Phrase.least] at *
    obtain ⟨m, rfl⟩ : ∃ k, m = k + 1 := ⟨m - 1, by omega⟩
    exact .negation ho (ih (by omega))
  | field ht => exact .field ht
  | list ht hts hu =>
    simp only [Phrase.least, List.length_cons, List.length_append] at hm
    obtain ⟨m, rfl⟩ : ∃ k, m = k + 1 := ⟨m - 1, by omega⟩
    exact .list ht hts hu
  | negatedOperand ho h ih =>
    have := ho.length_lt
    have := h.length_le
    simp only [Phrase.least] at *
    obtain ⟨m, rfl⟩ : ∃ k, m = k + 1 := ⟨m - 1, by omega⟩
    exact .negatedOperand ho (ih (by omega))
  | value ht => exact .value ht

/-- More levels do no harm. -/
theorem mono (h : Derives numbers p n ts q rest) {m : Nat} (hnm : n ≤ m) :
    Derives numbers p m ts q rest := h.of_levels (.inl hnm)

/-- A phrase needs no more levels than it has tokens. -/
theorem of_length_le (h : Derives numbers p n ts q rest) {m : Nat}
    (hm : ts.length ≤ rest.length + m + p.least) : Derives numbers p m ts q rest :=
  h.of_levels (.inr hm)

theorem later (h : Derives numbers p n ts q rest) (d : Nat) :
    Derives numbers p n (ts.map (·.later d)) q (rest.map (·.later d)) := by
  induction h with
  | chain _ _ ih ih' => exact .chain ih ih'
  | noTail => exact .noTail
  | connectionTail ho _ _ ih ih' => exact .connectionTail (ho.later d) ih ih'
  | relationTail ho _ _ ih ih' => exact .relationTail (ho.later d) ih ih'
  | negationTail ho _ ih => exact .negationTail (ho.later d) ih
  | connection _ ho _ ih ih' => exact .connection ih (ho.later d) ih'
  | relation _ ho _ ih ih' => exact .relation ih (ho.later d) ih'
  | negationAfter _ ho ih => exact .negationAfter ih (ho.later d)
  | alone _ hc ih => exact .alone ih (hc.later d)
  | group ht _ hu ih => exact .group ht ih hu
  | negation ho _ ih => exact .negation (ho.later d) ih
  | field ht => exact .field ht
  | @list n t u ts rest ht hts hu =>
    have hlist : Derives numbers .operand (n + 1)
        (t.later d :: ts.map (·.later d) ++ u.later d :: rest.map (·.later d))
        (.values ((ts.map (·.later d)).filterMap (·.kind.element? numbers)))
        (rest.map (·.later d)) :=
      .list ht (by simpa [Token.later] using hts) hu
    have hmap : (ts.map (·.later d)).filterMap (·.kind.element? numbers) =
        ts.filterMap (·.kind.element? numbers) := by
      rw [List.filterMap_map]
      rfl
    rw [hmap] at hlist
    simpa using hlist
  | negatedOperand ho _ ih => exact .negatedOperand (ho.later d) ih
  | value ht => exact .value ht

/-- A phrase at the end stays one before a closing parenthesis. -/
theorem extend (h : Derives numbers p n ts q rest) {more : List Token} (hmore : Closes more) :
    Derives numbers p n (ts ++ more) q (rest ++ more) := by
  induction h with
  | chain _ _ ih ih' => exact .chain ih ih'
  | noTail => exact .noTail
  | connectionTail ho _ _ ih ih' => exact .connectionTail (ho.extend hmore) ih ih'
  | relationTail ho _ _ ih ih' => exact .relationTail (ho.extend hmore) ih ih'
  | negationTail ho _ ih => exact .negationTail (ho.extend hmore) ih
  | connection _ ho _ ih ih' => exact .connection ih (ho.extend hmore) ih'
  | relation _ ho _ ih ih' => exact .relation ih (ho.extend hmore) ih'
  | negationAfter _ ho ih => exact .negationAfter ih (ho.extend hmore)
  | alone _ hc ih => exact .alone ih (hc.append hmore)
  | group ht _ hu ih => exact .group ht ih hu
  | negation ho _ ih => exact .negation (ho.extend hmore) ih
  | field ht => exact .field ht
  | list ht hts hu =>
    rw [List.append_assoc]
    exact .list ht hts hu
  | negatedOperand ho _ ih => exact .negatedOperand (ho.extend hmore) ih
  | value ht => exact .value ht

/-- Tails after tails go on with the chain. -/
theorem append_tails {left q' : Filter} {rest' : List Token} {m : Nat}
    (h : Derives numbers (.tails left) n ts q rest)
    (h' : Derives numbers (.tails q) m rest q' rest') :
    Derives numbers (.tails left) (n + m) ts q' rest' := by
  generalize hp : Phrase.tails left = p at h
  induction h generalizing left with
  | noTail =>
    cases hp
    exact h'.mono (Nat.le_add_left _ _)
  | connectionTail ho hright _ _ ih =>
    cases hp
    have hq := ih h' rfl
    rw [Nat.add_right_comm] at hq ⊢
    exact .connectionTail ho (hright.mono (Nat.le_add_right _ _)) hq
  | relationTail ho hright _ _ ih =>
    cases hp
    rw [Nat.add_right_comm]
    exact .relationTail ho (hright.mono (Nat.le_add_right _ _)) (ih h' rfl)
  | negationTail ho _ ih =>
    cases hp
    rw [Nat.add_right_comm]
    exact .negationTail ho (ih h' rfl)
  | _ => cases hp

end Derives

namespace Derivable

variable {numbers : NumberText} {ts mid mid' rest : List Token} {left right q : Filter}

theorem chain (h : Derivable numbers .expression ts left mid)
    (h' : Derivable numbers (.tails left) mid q rest) : Derivable numbers .chain ts q rest := by
  obtain ⟨n, h⟩ := h
  obtain ⟨m, h'⟩ := h'
  exact ⟨n + m, .chain (h.mono (by omega)) (h'.mono (by omega))⟩

theorem noTail : Derivable numbers (.tails q) ts q ts := ⟨0, .noTail⟩

theorem chain_tails (h : Derivable numbers .chain ts left mid)
    (h' : Derivable numbers (.tails left) mid q rest) : Derivable numbers .chain ts q rest := by
  obtain ⟨n, h⟩ := h
  obtain ⟨m, h'⟩ := h'
  cases h with
  | chain hexpr htails =>
    exact ⟨n + m, .chain (hexpr.mono (by omega)) (htails.append_tails h')⟩

theorem connectionTail {op : Connective} (ho : Spelled (.connective op) ts mid)
    (h : Derivable numbers .expression mid right rest) :
    Derivable numbers (.tails left) ts (.connection op left right) rest := by
  obtain ⟨n, h⟩ := h
  exact ⟨n + 2, .connectionTail ho h .noTail⟩

theorem connection {op : Connective} (h : Derivable numbers .primary ts left mid)
    (ho : Spelled (.connective op) mid mid') (h' : Derivable numbers .expression mid' right rest) :
    Derivable numbers .expression ts (.connection op left right) rest := by
  obtain ⟨n, h⟩ := h
  obtain ⟨m, h'⟩ := h'
  exact ⟨n + m + 1, .connection (h.mono (by omega)) ho (h'.mono (by omega))⟩

theorem relation {r : Relation} (h : Derivable numbers .primary ts left mid)
    (ho : Spelled (.relation r) mid mid') (h' : Derivable numbers .operand mid' right rest) :
    Derivable numbers .expression ts (r.apply left right) rest := by
  obtain ⟨n, h⟩ := h
  obtain ⟨m, h'⟩ := h'
  exact ⟨n + m, .relation (h.mono (by omega)) ho (h'.mono (by omega))⟩

theorem alone (h : Derivable numbers .primary ts q rest) (hrest : Closes rest) :
    Derivable numbers .expression ts q rest := by
  obtain ⟨n, h⟩ := h
  exact ⟨n, .alone h hrest⟩

theorem group {t u : Token} (ht : t.kind = .openParen)
    (h : Derivable numbers .chain ts q (u :: rest)) (hu : u.kind = .closeParen) :
    Derivable numbers .primary (t :: ts) (.group q) rest := by
  obtain ⟨n, h⟩ := h
  exact ⟨n + 1, .group ht h hu⟩

theorem negation (ho : Spelled .negation ts mid) (h : Derivable numbers .expression mid q rest) :
    Derivable numbers .primary ts (.negation q) rest := by
  obtain ⟨n, h⟩ := h
  exact ⟨n + 1, .negation ho h⟩

end Derivable

end FilterLang
