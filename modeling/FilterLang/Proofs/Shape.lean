import FilterLang.Proofs.Acceptance
import FilterLang.Proofs.Lexemes

/-! What trees the parser builds when numbers are kept as they are written: `grammatical_of_parse`.
Every text comes from one token, so it can be written again; a value stands in the place of a field
only if it is a number; and right of a relation stands a value, a list or a negation. -/

namespace FilterLang

theorem LexesAsNumber.isWordChar {text : String} (h : LexesAsNumber text) :
    ∀ c ∈ text.toList, isWordChar c = true := by
  obtain ⟨x, hx⟩ := h
  generalize hcs : text.toList = cs at hx
  generalize hts : [(⟨.number text x, 0, utf8Length cs⟩ : Token)] = ts at hx
  cases hx with
  | nil => cases hts
  | @blank _ c cs _ _ hrest =>
    subst hts
    have hpos := c.utf8Size_pos
    have := (hrest.bounds _ (List.mem_singleton_self _)).1
    simp only at this
    omega
  | single =>
    simp only [List.cons.injEq, Token.mk.injEq, TokenKind.ofSingle] at hts
    split_ifs at hts <;> simp at hts
  | @word _ w cs _ hne hword =>
    simp only [List.cons.injEq, Token.mk.injEq] at hts
    have hkind : TokenKind.ofWord (String.ofList w) = .number text x := hts.1.1.symm
    have htext : text = String.ofList w := by
      unfold TokenKind.ofWord at hkind
      split at hkind <;> simp at hkind
      exact hkind.1.symm
    have hw : text.toList = w := by rw [htext, String.toList_ofList]
    rw [← hcs, hw]
    exact hword
  | quoted => simp at hts

theorem LexesAsNumber.isSome_numberValue? {text : String} (h : LexesAsNumber text) :
    (numberValue? text).isSome = true := by
  obtain ⟨x, hx⟩ := h
  have hvalue : numberValue? text = some x := hx.lexical _ (List.mem_singleton_self _)
  simp [hvalue]

theorem ne_empty_of_isSome_numberValue? {text : String} (h : (numberValue? text).isSome = true) :
    text ≠ "" := by
  rintro rfl
  rw [numberValue?_eq_none rfl] at h
  cases h

theorem lexes_number {text : String} {x : Binary} (hword : ∀ c ∈ text.toList, isWordChar c = true)
    (hvalue : numberValue? text = some x) :
    Lexes 0 text.toList [⟨.number text x, 0, utf8Length text.toList⟩] := by
  have hlex := lexes_ofWord (ne_empty_of_isSome_numberValue? (by simp [hvalue])) hword 0
  rwa [TokenKind.ofWord, hvalue, Nat.zero_add] at hlex

theorem lexesAsNumber_iff {text : String} : LexesAsNumber text ↔
    (∀ c ∈ text.toList, isWordChar c = true) ∧ (numberValue? text).isSome = true := by
  refine ⟨fun h => ⟨h.isWordChar, h.isSome_numberValue?⟩, ?_⟩
  rintro ⟨hword, hvalue⟩
  obtain ⟨x, hx⟩ := Option.isSome_iff_exists.mp hvalue
  exact ⟨x, lexes_number hword hx⟩

instance (text : String) : Decidable (LexesAsNumber text) :=
  decidable_of_iff (text.toList.all isWordChar = true ∧ (numberValue? text).isSome = true)
    (by rw [lexesAsNumber_iff, List.all_eq_true])

theorem quotable_of_isWordChar {text : String} (h : ∀ c ∈ text.toList, isWordChar c = true) :
    Quotable text := by
  rintro ⟨hquote, -⟩
  exact absurd (h _ hquote) (by decide)

theorem lookup_eq_none_of_lexesAsNumber {text : String} (h : LexesAsNumber text) :
    Operator.lookup text = none := by
  have all : ∀ o ∈ Operator.all, startsNumeric o.spelling.toList = false := by decide
  refine Option.eq_none_iff_forall_ne_some.mpr fun o ho => ?_
  rw [Operator.lookup_eq_some_iff.mp ho] at h
  exact not_lexesAsNumber (all o (Operator.mem_all o)) h

namespace Filter

/-- The leaf that a text is read as in the place of a field. -/
def fieldLeaf (text : String) : Filter := if LexesAsNumber text then value text else name text

theorem fieldLeaf_ind {P : Filter → Prop} {text : String} (hvalue : P (value text))
    (hname : P (name text)) : P (fieldLeaf text) := by
  rw [fieldLeaf]
  split_ifs
  · exact hvalue
  · exact hname

end Filter

/-- In each place that a text may stand in, its atom is one token for it. -/
theorem exists_lexes_leaf {text : String} (h : Quotable text) (k : Nat) :
    ∃ t : Token, Lexes k (Filter.atom text).toList [t] ∧ t.StandsFor text ∧
      t.kind.field? .verbatim = some (Filter.fieldLeaf text) := by
  obtain ⟨s, hlex⟩ := lexes_atom h k
  have ht := standsFor_ofAtom text s
  refine ⟨_, hlex, ht, ?_⟩
  by_cases hnumber : LexesAsNumber text
  · have hop := lookup_eq_none_of_lexesAsNumber hnumber
    have hne := ne_empty_of_isSome_numberValue? hnumber.isSome_numberValue?
    have hkind : TokenKind.ofAtom text = .ofWord text :=
      if_pos ⟨hne, List.all_eq_true.mpr hnumber.isWordChar, by simp [hop]⟩
    obtain ⟨x, hx⟩ := Option.isSome_iff_exists.mp hnumber.isSome_numberValue?
    simp only [hkind, TokenKind.ofWord, hx, Filter.fieldLeaf, hnumber, if_true]
    rfl
  · rw [Filter.fieldLeaf, if_neg hnumber]
    exact ht.field hnumber

theorem TokenKind.eq_of_leaf? {numbers : NumberText} {make : String → Filter} {k : TokenKind}
    {q : Filter} (h : k.leaf? numbers make = some q) : ∃ text, q = make text ∨ q = .value text := by
  cases k with
  | word text =>
    simp only [leaf?, Option.ite_none_left_eq_some, Option.some.injEq] at h
    exact ⟨text, .inl h.2.symm⟩
  | quoted _ text => exact ⟨text, .inl (Option.some.inj h).symm⟩
  | number text x => exact ⟨_, .inr (Option.some.inj h).symm⟩
  | openParen | closeParen | comma | symbol | endOfInput => cases h

/-- What the kind of a token tells of its text. -/
def TokenKind.Scanned : TokenKind → Prop
  | word text | quoted _ text => Quotable text
  | number text _ => LexesAsNumber text
  | _ => True

theorem scanned_ofWord {text : String}
    (hword : ∀ c ∈ text.toList, isWordChar c = true) : (TokenKind.ofWord text).Scanned := by
  unfold TokenKind.ofWord
  split
  · next x hx => exact lexesAsNumber_iff.mpr ⟨hword, by simp [hx]⟩
  · exact quotable_of_isWordChar hword

theorem Lexes.scanned {k : Nat} {cs : List Char} {ts : List Token} (h : Lexes k cs ts) :
    ∀ t ∈ ts, t.kind.Scanned := by
  induction h with
  | nil => simp
  | blank _ _ ih => exact ih
  | @single k c cs ts _ _ _ _ ih =>
    refine List.forall_mem_cons.mpr ⟨?_, ih⟩
    unfold TokenKind.ofSingle
    split_ifs <;> trivial
  | @word k w cs ts _ hword _ _ ih =>
    exact List.forall_mem_cons.mpr ⟨scanned_ofWord (by simpa using hword), ih⟩
  | @quoted k d w cs ts hd hw _ ih =>
    refine List.forall_mem_cons.mpr ⟨?_, ih⟩
    rintro ⟨hquote, hdouble⟩
    rw [String.toList_ofList] at hquote hdouble
    simp only [isQuote, Bool.or_eq_true, beq_iff_eq] at hd
    rcases hd with rfl | rfl
    · exact hw hquote
    · exact hw hdouble

namespace Filter

/-- A value or a list of values. -/
inductive Data : Filter → Prop
  | value {text} : Quotable text → Data (value text)
  | values {texts} : (∀ text ∈ texts, Quotable text) → Data (values texts)

/-- The trees that phrases of the grammar stand for. -/
inductive Grammatical : Filter → Prop
  | name {text} : Quotable text → Grammatical (name text)
  | number {text} : LexesAsNumber text → Grammatical (value text)
  | group {q} : Grammatical q → Grammatical (group q)
  | negation {q} : Grammatical q → Grammatical (negation q)
  | relation {left right} (r : Relation) : Grammatical left → Data right →
      Grammatical (r.apply left right)
  | negatedRelation {left q} (r : Relation) : Grammatical left → Grammatical q →
      Grammatical (r.apply left (negation q))
  | connection {left right} (op : Connective) : Grammatical left → Grammatical right →
      Grammatical (connection op left right)

end Filter

open FilterLang.Filter

theorem grammatical_of_field? {k : TokenKind} {q : Filter} (hk : k.Scanned)
    (h : k.field? .verbatim = some q) : q.Grammatical := by
  cases k with
  | word text =>
    simp only [TokenKind.field?, TokenKind.leaf?] at h
    split_ifs at h
    cases h
    exact .name hk
  | quoted d text =>
    cases h
    exact .name hk
  | number text x =>
    cases h
    exact .number hk
  | openParen | closeParen | comma | symbol | endOfInput => cases h

theorem data_of_value? {k : TokenKind} {q : Filter} (hk : k.Scanned)
    (h : k.value? .verbatim = some q) : q.Data := by
  cases k with
  | word text =>
    simp only [TokenKind.value?, TokenKind.leaf?] at h
    split_ifs at h
    cases h
    exact .value hk
  | quoted d text =>
    cases h
    exact .value hk
  | number text x =>
    cases h
    exact .value (quotable_of_isWordChar hk.isWordChar)
  | openParen | closeParen | comma | symbol | endOfInput => cases h

theorem quotable_of_element? {k : TokenKind} {text : String} (hk : k.Scanned)
    (h : k.element? .verbatim = some text) : Quotable text := by
  cases k with
  | word | quoted =>
    cases h
    exact hk
  | number text x =>
    cases h
    exact quotable_of_isWordChar hk.isWordChar
  | openParen | closeParen | comma | symbol | endOfInput => cases h

theorem scanned_of_suffix {ts us : List Token} (hts : ∀ t ∈ ts, t.kind.Scanned) (hus : us <:+ ts) :
    ∀ t ∈ us, t.kind.Scanned := fun t ht => hts t (hus.subset ht)

/-- What the tree of a phrase is, where the tree before it is grammatical. -/
def Phrase.Forms : Phrase → Filter → Prop
  | tails left, q => left.Grammatical → q.Grammatical
  | operand, q => ∀ (r : Relation) (left : Filter), left.Grammatical → (r.apply left q).Grammatical
  | _, q => q.Grammatical

theorem Derives.forms {p : Phrase} {n : Nat} {ts rest : List Token} {q : Filter}
    (h : Derives .verbatim p n ts q rest) (hts : ∀ t ∈ ts, t.kind.Scanned) : p.Forms q := by
  induction h with
  | chain hleft _ ih ih' => exact ih' (scanned_of_suffix hts hleft.suffix) (ih hts)
  | noTail => exact id
  | connectionTail ho hright _ ih ih' =>
    have hmid := scanned_of_suffix hts ho.suffix
    exact fun hleft => ih' (scanned_of_suffix hmid hright.suffix) (.connection _ hleft (ih hmid))
  | relationTail ho hright _ ih ih' =>
    have hmid := scanned_of_suffix hts ho.suffix
    exact fun hleft => ih' (scanned_of_suffix hmid hright.suffix) (ih hmid _ _ hleft)
  | negationTail ho _ ih => exact fun hleft => ih (scanned_of_suffix hts ho.suffix) (.negation hleft)
  | connection hleft ho _ ih ih' =>
    exact .connection _ (ih hts) (ih' (scanned_of_suffix hts (ho.suffix.trans hleft.suffix)))
  | relation hleft ho _ ih ih' =>
    exact ih' (scanned_of_suffix hts (ho.suffix.trans hleft.suffix)) _ _ (ih hts)
  | negationAfter _ _ ih => exact .negation (ih hts)
  | alone _ _ ih => exact ih hts
  | group _ _ _ ih => exact .group (ih (scanned_of_suffix hts (List.suffix_cons _ _)))
  | negation ho _ ih => exact .negation (ih (scanned_of_suffix hts ho.suffix))
  | field ht => exact grammatical_of_field? (hts _ (by simp)) ht
  | list _ _ _ =>
    refine fun r left hleft => .relation r hleft (.values fun text htext => ?_)
    obtain ⟨e, he, htext⟩ := List.mem_filterMap.mp htext
    exact quotable_of_element? (hts e (by simp [he])) htext
  | negatedOperand ho _ ih =>
    exact fun r left hleft => .negatedRelation r hleft (ih (scanned_of_suffix hts ho.suffix))
  | value ht => exact fun r left hleft => .relation r hleft (data_of_value? (hts _ (by simp)) ht)

/-- A tree that a text is read as, with numbers as they are written, is grammatical. -/
theorem grammatical_of_parse {c : Config} {text : String} {q : Filter}
    (hc : c.numbers = .verbatim) (h : Filter.parse c text = .ok (some q)) : q.Grammatical := by
  obtain ⟨ts, hlex, hq⟩ := parse_eq_ok_some_iff.mp h
  rw [hc] at hq
  exact hq.forms hlex.scanned

theorem Filter.Data.writable {q : Filter} (h : q.Data) : q.Writable := by
  cases h with
  | value hquote => exact .value hquote
  | values hquote => exact .values hquote

theorem writable_apply {r : Relation} {left right : Filter} (hl : left.Writable)
    (hr : right.Writable) : (r.apply left right).Writable := by
  cases r with
  | comparison op => exact .comparison hl hr
  | membership => exact .membership hl (by simpa using hr)

theorem Filter.Grammatical.writable {q : Filter} (h : q.Grammatical) : q.Writable := by
  induction h with
  | name hquote => exact .name hquote
  | number hnumber => exact .value (quotable_of_isWordChar hnumber.isWordChar)
  | group _ ih => exact .group ih
  | negation _ ih => exact .negation ih
  | relation r _ hdata ih => exact writable_apply ih hdata.writable
  | negatedRelation r _ _ ihl ihq => exact writable_apply ihl (.negation ihq)
  | connection op _ _ ihl ihr => exact .connection ihl ihr

end FilterLang
