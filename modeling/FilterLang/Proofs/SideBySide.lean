import FilterLang.Proofs.Completion
import Mathlib.Data.List.Chain
import Mathlib.Data.List.Forall2

/-! Two readings side by side: `matched_outcome`. Two lists of tokens are read in step, by
configurations that may differ in what a number becomes. If the tokens have the same kinds and touch
at the same places, the states stay related, so either both readings give trees that correspond or
both fail at the same tokens. -/

namespace FilterLang

/-- Both succeed or both fail, with results or errors that are related. -/
inductive Matched {ε ε' α α' : Type} (E : ε → ε' → Prop) (R : α → α' → Prop) :
    Except ε α → Except ε' α' → Prop
  | ok {x x'} : R x x' → Matched E R (.ok x) (.ok x')
  | error {e e'} : E e e' → Matched E R (.error e) (.error e')

theorem Matched.imp {ε ε' α α' : Type} {E : ε → ε' → Prop} {R S : α → α' → Prop}
    {x : Except ε α} {x' : Except ε' α'} (h : Matched E R x x') (hRS : ∀ a a', R a a' → S a a') :
    Matched E S x x' := by
  cases h with
  | ok h => exact .ok (hRS _ _ h)
  | error h => exact .error h

theorem Matched.bind {ε ε' α α' β β' : Type} {E : ε → ε' → Prop} {R : α → α' → Prop}
    {S : β → β' → Prop} {x : Except ε α} {x' : Except ε' α'} (h : Matched E R x x')
    {f : α → Except ε β} {f' : α' → Except ε' β'}
    (hf : ∀ a a', x = .ok a → R a a' → Matched E S (f a) (f' a')) :
    Matched E S (x >>= f) (x' >>= f') := by
  cases h with
  | ok h => exact hf _ _ rfl h
  | error h => exact .error h

def TokenKind.isSymbol : TokenKind → Bool
  | symbol _ => true
  | _ => false

/-- The text that some tokens join to, and the place that they cover from the first to the last. -/
structure JoinsTo (ts : List Token) (text : String) (span : Span) : Prop where
  text : text.toList = ts.flatMap (·.kind.text.toList)
  start : ts.head?.map (·.span.start) = some span.start
  stop : ts.getLast?.map (·.span.stop) = some span.stop

theorem JoinsTo.singleton (t : Token) : JoinsTo [t] t.kind.text t.span := ⟨by simp, rfl, rfl⟩

theorem JoinsTo.push {ts : List Token} {text : String} {span : Span} (h : JoinsTo ts text span)
    {t : Token} {ch : Char} (ht : t.kind = .symbol ch) :
    JoinsTo (ts ++ [t]) (text.push ch) ⟨span.start, t.span.stop⟩ := by
  refine ⟨?_, ?_, by simp⟩
  · simp [h.text, ht, TokenKind.text]
  · cases ts with
    | nil => cases h.start
    | cons => exact h.start

theorem JoinsTo.span_eq {ts : List Token} {text text' : String} {span span' : Span}
    (h : JoinsTo ts text span) (h' : JoinsTo ts text' span') : span = span' := by
  obtain ⟨start, stop⟩ := span
  obtain ⟨start', stop'⟩ := span'
  have hstart : start = start' := by simpa using h.start.symm.trans h'.start
  have hstop : stop = stop' := by simpa using h.stop.symm.trans h'.stop
  rw [hstart, hstop]

/-- Pairs of tokens join to the same text, at a place in each list. -/
structure JoinBoth (read : List (Token × Token)) (text : String) (span span' : Span) : Prop where
  left : JoinsTo (read.map Prod.fst) text span
  right : JoinsTo (read.map Prod.snd) text span'

theorem JoinBoth.singleton {t u : Token} (hk : t.kind = u.kind) :
    JoinBoth [(t, u)] t.kind.text t.span u.span := by
  refine ⟨.singleton t, ?_⟩
  rw [hk]
  exact .singleton u

theorem JoinBoth.push {read : List (Token × Token)} {text : String} {span span' : Span}
    (h : JoinBoth read text span span') {t u : Token} {ch : Char} (ht : t.kind = .symbol ch)
    (hu : u.kind = .symbol ch) :
    JoinBoth (read ++ [(t, u)]) (text.push ch) ⟨span.start, t.span.stop⟩
      ⟨span'.start, u.span.stop⟩ := by
  constructor
  · rw [List.map_append]
    exact h.left.push ht
  · rw [List.map_append]
    exact h.right.push hu

section

variable (ps : List (Token × Token))

/-- The places of an opening parenthesis in both lists. -/
inductive SameOpening : Span → Span → Prop
  | mk {t u} : (t, u) ∈ ps → t.kind = .openParen → SameOpening t.span u.span

/-- The errors say the same of tokens at the same positions. An unknown operator is the text of
tokens that follow one another. -/
inductive SameError : ParseError → ParseError → Prop
  | unrecognizedToken {t u} : (t, u) ∈ ps →
      SameError (.unrecognizedToken t.kind.text t.span) (.unrecognizedToken t.kind.text u.span)
  | unexpectedEnd : SameError .unexpectedEnd .unexpectedEnd
  | missingParen {span span'} : SameOpening ps span span' →
      SameError (.missingParen span) (.missingParen span')
  | unknownOperator {read text span span'} : read <:+: ps → JoinBoth read text span span' →
      SameError (.unknownOperator text span) (.unknownOperator text span')
  | tooDeep (limit) : SameError (.tooDeep limit) (.tooDeep limit)

/-- The tokens of the pairs have the same kinds, and their symbols touch at the same places. -/
structure InStep : Prop where
  kinds : ∀ p ∈ ps, p.1.kind = p.2.kind
  touching : ps.IsChain fun p q => p.1.kind.isSymbol = true → q.1.kind.isSymbol = true →
    (q.1.span.start = p.1.span.stop ↔ q.2.span.start = p.2.span.stop)

end

/-- The configurations allow as many levels, and build trees that correspond. -/
structure Config.Corresponds (T : Filter → Filter → Prop) (c c' : Config) : Prop where
  maxDepth : c.maxDepth = c'.maxDepth
  name (text) : T (.name text) (.name text)
  value (text) : T (.value text) (.value text)
  number (text x) : T (.value (c.numbers.write text x)) (.value (c'.numbers.write text x))
  values {texts texts'} : List.Forall₂ (fun a b => T (.value a) (.value b)) texts texts' →
    T (.values texts) (.values texts')
  group {q q'} : T q q' → T (.group q) (.group q')
  negation {q q'} : T q q' → T (.negation q) (.negation q')
  relation (r : Relation) {left left' right right'} : T left left' → T right right' →
    T (r.apply left right) (r.apply left' right')
  connection (op) {left left' right right'} : T left left' → T right right' →
    T (.connection op left right) (.connection op left' right')

namespace ParseState

section

variable (T : Filter → Filter → Prop) (ps : List (Token × Token))

inductive SameFrame : Frame → Frame → Prop
  | connection {op left left'} : T left left' →
      SameFrame (.connection op left) (.connection op left')
  | negation : SameFrame .negation .negation
  | negatedValue {r left left'} : T left left' →
      SameFrame (.negatedValue r left) (.negatedValue r left')

structure SameGroup (g g' : Group) : Prop where
  opening : SameOpening ps g.opening g'.opening
  frames : List.Forall₂ (SameFrame T) g.frames g'.frames
  depth : g.depth = g'.depth

/-- The same is unfinished around what is read next. -/
structure SameAround (s s' : ParseState) : Prop where
  frames : List.Forall₂ (SameFrame T) s.frames s'.frames
  groups : List.Forall₂ (SameGroup T ps) s.groups s'.groups
  depth : s.depth = s'.depth

/-- The same is read next. Of an operator that is being spelled the last tokens before those ahead
are read already. -/
inductive SameExpect (ahead : List (Token × Token)) : Expect → Expect → Prop
  | field : SameExpect ahead .field .field
  | value {r left left'} : T left left' → SameExpect ahead (.value r left) (.value r left')
  | operator {left left'} : T left left' → SameExpect ahead (.operator left) (.operator left')
  | symbols {read left left' text span span'} : T left left' → read ++ ahead <:+ ps →
      (∀ p ∈ read, p.1.kind.isSymbol = true) → JoinBoth read text span span' →
      SameExpect ahead (.symbols left text span) (.symbols left' text span')
  | chain {left left'} : T left left' → SameExpect ahead (.chain left) (.chain left')
  | elements {r left left' opening opening' texts texts'} : T left left' →
      SameOpening ps opening opening' →
      List.Forall₂ (fun a b => T (.value a) (.value b)) texts texts' →
      SameExpect ahead (.elements r left opening texts) (.elements r left' opening' texts')

structure Same (ahead : List (Token × Token)) (s s' : ParseState) : Prop where
  around : SameAround T ps s s'
  expect : SameExpect T ps ahead s.expect s'.expect

/-- Two steps lead to states that are the same, or find the same fault. -/
def SameStep (ahead : List (Token × Token)) :
    Except Fault ParseState → Except Fault ParseState → Prop :=
  Matched (fun e e' => SameError ps e.error e'.error) (Same T ps ahead)

end

variable {T : Filter → Filter → Prop} {ps ahead : List (Token × Token)} {c c' : Config}
  {s s' : ParseState} {t u : Token} {left left' q q' : Filter} {frames frames' : List Frame}
  {groups groups' : List Group}

theorem sameAround_start (depth : Nat) : SameAround T ps (start depth) (start depth) :=
  ⟨.nil, .nil, rfl⟩

theorem SameAround.succ (h : SameAround T ps s s') :
    SameAround T ps { s with depth := s.depth + 1 } { s' with depth := s'.depth + 1 } :=
  ⟨h.frames, h.groups, congrArg (· + 1) h.depth⟩

theorem SameAround.pred (h : SameAround T ps s s') :
    SameAround T ps { s with depth := s.depth - 1 } { s' with depth := s'.depth - 1 } :=
  ⟨h.frames, h.groups, congrArg (· - 1) h.depth⟩

theorem SameAround.expecting (h : SameAround T ps s s') {e e' : Expect}
    (he : SameExpect T ps ahead e e') :
    Same T ps ahead { s with expect := e } { s' with expect := e' } :=
  ⟨⟨h.frames, h.groups, h.depth⟩, he⟩

theorem SameAround.push (h : SameAround T ps s s') {f f' : Frame} (hf : SameFrame T f f') :
    Same T ps ahead (s.push f) (s'.push f') :=
  ⟨⟨.cons hf h.frames, h.groups, h.depth⟩, .field⟩

theorem sameStep_unrecognized (ht : (t, u) ∈ ps) (hk : t.kind = u.kind) :
    SameStep T ps ahead (unrecognized t) (unrecognized u) := by
  unfold unrecognized
  rw [← hk]
  exact .error (.unrecognizedToken ht)

/-- The first symbol of an operator. -/
theorem sameExpect_symbols (hleft : T left left') (hps : (t, u) :: ahead <:+ ps)
    (hk : t.kind = u.kind) {ch : Char} (hch : t.kind = .symbol ch) :
    SameExpect T ps ahead (.symbols left ch.toString t.span)
      (.symbols left' ch.toString u.span) := by
  have hread : [(t, u)] ++ ahead <:+ ps := hps
  have htext : ch.toString = t.kind.text := by rw [hch]; rfl
  refine .symbols hleft hread (by simp [hch, TokenKind.isSymbol]) ?_
  rw [htext]
  exact .singleton hk

/-- A word as an operator. -/
theorem sameError_word (hps : (t, u) :: ahead <:+ ps) (hk : t.kind = u.kind) {text : String}
    (htext : t.kind = .word text) :
    SameError ps (.unknownOperator text t.span) (.unknownOperator text u.span) := by
  have hread : [(t, u)] <:+: ps := (List.prefix_append [(t, u)] ahead).isInfix.trans hps.isInfix
  have heq : text = t.kind.text := by rw [htext]; rfl
  refine .unknownOperator hread ?_
  rw [heq]
  exact .singleton hk

/-- Whether a token goes on with an operator depends on the last symbol of it only. -/
theorem adjacentSymbol?_eq {read : List (Token × Token)} {text : String} {span span' : Span}
    (hps : InStep ps) (hread : read ++ (t, u) :: ahead <:+ ps)
    (hsymbols : ∀ p ∈ read, p.1.kind.isSymbol = true) (hjoin : JoinBoth read text span span') :
    adjacentSymbol? span t = adjacentSymbol? span' u := by
  have hk : t.kind = u.kind := hps.kinds (t, u) (hread.subset (by simp))
  obtain rfl | ⟨init, p, rfl⟩ := List.eq_nil_or_concat read
  · cases hjoin.left.start
  simp only [List.concat_eq_append, List.append_assoc, List.singleton_append] at hread
  have htouching := (List.isChain_append_cons_cons.mp (hps.touching.suffix hread)).2.1
  have hstop : p.1.span.stop = span.stop := by simpa using hjoin.left.stop
  have hstop' : p.2.span.stop = span'.stop := by simpa using hjoin.right.stop
  unfold adjacentSymbol?
  rw [← hk, ← hstop, ← hstop']
  cases hkind : t.kind with
  | symbol ch =>
    simp only [htouching (hsymbols p (by simp)) (by simp [hkind, TokenKind.isSymbol])]
  | _ => rfl

theorem matched_closeChain (hq : T q q') (hgroups : List.Forall₂ (SameGroup T ps) groups groups') :
    Matched (SameError ps) T (closeChain groups q) (closeChain groups' q') := by
  cases hgroups with
  | nil => exact .ok hq
  | cons hg _ => exact .error (.missingParen hg.opening)

variable (hc : c.Corresponds T c')
include hc

theorem sameStep_descend (h : SameAround T ps s s') {taken : Bool}
    {f f' : ParseState → Except Fault ParseState}
    (hf : SameStep T ps ahead (f { s with depth := s.depth + 1 })
      (f' { s' with depth := s'.depth + 1 })) :
    SameStep T ps ahead (s.descend c taken >>= f) (s'.descend c' taken >>= f') := by
  have hdepth := h.depth
  unfold descend
  rw [← hc.maxDepth, ← hdepth]
  rw [← hdepth] at hf
  split_ifs
  · exact .error (.tooDeep _)
  · exact hf

theorem same_finished (hq : T q q') (hframes : List.Forall₂ (SameFrame T) frames frames')
    (hgroups : List.Forall₂ (SameGroup T ps) groups groups') (depth : Nat) :
    Same T ps ahead (finished groups q depth frames) (finished groups' q' depth frames') := by
  induction hframes generalizing q q' depth with
  | nil => exact ⟨⟨.nil, hgroups, rfl⟩, .chain hq⟩
  | cons hframe hframes ih =>
    cases hframe with
    | connection hleft => exact ih (hc.connection _ hleft hq) _
    | negatedValue hleft => exact ih (hc.relation _ hleft (hc.negation hq)) _
    | negation => exact ⟨⟨hframes, hgroups, rfl⟩, .operator (hc.negation hq)⟩

theorem SameAround.finished (h : SameAround T ps s s') (hq : T q q') :
    Same T ps ahead (finished s.groups q s.depth s.frames)
      (finished s'.groups q' s'.depth s'.frames) := by
  rw [← h.depth]
  exact same_finished hc hq h.frames h.groups _

theorem wrapped_same (hq : T q q') (hframes : List.Forall₂ (SameFrame T) frames frames') :
    T (wrapped q frames) (wrapped q' frames') := by
  induction hframes generalizing q q' with
  | nil => exact hq
  | cons hframe _ ih =>
    cases hframe with
    | connection hleft => exact ih (hc.connection _ hleft hq)
    | negatedValue hleft => exact ih (hc.relation _ hleft (hc.negation hq))
    | negation => exact ih (hc.negation hq)

/-- The tokens of the operator are only needed where it is unknown. -/
theorem sameStep_readOperation (h : SameAround T ps s s') (hleft : T left left') {text : String}
    {span span' : Span} (taken : Bool)
    (hunknown : SameError ps (.unknownOperator text span) (.unknownOperator text span')) :
    SameStep T ps ahead (s.readOperation c left text span taken)
      (s'.readOperation c' left' text span' taken) := by
  unfold readOperation
  cases Operator.lookup text with
  | none => exact .error hunknown
  | some o =>
    cases o with
    | connective op => exact sameStep_descend hc h (.ok (h.succ.push (.connection hleft)))
    | relation r => exact .ok (h.expecting (.value hleft))
    | negation =>
      simp only [node_negation, bind, Except.bind, finishOperand_eq]
      exact .ok (h.finished hc (hc.negation hleft))

/-- The symbols that have been read are the operator. -/
theorem sameStep_spelled {read : List (Token × Token)} {text : String} {span span' : Span}
    (h : SameAround T ps s s') (hleft : T left left') (hread : read ++ ahead <:+ ps)
    (hjoin : JoinBoth read text span span') (later : List (Token × Token)) :
    SameStep T ps later (s.readOperation c left text span false)
      (s'.readOperation c' left' text span' false) := by
  have hinfix : read <:+: ps := (List.prefix_append read ahead).isInfix.trans hread.isInfix
  exact sameStep_readOperation hc h hleft false (.unknownOperator hinfix hjoin)

theorem sameStep_readOperand (h : SameAround T ps s s') (r : Relation) (hleft : T left left')
    (hq : T q q') :
    SameStep T ps ahead (s.readOperand r left q) (s'.readOperand r left' q') := by
  rw [readOperand_eq, readOperand_eq]
  exact .ok (h.finished hc (hc.relation r hleft hq))

theorem sameStep_readField (h : SameAround T ps s s') (ht : (t, u) ∈ ps)
    (hk : t.kind = u.kind) : SameStep T ps ahead (s.readField c t) (s'.readField c' u) := by
  unfold readField
  rw [← hk]
  cases hkind : t.kind with
  | openParen =>
    exact sameStep_descend hc h (.ok ⟨⟨.nil, .cons ⟨.mk ht hkind, h.frames, h.depth⟩ h.groups,
      h.succ.depth⟩, .field⟩)
  | word text =>
    simp only
    split_ifs
    · exact sameStep_descend hc h (.ok (h.succ.push .negation))
    · exact .ok (h.expecting (.operator (hc.name text)))
  | quoted d text => exact .ok (h.expecting (.operator (hc.name text)))
  | number text x => exact .ok (h.expecting (.operator (hc.number text x)))
  | closeParen | comma | symbol | endOfInput => exact sameStep_unrecognized ht hk

theorem sameStep_readValue (h : SameAround T ps s s') (r : Relation) (hleft : T left left')
    (ht : (t, u) ∈ ps) (hk : t.kind = u.kind) :
    SameStep T ps ahead (s.readValue c r left t) (s'.readValue c' r left' u) := by
  unfold readValue
  rw [← hk]
  cases hkind : t.kind with
  | openParen =>
    exact sameStep_descend hc h (.ok (h.succ.expecting (.elements hleft (.mk ht hkind) .nil)))
  | word text =>
    simp only
    split_ifs
    · exact sameStep_descend hc h (.ok (h.succ.push (.negatedValue hleft)))
    · exact sameStep_readOperand hc h r hleft (hc.value text)
  | quoted d text => exact sameStep_readOperand hc h r hleft (hc.value text)
  | number text x => exact sameStep_readOperand hc h r hleft (hc.number text x)
  | closeParen | comma | symbol | endOfInput => exact sameStep_unrecognized ht hk

theorem sameStep_readElement (h : SameAround T ps s s') (r : Relation) (hleft : T left left')
    {opening opening' : Span} (hopening : SameOpening ps opening opening')
    {texts texts' : List String}
    (htexts : List.Forall₂ (fun a b => T (.value a) (.value b)) texts texts')
    (he : s.expect = .elements r left opening texts)
    (he' : s'.expect = .elements r left' opening' texts')
    (ht : (t, u) ∈ ps) (hk : t.kind = u.kind) :
    SameStep T ps ahead (s.readElement c r left opening texts t)
      (s'.readElement c' r left' opening' texts' u) := by
  have hadd {a b : String} (hab : T (.value a) (.value b)) :
      SameExpect T ps ahead (.elements r left opening (texts ++ [a]))
        (.elements r left' opening' (texts' ++ [b])) :=
    .elements hleft hopening (List.rel_append htexts (.cons hab .nil))
  unfold readElement
  rw [← hk]
  cases hkind : t.kind with
  | closeParen => exact sameStep_readOperand hc h.pred r hleft (hc.values htexts)
  | comma => exact .ok ⟨h, by rw [he, he']; exact .elements hleft hopening htexts⟩
  | word text => exact .ok (h.expecting (hadd (hc.value text)))
  | quoted d text => exact .ok (h.expecting (hadd (hc.value text)))
  | number text x => exact .ok (h.expecting (hadd (hc.number text x)))
  | openParen | symbol | endOfInput => exact sameStep_unrecognized ht hk

theorem sameStep_readChain (h : SameAround T ps s s') (hleft : T left left')
    (hps : (t, u) :: ahead <:+ ps) (hk : t.kind = u.kind) :
    SameStep T ps ahead (s.readChain c left t) (s'.readChain c' left' u) := by
  have hunrecognized :
      SameStep T ps ahead (s.descend c false >>= fun _ => unrecognized t)
        (s'.descend c' false >>= fun _ => unrecognized u) :=
    sameStep_descend hc h (sameStep_unrecognized (hps.subset (by simp)) hk)
  unfold readChain
  rw [← hk]
  cases hkind : t.kind with
  | closeParen =>
    cases hs : s.groups with
    | nil =>
      have hs' := List.forall₂_nil_left_iff.mp (hs ▸ h.groups)
      rw [hs']
      exact hunrecognized
    | cons g groups =>
      obtain ⟨g', groups', hg, hgroups, hs'⟩ := List.forall₂_cons_left_iff.mp (hs ▸ h.groups)
      rw [hs']
      exact .ok ⟨⟨hg.frames, hgroups, hg.depth⟩, .operator (hc.group hleft)⟩
  | word text =>
    exact sameStep_descend hc h
      (sameStep_readOperation hc h.succ hleft true (sameError_word hps hk hkind))
  | symbol ch =>
    exact sameStep_descend hc h (.ok (h.succ.expecting (sameExpect_symbols hleft hps hk hkind)))
  | quoted | number | openParen | comma | endOfInput => exact hunrecognized

theorem sameStep_readOperator (h : SameAround T ps s s') (hleft : T left left')
    (hps : (t, u) :: ahead <:+ ps) (hk : t.kind = u.kind) :
    SameStep T ps ahead (s.readOperator c left t) (s'.readOperator c' left' u) := by
  have hlength := h.frames.length_eq
  unfold readOperator
  rw [← hk]
  cases hkind : t.kind with
  | word text => exact sameStep_readOperation hc h hleft true (sameError_word hps hk hkind)
  | symbol ch => exact .ok (h.expecting (sameExpect_symbols hleft hps hk hkind))
  | number | closeParen =>
    have hq := wrapped_same hc hleft h.frames
    simp only [finishExpression_eq, bind, Except.bind]
    exact sameStep_readChain hc ⟨.nil, h.groups, by rw [h.depth, hlength]⟩ hq hps hk
  | quoted | openParen | comma | endOfInput =>
    exact sameStep_unrecognized (hps.subset (by simp)) hk

theorem sameStep_readPlain {before : List (Token × Token)} (h : Same T ps before s s')
    (hs : s.IsPlain) (hps : (t, u) :: ahead <:+ ps) (hk : t.kind = u.kind) :
    SameStep T ps ahead (s.readPlain c t) (s'.readPlain c' u) := by
  have ht : (t, u) ∈ ps := hps.subset (by simp)
  obtain ⟨expect, frames, groups, depth⟩ := s
  obtain ⟨expect', frames', groups', depth'⟩ := s'
  obtain ⟨haround, hexpect⟩ := h
  cases hexpect with
  | field => exact sameStep_readField hc haround ht hk
  | value hleft => exact sameStep_readValue hc haround _ hleft ht hk
  | operator hleft => exact sameStep_readOperator hc haround hleft hps hk
  | symbols => exact absurd rfl (hs _ _ _)
  | chain hleft => exact sameStep_readChain hc haround hleft hps hk
  | elements hleft hopening htexts =>
    exact sameStep_readElement hc haround _ hleft hopening htexts rfl rfl ht hk

/-- A token takes states that are the same to states that are, or is at fault in both. -/
theorem sameStep_read (hps : InStep ps) (h : Same T ps ((t, u) :: ahead) s s')
    (hahead : (t, u) :: ahead <:+ ps) : SameStep T ps ahead (s.read c t) (s'.read c' u) := by
  have hk : t.kind = u.kind := hps.kinds (t, u) (hahead.subset (by simp))
  obtain ⟨expect, frames, groups, depth⟩ := s
  obtain ⟨expect', frames', groups', depth'⟩ := s'
  obtain ⟨haround, hexpect⟩ := id h
  cases hexpect with
  | @symbols read _ _ _ _ _ hleft hread hsymbols hjoin =>
    simp only [ParseState.read, adjacentSymbol?_eq hps hread hsymbols hjoin]
    cases hadjacent : adjacentSymbol? _ u with
    | some ch =>
      have hu := kind_of_adjacentSymbol? hadjacent
      have hread' : (read ++ [(t, u)]) ++ ahead <:+ ps := by simpa using hread
      have hsymbols' : ∀ p ∈ read ++ [(t, u)], p.1.kind.isSymbol = true :=
        List.forall_mem_append.mpr ⟨hsymbols, by simp [hk, hu, TokenKind.isSymbol]⟩
      exact .ok (haround.expecting
        (.symbols hleft hread' hsymbols' (hjoin.push (hk.trans hu) hu)))
    | none =>
      -- the operator is completed first, by the tokens before this one
      have hstep := sameStep_spelled hc haround hleft hread hjoin ahead
      refine hstep.bind fun _ _ ho hsame => ?_
      exact sameStep_readPlain hc hsame (isPlain_of_readOperation ho) hahead hk
  | field | value | operator | chain | elements =>
    exact sameStep_readPlain hc h (by simp [IsPlain]) hahead hk

theorem matched_close (h : Same T ps ahead s s') :
    Matched (SameError ps) T s.close s'.close := by
  obtain ⟨expect, frames, groups, depth⟩ := s
  obtain ⟨expect', frames', groups', depth'⟩ := s'
  obtain ⟨haround, hexpect⟩ := h
  cases hexpect with
  | field | value | symbols => exact .error .unexpectedEnd
  | operator hleft =>
    simp only [close, finishExpression_eq]
    exact matched_closeChain (wrapped_same hc hleft haround.frames) haround.groups
  | chain hleft => exact matched_closeChain hleft haround.groups
  | elements _ hopening _ => exact .error (.missingParen hopening)

theorem matched_readEnd (h : Same T ps ahead s s') :
    Matched (SameError ps) T (s.readEnd c) (s'.readEnd c') := by
  obtain ⟨expect, frames, groups, depth⟩ := s
  obtain ⟨expect', frames', groups', depth'⟩ := s'
  obtain ⟨haround, hexpect⟩ := id h
  cases hexpect with
  | symbols hleft hread _ hjoin =>
    have hstep := sameStep_spelled hc haround hleft hread hjoin ahead
    simp only [readEnd]
    generalize readOperation c _ _ _ _ _ = step, readOperation c' _ _ _ _ _ = step' at hstep ⊢
    cases hstep with
    | ok h => exact matched_close hc h
    | error he => exact .error he
  | field | value | operator | chain | elements => exact matched_close hc h

/-- What one token keeps is kept by all that are ahead. -/
theorem matched_outcome (hps : InStep ps) (h : Same T ps ahead s s') (hahead : ahead <:+ ps) :
    Matched (SameError ps) T (outcome c s (ahead.map Prod.fst))
      (outcome c' s' (ahead.map Prod.snd)) := by
  induction ahead generalizing s s' with
  | nil => exact matched_readEnd hc h
  | cons p ahead ih =>
    obtain ⟨t, u⟩ := p
    have hk : t.kind = u.kind := hps.kinds (t, u) (hahead.subset (by simp))
    simp only [List.map_cons]
    by_cases ht : t.kind = .endOfInput
    · rw [outcome_end ht, outcome_end (hk ▸ ht)]
      exact matched_readEnd hc h
    · rw [outcome_cons ht, outcome_cons (hk ▸ ht)]
      have hstep := sameStep_read hc hps h hahead
      generalize s.read c t = step, s'.read c' u = step' at hstep ⊢
      cases hstep with
      | ok hnext => exact ih hnext ((List.suffix_cons _ _).trans hahead)
      | error he => exact .error he

end ParseState

open ParseState

/-- There is a filter ahead in both or in neither. -/
theorem matched_next {T : Filter → Filter → Prop} {ps : List (Token × Token)} {c c' : Config}
    (hc : c.Corresponds T c') (hps : InStep ps) :
    Matched (SameError ps) (Option.Rel T) (Parser.ofTokens c (ps.map Prod.fst)).next.1
      (Parser.ofTokens c' (ps.map Prod.snd)).next.1 := by
  have hrun := matched_outcome hc hps ⟨sameAround_start 0, .field⟩ (List.suffix_refl ps)
  have hend : (Parser.ofTokens c (ps.map Prod.fst)).atEnd =
      (Parser.ofTokens c' (ps.map Prod.snd)).atEnd := by
    cases ps with
    | nil => rfl
    | cons p ps => simp [Parser.atEnd, Parser.ofTokens, hps.kinds p (by simp)]
  rw [Parser.next, Parser.next, ← hend]
  split_ifs
  · exact .ok .none
  · change Matched _ _ ((outcome c (start 0) (ps.map Prod.fst)).map some)
      ((outcome c' (start 0) (ps.map Prod.snd)).map some)
    generalize outcome c (start 0) _ = result, outcome c' (start 0) _ = result' at hrun ⊢
    cases hrun with
    | ok hq => exact .ok (.some hq)
    | error he => exact .error he

end FilterLang
