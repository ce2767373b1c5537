import FilterLang.Filter.Definition
import FilterLang.Proofs.Writing
import Mathlib.Data.List.Chain

/-! The tokens of a definition, read off the tree: `ofText_definition`. Each lexeme of the tree is a
group of tokens, and blanks keep the symbols of an operator apart from all others. The lexemes can
be read off the tokens again: symbols that touch are one lexeme, and a word that spells an operator
is told from the texts, which are never written like one. So what a text can be the definition of is
a matter of lexemes, whatever the spans are. -/

namespace FilterLang

inductive Lexeme
  /-- A name, a value or an element of a list, quoted or not. -/
  | atom (text : String)
  /-- The spelling of an operator, or symbols that touch each other and none else. -/
  | operator (spelling : String)
  | openParen
  | closeParen
  | comma
  | endOfInput
  deriving DecidableEq

/-- The first of some tokens is a symbol that starts where `t` ends. -/
def Token.meets (t : Token) : List Token → Bool
  | [] => false
  | u :: _ =>
    match u.kind with
    | .symbol _ => u.span.start == t.span.stop
    | _ => false

theorem Token.meets_cons_iff {t u : Token} {ts : List Token} :
    t.meets (u :: ts) = true ↔ t.Touches u := by
  obtain ⟨kind, span⟩ := u
  cases kind <;> simp [Token.meets, Token.Touches]

/-- Both are symbols, and `u` starts where `t` ends. -/
def Token.Adjoins (t u : Token) : Prop := (∃ ch, t.kind = .symbol ch) ∧ t.Touches u

/-- One more symbol before some lexemes, part of the first one if it touches that. -/
def Lexeme.addSymbol (ch : Char) (touching : Bool) (ls : List Lexeme) : List Lexeme :=
  match touching, ls with
  | true, operator spelling :: ls => operator (ch.toString ++ spelling) :: ls
  | _, ls => operator ch.toString :: ls

def TokenKind.lexeme : TokenKind → Lexeme
  | word text => if (Operator.lookup text).isSome then .operator text else .atom text
  | quoted _ text | number text _ => .atom text
  | openParen => .openParen
  | closeParen => .closeParen
  | comma => .comma
  | symbol ch => .operator ch.toString
  | endOfInput => .endOfInput

def lexemes : List Token → List Lexeme
  | [] => []
  | t :: ts =>
    match t.kind with
    | .symbol ch => Lexeme.addSymbol ch (t.meets ts) (lexemes ts)
    | kind => kind.lexeme :: lexemes ts

theorem lexemes_cons {t : Token} {ts : List Token} (h : ∀ ch, t.kind ≠ .symbol ch) :
    lexemes (t :: ts) = t.kind.lexeme :: lexemes ts := by
  rw [lexemes]
  split
  · next ch hch => exact absurd hch (h ch)
  · rfl

theorem lexemes_symbol {t : Token} {ts : List Token} {ch : Char} (h : t.kind = .symbol ch) :
    lexemes (t :: ts) = Lexeme.addSymbol ch (t.meets ts) (lexemes ts) := by
  simp only [lexemes, h]

theorem Lexeme.addSymbol_ne_nil (ch : Char) (touching : Bool) (ls : List Lexeme) :
    addSymbol ch touching ls ≠ [] := by
  unfold addSymbol
  split <;> simp

theorem Lexeme.addSymbol_append {ls : List Lexeme} (ch : Char) (touching : Bool)
    (h : ls = [] → touching = false) (ms : List Lexeme) :
    addSymbol ch touching (ls ++ ms) = addSymbol ch touching ls ++ ms := by
  cases ls with
  | nil =>
    rw [h rfl]
    rfl
  | cons l ls =>
    cases touching with
    | false => rfl
    | true => cases l <;> rfl

theorem lexemes_ne_nil {ts : List Token} (h : ts ≠ []) : lexemes ts ≠ [] := by
  obtain ⟨t, ts, rfl⟩ := List.exists_cons_of_ne_nil h
  cases ht : t.kind with
  | symbol ch =>
    rw [lexemes_symbol ht]
    exact Lexeme.addSymbol_ne_nil _ _ _
  | _ =>
    rw [lexemes_cons (by simp [ht])]
    simp

/-- No symbol of the first tokens goes on in the others. -/
def Apart (ts us : List Token) : Prop := ∀ t ∈ ts, ∀ u ∈ us, ¬ t.Adjoins u

theorem Apart.append {ts us vs : List Token} (hu : Apart ts us) (hv : Apart ts vs) :
    Apart ts (us ++ vs) :=
  fun t ht u hmem => (List.mem_append.mp hmem).elim (hu t ht u) (hv t ht u)

theorem Apart.meets_eq_false {t : Token} {us : List Token} {ch : Char} (h : Apart [t] us)
    (ht : t.kind = .symbol ch) : t.meets us = false := by
  cases us with
  | nil => rfl
  | cons u us =>
    exact Bool.eq_false_iff.mpr fun hmeets =>
      h t (by simp) u (by simp) ⟨⟨ch, ht⟩, Token.meets_cons_iff.mp hmeets⟩

theorem lexemes_append {ts us : List Token} (h : Apart ts us) :
    lexemes (ts ++ us) = lexemes ts ++ lexemes us := by
  induction ts with
  | nil => rfl
  | cons t ts ih =>
    have htail : Apart ts us := fun u hu => h u (List.mem_cons_of_mem _ hu)
    rw [List.cons_append]
    cases ht : t.kind with
    | symbol ch =>
      rw [lexemes_symbol ht, lexemes_symbol ht, ih htail]
      cases ts with
      | nil =>
        rw [List.nil_append, h.meets_eq_false ht]
        exact Lexeme.addSymbol_append ch false (fun _ => rfl) _
      | cons u ts =>
        exact Lexeme.addSymbol_append ch _ (fun hnil => absurd hnil (lexemes_ne_nil (by simp))) _
    | _ => rw [lexemes_cons (by simp [ht]), lexemes_cons (by simp [ht]), ih htail, List.cons_append]

theorem SymbolRun.lexemes_eq {cs : List Char} {ts rest : List Token} (h : SymbolRun cs ts rest) :
    lexemes ts = .operator (String.ofList cs) :: lexemes rest := by
  induction h with
  | @last t ch rest ht hrest =>
    have hmeets : t.meets rest = false := by
      cases rest with
      | nil => rfl
      | cons u rest =>
        exact Bool.eq_false_iff.mpr fun hmeets =>
          hrest u (by simp) (Token.meets_cons_iff.mp hmeets)
    have htext : ch.toString = String.ofList [ch] := by
      apply String.toList_inj.mp
      simp
    rw [lexemes_symbol ht, hmeets, ← htext]
    rfl
  | cons ht htu _ ih =>
    rw [lexemes_symbol ht, Token.meets_cons_iff.mpr htu, ih]
    simp only [Lexeme.addSymbol]
    congr 2
    apply String.toList_inj.mp
    simp

/-- An operator is one lexeme, however it is spelled. -/
theorem Spelled.lexemes_eq {o : Operator} {ts rest : List Token} (h : Spelled o ts rest) :
    lexemes ts = .operator o.spelling :: lexemes rest := by
  cases h with
  | word _ ht =>
    rw [lexemes_cons (by simp [ht]), ht]
    simp [TokenKind.lexeme, Operator.lookup_spelling]
  | symbols _ hcs hrun => rw [hrun.lexemes_eq, hcs]

theorem Lexes.bounds {k : Nat} {cs : List Char} {ts : List Token} (h : Lexes k cs ts) :
    ∀ t ∈ ts, k ≤ t.span.start ∧ t.span.stop ≤ k + utf8Length cs := by
  induction h with
  | nil => simp
  | blank _ _ ih =>
    intro t ht
    have := ih t ht
    simp only [utf8Length]
    omega
  | single _ _ _ _ ih =>
    refine List.forall_mem_cons.mpr ⟨by simp only [utf8Length]; omega, fun t ht => ?_⟩
    have := ih t ht
    simp only [utf8Length]
    omega
  | word _ _ _ _ ih =>
    refine List.forall_mem_cons.mpr ⟨by simp only [utf8Length_append]; omega, fun t ht => ?_⟩
    have := ih t ht
    simp only [utf8Length_append]
    omega
  | @quoted k d w cs ts _ _ _ ih =>
    have hlength : utf8Length (d :: w ++ d :: cs) =
        utf8Length (d :: w ++ [d]) + utf8Length cs := by
      rw [← utf8Length_append]
      simp
    rw [hlength]
    refine List.forall_mem_cons.mpr ⟨by simp only; omega, fun t ht => ?_⟩
    have := ih t ht
    omega

theorem apart_of_not_symbol {ts us : List Token} (h : ∀ t ∈ ts, ∀ ch, t.kind ≠ .symbol ch) :
    Apart ts us :=
  fun t ht _ _ hadjoins => hadjoins.1.elim fun ch hch => h t ht ch hch

theorem apart_singleton {ts : List Token} {u : Token} (h : ∀ ch, u.kind ≠ .symbol ch) :
    Apart ts [u] := by
  intro t _ v hv hadjoins
  obtain rfl := List.mem_singleton.mp hv
  obtain ⟨-, ⟨ch, hch⟩, -⟩ := hadjoins
  exact h ch hch

/-- Tokens with a character between their texts do not touch. -/
theorem apart_of_lexes {k k' : Nat} {a b : List Char} {ts us : List Token} (ha : Lexes k a ts)
    (hb : Lexes k' b us) (hlt : k + utf8Length a < k') : Apart ts us := by
  intro t ht u hu hadjoins
  have hstop := (ha.bounds t ht).2
  have hstart := (hb.bounds u hu).1
  have htouches := hadjoins.2.2
  omega

/-- One kind for each token: an atom is one token, an operator a word or symbols. -/
def Lexeme.kinds : Lexeme → List TokenKind
  | atom text => [.ofAtom text]
  | operator spelling =>
    if spelling.toList.all isWordChar then [.word spelling] else spelling.toList.map .symbol
  | openParen => [.openParen]
  | closeParen => [.closeParen]
  | comma => [.comma]
  | endOfInput => [.endOfInput]

theorem TokenKind.lexeme_ofAtom (text : String) : (ofAtom text).lexeme = .atom text := by
  unfold ofAtom
  split
  · next hbare =>
    have hop : (Operator.lookup text).isSome = false := by simpa using hbare.2.2
    unfold ofWord
    split
    · rfl
    · simp [lexeme, hop]
  · rfl

theorem TokenKind.ofAtom_ne_symbol (text : String) (ch : Char) : ofAtom text ≠ symbol ch :=
  (standsFor_ofAtom text ⟨0, 0⟩).ne_symbol ch

/-- No atom is written like an operator. -/
theorem TokenKind.ofAtom_ne_word_spelling (text : String) (o : Operator) :
    ofAtom text ≠ word o.spelling := by
  intro h
  have hlexeme := congrArg lexeme h
  rw [lexeme_ofAtom] at hlexeme
  simp [lexeme, Operator.lookup_spelling] at hlexeme

theorem Lexeme.kinds_operator (o : Operator) : (operator o.spelling).kinds =
    if o.isSymbolic then o.spelling.toList.map .symbol else [.word o.spelling] := by
  have all : ∀ o ∈ Operator.all, o.spelling.toList.all isWordChar = !o.isSymbolic := by decide
  rw [kinds, all o (Operator.mem_all o)]
  cases o.isSymbolic <;> rfl

/-- A group of tokens for each lexeme: the tokens have its kinds, and those of one group touch each
other and no symbol of another group. The lexemes can be read off them again. -/
structure Grouped (ls : List Lexeme) (groups : List (List Token)) : Prop where
  kinds : groups.map (·.map (·.kind)) = ls.map Lexeme.kinds
  joined : ∀ ts ∈ groups, ts.IsChain Token.Adjoins
  apart : groups.Pairwise Apart
  read : lexemes groups.flatten = ls

namespace Grouped

variable {ls ms : List Lexeme} {gs hs : List (List Token)}

theorem nil : Grouped [] [] := ⟨rfl, by simp, .nil, rfl⟩

theorem append (hl : Grouped ls gs) (hm : Grouped ms hs) (h : Apart gs.flatten hs.flatten) :
    Grouped (ls ++ ms) (gs ++ hs) where
  kinds := by rw [List.map_append, List.map_append, hl.kinds, hm.kinds]
  joined ts hts := (List.mem_append.mp hts).elim (hl.joined ts) (hm.joined ts)
  apart := List.pairwise_append.mpr ⟨hl.apart, hm.apart, fun ts hts us hus t ht u hu =>
    h t (List.mem_flatten_of_mem hts ht) u (List.mem_flatten_of_mem hus hu)⟩
  read := by rw [List.flatten_append, lexemes_append h, hl.read, hm.read]

theorem single {l : Lexeme} {ts : List Token} (hkinds : ts.map (·.kind) = l.kinds)
    (hjoined : ts.IsChain Token.Adjoins) (hread : lexemes ts = [l]) : Grouped [l] [ts] where
  kinds := by rw [List.map_singleton, List.map_singleton, hkinds]
  joined := by simpa using hjoined
  apart := List.pairwise_singleton _ _
  read := by rw [List.flatten_singleton, hread]

/-- A token that is no symbol is a lexeme alone. -/
theorem alone {l : Lexeme} {t : Token} (hkind : [t.kind] = l.kinds) (hread : t.kind.lexeme = l)
    (ht : ∀ ch, t.kind ≠ .symbol ch) : Grouped [l] [[t]] :=
  single hkind (.singleton t) (by rw [lexemes_cons ht, hread, lexemes])

end Grouped

theorem SymbolRun.joined {cs : List Char} {ts : List Token} (h : SymbolRun cs ts []) :
    ts.map (·.kind) = cs.map .symbol ∧ ts.IsChain Token.Adjoins := by
  generalize hrest : ([] : List Token) = rest at h
  induction h with
  | last ht _ =>
    subst hrest
    exact ⟨by simp [ht], .singleton _⟩
  | cons ht htu _ ih =>
    obtain ⟨hkinds, hchain⟩ := ih hrest
    exact ⟨by rw [List.map_cons, hkinds, ht, List.map_cons], .cons_cons ⟨⟨_, ht⟩, htu⟩ hchain⟩

theorem Spelled.joined {o : Operator} {ts : List Token} (h : Spelled o ts []) :
    ts.map (·.kind) = (Lexeme.operator o.spelling).kinds ∧ ts.IsChain Token.Adjoins := by
  rw [Lexeme.kinds_operator]
  cases h with
  | word ho ht => simp [ho, ht]
  | symbols ho hcs hrun =>
    rw [ho, ← hcs]
    simpa using hrun.joined

/-- Wherever the characters stand, they make these lexemes. -/
def Spells (cs : List Char) (ls : List Lexeme) : Prop :=
  ∀ k, ∃ groups, Lexes k cs groups.flatten ∧ Grouped ls groups

namespace Spells

variable {a b : List Char} {ls ms : List Lexeme}

theorem nil : Spells [] [] := fun _ => ⟨[], .nil, .nil⟩

theorem spaced (ha : Spells a ls) (hb : Spells b ms) : Spells (a ++ ' ' :: b) (ls ++ ms) := by
  intro k
  obtain ⟨gs, hgs, hl⟩ := ha k
  obtain ⟨hs, hhs, hm⟩ := hb (k + utf8Length a + 1)
  exact ⟨gs ++ hs, by simpa using hgs.spaced hhs,
    hl.append hm (apart_of_lexes hgs hhs (Nat.lt_succ_self _))⟩

theorem comma (ha : Spells a ls) (hb : Spells b ms) : Spells (a ++ ',' :: b) (ls ++ .comma :: ms) := by
  intro k
  obtain ⟨gs, hgs, hl⟩ := ha k
  obtain ⟨hs, hhs, hm⟩ := hb (k + utf8Length a + 1)
  let t : Token := ⟨.comma, k + utf8Length a, k + utf8Length a + 1⟩
  have hcomma : Lexes (k + utf8Length a) (',' :: b) (t :: hs.flatten) :=
    .single (by decide) (by decide) (by decide) hhs
  have ht : ∀ ch, t.kind ≠ .symbol ch := nofun
  have hwhole := hgs.append (.inl (endsWord_cons.mpr (by decide))) hcomma
  have hrest : Grouped (.comma :: ms) ([t] :: hs) :=
    (Grouped.alone rfl rfl ht).append hm (apart_of_not_symbol (by simp [t]))
  exact ⟨gs ++ [t] :: hs, by simpa using hwhole, hl.append hrest
    ((apart_singleton ht).append (apart_of_lexes hgs hhs (Nat.lt_succ_self _)))⟩

theorem parenthesized (ha : Spells a ls) :
    Spells ('(' :: a ++ [')']) (.openParen :: ls ++ [.closeParen]) := by
  intro k
  obtain ⟨gs, hgs, hl⟩ := ha (k + 1)
  obtain ⟨t, u, ht, hu, hwhole⟩ := hgs.parenthesized
  have hopen : Grouped [.openParen] [[t]] :=
    .alone (by rw [ht]; rfl) (by rw [ht]; rfl) (by simp [ht])
  have hclose : Grouped [.closeParen] [[u]] :=
    .alone (by rw [hu]; rfl) (by rw [hu]; rfl) (by simp [hu])
  have hfront := hopen.append hl (apart_of_not_symbol (by simp [ht]))
  exact ⟨_, by simpa using hwhole,
    hfront.append hclose (by simpa using apart_singleton (by simp [hu]))⟩

theorem operator (o : Operator) : Spells o.spelling.toList [.operator o.spelling] := by
  intro k
  obtain ⟨ts, hts, ho⟩ := exists_lexes_spelling o k
  have hspelled := ho [] (by simp [Operator.EndsBefore])
  rw [List.append_nil] at hspelled
  obtain ⟨hkinds, hjoined⟩ := hspelled.joined
  exact ⟨[ts], by simpa using hts, .single hkinds hjoined (by rw [hspelled.lexemes_eq, lexemes])⟩

theorem between (ha : Spells a ls) (o : Operator) (hb : Spells b ms) :
    Spells (a ++ ' ' :: (o.spelling.toList ++ ' ' :: b)) (ls ++ .operator o.spelling :: ms) :=
  ha.spaced ((operator o).spaced hb)

theorem atom {text : String} (h : Quotable text) :
    Spells (Filter.atom text).toList [.atom text] := by
  intro k
  obtain ⟨s, hs⟩ := lexes_atom h k
  exact ⟨[[⟨.ofAtom text, s⟩]], hs,
    .alone rfl (TokenKind.lexeme_ofAtom text) (TokenKind.ofAtom_ne_symbol text)⟩

end Spells

namespace Lexeme

def parenthesized (ls : List Lexeme) : List Lexeme := openParen :: ls ++ [closeParen]

def parenthesizedIf (b : Bool) (ls : List Lexeme) : List Lexeme := if b then parenthesized ls else ls

def commaSeparated : List (List Lexeme) → List Lexeme
  | [] => []
  | [ls] => ls
  | ls :: lss => ls ++ comma :: commaSeparated lss

end Lexeme

namespace Filter

mutual

def lexemes : Filter → List Lexeme
  | name text | value text => [.atom text]
  | values texts => Lexeme.commaSeparated (texts.map ([.atom ·]))
  | group inner => Lexeme.parenthesized inner.lexemes
  | negation operand =>
    .operator Operator.negation.spelling ::
      Lexeme.parenthesizedIf (!operand.isGroup) operand.lexemes
  | comparison op left right => left.lexemes ++ .operator op.spelling :: right.lexemes
  | membership field among =>
    field.lexemes ++ .operator Relation.membership.spelling ::
      Lexeme.parenthesized (Lexeme.commaSeparated (lexemesOfAll among))
  | connection op left right =>
    Lexeme.parenthesizedIf left.leftNeedsGroup left.lexemes ++ .operator op.spelling ::
      Lexeme.parenthesizedIf right.rightNeedsGroup right.lexemes

def lexemesOfAll : List Filter → List (List Lexeme)
  | [] => []
  | q :: qs => q.lexemes :: lexemesOfAll qs

end

/-- No text of the tree contains both kinds of quote. -/
inductive Writable : Filter → Prop
  | name {text} : Quotable text → Writable (name text)
  | value {text} : Quotable text → Writable (value text)
  | values {texts} : (∀ text ∈ texts, Quotable text) → Writable (values texts)
  | group {q} : Writable q → Writable (group q)
  | negation {q} : Writable q → Writable (negation q)
  | comparison {op left right} : Writable left → Writable right →
      Writable (comparison op left right)
  | membership {field among} : Writable field → (∀ q ∈ among, Writable q) →
      Writable (membership field among)
  | connection {op left right} : Writable left → Writable right →
      Writable (connection op left right)

theorem spells_parenthesizedIf {text : String} {ls : List Lexeme} (h : Spells text.toList ls)
    (b : Bool) : Spells (if b then parenthesized text else text).toList
      (Lexeme.parenthesizedIf b ls) := by
  cases b with
  | false => exact h
  | true => simpa [parenthesized, Lexeme.parenthesizedIf, Lexeme.parenthesized] using h.parenthesized

theorem spells_commaSeparated {α : Type} {write : α → String} {read : α → List Lexeme}
    {xs : List α} (h : ∀ x ∈ xs, Spells (write x).toList (read x)) :
    Spells (commaSeparated (xs.map write)).toList (Lexeme.commaSeparated (xs.map read)) := by
  induction xs with
  | nil => exact .nil
  | cons x xs ih =>
    have hx := h x (by simp)
    have hxs := ih fun y hy => h y (by simp [hy])
    cases xs with
    | nil => exact hx
    | cons y xs => simpa [commaSeparated, Lexeme.commaSeparated] using hx.comma hxs

theorem lexemesOfAll_eq_map (qs : List Filter) : lexemesOfAll qs = qs.map lexemes := by
  induction qs with
  | nil => rfl
  | cons q qs ih => simp [lexemesOfAll, ih]

/-- A definition is made of the lexemes of its tree. -/
theorem Writable.spells {q : Filter} (h : q.Writable) : Spells q.definition.toList q.lexemes := by
  induction h with
  | name hquote => exact .atom hquote
  | value hquote => exact .atom hquote
  | values hquote => exact spells_commaSeparated fun text htext => .atom (hquote text htext)
  | group _ ih => exact spells_parenthesizedIf ih true
  | @negation q _ ih =>
    have hoperand := spells_parenthesizedIf ih (!q.isGroup)
    have hwhole := (Spells.operator .negation).spaced hoperand
    cases hgroup : q.isGroup <;>
      simpa [definition, lexemes, hgroup] using hwhole
  | @comparison op left right _ _ ihl ihr =>
    have hwhole := ihl.between (.relation (.comparison op)) ihr
    simpa [definition, lexemes, Operator.spelling, Relation.spelling] using hwhole
  | @membership field among _ _ ih ihs =>
    have hlist := spells_parenthesizedIf (spells_commaSeparated ihs) true
    have hwhole := ih.between (.relation .membership) hlist
    simpa [definition, lexemes, Operator.spelling, definitions_eq_map, lexemesOfAll_eq_map,
      Lexeme.parenthesizedIf] using hwhole
  | @connection op left right _ _ ihl ihr =>
    have hwhole := (spells_parenthesizedIf ihl left.leftNeedsGroup).between (.connective op)
      (spells_parenthesizedIf ihr right.rightNeedsGroup)
    simpa [definition, lexemes, Operator.spelling] using hwhole

end Filter

/-- The text of a tree lexes to the tokens of its lexemes and the end. A name or a value is one
token, which is no word that spells an operator; an operator is its word, or its symbols, which
touch each other and no other symbol; parentheses and commas stand where the tree has them. -/
theorem ofText_definition {q : Filter} (h : q.Writable) :
    let n := utf8Length q.definition.toList
    (∃ groups, Token.ofText q.definition = .ok (groups.flatten ++ [⟨.endOfInput, n, n⟩]) ∧
      Grouped q.lexemes groups) ∧
    ∀ text (o : Operator), TokenKind.ofAtom text ≠ .word o.spelling := by
  intro n
  obtain ⟨groups, hlex, hgroups⟩ := h.spells 0
  exact ⟨⟨groups, Token.ofText_of_lexes hlex, hgroups⟩, TokenKind.ofAtom_ne_word_spelling⟩

/-- A tree that no text is read as: a comparison without a field and with a comparison for its
value, and operands of all kinds in a membership. -/
theorem ofText_definition_unreadable :
    let q : Filter := .negation (.connection .and
      (.comparison .notEqual (.values []) (.comparison .lower (.name "AND") (.value "é")))
      (.membership (.group (.name ""))
        [.value "1", .values ["it's", "a\tb"], .negation (.name "x")]))
    q.Writable ∧
      q.definition = "NOT ( <> 'AND' < é AND ('') IN (1,\"it's\",'a\tb',NOT (x)))" ∧
      ∃ groups : List (List Token),
        Token.ofText q.definition = .ok (groups.flatten ++ [⟨.endOfInput, 57, 57⟩]) ∧
        Grouped q.lexemes groups ∧
        groups.map (·.map (·.kind)) =
          [[.word "NOT"], [.openParen], [.symbol '<', .symbol '>'], [.quoted '\'' "AND"],
            [.symbol '<'], [.word "é"], [.word "AND"], [.openParen], [.quoted '\'' ""],
            [.closeParen], [.word "IN"], [.openParen],
            [.number "1" (.finite false (Nat.pow 2 52) (-52))], [.comma], [.quoted '"' "it's"], [.comma],
            [.quoted '\'' "a\tb"], [.comma], [.word "NOT"], [.openParen], [.word "x"],
            [.closeParen], [.closeParen], [.closeParen]] := by
  intro q
  have hamong : ∀ p ∈ [.value "1", .values ["it's", "a\tb"], .negation (.name "x")],
      Filter.Writable p := by
    simp only [List.forall_mem_cons, List.not_mem_nil, false_implies, implies_true, and_true]
    exact ⟨.value (by decide), .values (by decide), .negation (.name (by decide))⟩
  have hq : q.Writable := .negation (.connection
    (.comparison (.values (by simp)) (.comparison (.name (by decide)) (.value (by decide))))
    (.membership (.group (.name (by decide))) hamong))
  have hdefinition : q.definition =
      "NOT ( <> 'AND' < é AND ('') IN (1,\"it's\",'a\tb',NOT (x)))" := by rfl
  have hlength : utf8Length q.definition.toList = 57 := by rw [hdefinition]; decide
  obtain ⟨⟨groups, htext, hgroups⟩, -⟩ := ofText_definition hq
  rw [hlength] at htext
  exact ⟨hq, hdefinition, groups, htext, hgroups, hgroups.kinds.trans (by rfl)⟩

end FilterLang
