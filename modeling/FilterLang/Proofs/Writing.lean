import FilterLang.Filter.Definition
import FilterLang.Proofs.Grammar

/-! What is read where a name, a value or an operator is written. An atom is one token, which
gives the text back in each place that it may stand in. An operator is spelled by its own tokens
unless a symbol follows that would be taken for more of it. -/

namespace FilterLang

/-- There is a kind of quote that the text does not contain. -/
def Quotable (text : String) : Prop := ¬ ('\'' ∈ text.toList ∧ '"' ∈ text.toList)

instance (text : String) : Decidable (Quotable text) := inferInstanceAs (Decidable (¬ _))

/-- The whole text is one number. -/
def LexesAsNumber (text : String) : Prop :=
  ∃ x, Lexes 0 text.toList [⟨.number text x, 0, utf8Length text.toList⟩]

/-- In each place that a text may stand in, the token gives this one. -/
structure Token.StandsFor (t : Token) (text : String) : Prop where
  element : t.kind.element? .verbatim = some text
  value : t.kind.value? .verbatim = some (.value text)
  field : ¬ LexesAsNumber text → t.kind.field? .verbatim = some (.name text)

theorem Token.StandsFor.ne_symbol {t : Token} {text : String} (h : t.StandsFor text) (ch : Char) :
    t.kind ≠ .symbol ch := by
  intro ht
  have helement := h.element
  rw [ht] at helement
  cases helement

theorem numberValue?_eq_none {text : String} (h : startsNumeric text.toList = false) :
    numberValue? text = none := by
  simp [numberValue?, h]

theorem TokenKind.ofWord_eq_word {text : String} (h : startsNumeric text.toList = false) :
    ofWord text = word text := by
  rw [ofWord, numberValue?_eq_none h]

theorem not_lexesAsNumber {text : String} (h : startsNumeric text.toList = false) :
    ¬ LexesAsNumber text := by
  rintro ⟨x, hx⟩
  have hvalue : numberValue? text = some x := hx.lexical _ (List.mem_singleton_self _)
  rw [numberValue?_eq_none h] at hvalue
  cases hvalue

theorem lexes_ofWord {text : String} (hne : text ≠ "")
    (hword : ∀ c ∈ text.toList, isWordChar c = true) (k : Nat) :
    Lexes k text.toList [⟨.ofWord text, k, k + utf8Length text.toList⟩] := by
  have hlex := Lexes.word (k := k) (w := text.toList) (by simpa using hne) hword endsWord_nil .nil
  simpa using hlex

theorem standsFor_ofWord {text : String} {s : Span} (hne : text ≠ "")
    (hword : ∀ c ∈ text.toList, isWordChar c = true) (hop : Operator.lookup text = none) :
    Token.StandsFor ⟨.ofWord text, s⟩ text := by
  have hlex := lexes_ofWord hne hword 0
  have hnot : text ≠ Operator.negation.spelling := by
    rintro rfl
    cases hop
  cases hx : numberValue? text with
  | some x =>
    have hkind : TokenKind.ofWord text = .number text x := by rw [TokenKind.ofWord, hx]
    rw [hkind, Nat.zero_add] at hlex
    rw [hkind]
    exact ⟨rfl, rfl, fun h => absurd ⟨x, hlex⟩ h⟩
  | none =>
    have hkind : TokenKind.ofWord text = .word text := by rw [TokenKind.ofWord, hx]
    rw [hkind]
    exact ⟨rfl, if_neg hnot, fun _ => if_neg hnot⟩

theorem lexes_quoted {text : String} {d : Char} (hd : isQuote d = true) (hmem : d ∉ text.toList)
    (k : Nat) : ∃ s, Lexes k (d :: text.toList ++ [d]) [⟨.quoted d text, s⟩] := by
  have hlex := Lexes.quoted (k := k) hd hmem .nil
  rw [String.ofList_toList] at hlex
  exact ⟨_, hlex⟩

/-- The token of an atom: a word or a number if the text can stand bare, else the text in quotes. -/
def TokenKind.ofAtom (text : String) : TokenKind :=
  if text ≠ "" ∧ text.toList.all isWordChar ∧ (Operator.lookup text).isNone then ofWord text
  else quoted (if text.toList.contains '\'' then '"' else '\'') text

theorem standsFor_ofAtom (text : String) (s : Span) : Token.StandsFor ⟨.ofAtom text, s⟩ text := by
  unfold TokenKind.ofAtom
  split
  · next hbare =>
    obtain ⟨hne, hword, hop⟩ := hbare
    exact standsFor_ofWord hne (List.all_eq_true.mp hword) (by simpa using hop)
  · exact ⟨rfl, rfl, fun _ => rfl⟩

/-- An atom is one token. -/
theorem lexes_atom {text : String} (h : Quotable text) (k : Nat) :
    ∃ s, Lexes k (Filter.atom text).toList [⟨.ofAtom text, s⟩] := by
  rw [Filter.atom, TokenKind.ofAtom]
  split_ifs with hbare hquote
  · obtain ⟨hne, hword, -⟩ := hbare
    exact ⟨_, lexes_ofWord hne (List.all_eq_true.mp hword) k⟩
  · have hmem : '"' ∉ text.toList := fun h' => h ⟨by simpa using hquote, h'⟩
    obtain ⟨s, hs⟩ := lexes_quoted (d := '"') rfl hmem k
    exact ⟨s, by simpa using hs⟩
  · have hmem : '\'' ∉ text.toList := by simpa using hquote
    obtain ⟨s, hs⟩ := lexes_quoted (d := '\'') rfl hmem k
    exact ⟨s, by simpa using hs⟩

theorem exists_lexes_atom {text : String} (h : Quotable text) (k : Nat) :
    ∃ ts, Lexes k (Filter.atom text).toList ts ∧
      ∃ t : Token, ts = [t] ∧ t.StandsFor text := by
  obtain ⟨s, hs⟩ := lexes_atom h k
  exact ⟨_, hs, _, rfl, standsFor_ofAtom text s⟩

theorem exists_lexes_commaSeparated {texts : List String} (h : ∀ text ∈ texts, Quotable text)
    (k : Nat) : ∃ ts, Lexes k (Filter.commaSeparated (texts.map Filter.atom)).toList ts ∧
      (∀ e ∈ ts, e.kind = .comma ∨ (e.kind.element? .verbatim).isSome) ∧
      ts.filterMap (·.kind.element? .verbatim) = texts := by
  induction texts generalizing k with
  | nil => exact ⟨[], .nil, by simp, rfl⟩
  | cons text texts ih =>
    obtain ⟨_, hlex, t, rfl, ht⟩ := exists_lexes_atom (h text (by simp)) k
    cases texts with
    | nil => exact ⟨[t], hlex, by simp [ht.element], by simp [ht.element]⟩
    | cons text' texts =>
      obtain ⟨ts, hts, hlist, htexts⟩ := ih (fun u hu => h u (by simp [hu]))
        (k + utf8Length (Filter.atom text).toList + 1)
      have hcomma : Lexes (k + utf8Length (Filter.atom text).toList)
          (',' :: (Filter.commaSeparated ((text' :: texts).map Filter.atom)).toList)
          (⟨.comma, _, _⟩ :: ts) := .single (by decide) (by decide) (by decide) hts
      have hwhole := hlex.append (.inl (endsWord_cons.mpr (by decide))) hcomma
      refine ⟨_, by simpa [Filter.commaSeparated] using hwhole, ?_, ?_⟩
      · simpa [ht.element] using hlist
      · have hskip : TokenKind.comma.element? .verbatim = none := rfl
        simp only [List.filterMap_cons, ht.element, hskip, htexts]

/-- Values in parentheses are one operand, which nests one level. -/
theorem exists_lexes_values {texts : List String} (h : ∀ text ∈ texts, Quotable text) (k : Nat) :
    ∃ ts, Lexes k (Filter.parenthesized (Filter.commaSeparated (texts.map Filter.atom))).toList ts ∧
      ∀ rest, Derives .verbatim .operand 1 (ts ++ rest) (.values texts) rest := by
  obtain ⟨ts, hlex, hlist, htexts⟩ := exists_lexes_commaSeparated h (k + 1)
  obtain ⟨t, u, ht, hu, hwhole⟩ := hlex.parenthesized
  refine ⟨_, by simpa [Filter.parenthesized] using hwhole, fun rest => ?_⟩
  have hvalues : Derives .verbatim .operand 1 (t :: ts ++ u :: rest) (.values _) rest :=
    .list ht hlist hu
  rw [htexts] at hvalues
  simpa using hvalues

theorem exists_lexes_list {texts : List String} (h : ∀ text ∈ texts, Quotable text) (k : Nat) :
    ∃ ts, Lexes k (Filter.parenthesized (Filter.commaSeparated (texts.map Filter.atom))).toList ts ∧
      ∀ rest, Derivable .verbatim .operand (ts ++ rest) (.values texts) rest := by
  obtain ⟨ts, hlex, hvalues⟩ := exists_lexes_values h k
  exact ⟨ts, hlex, fun rest => ⟨1, hvalues rest⟩⟩

/-- Whether the character is a token alone, and a symbol. -/
def isSymbol (c : Char) : Bool :=
  !isBlank c && !isQuote c && !isWordChar c && TokenKind.ofSingle c == .symbol c

theorem isSymbol_iff {c : Char} : isSymbol c = true ↔ isBlank c = false ∧ isQuote c = false ∧
    isWordChar c = false ∧ TokenKind.ofSingle c = .symbol c := by
  simp [isSymbol, and_assoc]

/-- Symbols that touch each other are one run, if no symbol follows. -/
theorem exists_lexes_symbols {cs : List Char} (hne : cs ≠ [])
    (hcs : ∀ c ∈ cs, isSymbol c = true) (k : Nat) :
    ∃ t ts, Lexes k cs (t :: ts) ∧ t.span.start = k ∧
      ∀ rest : List Token, (∀ u ∈ rest.head?, ∀ ch, u.kind ≠ .symbol ch) →
        SymbolRun cs (t :: ts ++ rest) rest := by
  induction cs generalizing k with
  | nil => exact absurd rfl hne
  | cons c cs ih =>
    obtain ⟨hb, hq, hw, hkind⟩ := isSymbol_iff.mp (hcs c (by simp))
    by_cases hcs' : cs = []
    · subst hcs'
      refine ⟨_, _, .single hb hq hw .nil, rfl, fun rest hrest => .last hkind ?_⟩
      rintro u hu ⟨⟨ch, hch⟩, -⟩
      exact hrest u hu ch hch
    · obtain ⟨u, us, hus, hstart, hrun⟩ :=
        ih hcs' (fun d hd => hcs d (by simp [hd])) (k + c.utf8Size)
      refine ⟨_, _, .single hb hq hw hus, rfl, fun rest hrest => ?_⟩
      have hnext := hrun rest hrest
      obtain ⟨_, _, ch, _, hhead, -, hch⟩ := hnext.exists_cons
      cases hhead
      exact .cons hkind ⟨⟨ch, hch⟩, hstart⟩ hnext

/-- No more symbols of these tokens would be taken for some of the operator. -/
def Operator.EndsBefore (o : Operator) (rest : List Token) : Prop :=
  o.isSymbolic = true → ∀ u ∈ rest.head?, ∀ ch, u.kind ≠ .symbol ch

theorem Operator.EndsBefore.of_word {o : Operator} (ho : o.isSymbolic = false)
    (rest : List Token) : o.EndsBefore rest :=
  fun ho' => absurd ho' (by simp [ho])

theorem Operator.EndsBefore.of_standsFor {o : Operator} {t : Token} {text : String}
    (ht : t.StandsFor text) (rest : List Token) : o.EndsBefore (t :: rest) :=
  fun _ => by simpa using ht.ne_symbol

theorem exists_lexes_spelling (o : Operator) (k : Nat) :
    ∃ ts, Lexes k o.spelling.toList ts ∧
      ∀ rest, o.EndsBefore rest → Spelled o (ts ++ rest) rest := by
  cases ho : o.isSymbolic with
  | false =>
    have all : ∀ o ∈ Operator.all, o.isSymbolic = false → o.spelling ≠ "" ∧
        o.spelling.toList.all isWordChar = true ∧
        startsNumeric o.spelling.toList = false := by decide
    obtain ⟨hne, hword, hnumeric⟩ := all o (Operator.mem_all o) ho
    exact ⟨_, lexes_ofWord hne (List.all_eq_true.mp hword) k, fun rest _ =>
      .word ho (TokenKind.ofWord_eq_word hnumeric)⟩
  | true =>
    have all : ∀ o ∈ Operator.all, o.isSymbolic = true → o.spelling.toList ≠ [] ∧
        o.spelling.toList.all isSymbol = true := by decide
    obtain ⟨hne, hcs⟩ := all o (Operator.mem_all o) ho
    obtain ⟨t, ts, hlex, -, hrun⟩ := exists_lexes_symbols hne (List.all_eq_true.mp hcs) k
    exact ⟨_, hlex, fun rest hrest =>
      .symbols ho String.ofList_toList (hrun rest (hrest ho))⟩

/-- A text, an operator and what comes right of it, with spaces between them. -/
theorem exists_lexes_infix {k : Nat} {a b : List Char} {ts : List Token}
    {P : List Token → Prop} (ha : Lexes k a ts) (o : Operator)
    (hb : ∀ k, ∃ us, Lexes k b us ∧ P us) :
    ∃ os us, Lexes k (a ++ ' ' :: (o.spelling.toList ++ ' ' :: b)) (ts ++ (os ++ us)) ∧
      (∀ rest, o.EndsBefore rest → Spelled o (os ++ rest) rest) ∧ P us := by
  obtain ⟨os, hos, ho⟩ := exists_lexes_spelling o (k + utf8Length a + 1)
  obtain ⟨us, hus, hP⟩ := hb (k + utf8Length a + 1 + utf8Length o.spelling.toList + 1)
  exact ⟨os, us, ha.spaced (hos.spaced hus), ho, hP⟩

end FilterLang
