import FilterLang.Proofs.Segmentation
import FilterLang.Proofs.Shape
import FilterLang.Proofs.SideBySide

/-! What becomes of a number changes the texts of numbers and nothing else: `parse_numbers`. The
tree with numbers as they were written and the one with numbers written by any other rule have the
same shape over the same leaf tokens, and what is no filter is at fault in the same place. -/

namespace FilterLang

/-- The texts of a leaf token, as it was written and with numbers written by `write`. -/
inductive LeafText (write : String → Binary → String) : TokenKind → String → String → Prop
  | word {text} : LeafText write (.word text) text text
  | quoted {d text} : LeafText write (.quoted d text) text text
  | number {text x} : LeafText write (.number text x) text (write text x)

inductive LeafTexts (write : String → Binary → String) :
    List TokenKind → List String → List String → Prop
  | nil : LeafTexts write [] [] []
  | cons {k ks text text' texts texts'} : LeafText write k text text' →
      LeafTexts write ks texts texts' → LeafTexts write (k :: ks) (text :: texts) (text' :: texts')

/-- The trees have the same shape, and these leaf tokens from left to right. A name is no number. -/
inductive Renumbered (write : String → Binary → String) : List TokenKind → Filter → Filter → Prop
  | wordName {text} : Renumbered write [.word text] (.name text) (.name text)
  | quotedName {d text} : Renumbered write [.quoted d text] (.name text) (.name text)
  | value {k text text'} : LeafText write k text text' →
      Renumbered write [k] (.value text) (.value text')
  | values {ks texts texts'} : LeafTexts write ks texts texts' →
      Renumbered write ks (.values texts) (.values texts')
  | group {ks q q'} : Renumbered write ks q q' → Renumbered write ks (.group q) (.group q')
  | negation {ks q q'} : Renumbered write ks q q' →
      Renumbered write ks (.negation q) (.negation q')
  | comparison {op ks ls left left' right right'} : Renumbered write ks left left' →
      Renumbered write ls right right' →
      Renumbered write (ks ++ ls) (.comparison op left right) (.comparison op left' right')
  | membership {ks ls left left' right right'} : Renumbered write ks left left' →
      Renumbered write ls right right' →
      Renumbered write (ks ++ ls) (.membership left [right]) (.membership left' [right'])
  | connection {op ks ls left left' right right'} : Renumbered write ks left left' →
      Renumbered write ls right right' →
      Renumbered write (ks ++ ls) (.connection op left right) (.connection op left' right')

def TokenKind.isMark : TokenKind → Bool
  | word text => (Operator.lookup text).isSome
  | quoted _ _ | number _ _ => false
  | _ => true

/-- The tokens up to the rest are these leaves, in this order, and marks between them. -/
inductive LeafTokens (rest : List Token) : List Token → List TokenKind → Prop
  | nil : LeafTokens rest rest []
  | leaf {t ts ks} : LeafTokens rest ts ks → LeafTokens rest (t :: ts) (t.kind :: ks)
  | mark {t ts ks} : t.kind.isMark = true → LeafTokens rest ts ks → LeafTokens rest (t :: ts) ks

variable {write : String → Binary → String}

theorem Renumbered.apply (r : Relation) {ks ls : List TokenKind} {left left' right right' : Filter}
    (hl : Renumbered write ks left left') (hr : Renumbered write ls right right') :
    Renumbered write (ks ++ ls) (r.apply left right) (r.apply left' right') := by
  cases r with
  | comparison op => exact .comparison hl hr
  | membership => exact .membership hl hr

namespace LeafTokens

variable {ts mid rest : List Token} {ks ls : List TokenKind}

theorem trans (h : LeafTokens mid ts ks) (h' : LeafTokens rest mid ls) :
    LeafTokens rest ts (ks ++ ls) := by
  induction h with
  | nil => exact h'
  | leaf _ ih => exact .leaf ih
  | mark ht _ ih => exact .mark ht ih

theorem trans_marks (h : LeafTokens mid ts ks) (h' : LeafTokens rest mid []) :
    LeafTokens rest ts ks := by
  have := h.trans h'
  rwa [List.append_nil] at this

theorem append (h : LeafTokens rest ts ks) (more : List Token) :
    LeafTokens (rest ++ more) (ts ++ more) ks := by
  induction h with
  | nil => exact .nil
  | leaf _ ih => exact .leaf ih
  | mark ht _ ih => exact .mark ht ih

theorem exists_of_mem (h : LeafTokens rest ts ks) {k : TokenKind} (hk : k ∈ ks) :
    ∃ t ∈ ts, t.kind = k := by
  induction h with
  | nil => cases hk
  | @leaf t ts ks _ ih =>
    rcases List.mem_cons.mp hk with rfl | hk
    · exact ⟨t, by simp, rfl⟩
    · obtain ⟨u, hu, hkind⟩ := ih hk
      exact ⟨u, by simp [hu], hkind⟩
  | mark _ _ ih =>
    obtain ⟨u, hu, hkind⟩ := ih hk
    exact ⟨u, by simp [hu], hkind⟩

theorem of_symbolRun {cs : List Char} (h : SymbolRun cs ts rest) : LeafTokens rest ts [] := by
  induction h with
  | last ht => exact .mark (by rw [ht]; rfl) .nil
  | cons ht _ _ ih => exact .mark (by rw [ht]; rfl) ih

theorem of_spelled {o : Operator} (h : Spelled o ts rest) : LeafTokens rest ts [] := by
  cases h with
  | word _ ht =>
    have hlookup : Operator.lookup o.spelling = some o := Operator.lookup_eq_some_iff.mpr rfl
    exact .mark (by rw [ht, TokenKind.isMark, hlookup]; rfl) .nil
  | symbols _ _ h => exact of_symbolRun h

end LeafTokens

theorem Renumbered.exists_of_leaf {make : String → Filter} (hmake : make = .name ∨ make = .value)
    {k : TokenKind} {q : Filter} (h : k.leaf? .verbatim make = some q) :
    ∃ q', Renumbered write [k] q q' ∧
      ∀ numbers : NumberText, numbers.write = write → k.leaf? numbers make = some q' := by
  cases k with
  | word text =>
    refine ⟨q, ?_, fun _ _ => h⟩
    simp only [TokenKind.leaf?] at h
    split_ifs at h
    cases h
    rcases hmake with rfl | rfl
    · exact .wordName
    · exact .value .word
  | quoted d text =>
    refine ⟨q, ?_, fun _ _ => h⟩
    cases h
    rcases hmake with rfl | rfl
    · exact .quotedName
    · exact .value .quoted
  | number text x =>
    cases h
    refine ⟨_, .value .number, fun numbers hnumbers => ?_⟩
    rw [← hnumbers]
    rfl
  | openParen | closeParen | comma | symbol | endOfInput => cases h

theorem TokenKind.isSome_element? (k : TokenKind) (numbers numbers' : NumberText) :
    (k.element? numbers).isSome = (k.element? numbers').isSome := by
  cases k <;> rfl

theorem exists_leafTexts {items : List Token}
    (h : ∀ e ∈ items, e.kind = .comma ∨ (e.kind.element? .verbatim).isSome) :
    ∃ ks texts, (∀ rest, LeafTokens rest (items ++ rest) ks) ∧
      LeafTexts write ks (items.filterMap (·.kind.element? .verbatim)) texts ∧
      ∀ numbers : NumberText, numbers.write = write →
        items.filterMap (·.kind.element? numbers) = texts := by
  induction items with
  | nil => exact ⟨[], [], fun _ => .nil, .nil, fun _ _ => rfl⟩
  | cons e items ih =>
    obtain ⟨he, hitems⟩ := List.forall_mem_cons.mp h
    obtain ⟨ks, texts, hks, htexts, hsame⟩ := ih hitems
    obtain ⟨kind, span⟩ := e
    cases kind with
    | comma => exact ⟨ks, texts, fun rest => .mark rfl (hks rest), htexts, hsame⟩
    | word text =>
      exact ⟨_ :: ks, _, fun rest => .leaf (hks rest), .cons .word htexts,
        fun m hm => congrArg (text :: ·) (hsame m hm)⟩
    | quoted d text =>
      exact ⟨_ :: ks, _, fun rest => .leaf (hks rest), .cons .quoted htexts,
        fun m hm => congrArg (text :: ·) (hsame m hm)⟩
    | number text x =>
      refine ⟨_ :: ks, _, fun rest => .leaf (hks rest), .cons .number htexts, fun m hm => ?_⟩
      subst hm
      exact congrArg (m.write text x :: ·) (hsame m rfl)
    | openParen | closeParen | symbol | endOfInput => simp [TokenKind.element?] at he

/-- The tree has this derivation whenever numbers are written by `write`. -/
def DerivesAs (write : String → Binary → String) (p : Phrase) (n : Nat) (ts : List Token)
    (q : Filter) (rest : List Token) : Prop :=
  ∀ numbers : NumberText, numbers.write = write → Derives numbers p n ts q rest

/-- What a phrase becomes with numbers written by `write`, of which nothing is asked. -/
def Renumbers (write : String → Binary → String) (p : Phrase) (n : Nat) (ts : List Token)
    (q : Filter) (rest : List Token) : Prop :=
  match p with
  | .tails left => ∀ ls left', Renumbered write ls left left' → ∃ ks q',
      DerivesAs write (.tails left') n ts q' rest ∧ LeafTokens rest ts ks ∧
        Renumbered write (ls ++ ks) q q'
  | p => ∃ ks q', DerivesAs write p n ts q' rest ∧ LeafTokens rest ts ks ∧
      Renumbered write ks q q'

theorem Derives.renumbers {p : Phrase} {n : Nat} {ts rest : List Token} {q : Filter}
    (h : Derives .verbatim p n ts q rest) : Renumbers write p n ts q rest := by
  induction h with
  | chain _ _ ih ih' =>
    obtain ⟨ks, left', hleft, hks, hrenumbered⟩ := ih
    obtain ⟨ls, q', hq, hls, hrenumbered'⟩ := ih' ks left' hrenumbered
    exact ⟨ks ++ ls, q', fun m hm => .chain (hleft m hm) (hq m hm), hks.trans hls, hrenumbered'⟩
  | noTail =>
    exact fun ls left' hleft =>
      ⟨[], left', fun _ _ => .noTail, .nil, by rwa [List.append_nil]⟩
  | connectionTail ho _ _ ih ih' =>
    intro ls left' hleft
    obtain ⟨ks, right', hright, hks, hrenumbered⟩ := ih
    obtain ⟨ks', q', hq, hks', hrenumbered'⟩ := ih' _ _ (.connection hleft hrenumbered)
    refine ⟨ks ++ ks', q', fun m hm => .connectionTail ho (hright m hm) (hq m hm), ?_,
      by rwa [← List.append_assoc]⟩
    exact (LeafTokens.of_spelled ho).trans (hks.trans hks')
  | relationTail ho _ _ ih ih' =>
    intro ls left' hleft
    obtain ⟨ks, right', hright, hks, hrenumbered⟩ := ih
    obtain ⟨ks', q', hq, hks', hrenumbered'⟩ := ih' _ _ (.apply _ hleft hrenumbered)
    refine ⟨ks ++ ks', q', fun m hm => .relationTail ho (hright m hm) (hq m hm), ?_,
      by rwa [← List.append_assoc]⟩
    exact (LeafTokens.of_spelled ho).trans (hks.trans hks')
  | negationTail ho _ ih =>
    intro ls left' hleft
    obtain ⟨ks, q', hq, hks, hrenumbered⟩ := ih _ _ (.negation hleft)
    exact ⟨ks, q', fun m hm => .negationTail ho (hq m hm), (LeafTokens.of_spelled ho).trans hks,
      hrenumbered⟩
  | connection _ ho _ ih ih' =>
    obtain ⟨ks, left', hleft, hks, hrenumbered⟩ := ih
    obtain ⟨ls, right', hright, hls, hrenumbered'⟩ := ih'
    exact ⟨ks ++ ls, _, fun m hm => .connection (hleft m hm) ho (hright m hm),
      hks.trans ((LeafTokens.of_spelled ho).trans hls), .connection hrenumbered hrenumbered'⟩
  | relation _ ho _ ih ih' =>
    obtain ⟨ks, left', hleft, hks, hrenumbered⟩ := ih
    obtain ⟨ls, right', hright, hls, hrenumbered'⟩ := ih'
    exact ⟨ks ++ ls, _, fun m hm => .relation (hleft m hm) ho (hright m hm),
      hks.trans ((LeafTokens.of_spelled ho).trans hls), .apply _ hrenumbered hrenumbered'⟩
  | negationAfter _ ho ih =>
    obtain ⟨ks, q', hq, hks, hrenumbered⟩ := ih
    exact ⟨ks, _, fun m hm => .negationAfter (hq m hm) ho, hks.trans_marks (.of_spelled ho),
      .negation hrenumbered⟩
  | alone _ hrest ih =>
    obtain ⟨ks, q', hq, hks, hrenumbered⟩ := ih
    exact ⟨ks, q', fun m hm => .alone (hq m hm) hrest, hks, hrenumbered⟩
  | group ht _ hu ih =>
    obtain ⟨ks, q', hq, hks, hrenumbered⟩ := ih
    have hleaves := hks.trans_marks (.mark (by rw [hu]; rfl) .nil)
    exact ⟨ks, _, fun m hm => .group ht (hq m hm) hu, .mark (by rw [ht]; rfl) hleaves,
      .group hrenumbered⟩
  | negation ho _ ih =>
    obtain ⟨ks, q', hq, hks, hrenumbered⟩ := ih
    exact ⟨ks, _, fun m hm => .negation ho (hq m hm), (LeafTokens.of_spelled ho).trans hks,
      .negation hrenumbered⟩
  | field ht =>
    obtain ⟨q', hrenumbered, hq⟩ := Renumbered.exists_of_leaf (.inl rfl) ht
    exact ⟨_, q', fun m hm => .field (hq m hm), .leaf .nil, hrenumbered⟩
  | @list _ _ u _ rest ht hts hu =>
    obtain ⟨ks, texts, hks, htexts, hsame⟩ := exists_leafTexts hts
    have hleaves := (hks (u :: rest)).trans_marks (.mark (by rw [hu]; rfl) .nil)
    refine ⟨ks, .values texts, fun m hm => ?_, .mark (by rw [ht]; rfl) hleaves, .values htexts⟩
    rw [← hsame m hm]
    exact .list ht (fun e he => by simpa only [e.kind.isSome_element? m .verbatim] using hts e he) hu
  | negatedOperand ho _ ih =>
    obtain ⟨ks, q', hq, hks, hrenumbered⟩ := ih
    exact ⟨ks, _, fun m hm => .negatedOperand ho (hq m hm), (LeafTokens.of_spelled ho).trans hks,
      .negation hrenumbered⟩
  | value ht =>
    obtain ⟨q', hrenumbered, hq⟩ := Renumbered.exists_of_leaf (.inr rfl) ht
    exact ⟨_, q', fun m hm => .value (hq m hm), .leaf .nil, hrenumbered⟩

theorem Token.ofText_number {k : Nat} {cs : List Char} {ts : List Token} (h : Lexes k cs ts)
    {t : Token} (ht : t ∈ ts) {text : String} {x : Binary} (hkind : t.kind = .number text x) :
    Token.ofText text = .ok [⟨.number text x, 0, utf8Length text.toList⟩,
      ⟨.endOfInput, utf8Length text.toList, utf8Length text.toList⟩] := by
  have hwell := h.wellFormed t ht
  rw [hkind] at hwell
  exact Token.ofText_of_lexes (lexes_number hwell.1 hwell.2)

/-- The trees have the leaf tokens of the text, and differ in what became of its numbers only. -/
def Filter.DifferInNumbers (write : String → Binary → String) (f : String) (q q' : Filter) : Prop :=
  ∃ ts ks, Token.ofText f = .ok ts ∧ LeafTokens [] ts ks ∧ Renumbered write ks q q' ∧
    ∀ text x, .number text x ∈ ks →
      Token.ofText text = .ok [⟨.number text x, 0, utf8Length text.toList⟩,
        ⟨.endOfInput, utf8Length text.toList, utf8Length text.toList⟩]

theorem Derives.exists_differInNumbers {f : String} {n : Nat} {ts : List Token} {q : Filter}
    (hlex : Lexes 0 f.toList ts) (h : Derives .verbatim .chain n ts q []) :
    ∃ q', DerivesAs write .chain n ts q' [] ∧ Filter.DifferInNumbers write f q q' := by
  obtain ⟨ks, q', hq, hks, hrenumbered⟩ := h.renumbers
  refine ⟨q', hq, _, ks, Token.ofText_of_lexes hlex, ?_, hrenumbered, fun text x hnumber => ?_⟩
  · exact (hks.append _).trans_marks (.mark rfl .nil)
  · obtain ⟨t, ht, hkind⟩ := hks.exists_of_mem hnumber
    exact Token.ofText_number hlex ht hkind

theorem Config.corresponds_true {c c' : Config} (h : c.maxDepth = c'.maxDepth) :
    c.Corresponds (fun _ _ => True) c' := by
  constructor <;> simp [h]

theorem inStep_self (ts : List Token) : InStep (ts.map fun t => (t, t)) where
  kinds := by simp
  touching := (List.isChain_map _).mpr (List.pairwise_of_forall fun _ _ _ _ => Iff.rfl).isChain

/-- The places of one list tell an error. -/
theorem SameError.eq_of_self {ts : List Token} {e e' : ParseError}
    (h : SameError (ts.map fun t => (t, t)) e e') : e = e' := by
  have hself {t u : Token} (h : (t, u) ∈ ts.map fun t => (t, t)) : t = u := by
    obtain ⟨_, -, ⟨⟩⟩ := List.mem_map.mp h
    rfl
  cases h with
  | unrecognizedToken ht => rw [hself ht]
  | unexpectedEnd | tooDeep => rfl
  | missingParen hopening =>
    cases hopening with
    | mk ht => rw [hself ht]
  | @unknownOperator read _ _ _ hread hjoin =>
    have hsame : read.map Prod.fst = read.map Prod.snd :=
      List.map_congr_left fun p hp => hself (hread.subset hp)
    have hleft := hjoin.left
    rw [hsame] at hleft
    rw [hleft.span_eq hjoin.right]

/-- However numbers are written, a text gives the error that it gives with numbers as they are, or no
filter either, or a tree that differs in the texts of numbers only. -/
theorem matched_parse_numbers (c : Config) (numbers : NumberText) (f : String) :
    Matched (· = ·) (Option.Rel (Filter.DifferInNumbers numbers.write f))
      (Filter.parse { c with numbers := .verbatim } f)
      (Filter.parse { c with numbers := numbers } f) := by
  cases hlex : Token.ofText f with
  | error e =>
    simp only [Filter.parse, hlex]
    exact .error rfl
  | ok ts =>
    have hparse (c' : Config) : Filter.parse c' f = (Parser.ofTokens c' ts).next.1 := by
      simp only [Filter.parse, hlex]
    have hc : Config.Corresponds (fun _ _ => True) { c with numbers := .verbatim }
        { c with numbers := numbers } := Config.corresponds_true rfl
    have hnext := matched_next hc (inStep_self ts)
    simp only [List.map_map, Function.comp_def, List.map_id'] at hnext
    rw [← hparse, ← hparse] at hnext
    generalize hverbatim : Filter.parse { c with numbers := .verbatim } f = r,
      hwritten : Filter.parse { c with numbers := numbers } f = r' at hnext ⊢
    cases hnext with
    | error he => exact .error he.eq_of_self
    | ok h =>
      cases h with
      | none => exact .ok .none
      | @some q q' _ =>
        obtain ⟨us, hus, hq⟩ := parse_eq_ok_some_iff.mp hverbatim
        obtain ⟨q'', hq'', hdiffer⟩ := hq.exists_differInNumbers hus
        have hparse' : Filter.parse { c with numbers := numbers } f = .ok (some q'') :=
          parse_eq_ok_some_iff.mpr ⟨us, hus, hq'' numbers rfl⟩
        rw [hwritten] at hparse'
        cases hparse'
        exact .ok (.some hdiffer)

/-- With numbers as they are written and with their values in the canonical layout a text gives the
same error, or no filter, or trees that differ in the texts of numbers only. -/
theorem parse_numbers (c : Config) (f : String) :
    Matched (· = ·) (Option.Rel (Filter.DifferInNumbers NumberText.normalized.write f))
      (Filter.parse { c with numbers := .verbatim } f)
      (Filter.parse { c with numbers := .normalized } f) :=
  matched_parse_numbers c .normalized f

end FilterLang
