import FilterLang.Proofs.Lexemes
import FilterLang.Proofs.Location

/-! Which texts can still become a filter: `parse_final`. An error that is not about the end is
decided by tokens of the text alone: only a symbol that touches the last one could change how they
are read, and after a blank nothing touches them. Where there is no such error, the text stops in a
state that a word and some closing parentheses complete. -/

namespace FilterLang

def StartsBlank (text : String) : Prop := ∃ c cs, text.toList = c :: cs ∧ isBlank c = true

theorem StartsBlank.append {text : String} (h : StartsBlank text) (text' : String) :
    StartsBlank (text ++ text') := by
  obtain ⟨c, cs, htext, hc⟩ := h
  exact ⟨c, cs ++ text'.toList, by simp [htext], hc⟩

variable {c : Config} {f s : String} {ts us : List Token}

theorem Lexes.append_blank {k : Nat} {a : List Char} {b : Char} (h : Lexes k a ts)
    (hb : isBlank b = true) : Lexes k (a ++ [b]) ts := by
  have hseam : Parted a [b] := .inl (endsWord_cons.mpr (isWordChar_eq_false_of_isBlank hb))
  simpa using h.append hseam (.blank hb .nil)

/-- After a blank the tokens of a text are followed by tokens that do not touch them. -/
theorem Lexes.exists_of_startsBlank (hlex : Lexes 0 f.toList ts) (hs : StartsBlank s)
    (h : Lexes 0 (f ++ s).toList us) :
    ∃ vs, us = ts ++ vs ∧ ∀ v ∈ vs, f.utf8ByteSize < v.span.start := by
  obtain ⟨b, cs, htext, hb⟩ := hs
  have hwhole : (f ++ s).toList = (f.toList ++ [b]) ++ cs := by simp [htext]
  rw [hwhole] at h
  have hseam : Parted (f.toList ++ [b]) cs :=
    .inr (by simpa using isWordChar_eq_false_of_isBlank hb)
  obtain ⟨vs, rfl, hvs⟩ := (hlex.append_blank hb).exists_of_append hseam h
  refine ⟨vs, rfl, fun v hv => ?_⟩
  have hstart := (hvs.bounds v hv).1
  have hpos : 0 < b.utf8Size := b.utf8Size_pos
  rw [utf8Length_append, utf8Length_toList, utf8Length, utf8Length] at hstart
  omega

theorem Joined.exists_stop {text : String} {span : Span} (h : Joined ts text span) :
    ∃ t ∈ ts, t.span.stop = span.stop := by
  cases h with
  | symbol ht => exact ⟨_, ht, rfl⟩
  | push _ ht => exact ⟨_, ht, rfl⟩

namespace ParseState

theorem Reached.parts {s : ParseState} {k : Nat} (h : Reached ts s)
    (hts : ∀ t ∈ ts, t.span.stop ≤ k) (hus : ∀ u ∈ us, k < u.span.start) : s.Parts us := by
  intro left text span he u hu
  obtain ⟨t, ht, hstop⟩ := (h.symbols left text span he).exists_stop
  refine Option.eq_none_iff_forall_ne_some.mpr fun ch hch => ?_
  have hgap := hus u (List.mem_of_head? hu)
  have hless := hts t ht
  rw [start_of_adjacentSymbol? hch, ← hstop] at hgap
  omega

/-- An error that is not about the end stays the same whatever follows after a gap. -/
theorem outcome_append_of_error {e : ParseError} {k : Nat} (hlex : ∀ t ∈ ts, t.kind ≠ .endOfInput)
    (hts : ∀ t ∈ ts, t.span.stop ≤ k) (hus : ∀ u ∈ us, k < u.span.start) (he : e.isAtEnd = false)
    (h : outcome c (start 0) ts = .error e) : outcome c (start 0) (ts ++ us) = .error e := by
  rcases blames_or_reached c hlex with ⟨e', -, hfault⟩ | ⟨s, hs, hrest⟩
  · have hnil := hfault []
    rw [List.append_nil, h] at hnil
    rw [hfault, hnil]
  · have hnil := hrest []
    rw [List.append_nil, h] at hnil
    rcases outcome_plain_cases (c := c) s with ⟨e', -, hfault⟩ | ⟨s', hplain, -, hclose⟩
    · rw [hfault [] (hs.parts hts (by simp))] at hnil
      rw [hrest, hfault us (hs.parts hts hus), hnil]
    · rw [hclose [] (hs.parts hts (by simp)), outcome_nil, hplain.readEnd_eq] at hnil
      rw [isAtEnd_of_close hnil.symm] at he
      cases he

end ParseState

theorem parse_append_of_error {e : ParseError} (hlex : Lexes 0 f.toList ts) (hs : StartsBlank s)
    (hwhole : Lexes 0 (f ++ s).toList us) (he : e.isAtEnd = false)
    (h : Filter.parse c f = .error e) : Filter.parse c (f ++ s) = .error e := by
  obtain ⟨hne, hout⟩ := outcome_of_parse_eq_error hlex h
  obtain ⟨vs, rfl, hvs⟩ := hlex.exists_of_startsBlank hs hwhole
  have hstop : ∀ t ∈ ts, t.span.stop ≤ f.utf8ByteSize := fun t ht => by
    simpa [utf8Length_toList] using (hlex.bounds t ht).2
  rw [parse_of_lexes hwhole, if_neg (by simp [hne]), ParseState.outcome_append_of_error
    (fun t ht => (hlex.lexical t ht).ne_endOfInput) hstop hvs he hout]
  rfl

theorem Lexes.append_space (hlex : Lexes 0 f.toList ts) : Lexes 0 (f ++ " ").toList ts := by
  have htext : (f ++ " ").toList = f.toList ++ [' '] := by simp
  rw [htext]
  exact hlex.append_blank (by decide)

theorem parse_append_space (hlex : Lexes 0 f.toList ts) :
    Filter.parse c (f ++ " ") = Filter.parse c f := by
  rw [parse_of_lexes hlex.append_space, parse_of_lexes hlex]

theorem parse_append_word_of_blank (hlex : Lexes 0 f.toList []) :
    Filter.parse c (f ++ " x") = .ok (some (.name "x")) := by
  obtain ⟨span, us, hwhole, hlength, -⟩ := hlex.exists_append_word 0
  have hus : us = [] := List.length_eq_zero_iff.mp hlength
  have htext : f ++ " x" ++ closing 0 = f ++ " x" := String.append_empty
  rw [htext, hus] at hwhole
  rw [parse_of_lexes hwhole, if_neg (by simp)]
  rfl

/-- A text that is complete, or where only the end is at fault, can go on to a filter. -/
theorem exists_parse_append (hlex : Lexes 0 f.toList ts)
    (h : Filter.parse c f = .ok none ∨ (∃ q, Filter.parse c f = .ok (some q)) ∨
      Filter.parse c f = .error .unexpectedEnd ∨
      ∃ span, Filter.parse c f = .error (.missingParen span)) :
    ∃ s q, StartsBlank s ∧ Filter.parse c (f ++ s) = .ok (some q) := by
  rcases h with hnone | ⟨q, hq⟩ | hend | ⟨span, hparen⟩
  · exact ⟨" x", _, ⟨_, _, rfl, by decide⟩,
      parse_append_word_of_blank (parse_eq_ok_none_iff.mp hnone)⟩
  · exact ⟨" ", q, ⟨_, _, rfl, by decide⟩, by rw [parse_append_space hlex, hq]⟩
  · obtain ⟨q, hq⟩ := parse_word_of_unexpectedEnd hlex hend
    rw [String.append_assoc] at hq
    exact ⟨" x" ++ closing (unclosed ts).length, q, .append ⟨_, _, rfl, by decide⟩ _, hq⟩
  · rw [← parse_append_space hlex] at hparen
    obtain ⟨-, q, hq⟩ := parse_closing_of_missingParen hlex.append_space hparen
    rw [String.append_assoc] at hq
    exact ⟨" " ++ closing (unclosed ts).length, q, .append ⟨_, _, rfl, by decide⟩ _, hq⟩

theorem complete_or_at_end_of_parse_append {q : Filter} (hlex : Lexes 0 f.toList ts)
    (hs : StartsBlank s) (h : Filter.parse c (f ++ s) = .ok (some q)) :
    Filter.parse c f = .ok none ∨ (∃ q, Filter.parse c f = .ok (some q)) ∨
      Filter.parse c f = .error .unexpectedEnd ∨
      ∃ span, Filter.parse c f = .error (.missingParen span) := by
  cases hparse : Filter.parse c f with
  | ok r =>
    cases r with
    | none => exact .inl rfl
    | some q' => exact .inr (.inl ⟨q', rfl⟩)
  | error e =>
    cases he : e.isAtEnd with
    | false =>
      obtain ⟨us, hus⟩ := exists_lexes_of_parse h
      rw [parse_append_of_error hlex hs hus he hparse] at h
      cases h
    | true =>
      rcases ParseError.isAtEnd_iff.mp he with rfl | ⟨span, rfl⟩
      · exact .inr (.inr (.inl rfl))
      · exact .inr (.inr (.inr ⟨span, rfl⟩))

/-- An error that is not about the end of a text stays the same whatever follows after a blank. So a
text can go on to a filter just if it is empty, complete, or malformed only at its end. -/
theorem parse_final {toks : List Token} (h : Token.ofText f = .ok toks) :
    (∀ e, Filter.parse c f = .error e → e.isAtEnd = false → ∀ s, StartsBlank s →
      (∃ toks', Token.ofText (f ++ s) = .ok toks') → Filter.parse c (f ++ s) = .error e) ∧
    ((∃ s q, StartsBlank s ∧ Filter.parse c (f ++ s) = .ok (some q)) ↔
      Filter.parse c f = .ok none ∨ (∃ q, Filter.parse c f = .ok (some q)) ∨
        Filter.parse c f = .error .unexpectedEnd ∨
        ∃ span, Filter.parse c f = .error (.missingParen span)) := by
  obtain ⟨ts, hlex, -⟩ := Token.ofText_eq_ok_iff.mp h
  refine ⟨fun e he hfault s hs ⟨toks', hwhole⟩ => ?_,
    fun ⟨s, q, hs, hq⟩ => complete_or_at_end_of_parse_append hlex hs hq, exists_parse_append hlex⟩
  obtain ⟨us, hus, -⟩ := Token.ofText_eq_ok_iff.mp hwhole
  exact parse_append_of_error hlex hs hus hfault he

/-- Symbols at the end of a text are an operator of their own when a blank follows, so that they are
unknown can be told before the next symbol. -/
theorem parse_final_unknown_operator :
    ∃ toks toks', Token.ofText "a <~" = .ok toks ∧ Token.ofText "a <~ = b" = .ok toks' ∧
      StartsBlank " = b" ∧ Filter.parse {} "a <~" = .error (.unknownOperator "<~" ⟨2, 4⟩) ∧
      Filter.parse {} "a <~ = b" = .error (.unknownOperator "<~" ⟨2, 4⟩) ∧
      ¬ ∃ s q, StartsBlank s ∧ Filter.parse {} ("a <~" ++ s) = .ok (some q) := by
  have hlex : Token.ofText "a <~" =
      .ok ((Scanner.ofText "a <~").tokens.push ⟨.endOfInput, 4, 4⟩).toList := by rfl
  have hwhole : Token.ofText "a <~ = b" =
      .ok ((Scanner.ofText "a <~ = b").tokens.push ⟨.endOfInput, 8, 8⟩).toList := by rfl
  have hparse : Filter.parse {} "a <~" = .error (.unknownOperator "<~" ⟨2, 4⟩) := by rfl
  have hblank : StartsBlank " = b" := ⟨' ', ['=', ' ', 'b'], rfl, by decide⟩
  obtain ⟨hfinal, hiff⟩ := parse_final (c := {}) hlex
  refine ⟨_, _, hlex, hwhole, hblank, hparse, hfinal _ hparse rfl " = b" hblank ⟨_, hwhole⟩, ?_⟩
  rw [hiff, hparse]
  simp

end FilterLang
