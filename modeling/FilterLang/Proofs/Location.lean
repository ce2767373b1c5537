import FilterLang.Proofs.Blame

/-! Where the errors of a text are: `exists_standsAt_of_parse`. The span of a token covers the
characters that the token is written with, and symbols that touch are written without a gap. So an
error marks the very text that it tells, and the carets stand under its characters. -/

namespace FilterLang

theorem utf8Length_toList (text : String) : utf8Length text.toList = text.utf8ByteSize := by
  obtain ⟨cs, rfl⟩ : ∃ cs, text = String.ofList cs := ⟨_, String.ofList_toList.symm⟩
  rw [String.toList_ofList]
  induction cs with
  | nil => rfl
  | cons c cs ih =>
    have hcons : String.ofList (c :: cs) = String.singleton c ++ String.ofList cs := by
      apply String.toList_inj.mp
      simp
    rw [hcons, String.utf8ByteSize_append, String.utf8ByteSize_singleton, ← ih, utf8Length]

/-- Only one first part of a text has as many bytes as there are in it. -/
theorem eq_of_append_of_utf8ByteSize {a a' b b' : String} (h : a ++ b = a' ++ b')
    (hsize : a.utf8ByteSize = a'.utf8ByteSize) : a = a' := by
  have hlist : a.toList ++ b.toList = a'.toList ++ b'.toList := by
    rw [← String.toList_append, h, String.toList_append]
  have hcount : some a.toList.length = some a'.toList.length := by
    rw [← charsIn?_append a.toList b.toList, ← charsIn?_append a'.toList b'.toList, hlist,
      utf8Length_toList, utf8Length_toList, hsize]
  exact String.toList_inj.mp (List.append_inj hlist (Option.some.inj hcount)).1

/-- The span covers one part of a text, which is not empty. -/
structure Span.Marks (s : Span) (text before marked after : String) : Prop where
  text_eq : text = before ++ marked ++ after
  ne_empty : marked ≠ ""
  start_eq : s.start = before.utf8ByteSize
  stop_eq : s.stop = (before ++ marked).utf8ByteSize

namespace Span.Marks

variable {s t : Span} {text before before' marked marked' after after' : String}

theorem append (h : s.Marks text before marked after) (h' : t.Marks text before' marked' after')
    (hstart : t.start = s.stop) :
    Span.Marks ⟨s.start, t.stop⟩ text before (marked ++ marked') after' := by
  have htext : before ++ marked ++ after = before' ++ (marked' ++ after') := by
    rw [← h.text_eq, h'.text_eq, String.append_assoc]
  have hbefore : before ++ marked = before' := by
    refine eq_of_append_of_utf8ByteSize htext ?_
    rw [← h.stop_eq, ← hstart, h'.start_eq]
  subst hbefore
  refine ⟨?_, by simp [h.ne_empty], h.start_eq, ?_⟩
  · rw [h'.text_eq]
    simp only [String.append_assoc]
  · rw [h'.stop_eq, String.append_assoc]

theorem start_lt_stop (h : s.Marks text before marked after) : s.start < s.stop := by
  have hpos : marked.utf8ByteSize ≠ 0 := mt String.utf8ByteSize_eq_zero_iff.mp h.ne_empty
  rw [h.start_eq, h.stop_eq, String.utf8ByteSize_append]
  omega

theorem stop_le (h : s.Marks text before marked after) : s.stop ≤ text.utf8ByteSize := by
  rw [h.stop_eq, h.text_eq]
  simp only [String.utf8ByteSize_append]
  omega

theorem isValid_start (h : s.Marks text before marked after) :
    String.Pos.Raw.IsValid text ⟨s.start⟩ := by
  refine String.Pos.Raw.isValid_iff_exists_append.mpr ⟨before, marked ++ after, ?_, ?_⟩
  · rw [h.text_eq, String.append_assoc]
  · rw [h.start_eq]
    rfl

theorem isValid_stop (h : s.Marks text before marked after) :
    String.Pos.Raw.IsValid text ⟨s.stop⟩ := by
  refine String.Pos.Raw.isValid_iff_exists_append.mpr ⟨before ++ marked, after, h.text_eq, ?_⟩
  rw [h.stop_eq]
  rfl

theorem charsIn?_start (h : s.Marks text before marked after) :
    charsIn? s.start text.toList = some before.length := by
  have htext : text.toList = before.toList ++ (marked.toList ++ after.toList) := by
    simp [h.text_eq]
  rw [h.start_eq, ← utf8Length_toList, htext, charsIn?_append, String.length_toList]

theorem charsIn?_stop (h : s.Marks text before marked after) :
    charsIn? s.stop text.toList = some (before ++ marked).length := by
  have htext : text.toList = (before ++ marked).toList ++ after.toList := by
    simp [h.text_eq]
  rw [h.stop_eq, ← utf8Length_toList, htext, charsIn?_append, String.length_toList]

theorem width?_eq (h : s.Marks text before marked after) :
    s.width? text.toList = some marked.length := by
  have hle := Nat.le_of_lt h.start_lt_stop
  simp [Span.width?, h.charsIn?_start, h.charsIn?_stop, hle]

/-- The carets stand under the part that is covered, one for each of its characters. -/
theorem caretLine_eq (h : s.Marks text before marked after) : s.caretLine text =
    String.ofList (List.replicate before.length ' ' ++ List.replicate marked.length '^') := by
  have hpos : 1 ≤ marked.length := by
    have hlength : marked.length ≠ 0 := by simpa using h.ne_empty
    omega
  simp [Span.caretLine, h.charsIn?_start, h.width?_eq, Nat.max_eq_right hpos]

end Span.Marks

theorem TokenKind.text_ofWord (text : String) : (ofWord text).text = text := by
  unfold ofWord
  split <;> rfl

theorem TokenKind.text_ofSingle (c : Char) : (ofSingle c).text = c.toString := by
  unfold ofSingle
  split_ifs with hopen hclose hcomma
  · rw [hopen]
    rfl
  · rw [hclose]
    rfl
  · rw [hcomma]
    rfl
  · rfl

/-- Each token stands in the text just as it is written. -/
theorem Lexes.exists_text {k : Nat} {cs : List Char} {ts : List Token} (h : Lexes k cs ts) :
    ∀ t ∈ ts, t.kind.text.toList ≠ [] ∧ ∃ a b, cs = a ++ t.kind.text.toList ++ b ∧
      t.span = ⟨k + utf8Length a, k + utf8Length (a ++ t.kind.text.toList)⟩ := by
  induction h with
  | nil => simp
  | @blank k c cs ts _ _ ih =>
    intro t ht
    obtain ⟨hne, a, b, rfl, hspan⟩ := ih t ht
    exact ⟨hne, c :: a, b, by simp, by rw [hspan]; simp [utf8Length, Nat.add_assoc]⟩
  | @single k c cs ts _ _ _ _ ih =>
    refine List.forall_mem_cons.mpr ⟨?_, fun t ht => ?_⟩
    · simp only [TokenKind.text_ofSingle]
      exact ⟨by simp, [], cs, by simp, by simp [utf8Length]⟩
    · obtain ⟨hne, a, b, rfl, hspan⟩ := ih t ht
      exact ⟨hne, c :: a, b, by simp, by rw [hspan]; simp [utf8Length, Nat.add_assoc]⟩
  | @word k w cs ts hw _ _ _ ih =>
    refine List.forall_mem_cons.mpr ⟨?_, fun t ht => ?_⟩
    · simp only [TokenKind.text_ofWord, String.toList_ofList]
      exact ⟨hw, [], cs, by simp, by simp [utf8Length]⟩
    · obtain ⟨hne, a, b, rfl, hspan⟩ := ih t ht
      exact ⟨hne, w ++ a, b, by simp, by rw [hspan]; simp [utf8Length_append, Nat.add_assoc]⟩
  | @quoted k d w cs ts _ _ _ ih =>
    refine List.forall_mem_cons.mpr ⟨?_, fun t ht => ?_⟩
    · have htext : (TokenKind.quoted d (String.ofList w)).text.toList = d :: w ++ [d] := by
        simp [TokenKind.text]
      simp only [htext]
      exact ⟨by simp, [], cs, by simp, by simp [utf8Length]⟩
    · obtain ⟨hne, a, b, rfl, hspan⟩ := ih t ht
      exact ⟨hne, d :: w ++ [d] ++ a, b, by simp,
        by rw [hspan]; simp [utf8Length_append, utf8Length, Nat.add_assoc]⟩

variable {f : String} {ts : List Token}

/-- A part of the characters is a part of the text. -/
theorem Span.exists_marks {span : Span} {marked : String} (hne : marked.toList ≠ [])
    (h : ∃ a b, f.toList = a ++ marked.toList ++ b ∧
      span = ⟨0 + utf8Length a, 0 + utf8Length (a ++ marked.toList)⟩) :
    ∃ before after, span.Marks f before marked after := by
  obtain ⟨a, b, hcs, hspan⟩ := h
  refine ⟨String.ofList a, String.ofList b, ?_, by simpa using hne, ?_, ?_⟩
  · apply String.toList_inj.mp
    simpa using hcs
  · rw [hspan, ← utf8Length_toList]
    simp
  · rw [hspan, ← utf8Length_toList]
    simp

theorem Lexes.exists_marks (h : Lexes 0 f.toList ts) {t : Token} (ht : t ∈ ts) :
    ∃ before after, t.span.Marks f before t.kind.text after :=
  have hwritten := h.exists_text t ht
  Span.exists_marks hwritten.1 hwritten.2

theorem Joined.exists_marks (hlex : Lexes 0 f.toList ts) {text : String} {span : Span}
    (h : Joined ts text span) : ∃ before after, span.Marks f before text after := by
  induction h with
  | @symbol t ch ht hch =>
    have hmarks := hlex.exists_marks ht
    rwa [hch] at hmarks
  | @push text span t ch _ ht hch hstart ih =>
    obtain ⟨before, _, hbefore⟩ := ih
    obtain ⟨_, after, hafter⟩ := hlex.exists_marks ht
    rw [hch] at hafter
    have hpush : text ++ (TokenKind.symbol ch).text = text.push ch := by
      apply String.toList_inj.mp
      simp [TokenKind.text]
    exact ⟨before, after, hpush ▸ hbefore.append hafter hstart⟩

theorem mem_foldl_bracket {opened : List Span} {span : Span}
    (h : span ∈ ts.foldl bracket opened) :
    span ∈ opened ∨ ∃ t ∈ ts, t.kind = .openParen ∧ t.span = span := by
  induction ts generalizing opened with
  | nil => exact .inl h
  | cons t ts ih =>
    rcases ih h with hmem | ⟨u, hu, hopen⟩
    · unfold bracket at hmem
      split at hmem
      · next ht =>
        rcases List.mem_cons.mp hmem with rfl | hmem
        · exact .inr ⟨t, by simp, ht, rfl⟩
        · exact .inl hmem
      · exact .inl (List.mem_of_mem_tail hmem)
      · exact .inl hmem
    · exact .inr ⟨u, by simp [hu], hopen⟩

theorem mem_of_unclosed {span : Span} (h : span ∈ unclosed ts) :
    ∃ t ∈ ts, t.kind = .openParen ∧ t.span = span :=
  (mem_foldl_bracket h).resolve_left (by simp)

/-- The text that an error tells; `after` is what follows it in the filter. -/
def ParseError.Tells (e : ParseError) (marked after : String) : Prop :=
  match e with
  | openQuote q =>
    (∃ text, marked = q.delimiter.toString ++ text ∧ q.delimiter ∉ text.toList) ∧ after = ""
  | unrecognizedToken text _ => marked = text
  | unknownOperator text _ => marked = text
  | missingParen _ => marked = "("
  | unexpectedEnd | arity _ | tooDeep _ => False

/-- A text with an open quote is at fault from that quote to its end. -/
theorem LeavesOpen.exists_marks {q : OpenQuote} (h : LeavesOpen 0 f.toList q) :
    ∃ before marked, q.span.Marks f before marked "" ∧
      (ParseError.openQuote q).Tells marked "" := by
  obtain ⟨a, w, _, hcs, -, -, hw, hspan⟩ := h
  refine ⟨String.ofList a, q.delimiter.toString ++ String.ofList w, ⟨?_, by simp, ?_, ?_⟩,
    ⟨_, rfl, by simpa using hw⟩, rfl⟩
  · apply String.toList_inj.mp
    simpa using hcs
  · rw [hspan, ← utf8Length_toList]
    simp
  · rw [hspan, hcs, ← utf8Length_toList]
    simp

theorem Blames.exists_marks {limit : Nat} {e : ParseError} {s : Span} (hlex : Lexes 0 f.toList ts)
    (h : Blames limit ts e) (hs : e.span? = some s) :
    ∃ before marked after, s.Marks f before marked after ∧ e.Tells marked after := by
  cases h with
  | token ht =>
    cases hs
    obtain ⟨before, after, hmarks⟩ := hlex.exists_marks ht
    exact ⟨before, _, after, hmarks, rfl⟩
  | @word t text ht htext =>
    cases hs
    obtain ⟨before, after, hmarks⟩ := hlex.exists_marks ht
    rw [htext] at hmarks
    exact ⟨before, _, after, hmarks, rfl⟩
  | symbols hjoined =>
    cases hs
    obtain ⟨before, after, hmarks⟩ := hjoined.exists_marks hlex
    exact ⟨before, _, after, hmarks, rfl⟩
  | levels => cases hs

theorem exists_marks_of_missingParen {c : Config} {s : Span} (hlex : Lexes 0 f.toList ts)
    (h : Filter.parse c f = .error (.missingParen s)) :
    ∃ before after, s.Marks f before "(" after := by
  obtain ⟨hhead, -⟩ := parse_closing_of_missingParen hlex h
  obtain ⟨t, ht, hopen, rfl⟩ := mem_of_unclosed (List.mem_of_head? hhead)
  have hmarks := hlex.exists_marks ht
  rwa [hopen] at hmarks

/-- An error that has a place tells what is written there. -/
theorem exists_marks_of_parse {c : Config} {e : ParseError} {s : Span}
    (h : Filter.parse c f = .error e) (hs : e.span? = some s) :
    ∃ before marked after, s.Marks f before marked after ∧ e.Tells marked after := by
  rcases lexes_or_leavesOpen 0 f.toList with ⟨ts, hlex⟩ | ⟨q, hopen⟩
  · cases he : e.isAtEnd with
    | true =>
      rcases ParseError.isAtEnd_iff.mp he with rfl | ⟨opening, rfl⟩
      · cases hs
      · cases hs
        obtain ⟨before, after, hmarks⟩ := exists_marks_of_missingParen hlex h
        exact ⟨before, _, after, hmarks, rfl⟩
    | false => exact (blames_of_parse hlex h he).exists_marks hlex hs
  · rw [Filter.parse, Token.ofText_of_leavesOpen hopen] at h
    cases h
    cases hs
    obtain ⟨before, marked, hmarks, htells⟩ := hopen.exists_marks
    exact ⟨before, marked, "", hmarks, htells⟩

/-- The error is about the part `marked` of a filter, from one boundary of characters to another,
and the carets stand under it. -/
structure ParseError.StandsAt (e : ParseError) (s : Span) (f before marked after : String) : Prop
    extends s.Marks f before marked after where
  tells : e.Tells marked after
  start_lt_stop : s.start < s.stop
  stop_le : s.stop ≤ f.utf8ByteSize
  isValid_start : String.Pos.Raw.IsValid f ⟨s.start⟩
  isValid_stop : String.Pos.Raw.IsValid f ⟨s.stop⟩
  /-- The blanks before the carets are counted, and do not fall back to none. -/
  charsIn?_start : charsIn? s.start f.toList = some before.length
  /-- The carets are counted, and do not fall back to one. -/
  width?_eq : s.width? f.toList = some marked.length
  caretLine_eq : s.caretLine f =
    String.ofList (List.replicate before.length ' ' ++ List.replicate marked.length '^')

/-- The span of an error covers just the text that the error tells, and the line of carets has a
blank for each character before it and a caret for each character of it. -/
theorem exists_standsAt_of_parse {c : Config} {f : String} {e : ParseError} {s : Span}
    (h : Filter.parse c f = .error e) (hs : e.span? = some s) :
    ∃ before marked after : String, e.StandsAt s f before marked after := by
  obtain ⟨before, marked, after, hmarks, htells⟩ := exists_marks_of_parse h hs
  exact ⟨before, marked, after, hmarks, htells, hmarks.start_lt_stop, hmarks.stop_le,
    hmarks.isValid_start, hmarks.isValid_stop, hmarks.charsIn?_start, hmarks.width?_eq,
    hmarks.caretLine_eq⟩

/-- A character of several bytes counts once before the carets, and joined symbols are one
operator. -/
theorem exists_standsAt_of_parse_joined :
    let e : ParseError := .unknownOperator "<~" ⟨3, 5⟩
    Filter.parse {} "é <~ 1" = .error e ∧ e.span? = some ⟨3, 5⟩ ∧
      ∃ before marked after : String, e.StandsAt ⟨3, 5⟩ "é <~ 1" before marked after := by
  intro e
  have hparse : Filter.parse {} "é <~ 1" = .error e := by rfl
  exact ⟨hparse, rfl, exists_standsAt_of_parse hparse rfl⟩

end FilterLang
