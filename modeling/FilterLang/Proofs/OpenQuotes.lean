import FilterLang.Proofs.Location
import FilterLang.Token.Stream

/-! Splitting a text fails just on an open quote: `ofText_of_quoteScan`. A scan that knows no tokens
but quotes alone, and remembers the one that is open, tells what the scanner says of the whole text
and what a stream of its tokens gives. -/

namespace FilterLang

/-- A quote that opens a quoted text, and the byte where it stands. -/
structure Opening where
  delimiter : Char
  start : Nat
  deriving DecidableEq

/-- The bytes that have been passed, and the quote that is open then. -/
structure QuoteScan where
  position : Nat
  opening? : Option Opening
  deriving DecidableEq

namespace QuoteScan

/-- Outside a quoted text each quote opens one; inside only its own delimiter closes it. -/
def read (s : QuoteScan) (c : Char) : QuoteScan :=
  ⟨s.position + c.utf8Size,
    match s.opening? with
    | none => if isQuote c then some ⟨c, s.position⟩ else none
    | some o => if c = o.delimiter then none else some o⟩

def ofText (text : String) : QuoteScan := text.toList.foldl read ⟨0, none⟩

theorem read_of_not_quote {c : Char} (k : Nat) (hc : isQuote c = false) :
    read ⟨k, none⟩ c = ⟨k + c.utf8Size, none⟩ := by simp [read, hc]

theorem foldl_read_of_not_quote {k : Nat} (w : List Char) (hw : ∀ c ∈ w, isQuote c = false) :
    w.foldl read ⟨k, none⟩ = ⟨k + utf8Length w, none⟩ := by
  induction w generalizing k with
  | nil => rfl
  | cons c w ih =>
    rw [List.foldl_cons, read_of_not_quote k (hw c (by simp)), ih fun c h => hw c (by simp [h]),
      utf8Length, Nat.add_assoc]

theorem foldl_read_inside {k : Nat} {o : Opening} (w : List Char) (hw : o.delimiter ∉ w) :
    w.foldl read ⟨k, some o⟩ = ⟨k + utf8Length w, some o⟩ := by
  induction w generalizing k with
  | nil => rfl
  | cons c w ih =>
    have hne : c ≠ o.delimiter := fun h => hw (by simp [h])
    have hc : read ⟨k, some o⟩ c = ⟨k + c.utf8Size, some o⟩ := by simp [read, hne]
    rw [List.foldl_cons, hc, ih fun h => hw (by simp [h]), utf8Length, Nat.add_assoc]

theorem foldl_read_open {k : Nat} {d : Char} {w : List Char} (hd : isQuote d = true) (hw : d ∉ w) :
    (d :: w).foldl read ⟨k, none⟩ = ⟨k + utf8Length (d :: w), some ⟨d, k⟩⟩ := by
  have hopen : read ⟨k, none⟩ d = ⟨k + d.utf8Size, some ⟨d, k⟩⟩ := by simp [read, hd]
  rw [List.foldl_cons, hopen, foldl_read_inside w hw, utf8Length, Nat.add_assoc]

end QuoteScan

theorem isQuote_eq_false_of_isBlank {c : Char} (h : isBlank c = true) : isQuote c = false :=
  Bool.eq_false_iff.mpr fun hq => by simp [isBlank_eq_false_of_isQuote hq] at h

theorem isQuote_eq_false_of_isWordChar {c : Char} (h : isWordChar c = true) : isQuote c = false :=
  Bool.eq_false_iff.mpr fun hq => by simp [isWordChar_eq_false_of_isQuote hq] at h

/-- A text that splits into tokens leaves no quote open. -/
theorem Lexes.quoteScan {k : Nat} {cs : List Char} {ts : List Token} (h : Lexes k cs ts) :
    cs.foldl QuoteScan.read ⟨k, none⟩ = ⟨k + utf8Length cs, none⟩ := by
  induction h with
  | nil => rfl
  | blank hc _ ih =>
    rw [List.foldl_cons, QuoteScan.read_of_not_quote _ (isQuote_eq_false_of_isBlank hc), ih,
      utf8Length, Nat.add_assoc]
  | single _ hq _ _ ih =>
    rw [List.foldl_cons, QuoteScan.read_of_not_quote _ hq, ih, utf8Length, Nat.add_assoc]
  | @word k w cs ts _ hw _ _ ih =>
    rw [List.foldl_append, QuoteScan.foldl_read_of_not_quote w fun c hc =>
      isQuote_eq_false_of_isWordChar (hw c hc), ih, utf8Length_append, Nat.add_assoc]
  | @quoted k d w cs ts hd hw _ ih =>
    have hclose : QuoteScan.read ⟨k + utf8Length (d :: w), some ⟨d, k⟩⟩ d =
        ⟨k + utf8Length (d :: w ++ [d]), none⟩ := by
      simp [QuoteScan.read, utf8Length_append, utf8Length, Nat.add_assoc]
    rw [List.foldl_append, QuoteScan.foldl_read_open hd hw, List.foldl_cons, hclose, ih]
    simp [utf8Length_append, utf8Length, Nat.add_assoc]

namespace TokenStream

theorem passWhile_append {p : Char → Bool} {w cs : List Char} (k : Nat)
    (hw : ∀ c ∈ w, p c = true) (hcs : ∀ c ∈ cs.head?, p c = false) :
    passWhile p ⟨w ++ cs, k, false⟩ = ⟨cs, k + utf8Length w, false⟩ := by
  simp only [passWhile, takeWhile_append_of_head hw hcs, dropWhile_append_of_head hw hcs]

theorem next_blank {c : Char} (cs : List Char) (k : Nat) (hc : isBlank c = true) :
    next ⟨c :: cs, k, false⟩ = next ⟨cs, k + c.utf8Size, false⟩ := by
  simp [next, passWhile, hc, utf8Length, Nat.add_assoc]

/-- A character that is no blank tells what is read next. -/
theorem next_of_not_blank {c : Char} (cs : List Char) (k : Nat) (hc : isBlank c = false) :
    next ⟨c :: cs, k, false⟩ =
      if isQuote c then readQuoted ⟨cs, k + c.utf8Size, false⟩ k c
      else if isWordChar c then readWord ⟨cs, k + c.utf8Size, false⟩ k c
      else (.token ⟨.ofSingle c, k, k + c.utf8Size⟩, ⟨cs, k + c.utf8Size, false⟩) := by
  simp [next, passWhile, hc, utf8Length]

theorem next_single {c : Char} (cs : List Char) (k : Nat) (hb : isBlank c = false)
    (hq : isQuote c = false) (hw : isWordChar c = false) :
    next ⟨c :: cs, k, false⟩ =
      (.token ⟨.ofSingle c, k, k + c.utf8Size⟩, ⟨cs, k + c.utf8Size, false⟩) := by
  rw [next_of_not_blank cs k hb]
  simp [hq, hw]

theorem next_word {w cs : List Char} (k : Nat) (hne : w ≠ [])
    (hw : ∀ c ∈ w, isWordChar c = true) (hcs : EndsWord cs) :
    next ⟨w ++ cs, k, false⟩ =
      (.token ⟨.ofWord (String.ofList w), k, k + utf8Length w⟩,
        ⟨cs, k + utf8Length w, false⟩) := by
  obtain ⟨c, w, rfl⟩ := List.exists_cons_of_ne_nil hne
  have hc := hw c (by simp)
  have hrest : ∀ x ∈ w, isWordChar x = true := fun x hx => hw x (by simp [hx])
  have hb : isBlank c = false :=
    Bool.eq_false_iff.mpr fun h => by simp [isWordChar_eq_false_of_isBlank h] at hc
  rw [List.cons_append, next_of_not_blank _ k hb]
  simp [isQuote_eq_false_of_isWordChar hc, hc, readWord, passWhile_append _ hrest hcs,
    takeWhile_append_of_head hrest hcs, utf8Length, Nat.add_assoc]

theorem bne_of_notMem {d : Char} {w : List Char} (hw : d ∉ w) : ∀ c ∈ w, (c != d) = true :=
  fun _ hc => bne_iff_ne.mpr fun h => hw (h ▸ hc)

theorem next_quoted {d : Char} {w : List Char} (cs : List Char) (k : Nat) (hd : isQuote d = true)
    (hw : d ∉ w) :
    next ⟨d :: w ++ d :: cs, k, false⟩ =
      (.token ⟨.quoted d (String.ofList w), k, k + utf8Length (d :: w ++ [d])⟩,
        ⟨cs, k + utf8Length (d :: w ++ [d]), false⟩) := by
  have hinside := bne_of_notMem hw
  have hstop : ∀ c ∈ (d :: cs).head?, (c != d) = false := by simp
  rw [List.cons_append, next_of_not_blank _ k (isBlank_eq_false_of_isQuote hd)]
  simp [hd, readQuoted, passWhile_append _ hinside hstop, takeWhile_append_of_head hinside hstop,
    utf8Length, utf8Length_append, Nat.add_assoc]

theorem next_open {d : Char} {w : List Char} (k : Nat) (hd : isQuote d = true) (hw : d ∉ w) :
    next ⟨d :: w, k, false⟩ =
      (.openQuote ⟨d, k, k + utf8Length (d :: w)⟩, ⟨[], k + utf8Length (d :: w), true⟩) := by
  have hinside := bne_of_notMem hw
  have hpass : passWhile (· != d) ⟨w, k + d.utf8Size, false⟩ =
      ⟨[], k + d.utf8Size + utf8Length w, false⟩ := by
    have hend : ∀ c ∈ ([] : List Char).head?, (c != d) = false := by simp
    simpa using passWhile_append (k + d.utf8Size) hinside hend
  rw [next_of_not_blank _ k (isBlank_eq_false_of_isQuote hd)]
  simp [hd, readQuoted, hpass, utf8Length, Nat.add_assoc]

theorem yields_nil (k : Nat) : Yields ⟨[], k, false⟩ [] := by
  have hnext : next ⟨[], k, false⟩ = (.nothing, ⟨[], k, true⟩) := by
    simp [next, passWhile, utf8Length]
  exact .of_next_nothing hnext rfl

/-- The tokens of a text are given first, then what follows it. -/
theorem yields_append {k : Nat} {a b : List Char} {ts : List Token} {ds : List Delivery}
    (ha : Lexes k a ts) (hb : EndsWord b) (h : Yields ⟨b, k + utf8Length a, false⟩ ds) :
    Yields ⟨a ++ b, k, false⟩ (ts.map .token ++ ds) := by
  induction ha with
  | nil => simpa [utf8Length] using h
  | @blank k c cs ts hc _ ih =>
    exact .of_next_eq (next_blank (cs ++ b) k hc)
      (ih (by simpa [utf8Length, Nat.add_assoc] using h))
  | @single k c cs ts hc hq hw _ ih =>
    exact .cons (next_single (cs ++ b) k hc hq hw)
      (ih (by simpa [utf8Length, Nat.add_assoc] using h))
  | @word k w cs ts hne hw hcs _ ih =>
    rw [List.append_assoc]
    exact .cons (next_word k hne hw (hcs.append fun _ => hb))
      (ih (by simpa [utf8Length_append, Nat.add_assoc] using h))
  | @quoted k d w cs ts hd hw _ ih =>
    have hwhole : (d :: w ++ d :: cs) ++ b = d :: w ++ d :: (cs ++ b) := by simp
    rw [hwhole]
    exact .cons (next_quoted (cs ++ b) k hd hw)
      (ih (by simpa [utf8Length_append, utf8Length, Nat.add_assoc] using h))

end TokenStream

section

variable {text : String} {a w : List Char} {d : Char} {ts : List Token}

theorem Token.deliveries_of_lexes (h : Lexes 0 text.toList ts) :
    Token.deliveries text = ts.map .token := by
  have hs : Scanner.ofText text = ⟨utf8Length text.toList, .nothing, ts.toArray⟩ := by
    rw [Scanner.ofText, Scanner.start, Scanner.endWord_foldl_of_lexes h]
    simp
  simp [deliveries, hs, Scanner.openQuote?]

theorem Token.deliveries_of_open (htext : text.toList = a ++ d :: w) (ha : Lexes 0 a ts)
    (hd : isQuote d = true) (hw : d ∉ w) :
    Token.deliveries text =
      ts.map .token ++ [.openQuote ⟨d, utf8Length a, utf8Length text.toList⟩] := by
  have hseam : EndsWord (d :: w) := endsWord_cons.mpr (isWordChar_eq_false_of_isQuote hd)
  have hs : Scanner.ofText text =
      ⟨utf8Length text.toList, .quoted (utf8Length a) d (String.ofList w), ts.toArray⟩ := by
    rw [Scanner.ofText, Scanner.start, htext, List.foldl_append, Scanner.endWord_foldl_read _ hseam,
      Scanner.endWord_foldl_of_lexes ha, Scanner.foldl_read_open_quote _ _ hd hw]
    simp [Scanner.endWord, utf8Length_append]
  simp [deliveries, hs, Scanner.openQuote?]

/-- What a stream gives on demand is what the scanner has found in the whole text. -/
theorem TokenStream.yields_deliveries (text : String) :
    (TokenStream.ofText text).Yields (Token.deliveries text) := by
  rcases lexes_or_leavesOpen 0 text.toList with ⟨ts, h⟩ | ⟨e, a, w, ts, htext, ha, hd, hw, -⟩
  · rw [Token.deliveries_of_lexes h]
    simpa [ofText] using yields_append h endsWord_nil (yields_nil _)
  · have hopen : Yields ⟨e.delimiter :: w, 0 + utf8Length a, false⟩ _ :=
      .cons (next_open _ hd hw) (yields_nil_of_closed rfl)
    have hseam : EndsWord (e.delimiter :: w) :=
      endsWord_cons.mpr (isWordChar_eq_false_of_isQuote hd)
    rw [Token.deliveries_of_open htext ha hd hw, ofText, htext]
    simpa [utf8Length_append] using yields_append ha hseam hopen

end

theorem Lexes.opening?_eq {text : String} {ts : List Token} (h : Lexes 0 text.toList ts) :
    (QuoteScan.ofText text).opening? = none := by
  rw [QuoteScan.ofText, h.quoteScan]

namespace LeavesOpen

variable {text : String} {e : OpenQuote}

theorem span_eq (h : LeavesOpen 0 text.toList e) : e.span = ⟨e.span.start, text.utf8ByteSize⟩ := by
  obtain ⟨a, w, ts, -, -, -, -, hspan⟩ := h
  rw [hspan, utf8Length_toList, Nat.zero_add text.utf8ByteSize]

theorem opening?_eq (h : LeavesOpen 0 text.toList e) :
    (QuoteScan.ofText text).opening? = some ⟨e.delimiter, e.span.start⟩ := by
  obtain ⟨a, w, ts, htext, ha, hd, hw, hspan⟩ := h
  rw [QuoteScan.ofText, htext, List.foldl_append, ha.quoteScan, QuoteScan.foldl_read_open hd hw,
    hspan]

/-- The tokens before the open quote are those of the text that stands there. -/
theorem exists_yields (h : LeavesOpen 0 text.toList e) :
    ∃ before after ts, text = before ++ e.delimiter.toString ++ after ∧
      before.utf8ByteSize = e.span.start ∧
      Token.ofText before = .ok (ts ++ [⟨.endOfInput, e.span.start, e.span.start⟩]) ∧
      (TokenStream.ofText text).Yields (ts.map .token ++ [.openQuote e]) := by
  obtain ⟨a, w, ts, htext, ha, hd, hw, hspan⟩ := h
  have hbefore : Lexes 0 (String.ofList a).toList ts := by simpa using ha
  have hyields := TokenStream.yields_deliveries text
  rw [Nat.zero_add, Nat.zero_add] at hspan
  rw [Token.deliveries_of_open htext ha hd hw, ← hspan] at hyields
  refine ⟨String.ofList a, String.ofList w, ts, ?_, ?_, ?_, hyields⟩
  · apply String.toList_inj.mp
    simpa using htext
  · rw [hspan, ← utf8Length_toList, String.toList_ofList]
  · simpa [hspan] using Token.ofText_of_lexes hbefore

end LeavesOpen

/-- A text splits into tokens just if a scan of its quotes ends outside them. Else the error tells
the quote that is open, from its byte to the end, and the tokens before it are still given. Nothing
is given behind the error, or behind the end. -/
theorem ofText_of_quoteScan (text : String) :
    ((∃ tokens, Token.ofText text = .ok tokens) ↔ (QuoteScan.ofText text).opening? = none) ∧
      match (QuoteScan.ofText text).opening? with
      | none => ∃ ts,
          Token.ofText text =
            .ok (ts ++ [⟨.endOfInput, text.utf8ByteSize, text.utf8ByteSize⟩]) ∧
          (TokenStream.ofText text).Yields (ts.map .token)
      | some ⟨d, k⟩ =>
          Token.ofText text = .error ⟨d, k, text.utf8ByteSize⟩ ∧
          ∃ before after ts, text = before ++ d.toString ++ after ∧ before.utf8ByteSize = k ∧
            Token.ofText before = .ok (ts ++ [⟨.endOfInput, k, k⟩]) ∧
            (TokenStream.ofText text).Yields
              (ts.map .token ++ [.openQuote ⟨d, k, text.utf8ByteSize⟩]) := by
  rcases lexes_or_leavesOpen 0 text.toList with ⟨ts, hlex⟩ | ⟨e, hopen⟩
  · have htokens := Token.ofText_of_lexes hlex
    have hyields := TokenStream.yields_deliveries text
    rw [utf8Length_toList] at htokens
    rw [Token.deliveries_of_lexes hlex] at hyields
    rw [hlex.opening?_eq]
    exact ⟨iff_of_true ⟨_, htokens⟩ rfl, ts, htokens, hyields⟩
  · have herror := Token.ofText_of_leavesOpen hopen
    have hfails : ¬ ∃ tokens, Token.ofText text = .ok tokens := by simp [herror]
    rw [hopen.opening?_eq]
    simp only [← hopen.span_eq]
    exact ⟨iff_of_false hfails nofun, herror, hopen.exists_yields⟩

end FilterLang
