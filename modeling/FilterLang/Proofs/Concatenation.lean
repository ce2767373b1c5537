import FilterLang.Proofs.Balance
import FilterLang.Proofs.Location

/-! Where one text ends and another begins: `ofText_append`. A blank between them, or a character
next to the seam that is in no word, keeps the tokens of the first text as they are, and the second
text is read as if it stood alone, only later. -/

namespace FilterLang

/-- A character that is neither in words nor blank: a quote, or a token alone. -/
def isMark (c : Char) : Bool := !isWordChar c && !isBlank c

def OpenQuote.later (e : OpenQuote) (d : Nat) : OpenQuote := ⟨e.delimiter, e.span.later d⟩

/-- What a text is read as when `d` bytes with the tokens `ts` stand before it. -/
def Token.behind (ts : List Token) (d : Nat) :
    Except OpenQuote (List Token) → Except OpenQuote (List Token)
  | .ok us => .ok (ts ++ us.map (·.later d))
  | .error e => .error (e.later d)

theorem LeavesOpen.later {k : Nat} {cs : List Char} {e : OpenQuote} (h : LeavesOpen k cs e)
    (d : Nat) : LeavesOpen (k + d) cs (e.later d) := by
  obtain ⟨a, w, ts, hcs, ha, hd, hw, hspan⟩ := h
  refine ⟨a, w, ts.map (·.later d), hcs, ha.later d, hd, hw, ?_⟩
  simp only [OpenQuote.later, Span.later, hspan, Nat.add_right_comm]

variable {a b : String} {ts : List Token}

theorem ofText_append_of_parted (ha : Lexes 0 a.toList ts) (hab : Parted a.toList b.toList) :
    Token.ofText (a ++ b) = Token.behind ts a.utf8ByteSize (Token.ofText b) := by
  have htext : (a ++ b).toList = a.toList ++ b.toList := String.toList_append
  rcases lexes_or_leavesOpen 0 b.toList with ⟨us, hb⟩ | ⟨e, hb⟩
  · have hwhole : Lexes 0 (a ++ b).toList (ts ++ us.map (·.later (utf8Length a.toList))) := by
      rw [htext]
      exact ha.append hab (hb.later _)
    rw [Token.ofText_of_lexes hwhole, Token.ofText_of_lexes hb, htext, ← utf8Length_toList]
    simp [Token.behind, Token.later, Span.later, utf8Length_append, Nat.add_comm]
  · have hwhole : LeavesOpen 0 (a ++ b).toList (e.later (utf8Length a.toList)) := by
      rw [htext]
      exact .append ha hab (hb.later _)
    rw [Token.ofText_of_leavesOpen hwhole, Token.ofText_of_leavesOpen hb, Token.behind,
      ← utf8Length_toList]

theorem upToEnd_of_ofText {tokens : List Token} (h : Token.ofText a = .ok tokens) :
    Lexes 0 a.toList (upToEnd tokens) := by
  obtain ⟨ts, hlex, rfl⟩ := Token.ofText_eq_ok_iff.mp h
  have hne : ∀ t ∈ ts, decide (t.kind ≠ .endOfInput) = true := fun t ht => by
    simpa using (hlex.lexical t ht).ne_endOfInput
  rw [upToEnd, List.takeWhile_append_of_pos hne]
  simpa using hlex

theorem parted_of_isMark {c : Char} (hc : isMark c = true)
    (h : a.toList.getLast? = some c ∨ b.toList.head? = some c) : Parted a.toList b.toList := by
  have hword : isWordChar c = false := by
    simp only [isMark, Bool.and_eq_true, Bool.not_eq_true'] at hc
    exact hc.1
  rcases h with hlast | hhead
  · exact .inr (by simpa [hlast] using hword)
  · exact .inl (by simpa [EndsWord, hhead] using hword)

/-- A text that splits into tokens is split as before when another text follows, and that one as if
it stood alone, only later: after a blank, and also without one where a mark is at the seam. -/
theorem ofText_append {tokens : List Token} (h : Token.ofText a = .ok tokens) (b : String) :
    (∀ w : Char, isBlank w = true →
      Token.ofText (a ++ w.toString ++ b) =
        Token.behind (upToEnd tokens) (a ++ w.toString).utf8ByteSize (Token.ofText b)) ∧
    ((∃ c, isMark c = true ∧ (a.toList.getLast? = some c ∨ b.toList.head? = some c)) →
      Token.ofText (a ++ b) =
        Token.behind (upToEnd tokens) a.utf8ByteSize (Token.ofText b)) := by
  have hlex := upToEnd_of_ofText h
  refine ⟨fun w hw => ?_, fun ⟨c, hc, hseam⟩ => ?_⟩
  · have hword := isWordChar_eq_false_of_isBlank hw
    have hblank : Lexes 0 (a ++ w.toString).toList (upToEnd tokens) := by
      have hseam : Parted a.toList [w] := .inl (endsWord_cons.mpr hword)
      simpa using hlex.append hseam (.blank hw .nil)
    exact ofText_append_of_parted hblank (.inr (by simpa using hword))
  · exact ofText_append_of_parted hlex (parted_of_isMark hc hseam)

/-- A quote is at the seam by itself, and an open quote of the second text is still one, two bytes
of a character and one of a blank later. -/
theorem ofText_append_quotes :
    let tokens : List Token := [⟨.word "é", 0, 2⟩, ⟨.endOfInput, 2, 2⟩]
    Token.ofText "é" = .ok tokens ∧ isBlank '\t' = true ∧ isMark '\'' = true ∧
      Token.ofText "é\tb '1" = .error ⟨'\'', 5, 7⟩ ∧
      Token.ofText "é'1'" =
        .ok [⟨.word "é", 0, 2⟩, ⟨.quoted '\'' "1", 2, 5⟩, ⟨.endOfInput, 5, 5⟩] := by
  intro tokens
  have hword : Token.ofText "é" = .ok tokens := by rfl
  have hblank : isBlank '\t' = true := by decide
  have hmark : isMark '\'' = true := by decide
  exact ⟨hword, hblank, hmark, (ofText_append hword "b '1").1 '\t' hblank,
    (ofText_append hword "'1'").2 ⟨'\'', hmark, .inr rfl⟩⟩

end FilterLang
