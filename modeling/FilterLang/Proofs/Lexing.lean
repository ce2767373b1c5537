import FilterLang.Token.Scanner
import Mathlib.Tactic.SplitIfs

/-! What the scanner makes of a text, said as a grammar of texts: `ofText_eq_ok_iff`. A text splits
in one way into blanks, single characters, words as long as they can be, and quoted texts; the
only other texts are those that end in an open quote. -/

namespace FilterLang

/-- The span, some bytes further on. -/
def Span.later (s : Span) (d : Nat) : Span := ⟨s.start + d, s.stop + d⟩

def Token.later (t : Token) (d : Nat) : Token := ⟨t.kind, t.span.later d⟩

/-- What the kind of a token before the end tells of its text. -/
def TokenKind.Lexical : TokenKind → Prop
  | word text => ∀ c ∈ text.toList, isWordChar c = true
  | number text x => numberValue? text = some x
  | symbol c => isWordChar c = false
  | endOfInput => False
  | _ => True

theorem TokenKind.Lexical.ne_endOfInput {k : TokenKind} (h : k.Lexical) : k ≠ endOfInput := by
  rintro rfl
  exact h

theorem TokenKind.Lexical.ofWord {text : String} (h : ∀ c ∈ text.toList, isWordChar c = true) :
    (TokenKind.ofWord text).Lexical := by
  unfold TokenKind.ofWord
  split
  · assumption
  · exact h

theorem TokenKind.Lexical.ofSingle {c : Char} (h : isWordChar c = false) :
    (TokenKind.ofSingle c).Lexical := by
  unfold TokenKind.ofSingle
  split_ifs
  · trivial
  · trivial
  · trivial
  · exact h

section

variable {p : Char → Bool} {w cs : List Char}

theorem takeWhile_append_of_head (hw : ∀ c ∈ w, p c = true) (hcs : ∀ c ∈ cs.head?, p c = false) :
    (w ++ cs).takeWhile p = w := by
  rw [List.takeWhile_append_of_pos hw]
  cases cs with
  | nil => simp
  | cons c cs => simp [hcs c (by simp)]

theorem dropWhile_append_of_head (hw : ∀ c ∈ w, p c = true) (hcs : ∀ c ∈ cs.head?, p c = false) :
    (w ++ cs).dropWhile p = cs := by
  rw [List.dropWhile_append_of_pos hw]
  cases cs with
  | nil => rfl
  | cons c cs => simp [hcs c (by simp)]

end

/-- No word that stands before these characters goes on with them. -/
def EndsWord (cs : List Char) : Prop := ∀ c ∈ cs.head?, isWordChar c = false

/-- The characters, which start at byte `k`, split into these tokens. -/
inductive Lexes : Nat → List Char → List Token → Prop
  | nil {k} : Lexes k [] []
  | blank {k c cs ts} : isBlank c = true → Lexes (k + c.utf8Size) cs ts → Lexes k (c :: cs) ts
  | single {k c cs ts} : isBlank c = false → isQuote c = false → isWordChar c = false →
      Lexes (k + c.utf8Size) cs ts →
      Lexes k (c :: cs) (⟨.ofSingle c, k, k + c.utf8Size⟩ :: ts)
  | word {k w cs ts} : w ≠ [] → (∀ c ∈ w, isWordChar c = true) →
      EndsWord cs → Lexes (k + utf8Length w) cs ts →
      Lexes k (w ++ cs) (⟨.ofWord (String.ofList w), k, k + utf8Length w⟩ :: ts)
  | quoted {k d w cs ts} : isQuote d = true → d ∉ w →
      Lexes (k + utf8Length (d :: w ++ [d])) cs ts →
      Lexes k (d :: w ++ d :: cs)
        (⟨.quoted d (String.ofList w), k, k + utf8Length (d :: w ++ [d])⟩ :: ts)

namespace Scanner

theorem endWord_nothing (k : Nat) (acc : Array Token) :
    endWord ⟨k, .nothing, acc⟩ = ⟨k, .nothing, acc⟩ := rfl

theorem endWord_word (p k : Nat) (text : String) (acc : Array Token) :
    endWord ⟨p, .word k text, acc⟩ = ⟨p, .nothing, acc.push ⟨.ofWord text, k, p⟩⟩ := rfl

theorem push_append_ofList (text : String) (c : Char) (w : List Char) :
    text.push c ++ String.ofList w = text ++ String.ofList (c :: w) := by
  apply String.toList_inj.mp
  simp

theorem read_blank {c : Char} (k : Nat) (acc : Array Token) (h : isBlank c = true) :
    read ⟨k, .nothing, acc⟩ c = ⟨k + c.utf8Size, .nothing, acc⟩ := by
  simp [read, readFirst, h, advance]

theorem read_single {c : Char} (k : Nat) (acc : Array Token) (hb : isBlank c = false)
    (hq : isQuote c = false) (hw : isWordChar c = false) :
    read ⟨k, .nothing, acc⟩ c =
      ⟨k + c.utf8Size, .nothing, acc.push ⟨.ofSingle c, k, k + c.utf8Size⟩⟩ := by
  simp [read, readFirst, hb, hq, hw, advance, emit]

theorem foldl_read_word (w : List Char) (p k : Nat) (text : String) (acc : Array Token)
    (hw : ∀ c ∈ w, isWordChar c = true) :
    w.foldl read ⟨p, .word k text, acc⟩ =
      ⟨p + utf8Length w, .word k (text ++ String.ofList w), acc⟩ := by
  induction w generalizing p text with
  | nil => simp [utf8Length]
  | cons c w ih =>
    have hc : read ⟨p, .word k text, acc⟩ c = ⟨p + c.utf8Size, .word k (text.push c), acc⟩ := by
      simp [read, hw c (by simp), advance]
    rw [List.foldl_cons, hc, ih _ _ fun c h => hw c (by simp [h])]
    rw [push_append_ofList, utf8Length, Nat.add_assoc]

theorem foldl_read_quoted (w : List Char) (p k : Nat) (d : Char) (text : String)
    (acc : Array Token) (hw : d ∉ w) :
    w.foldl read ⟨p, .quoted k d text, acc⟩ =
      ⟨p + utf8Length w, .quoted k d (text ++ String.ofList w), acc⟩ := by
  induction w generalizing p text with
  | nil => simp [utf8Length]
  | cons c w ih =>
    have hcd : c ≠ d := fun h => hw (by simp [h])
    have hc : read ⟨p, .quoted k d text, acc⟩ c =
        ⟨p + c.utf8Size, .quoted k d (text.push c), acc⟩ := by
      simp [read, hcd, advance]
    rw [List.foldl_cons, hc, ih _ _ fun h => hw (by simp [h])]
    rw [push_append_ofList, utf8Length, Nat.add_assoc]

theorem foldl_read_first_word {w : List Char} (k : Nat) (acc : Array Token) (hne : w ≠ [])
    (hw : ∀ c ∈ w, isWordChar c = true) :
    w.foldl read ⟨k, .nothing, acc⟩ = ⟨k + utf8Length w, .word k (String.ofList w), acc⟩ := by
  obtain ⟨c, w, rfl⟩ := List.exists_cons_of_ne_nil hne
  have hc := hw c (by simp)
  have hb : isBlank c = false := by
    cases h : isBlank c
    · rfl
    · rw [isWordChar_eq_false_of_isBlank h] at hc; simp at hc
  have hq : isQuote c = false := by
    cases h : isQuote c
    · rfl
    · rw [isWordChar_eq_false_of_isQuote h] at hc; simp at hc
  have hr : read ⟨k, .nothing, acc⟩ c = ⟨k + c.utf8Size, .word k c.toString, acc⟩ := by
    simp [read, readFirst, hb, hq, hc, advance]
  rw [List.foldl_cons, hr, foldl_read_word _ _ _ _ _ fun c h => hw c (by simp [h])]
  simp [utf8Length, Nat.add_assoc, Char.toString_eq_singleton]

theorem foldl_read_open_quote {d : Char} {w : List Char} (k : Nat) (acc : Array Token)
    (hd : isQuote d = true) (hw : d ∉ w) :
    (d :: w).foldl read ⟨k, .nothing, acc⟩ =
      ⟨k + utf8Length (d :: w), .quoted k d (String.ofList w), acc⟩ := by
  have hr : read ⟨k, .nothing, acc⟩ d = ⟨k + d.utf8Size, .quoted k d "", acc⟩ := by
    simp [read, readFirst, isBlank_eq_false_of_isQuote hd, hd, advance]
  rw [List.foldl_cons, hr, foldl_read_quoted _ _ _ _ _ _ hw]
  simp [utf8Length, Nat.add_assoc]

/-- A character that cannot go on with a word ends it first. -/
theorem endWord_foldl_read {cs : List Char} (s : Scanner) (h : EndsWord cs) :
    (cs.foldl read s).endWord = (cs.foldl read s.endWord).endWord := by
  cases cs with
  | nil =>
    obtain ⟨k, pending, acc⟩ := s
    cases pending <;> rfl
  | cons c cs =>
    have hc : isWordChar c = false := h c (by simp)
    obtain ⟨k, pending, acc⟩ := s
    cases pending with
    | nothing => rfl
    | quoted => rfl
    | word first text =>
      have hr : read ⟨k, .word first text, acc⟩ c =
          read (Scanner.endWord ⟨k, .word first text, acc⟩) c := by
        simp [read, hc, endWord, emit]
      rw [List.foldl_cons, List.foldl_cons, hr]

theorem endWord_foldl_of_lexes {k : Nat} {cs : List Char} {ts : List Token} (h : Lexes k cs ts)
    (acc : Array Token) :
    (cs.foldl read ⟨k, .nothing, acc⟩).endWord =
      ⟨k + utf8Length cs, .nothing, acc ++ ts.toArray⟩ := by
  induction h generalizing acc with
  | nil => simp [utf8Length, endWord_nothing]
  | blank hb _ ih =>
    rw [List.foldl_cons, read_blank _ _ hb, ih]
    simp [utf8Length, Nat.add_assoc]
  | single hb hq hw _ ih =>
    rw [List.foldl_cons, read_single _ _ hb hq hw, ih]
    simp [utf8Length, Nat.add_assoc]
  | word hne hw hcs _ ih =>
    rw [List.foldl_append, foldl_read_first_word _ _ hne hw, endWord_foldl_read _ hcs,
      endWord_word, ih]
    simp [utf8Length_append, Nat.add_assoc]
  | @quoted k d w cs ts hd hw _ ih =>
    have hclose : read ⟨k + utf8Length (d :: w), .quoted k d (String.ofList w), acc⟩ d =
        ⟨k + utf8Length (d :: w ++ [d]), .nothing,
          acc.push ⟨.quoted d (String.ofList w), k, k + utf8Length (d :: w ++ [d])⟩⟩ := by
      simp [read, emit, advance, utf8Length_append, utf8Length, Nat.add_assoc]
    rw [List.foldl_append, foldl_read_open_quote _ _ hd hw, List.foldl_cons, hclose, ih]
    simp [utf8Length_append, utf8Length, Nat.add_assoc]

end Scanner

theorem endsWord_nil : EndsWord [] := by simp [EndsWord]

theorem endsWord_cons {c : Char} {cs : List Char} :
    EndsWord (c :: cs) ↔ isWordChar c = false := by simp [EndsWord]

theorem EndsWord.append {a b : List Char} (ha : EndsWord a) (hb : a = [] → EndsWord b) :
    EndsWord (a ++ b) := by
  cases a with
  | nil => exact hb rfl
  | cons c a => exact endsWord_cons.mpr (endsWord_cons.mp ha)

/-- No word goes on from the first text into the second. -/
def Parted (a b : List Char) : Prop := EndsWord b ∨ ∀ c ∈ a.getLast?, isWordChar c = false

theorem Parted.of_append {a a' b : List Char} (h : Parted (a ++ a') b) : Parted a' b := by
  refine h.imp_right fun h c hc => h c ?_
  rw [List.getLast?_append, Option.mem_def.mp hc]
  rfl

theorem Parted.endsWord {w b : List Char} (hne : w ≠ []) (hw : ∀ c ∈ w, isWordChar c = true)
    (h : Parted w b) : EndsWord b := by
  refine h.resolve_right fun h => ?_
  have hlast := h (w.getLast hne) (List.getLast?_eq_some_getLast hne)
  rw [hw _ (List.getLast_mem hne)] at hlast
  simp at hlast

namespace Lexes

theorem append {k : Nat} {a b : List Char} {ts us : List Token} (ha : Lexes k a ts)
    (hab : Parted a b) (hb : Lexes (k + utf8Length a) b us) : Lexes k (a ++ b) (ts ++ us) := by
  induction ha with
  | nil => simpa [utf8Length] using hb
  | @blank k c cs ts hc _ ih =>
    exact .blank hc (ih (hab.of_append (a := [c]))
      (by simpa [utf8Length, Nat.add_assoc] using hb))
  | @single k c cs ts hc hq hw _ ih =>
    exact .single hc hq hw (ih (hab.of_append (a := [c]))
      (by simpa [utf8Length, Nat.add_assoc] using hb))
  | @word k w cs ts hne hw hcs _ ih =>
    have hseam : cs = [] → EndsWord b := fun h => by
      subst h
      exact Parted.endsWord hne hw (by simpa using hab)
    rw [List.append_assoc]
    exact .word hne hw (hcs.append hseam)
      (ih hab.of_append (by simpa [utf8Length_append, Nat.add_assoc] using hb))
  | @quoted k d w cs ts hd hw _ ih =>
    have hfront : d :: w ++ d :: cs = (d :: w ++ [d]) ++ cs := by simp
    have hwhole : (d :: w ++ d :: cs) ++ b = d :: w ++ d :: (cs ++ b) := by simp
    rw [hwhole]
    exact .quoted hd hw (ih (Parted.of_append (hfront ▸ hab))
      (by simpa [utf8Length_append, utf8Length, Nat.add_assoc] using hb))

/-- Text that starts later splits into the same tokens, all of them later. -/
theorem later {k : Nat} {cs : List Char} {ts : List Token} (h : Lexes k cs ts) (d : Nat) :
    Lexes (k + d) cs (ts.map (·.later d)) := by
  induction h with
  | nil => exact .nil
  | blank hc _ ih =>
    rw [Nat.add_right_comm] at ih
    exact .blank hc ih
  | single hc hq hw _ ih =>
    rw [Nat.add_right_comm] at ih
    rw [List.map_cons, Token.later, Span.later, Nat.add_right_comm]
    exact .single hc hq hw ih
  | word hne hw hcs _ ih =>
    rw [Nat.add_right_comm] at ih
    rw [List.map_cons, Token.later, Span.later, Nat.add_right_comm]
    exact .word hne hw hcs ih
  | quoted hd hw _ ih =>
    rw [Nat.add_right_comm] at ih
    rw [List.map_cons, Token.later, Span.later, Nat.add_right_comm]
    exact .quoted hd hw ih

theorem unique {k : Nat} {cs : List Char} {ts us : List Token} (h : Lexes k cs ts)
    (h' : Lexes k cs us) : ts = us := by
  have hs := Scanner.endWord_foldl_of_lexes h #[]
  rw [Scanner.endWord_foldl_of_lexes h' #[]] at hs
  simpa using hs.symm

/-- Two texts with a space between them. -/
theorem spaced {k : Nat} {a b : List Char} {ts us : List Token} (ha : Lexes k a ts)
    (hb : Lexes (k + utf8Length a + 1) b us) : Lexes k (a ++ ' ' :: b) (ts ++ us) :=
  ha.append (.inl (endsWord_cons.mpr (by decide))) (.blank (by decide) hb)

theorem parenthesized {k : Nat} {cs : List Char} {ts : List Token} (h : Lexes (k + 1) cs ts) :
    ∃ t u : Token, t.kind = .openParen ∧ u.kind = .closeParen ∧
      Lexes k ('(' :: cs ++ [')']) (t :: ts ++ [u]) := by
  have hclose (k' : Nat) : Lexes k' [')'] [⟨.closeParen, k', k' + 1⟩] :=
    .single (by decide) (by decide) (by decide) .nil
  have hopen : Lexes k ('(' :: (cs ++ [')'])) (⟨.openParen, k, k + 1⟩ :: (ts ++ _)) :=
    .single (by decide) (by decide) (by decide)
      (h.append (.inl (endsWord_cons.mpr (by decide))) (hclose _))
  exact ⟨_, _, rfl, rfl, hopen⟩

theorem lexical {k : Nat} {cs : List Char} {ts : List Token} (h : Lexes k cs ts) :
    ∀ t ∈ ts, t.kind.Lexical := by
  induction h with
  | nil => simp
  | blank _ _ ih => exact ih
  | single _ _ hw _ ih => exact List.forall_mem_cons.mpr ⟨.ofSingle hw, ih⟩
  | word _ hw _ _ ih =>
    exact List.forall_mem_cons.mpr ⟨.ofWord (by simpa using hw), ih⟩
  | quoted _ _ _ ih => exact List.forall_mem_cons.mpr ⟨trivial, ih⟩

theorem isBlank_of_nil {k : Nat} {cs : List Char} (h : Lexes k cs []) :
    ∀ c ∈ cs, isBlank c = true := by
  generalize hts : ([] : List Token) = ts at h
  induction h with
  | nil => simp
  | blank hc _ ih => exact List.forall_mem_cons.mpr ⟨hc, ih hts⟩
  | single | word | quoted => cases hts

end Lexes

/-- The characters split into tokens up to a quote that is never closed. -/
def LeavesOpen (k : Nat) (cs : List Char) (e : OpenQuote) : Prop :=
  ∃ a w ts, cs = a ++ e.delimiter :: w ∧ Lexes k a ts ∧ isQuote e.delimiter = true ∧
    e.delimiter ∉ w ∧ e.span = ⟨k + utf8Length a, k + utf8Length cs⟩

theorem LeavesOpen.append {k : Nat} {a b : List Char} {ts : List Token} {e : OpenQuote}
    (ha : Lexes k a ts) (hab : Parted a b) (hb : LeavesOpen (k + utf8Length a) b e) :
    LeavesOpen k (a ++ b) e := by
  obtain ⟨a', w, us, rfl, hus, hd, hw, hspan⟩ := hb
  have hseam : Parted a a' := by
    refine hab.imp_left fun h => ?_
    cases a' with
    | nil => exact endsWord_nil
    | cons c a' => exact endsWord_cons.mpr (endsWord_cons.mp h)
  refine ⟨a ++ a', w, ts ++ us, by simp, ha.append hseam hus, hd, hw, ?_⟩
  rw [hspan]
  simp [utf8Length_append, Nat.add_assoc]

/-- What comes first in some characters, and the tokens it makes. -/
theorem exists_first_lexes (k : Nat) {cs : List Char} (hne : cs ≠ []) :
    (∃ a b ts, cs = a ++ b ∧ a ≠ [] ∧ Lexes k a ts ∧ Parted a b) ∨ ∃ e, LeavesOpen k cs e := by
  obtain ⟨c, cs, rfl⟩ := List.exists_cons_of_ne_nil hne
  cases hw : isWordChar c with
  | true =>
    have hwhole : c :: cs = (c :: cs).takeWhile isWordChar ++ (c :: cs).dropWhile isWordChar :=
      List.takeWhile_append_dropWhile.symm
    have htake : (c :: cs).takeWhile isWordChar ≠ [] := by simp [hw]
    have hall : ∀ x ∈ (c :: cs).takeWhile isWordChar, isWordChar x = true :=
      List.all_eq_true.mp List.all_takeWhile
    have hword := Lexes.word (k := k) htake hall endsWord_nil .nil
    refine .inl ⟨_, _, _, hwhole, htake, by simpa using hword, .inl fun x hx => ?_⟩
    have := List.head?_dropWhile_not isWordChar (c :: cs)
    rw [Option.mem_def.mp hx] at this
    simpa using this
  | false =>
    cases hb : isBlank c with
    | true => exact .inl ⟨[c], cs, [], rfl, by simp, .blank hb .nil, .inr (by simp [hw])⟩
    | false =>
      cases hq : isQuote c with
      | false =>
        exact .inl ⟨[c], cs, _, rfl, by simp, .single hb hq hw .nil, .inr (by simp [hw])⟩
      | true =>
        by_cases hmem : c ∈ cs
        · obtain ⟨w, b, rfl, hcw⟩ := List.eq_append_cons_of_mem hmem
          exact .inl ⟨c :: w ++ [c], b, _, by simp, by simp, .quoted hq hcw .nil,
            .inr (by simp [List.getLast?_cons, hw])⟩
        · exact .inr ⟨⟨c, k, k + utf8Length (c :: cs)⟩, [], cs, [], rfl, .nil, hq, hmem, rfl⟩

theorem lexes_or_leavesOpen (k : Nat) (cs : List Char) :
    (∃ ts, Lexes k cs ts) ∨ ∃ e, LeavesOpen k cs e := by
  induction hn : cs.length using Nat.strongRecOn generalizing k cs with
  | ind n ih =>
  subst hn
  by_cases hne : cs = []
  · exact .inl ⟨[], hne ▸ .nil⟩
  rcases exists_first_lexes k hne with ⟨a, b, ts, rfl, ha, hts, hab⟩ | he
  · have hlt : b.length < (a ++ b).length := by
      have := List.length_pos_iff.mpr ha
      simp only [List.length_append]
      omega
    rcases ih _ hlt (k + utf8Length a) b rfl with ⟨us, hus⟩ | ⟨e, he⟩
    · exact .inl ⟨ts ++ us, hts.append hab hus⟩
    · exact .inr ⟨e, he.append hts hab⟩
  · exact .inr he

namespace Scanner

theorem endWord_foldl_of_leavesOpen {k : Nat} {cs : List Char} {e : OpenQuote}
    (h : LeavesOpen k cs e) (acc : Array Token) :
    (cs.foldl read ⟨k, .nothing, acc⟩).endWord.openQuote? = some e := by
  obtain ⟨a, w, ts, rfl, ha, hd, hw, hspan⟩ := h
  obtain ⟨d, span⟩ := e
  have hseam : EndsWord (d :: w) := endsWord_cons.mpr (isWordChar_eq_false_of_isQuote hd)
  rw [List.foldl_append, endWord_foldl_read _ hseam, endWord_foldl_of_lexes ha,
    foldl_read_open_quote _ _ hd hw]
  simp only at hspan
  rw [hspan]
  simp [endWord, openQuote?, utf8Length_append, Nat.add_assoc]

end Scanner

namespace Lexes

theorem not_leavesOpen {k : Nat} {cs : List Char} {ts : List Token} (h : Lexes k cs ts)
    (e : OpenQuote) : ¬ LeavesOpen k cs e := by
  intro he
  have hopen := Scanner.endWord_foldl_of_leavesOpen he #[]
  rw [Scanner.endWord_foldl_of_lexes h] at hopen
  cases hopen

/-- What follows the first of two texts splits by itself. -/
theorem exists_of_append {k : Nat} {a b : List Char} {ts us : List Token} (ha : Lexes k a ts)
    (hab : Parted a b) (h : Lexes k (a ++ b) us) :
    ∃ vs, us = ts ++ vs ∧ Lexes (k + utf8Length a) b vs := by
  rcases lexes_or_leavesOpen (k + utf8Length a) b with ⟨vs, hvs⟩ | ⟨e, he⟩
  · exact ⟨vs, h.unique (ha.append hab hvs), hvs⟩
  · exact absurd (he.append ha hab) (h.not_leavesOpen e)

end Lexes

namespace Token

theorem ofText_of_lexes {text : String} {ts : List Token} (h : Lexes 0 text.toList ts) :
    ofText text = .ok (ts ++ [⟨.endOfInput, utf8Length text.toList, utf8Length text.toList⟩]) := by
  have hs : Scanner.ofText text = ⟨utf8Length text.toList, .nothing, ts.toArray⟩ := by
    rw [Scanner.ofText, Scanner.start, Scanner.endWord_foldl_of_lexes h]
    simp
  simp [ofText, hs, Scanner.openQuote?]

theorem ofText_of_leavesOpen {text : String} {e : OpenQuote}
    (h : LeavesOpen 0 text.toList e) : ofText text = .error e := by
  have hs := Scanner.endWord_foldl_of_leavesOpen h #[]
  rw [← Scanner.start, ← Scanner.ofText] at hs
  simp [ofText, hs]

/-- A text has tokens just if it splits into them; one more stands for its end. -/
theorem ofText_eq_ok_iff {text : String} {toks : List Token} :
    ofText text = .ok toks ↔ ∃ ts, Lexes 0 text.toList ts ∧
      toks = ts ++ [⟨.endOfInput, utf8Length text.toList, utf8Length text.toList⟩] := by
  constructor
  · intro h
    rcases lexes_or_leavesOpen 0 text.toList with ⟨ts, hts⟩ | ⟨e, he⟩
    · rw [ofText_of_lexes hts] at h
      exact ⟨ts, hts, by simpa using h.symm⟩
    · rw [ofText_of_leavesOpen he] at h
      cases h
  · rintro ⟨ts, hts, rfl⟩
    exact ofText_of_lexes hts

end Token

end FilterLang
