import FilterLang.Proofs.Location
import FilterLang.Proofs.Lexemes

/-! The tokens of a text are its only segmentation: `ofText_eq_ok_iff_segments`. Tokens stand in the
text as they are written, in order and apart, only blanks are left out, and words do not touch.
Where a character is no blank a token has to start, whose kind is told by that character, and how
far it goes is told too, so nothing is left to choose. -/

namespace FilterLang

namespace TokenKind

/-- What the kind of a token before the end says about its text. -/
def WellFormed : TokenKind → Prop
  | word text => (∀ c ∈ text.toList, isWordChar c = true) ∧ numberValue? text = none
  | number text x => (∀ c ∈ text.toList, isWordChar c = true) ∧ numberValue? text = some x
  | quoted delimiter text => isQuote delimiter = true ∧ delimiter ∉ text.toList
  | symbol c => isWordChar c = false ∧ isBlank c = false ∧ isQuote c = false ∧
      c ≠ '(' ∧ c ≠ ')' ∧ c ≠ ','
  | openParen | closeParen | comma => True
  | endOfInput => False

def isWord : TokenKind → Bool
  | word _ | number _ _ => true
  | _ => false

end TokenKind

def Span.Covers (s : Span) (k : Nat) : Prop := s.start ≤ k ∧ k < s.stop

/-- The token ends before the other one starts, and if both are words something is between. -/
structure Token.Precedes (t u : Token) : Prop where
  stop_le : t.span.stop ≤ u.span.start
  gap : t.kind.isWord = true → u.kind.isWord = true → t.span.stop ≠ u.span.start

/-- The characters, which start at byte `k`, hold the tokens, and blanks in between. -/
structure Cuts (k : Nat) (cs : List Char) (ts : List Token) : Prop where
  wellFormed : ∀ t ∈ ts, t.kind.WellFormed
  text : ∀ t ∈ ts, t.kind.text.toList ≠ [] ∧ ∃ a b, cs = a ++ t.kind.text.toList ++ b ∧
    t.span = ⟨k + utf8Length a, k + utf8Length (a ++ t.kind.text.toList)⟩
  precedes : ts.Pairwise Token.Precedes
  blank : ∀ a c b, cs = a ++ c :: b → (∀ t ∈ ts, ¬ t.span.Covers (k + utf8Length a)) →
    isBlank c = true

theorem eq_nil_of_utf8Length {cs : List Char} (h : utf8Length cs = 0) : cs = [] := by
  cases cs with
  | nil => rfl
  | cons c cs =>
    have := c.utf8Size_pos
    simp only [utf8Length] at h
    omega

theorem TokenKind.WellFormed.ofWord {text : String} (h : ∀ c ∈ text.toList, isWordChar c = true) :
    (TokenKind.ofWord text).WellFormed := by
  unfold TokenKind.ofWord
  split
  · next x hx => exact ⟨h, hx⟩
  · next hx => exact ⟨h, hx⟩

theorem TokenKind.WellFormed.ofSingle {c : Char} (hb : isBlank c = false) (hq : isQuote c = false)
    (hw : isWordChar c = false) : (TokenKind.ofSingle c).WellFormed := by
  unfold TokenKind.ofSingle
  split_ifs with hopen hclose hcomma
  · trivial
  · trivial
  · trivial
  · exact ⟨hw, hb, hq, hopen, hclose, hcomma⟩

theorem TokenKind.isWord_ofSingle (c : Char) : (ofSingle c).isWord = false := by
  unfold ofSingle
  split_ifs <;> rfl

theorem TokenKind.WellFormed.ofWord_text {k : TokenKind} (h : k.WellFormed)
    (hword : k.isWord = true) :
    TokenKind.ofWord k.text = k ∧ ∀ c ∈ k.text.toList, isWordChar c = true := by
  cases k with
  | word text => exact ⟨by simp [TokenKind.ofWord, TokenKind.text, h.2], h.1⟩
  | number text x => exact ⟨by simp [TokenKind.ofWord, TokenKind.text, h.2], h.1⟩
  | quoted | openParen | closeParen | comma | symbol | endOfInput => cases hword

/-- The first character of a token tells whether it is a word. -/
theorem TokenKind.WellFormed.isWord_eq {k : TokenKind} (h : k.WellFormed) {c : Char}
    {cs : List Char} (htext : k.text.toList = c :: cs) : k.isWord = isWordChar c := by
  have hc : c ∈ k.text.toList := by simp [htext]
  cases k with
  | word | number => exact (h.1 c hc).symm
  | quoted d value =>
    obtain rfl : d = c := by simpa [TokenKind.text] using congrArg List.head? htext
    exact (isWordChar_eq_false_of_isQuote h.1).symm
  | symbol ch =>
    obtain rfl : c = ch := by simpa [TokenKind.text] using hc
    exact h.1.symm
  | openParen | closeParen | comma =>
    obtain ⟨rfl, -⟩ := List.cons.inj htext
    rfl
  | endOfInput => exact h.elim

/-- A token is read from its text, where no word goes on behind it. -/
theorem TokenKind.WellFormed.lexes_text {kind : TokenKind} {k : Nat} {b : List Char}
    {us : List Token} (h : kind.WellFormed) (hne : kind.text.toList ≠ [])
    (hends : kind.isWord = true → EndsWord b)
    (hlex : Lexes (k + utf8Length kind.text.toList) b us) :
    Lexes k (kind.text.toList ++ b) (⟨kind, k, k + utf8Length kind.text.toList⟩ :: us) := by
  cases hword : kind.isWord with
  | true =>
    obtain ⟨hkind, hall⟩ := h.ofWord_text hword
    simpa [hkind] using Lexes.word hne hall (hends hword) hlex
  | false =>
    cases kind with
    | word | number => cases hword
    | endOfInput => exact h.elim
    | quoted d value =>
      have htext : (TokenKind.quoted d value).text.toList = d :: value.toList ++ [d] := by
        simp [TokenKind.text]
      rw [htext] at hlex ⊢
      simpa using Lexes.quoted h.1 h.2 hlex
    | openParen => exact .single (c := '(') (by decide) (by decide) (by decide) hlex
    | closeParen => exact .single (c := ')') (by decide) (by decide) (by decide) hlex
    | comma => exact .single (c := ',') (by decide) (by decide) (by decide) hlex
    | symbol c =>
      obtain ⟨hw, hb, hq, hopen, hclose, hcomma⟩ := h
      have hkind : TokenKind.ofSingle c = .symbol c := by
        simp [TokenKind.ofSingle, hopen, hclose, hcomma]
      have htext : (TokenKind.symbol c).text.toList = [c] := by simp [TokenKind.text]
      rw [htext] at hlex ⊢
      rw [← hkind]
      exact .single hb hq hw hlex

namespace Lexes

theorem wellFormed {k : Nat} {cs : List Char} {ts : List Token} (h : Lexes k cs ts) :
    ∀ t ∈ ts, t.kind.WellFormed := by
  induction h with
  | nil => simp
  | blank _ _ ih => exact ih
  | single hb hq hw _ ih => exact List.forall_mem_cons.mpr ⟨.ofSingle hb hq hw, ih⟩
  | word _ hw _ _ ih => exact List.forall_mem_cons.mpr ⟨.ofWord (by simpa using hw), ih⟩
  | quoted hd hw _ ih => exact List.forall_mem_cons.mpr ⟨⟨hd, by simpa using hw⟩, ih⟩

theorem start_ne_of_endsWord {k : Nat} {cs : List Char} {ts : List Token} (h : Lexes k cs ts)
    (hcs : EndsWord cs) : ∀ t ∈ ts, t.kind.isWord = true → t.span.start ≠ k := by
  intro t ht hword hstart
  obtain ⟨hne, a, b, rfl, hspan⟩ := h.exists_text t ht
  rw [hspan] at hstart
  obtain rfl : a = [] := eq_nil_of_utf8Length (by simp only at hstart; omega)
  obtain ⟨c, text, htext⟩ := List.exists_cons_of_ne_nil hne
  rw [(h.wellFormed t ht).isWord_eq htext] at hword
  rw [htext] at hcs
  rw [endsWord_cons.mp hcs] at hword
  cases hword

theorem precedes {k : Nat} {cs : List Char} {ts : List Token} (h : Lexes k cs ts) :
    ts.Pairwise Token.Precedes := by
  induction h with
  | nil => exact .nil
  | blank _ _ ih => exact ih
  | single _ _ _ hrest ih =>
    refine .cons (fun u hu => ⟨(hrest.bounds u hu).1, fun hword => ?_⟩) ih
    rw [TokenKind.isWord_ofSingle] at hword
    cases hword
  | word _ _ hcs hrest ih =>
    exact .cons (fun u hu => ⟨(hrest.bounds u hu).1,
      fun _ hword => (hrest.start_ne_of_endsWord hcs u hu hword).symm⟩) ih
  | quoted _ _ hrest ih => exact .cons (fun u hu => ⟨(hrest.bounds u hu).1, nofun⟩) ih

theorem exists_of_append_eq {w cs a b : List Char} {c : Char} {k : Nat}
    (h : w ++ cs = a ++ c :: b)
    (hcover : ¬ (⟨k, k + utf8Length w⟩ : Span).Covers (k + utf8Length a)) :
    ∃ a', a = w ++ a' ∧ cs = a' ++ c :: b := by
  rcases List.append_eq_append_iff.mp h with ⟨a', rfl, hcs⟩ | ⟨w', rfl, hw'⟩
  · exact ⟨a', rfl, hcs⟩
  · cases w' with
    | nil => exact ⟨[], by simp, by simpa using hw'.symm⟩
    | cons d w' =>
      have := d.utf8Size_pos
      refine absurd ⟨Nat.le_add_right _ _, ?_⟩ hcover
      simp only [utf8Length_append, utf8Length]
      omega

theorem isBlank_of_not_covers {k : Nat} {cs : List Char} {ts : List Token} (h : Lexes k cs ts) :
    ∀ a c b, cs = a ++ c :: b → (∀ t ∈ ts, ¬ t.span.Covers (k + utf8Length a)) →
      isBlank c = true := by
  induction h with
  | nil => simp
  | @blank k c cs ts hc _ ih =>
    intro a c' b hcs hcover
    cases a with
    | nil =>
      obtain ⟨rfl, -⟩ := List.cons.inj hcs
      exact hc
    | cons d a =>
      obtain ⟨rfl, rfl⟩ := List.cons.inj hcs
      exact ih a c' b rfl (by simpa [utf8Length, Nat.add_assoc] using hcover)
  | @single k c cs ts _ _ _ _ ih =>
    intro a c' b hcs hcover
    obtain ⟨hfirst, hrest⟩ := List.forall_mem_cons.mp hcover
    obtain ⟨a', rfl, rfl⟩ := exists_of_append_eq (w := [c]) hcs (by simpa [utf8Length] using hfirst)
    exact ih a' c' b rfl (by simpa [utf8Length, Nat.add_assoc] using hrest)
  | @word k w cs ts _ _ _ _ ih =>
    intro a c' b hcs hcover
    obtain ⟨hfirst, hrest⟩ := List.forall_mem_cons.mp hcover
    obtain ⟨a', rfl, rfl⟩ := exists_of_append_eq hcs hfirst
    exact ih a' c' b rfl (by simpa [utf8Length_append, Nat.add_assoc] using hrest)
  | @quoted k d w cs ts _ _ _ ih =>
    intro a c' b hcs hcover
    obtain ⟨hfirst, hrest⟩ := List.forall_mem_cons.mp hcover
    have hfront : (d :: w ++ [d]) ++ cs = a ++ c' :: b := by simpa using hcs
    obtain ⟨a', rfl, rfl⟩ := exists_of_append_eq hfront hfirst
    exact ih a' c' b rfl (by simpa only [utf8Length_append, Nat.add_assoc] using hrest)

theorem cuts {k : Nat} {cs : List Char} {ts : List Token} (h : Lexes k cs ts) : Cuts k cs ts :=
  ⟨h.wellFormed, h.exists_text, h.precedes, h.isBlank_of_not_covers⟩

end Lexes

namespace Cuts

variable {k : Nat} {cs w b : List Char} {ts us : List Token} {t : Token}

theorem drop (h : Cuts k (w ++ b) ts) (hus : us <:+ ts)
    (hafter : ∀ u ∈ us, k + utf8Length w ≤ u.span.start)
    (hbefore : ∀ t ∈ ts, t ∈ us ∨ t.span.stop ≤ k + utf8Length w) :
    Cuts (k + utf8Length w) b us where
  wellFormed u hu := h.wellFormed u (hus.subset hu)
  text u hu := by
    obtain ⟨hne, a, b', hcs, hspan⟩ := h.text u (hus.subset hu)
    have hle := hafter u hu
    rw [hspan] at hle
    rw [List.append_assoc] at hcs
    obtain ⟨a', rfl, rfl⟩ : ∃ a', a = w ++ a' ∧ b = a' ++ (u.kind.text.toList ++ b') := by
      rcases List.append_eq_append_iff.mp hcs with ⟨a', rfl, hb⟩ | ⟨w', rfl, hb⟩
      · exact ⟨a', rfl, hb⟩
      · obtain rfl : w' = [] := eq_nil_of_utf8Length
          (by simp only [utf8Length_append] at hle; omega)
        exact ⟨[], by simp, by simpa using hb.symm⟩
    refine ⟨hne, a', b', by simp, ?_⟩
    rw [hspan]
    simp only [utf8Length_append, Nat.add_assoc]
  precedes := h.precedes.sublist hus.sublist
  blank a c b' hb hcover := by
    refine h.blank (w ++ a) c b' (by simp [hb]) fun t ht hcovers => ?_
    rw [utf8Length_append, ← Nat.add_assoc] at hcovers
    rcases hbefore t ht with hu | hle
    · exact hcover t hu hcovers
    · exact absurd hcovers.2 (by omega)

theorem le_start (h : Cuts k cs ts) (ht : t ∈ ts) :
    k ≤ t.span.start ∧ t.span.start < t.span.stop := by
  obtain ⟨hne, a, b, -, hspan⟩ := h.text t ht
  have hpos : utf8Length t.kind.text.toList ≠ 0 := mt eq_nil_of_utf8Length hne
  rw [hspan]
  simp only [utf8Length_append]
  omega

theorem add_le_start {c : Char} (h : Cuts k (c :: cs) ts) (ht : t ∈ ts)
    (hcover : ¬ t.span.Covers k) : k + utf8Length [c] ≤ t.span.start := by
  have hle := h.le_start ht
  obtain ⟨-, a, b, hcs, hspan⟩ := h.text t ht
  cases a with
  | nil =>
    refine absurd ⟨?_, by omega⟩ hcover
    rw [hspan]
    exact Nat.le_refl _
  | cons d a =>
    obtain ⟨rfl, -⟩ := List.cons.inj hcs
    rw [hspan]
    simp only [utf8Length]
    omega

/-- A token that covers the first byte is the first token, and the others cut what is left. -/
theorem exists_first (h : Cuts k cs ts) (hcover : ∃ t ∈ ts, t.span.Covers k) :
    ∃ kind us b, ts = ⟨kind, k, k + utf8Length kind.text.toList⟩ :: us ∧
      cs = kind.text.toList ++ b ∧ Cuts (k + utf8Length kind.text.toList) b us := by
  obtain ⟨u, hu, hcovers⟩ := hcover
  cases ts with
  | nil => cases hu
  | cons t us =>
    have hfirst {u : Token} (hu : u ∈ us) : t.Precedes u := List.rel_of_pairwise_cons h.precedes hu
    have hstart : t.span.start = k := by
      have := h.le_start (t := t) (by simp)
      rcases List.mem_cons.mp hu with rfl | hu
      · have := hcovers.1
        omega
      · have := (hfirst hu).stop_le
        have := hcovers.1
        omega
    obtain ⟨-, a, b, rfl, hspan⟩ := h.text t (by simp)
    rw [hspan] at hstart
    obtain rfl : a = [] := eq_nil_of_utf8Length (by simp only at hstart; omega)
    obtain ⟨kind, span⟩ := t
    simp only [utf8Length, Nat.add_zero, List.nil_append] at hspan
    subst hspan
    refine ⟨kind, us, b, rfl, rfl, ?_⟩
    refine h.drop (List.suffix_cons _ _) (fun u hu => (hfirst hu).stop_le) ?_
    exact List.forall_mem_cons.mpr ⟨.inr (Nat.le_refl _), fun u hu => .inl hu⟩

theorem eq_nil (h : Cuts k [] ts) : ts = [] := by
  refine List.eq_nil_iff_forall_not_mem.mpr fun t ht => ?_
  obtain ⟨hne, a, b, hcs, -⟩ := h.text t ht
  simp_all

theorem endsWord (h : Cuts k b us) (ht : t.kind.isWord = true) (hstop : t.span.stop = k)
    (hfirst : ∀ u ∈ us, t.Precedes u) : EndsWord b := by
  cases b with
  | nil => exact endsWord_nil
  | cons c b =>
    refine endsWord_cons.mpr (Bool.eq_false_iff.mpr fun hword => ?_)
    by_cases hcover : ∃ u ∈ us, u.span.Covers k
    · obtain ⟨kind, us, b', rfl, hb, -⟩ := h.exists_first hcover
      have hwf := h.wellFormed _ (List.mem_cons_self ..)
      obtain ⟨hne, -⟩ := h.text _ (List.mem_cons_self ..)
      obtain ⟨d, text, htext⟩ := List.exists_cons_of_ne_nil hne
      simp only at htext hwf
      rw [htext] at hb
      obtain ⟨rfl, -⟩ := List.cons.inj hb
      exact (hfirst _ (List.mem_cons_self ..)).gap ht ((hwf.isWord_eq htext).trans hword) hstop
    · have hblank := h.blank [] c b rfl fun u hu hu' => hcover ⟨u, hu, hu'⟩
      rw [isWordChar_eq_false_of_isBlank hblank] at hword
      cases hword

theorem lexes_cons {kind : TokenKind}
    (h : Cuts k cs (⟨kind, k, k + utf8Length kind.text.toList⟩ :: us))
    (hrest : Cuts (k + utf8Length kind.text.toList) b us)
    (hlex : Lexes (k + utf8Length kind.text.toList) b us) :
    Lexes k (kind.text.toList ++ b) (⟨kind, k, k + utf8Length kind.text.toList⟩ :: us) := by
  refine (h.wellFormed _ (List.mem_cons_self ..)).lexes_text (h.text _ (List.mem_cons_self ..)).1 ?_
    hlex
  intro hword
  exact hrest.endsWord (t := ⟨kind, k, k + utf8Length kind.text.toList⟩) hword rfl
    fun u hu => List.rel_of_pairwise_cons h.precedes hu

/-- Where no token starts there is a blank, and where one starts it is told how it goes on. -/
theorem lexes (h : Cuts k cs ts) : Lexes k cs ts := by
  induction hn : cs.length using Nat.strongRecOn generalizing k cs ts with
  | ind n ih =>
  subst hn
  by_cases hcover : ∃ t ∈ ts, t.span.Covers k
  · obtain ⟨kind, us, b, rfl, rfl, hrest⟩ := h.exists_first hcover
    have hlt : b.length < (kind.text.toList ++ b).length := by
      have := List.length_pos_iff.mpr (h.text _ (List.mem_cons_self ..)).1
      simp only at this
      simp only [List.length_append]
      omega
    exact h.lexes_cons hrest (ih _ hlt hrest rfl)
  · cases cs with
    | nil =>
      obtain rfl := h.eq_nil
      exact .nil
    | cons c cs =>
      have hblank := h.blank [] c cs rfl fun t ht hcovers => hcover ⟨t, ht, hcovers⟩
      have hrest : Cuts (k + utf8Length [c]) cs ts := by
        refine h.drop (w := [c]) (List.suffix_refl _) (fun t ht => ?_) fun t ht => .inl ht
        refine h.add_le_start ht fun hcovers => hcover ⟨t, ht, hcovers⟩
      exact .blank hblank (ih _ (by simp) hrest rfl)

end Cuts

/-- The tokens divide the text into themselves and blanks. -/
structure Segments (text : String) (ts : List Token) : Prop where
  /-- Each token is written at its span, which is not empty and ends where characters end. -/
  marks : ∀ t ∈ ts, ∃ before after, t.span.Marks text before t.kind.text after
  wellFormed : ∀ t ∈ ts, t.kind.WellFormed
  /-- The spans are in order and disjoint, and words do not touch. -/
  precedes : ts.Pairwise Token.Precedes
  /-- What no token covers is blank. -/
  blank : ∀ before c after, text = before ++ String.singleton c ++ after →
    (∀ t ∈ ts, ¬ t.span.Covers before.utf8ByteSize) → isBlank c = true

theorem segments_iff_cuts {text : String} {ts : List Token} :
    Segments text ts ↔ Cuts 0 text.toList ts where
  mp h :=
    { wellFormed := h.wellFormed
      text := fun t ht => by
        obtain ⟨before, after, hmarks⟩ := h.marks t ht
        obtain ⟨htext, hne, hstart, hstop⟩ := hmarks
        refine ⟨by simpa using hne, before.toList, after.toList, by simp [htext], ?_⟩
        rw [← String.toList_append, utf8Length_toList, utf8Length_toList, Nat.zero_add,
          Nat.zero_add, ← hstart, ← hstop]
      precedes := h.precedes
      blank := fun a c b hcs hcover => by
        refine h.blank (String.ofList a) c (String.ofList b) ?_ ?_
        · apply String.toList_inj.mp
          simpa using hcs
        · rwa [← utf8Length_toList, String.toList_ofList, ← Nat.zero_add (utf8Length a)] }
  mpr h :=
    { marks := fun t ht => Span.exists_marks (h.text t ht).1 (h.text t ht).2
      wellFormed := h.wellFormed
      precedes := h.precedes
      blank := fun before c after htext hcover => by
        refine h.blank before.toList c after.toList (by simp [htext]) ?_
        rwa [utf8Length_toList, Nat.zero_add] }

/-- The tokens of a text are its only segmentation, closed by a token for the end. -/
theorem ofText_eq_ok_iff_segments {text : String} {tokens : List Token} :
    Token.ofText text = .ok tokens ↔ ∃ ts,
      tokens = ts ++ [⟨.endOfInput, text.utf8ByteSize, text.utf8ByteSize⟩] ∧ Segments text ts := by
  rw [Token.ofText_eq_ok_iff, utf8Length_toList]
  constructor
  · rintro ⟨ts, hlex, rfl⟩
    exact ⟨ts, rfl, segments_iff_cuts.mpr hlex.cuts⟩
  · rintro ⟨ts, rfl, hts⟩
    exact ⟨ts, (segments_iff_cuts.mp hts).lexes, rfl⟩

end FilterLang
