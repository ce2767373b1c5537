import FilterLang.Proofs.JsonReading

/-! A value that nobody asked for is passed over whatever it is: `Spells.skipValue`. The brackets
that are open stand on a stack, so the induction is over the phrases of the grammar, for any stack
below; a round takes a character, so as many as there are characters are left at each phrase's end. -/

namespace FilterLang

namespace Json

variable {s m rest : List Char}

theorem Ends.mem_head? (h : Ends s) : ∀ c ∈ s.head?, c ∈ [' ', '\n', '\t', '\r', ',', ']', '}'] := by
  intro c hc
  rcases h c hc with hblank | hclose
  · simp only [isBlank, Bool.or_eq_true, beq_iff_eq] at hblank
    rcases hblank with ((rfl | rfl) | rfl) | rfl <;> decide
  · simp only [List.mem_cons, List.not_mem_nil, or_false] at hclose
    rcases hclose with rfl | rfl | rfl <;> decide

/-- No number goes on where a value may end. -/
theorem Ends.not_numeral (h : Ends s) :
    ∀ c ∈ s.head?, c.isDigit = false ∧ c ≠ '.' ∧ c ≠ 'e' ∧ c ≠ 'E' := by
  have all : [' ', '\n', '\t', '\r', ',', ']', '}'].all fun c =>
      !c.isDigit && c != '.' && c != 'e' && c != 'E' := by decide
  intro c hc
  simpa [and_assoc] using List.all_eq_true.mp all c (h.mem_head? c hc)

theorem Ends.endsNumber (h : Ends s) : EndsNumber s := fun c hc => (h.not_numeral c hc).1

theorem Ends.head?_ne_point (h : Ends s) : s.head? ≠ some '.' :=
  fun hpoint => (h.not_numeral '.' hpoint).2.1 rfl

theorem readDigits_append (p : Purpose) {ds : List Char} (hne : ds ≠ [])
    (hds : ∀ d ∈ ds, d.isDigit = true) (hrest : EndsNumber rest) :
    readDigits p (ds ++ rest) = .ok (ds, rest) := by
  have htake : (ds ++ rest).takeWhile Char.isDigit = ds := by
    rw [List.takeWhile_append_of_pos hds]
    cases rest with
    | nil => simp
    | cons c rest => simp [endsNumber_cons.mp hrest]
  have hdrop : (ds ++ rest).dropWhile Char.isDigit = rest := by
    rw [List.dropWhile_append_of_pos hds]
    cases rest with
    | nil => rfl
    | cons c rest => simp [endsNumber_cons.mp hrest]
  obtain ⟨d, ds, rfl⟩ := List.exists_cons_of_ne_nil hne
  rw [List.cons_append] at *
  rw [readDigits, if_pos (hds d (by simp)), htake, hdrop]

theorem Digits.readDigits (h : Digits s rest) (hrest : EndsNumber rest) (p : Purpose) :
    ∃ ds, readDigits p s = .ok (ds, rest) := by
  obtain ⟨hds⟩ := h
  exact ⟨_, readDigits_append p (List.cons_ne_nil _ _) hds hrest⟩

theorem Digits.length_lt (h : Digits s rest) : rest.length < s.length := by
  obtain ⟨-⟩ := h
  simp only [List.cons_append, List.length_cons, List.length_append]
  omega

theorem readWhole_zero (p : Purpose) (hrest : EndsNumber rest) :
    readWhole p ('0' :: rest) = .ok (['0'], rest) := by
  cases rest with
  | nil => rfl
  | cons c rest => simp [readWhole, endsNumber_cons.mp hrest]

theorem readWhole_eq_readDigits (p : Purpose) (hzero : s.head? ≠ some '0') :
    readWhole p s = readDigits p s := by
  rw [readWhole]
  rintro c cs rfl
  exact hzero rfl

theorem Whole.readWhole (h : Whole s rest) (hrest : EndsNumber rest) (p : Purpose) :
    ∃ ds, readWhole p s = .ok (ds, rest) := by
  cases h with
  | zero => exact ⟨['0'], readWhole_zero p hrest⟩
  | digits hzero hdigits =>
    obtain ⟨ds, hds⟩ := hdigits.readDigits hrest p
    exact ⟨ds, (readWhole_eq_readDigits p hzero).trans hds⟩

theorem Whole.exists_cons (h : Whole s rest) : ∃ c cs, s = c :: cs ∧ c.isDigit = true := by
  cases h with
  | zero => exact ⟨'0', _, rfl, rfl⟩
  | digits _ hdigits =>
    obtain ⟨hds⟩ := hdigits
    exact ⟨_, _, rfl, hds _ (by simp)⟩

theorem Whole.length_lt (h : Whole s rest) : rest.length < s.length := by
  cases h with
  | zero => exact Nat.lt_succ_self _
  | digits _ hdigits => exact hdigits.length_lt

theorem readFraction_none (p : Purpose) (hpoint : s.head? ≠ some '.') :
    readFraction p s = .ok ([], s) := by
  rw [readFraction]
  rintro cs rfl
  exact hpoint rfl

theorem Fraction.readFraction (h : Fraction s rest) (hrest : EndsNumber rest)
    (hpoint : rest.head? ≠ some '.') (p : Purpose) : ∃ ds, readFraction p s = .ok (ds, rest) := by
  cases h with
  | none => exact ⟨[], readFraction_none p hpoint⟩
  | digits hdigits => exact hdigits.readDigits hrest p

theorem Fraction.endsNumber (h : Fraction s rest) (hrest : EndsNumber rest) : EndsNumber s := by
  cases h with
  | none => exact hrest
  | digits => exact endsNumber_cons.mpr rfl

theorem Fraction.length_le (h : Fraction s rest) : rest.length ≤ s.length := by
  cases h with
  | none => exact Nat.le_refl _
  | digits hdigits => exact Nat.le_succ_of_le hdigits.length_lt.le

theorem splitSign_append {sign ds : List Char} (hsign : sign ∈ [[], ['+'], ['-']])
    (hds : Digits ds rest) : ∃ negative, Decimal.splitSign (sign ++ ds) = (negative, ds) := by
  simp only [List.mem_cons, List.not_mem_nil, or_false] at hsign
  rcases hsign with rfl | rfl | rfl
  · obtain ⟨h⟩ := hds
    refine ⟨false, ?_⟩
    rw [List.nil_append, List.cons_append, Decimal.splitSign]
    · intro _ heq
      exact absurd (h '-' (by simp [(List.cons.inj heq).1])) (by decide)
    · intro _ heq
      exact absurd (h '+' (by simp [(List.cons.inj heq).1])) (by decide)
  · exact ⟨false, rfl⟩
  · exact ⟨true, rfl⟩

theorem readExponent_none (p : Purpose) (h : Ends s) : readExponent p s = .ok (none, s) := by
  cases s with
  | nil => rfl
  | cons c s =>
    obtain ⟨-, -, he, hE⟩ := h.not_numeral c rfl
    simp [readExponent, he, hE]

theorem Exponent.readExponent (h : Exponent s rest) (hrest : Ends rest) (p : Purpose) :
    ∃ e, readExponent p s = .ok (e, rest) := by
  cases h with
  | none => exact ⟨_, readExponent_none p hrest⟩
  | digits he hsign hdigits =>
    obtain ⟨negative, hsplit⟩ := splitSign_append hsign hdigits
    obtain ⟨ds, hds⟩ := hdigits.readDigits hrest.endsNumber p
    simp [List.cons_append, Json.readExponent, he, hsplit, hds, bind, Except.bind, pure,
      Except.pure]

/-- A number has ended where its exponent starts. -/
theorem Exponent.not_numeral (h : Exponent s rest) (hrest : Ends rest) :
    EndsNumber s ∧ s.head? ≠ some '.' := by
  cases h with
  | none => exact ⟨hrest.endsNumber, hrest.head?_ne_point⟩
  | digits he => rcases he with rfl | rfl <;> exact ⟨endsNumber_cons.mpr rfl, by simp⟩

theorem Exponent.length_le (h : Exponent s rest) : rest.length ≤ s.length := by
  cases h with
  | none => exact Nat.le_refl _
  | digits _ _ hdigits =>
    have := hdigits.length_lt
    simp only [List.cons_append, List.length_cons, List.length_append]
    omega

theorem UnsignedText.readUnsigned_skip (h : UnsignedText s rest) (hrest : Ends rest)
    (negative : Bool) : ∃ x, readUnsigned .skip negative s = .ok (x, rest) := by
  obtain ⟨hwhole, hfraction, hexponent⟩ := h
  obtain ⟨hends, hpoint⟩ := hexponent.not_numeral hrest
  obtain ⟨ds, hds⟩ := hwhole.readWhole (hfraction.endsNumber hends) .skip
  obtain ⟨fs, hfs⟩ := hfraction.readFraction hends hpoint .skip
  obtain ⟨e, he⟩ := hexponent.readExponent hrest .skip
  simp only [readUnsigned, hds, hfs, he, bind, Except.bind, reduceCtorEq, false_and, if_false]
  split_ifs
  · exact ⟨_, rfl⟩
  · exact ⟨_, rfl⟩

theorem UnsignedText.length_lt (h : UnsignedText s rest) : rest.length < s.length := by
  obtain ⟨hwhole, hfraction, hexponent⟩ := h
  exact hexponent.length_le.trans_lt (hfraction.length_le.trans_lt hwhole.length_lt)

theorem UnsignedText.exists_cons (h : UnsignedText s rest) :
    ∃ c cs, s = c :: cs ∧ c.isDigit = true := by
  obtain ⟨hwhole, -, -⟩ := h
  exact hwhole.exists_cons

theorem readNumeral_of_isDigit {c : Char} (p : Purpose) (hc : c.isDigit = true) :
    readNumeral p (c :: s) = readUnsigned p false (c :: s) := by
  rw [readNumeral]
  intro _ heq
  rw [(List.cons.inj heq).1] at hc
  cases hc

theorem NumeralText.readNumeral_skip (h : NumeralText s rest) (hrest : Ends rest) :
    ∃ x, readNumeral .skip s = .ok (x, rest) := by
  cases h with
  | positive h =>
    obtain ⟨x, hx⟩ := h.readUnsigned_skip hrest false
    obtain ⟨c, cs, rfl, hc⟩ := h.exists_cons
    exact ⟨x, (readNumeral_of_isDigit .skip hc).trans hx⟩
  | negative h => exact h.readUnsigned_skip hrest true

theorem NumeralText.length_lt (h : NumeralText s rest) : rest.length < s.length := by
  cases h with
  | positive h => exact h.length_lt
  | negative h => exact Nat.lt_succ_of_lt h.length_lt

theorem NumeralText.exists_cons (h : NumeralText s rest) :
    ∃ c cs, s = c :: cs ∧ (c = '-' ∨ c.isDigit = true) := by
  cases h with
  | positive h =>
    obtain ⟨c, cs, rfl, hc⟩ := h.exists_cons
    exact ⟨c, cs, rfl, .inr hc⟩
  | negative h => exact ⟨'-', _, rfl, .inl rfl⟩

/-- The characters that a number starts with start no other value. -/
theorem not_first_of_numeral {c : Char} (h : c = '-' ∨ c.isDigit = true) :
    isBlank c = false ∧ ∀ d ∈ ['n', 't', 'f', '"', '[', '{', ',', ']', '}'], c ≠ d := by
  rcases h with rfl | hdigit
  · exact ⟨rfl, by simp⟩
  · refine ⟨?_, fun d hd heq => ?_⟩
    · by_contra hblank
      simp only [isBlank, Bool.not_eq_false, Bool.or_eq_true, beq_iff_eq] at hblank
      rcases hblank with ((rfl | rfl) | rfl) | rfl <;> cases hdigit
    · have all : ∀ d ∈ ['n', 't', 'f', '"', '[', '{', ',', ']', '}'], d.isDigit = false := by simp
      rw [heq, all d hd] at hdigit
      cases hdigit

theorem NumeralText.skipScalar (h : NumeralText s rest) (hrest : Ends rest) :
    skipScalar s = .ok rest := by
  obtain ⟨x, hx⟩ := h.readNumeral_skip hrest
  obtain ⟨c, cs, rfl, hc⟩ := h.exists_cons
  obtain ⟨-, hfirst⟩ := not_first_of_numeral hc
  rw [Json.skipScalar]
  · simp [hc, hx, bind, Except.bind, pure, Except.pure]
  · exact hfirst 'n' (by decide)
  · exact hfirst 't' (by decide)
  · exact hfirst 'f' (by decide)
  · exact hfirst '"' (by decide)

section

variable {brackets : List Bracket}

theorem Blanks.skipValueIn (h : Blanks s m) (rounds : Nat) (brackets : List Bracket) :
    skipValueIn rounds brackets s = skipValueIn rounds brackets m := by
  cases rounds with
  | zero => simp only [Json.skipValueIn]
  | succ rounds => simp only [Json.skipValueIn, h.skipBlanks_eq]

theorem Blanks.skipEndIn (h : Blanks s m) (rounds : Nat) (bracket : Bracket)
    (brackets : List Bracket) :
    skipEndIn rounds (bracket :: brackets) s = skipEndIn rounds (bracket :: brackets) m := by
  cases rounds with
  | zero => simp only [Json.skipEndIn]
  | succ rounds => simp only [Json.skipEndIn, h.skipBlanks_eq]

theorem skipEndIn_nil (rounds : Nat) (s : List Char) : skipEndIn rounds [] s = .ok s := by
  cases rounds <;> rfl

theorem skipValueIn_scalar {c : Char} (hblank : isBlank c = false) (harray : c ≠ '[')
    (hobject : c ≠ '{') (h : skipScalar (c :: s) = .ok rest) (rounds : Nat) :
    skipValueIn (rounds + 1) brackets (c :: s) = skipEndIn rounds brackets rest := by
  rw [skipValueIn, skipBlanks_cons hblank]
  split
  · next heq => exact absurd (List.cons.inj heq).1 harray
  · next heq => exact absurd (List.cons.inj heq).1 hobject
  · simp [h, bind, Except.bind]

theorem skipValueIn_emptyArray (h : Blanks s (']' :: rest)) (rounds : Nat) :
    skipValueIn (rounds + 1) brackets ('[' :: s) = skipEndIn rounds brackets rest := by
  rw [skipValueIn, skipBlanks_cons rfl]
  simp only [h.skipBlanks_cons rfl]

theorem skipValueIn_array (h : Blanks s m) (hm : Opens m) (rounds : Nat) :
    skipValueIn (rounds + 1) brackets ('[' :: s) = skipValueIn rounds (.array :: brackets) s := by
  obtain ⟨c, cs, rfl, hblank, hc⟩ := hm
  rw [skipValueIn, skipBlanks_cons rfl, h.skipValueIn rounds]
  simp only [h.skipBlanks_cons hblank]
  split
  · next heq => exact absurd (List.cons.inj heq).1 (by rintro rfl; simp at hc)
  · next heq => cases heq
  · rfl

theorem skipValueIn_emptyObject (h : Blanks s ('}' :: rest)) (rounds : Nat) :
    skipValueIn (rounds + 1) brackets ('{' :: s) = skipEndIn rounds brackets rest := by
  rw [skipValueIn, skipBlanks_cons rfl]
  simp only [h.skipBlanks_cons rfl]

theorem skipValueIn_object {v : List Char} (h : Blanks s ('"' :: m)) (hkey : skipKey s = .ok v)
    (rounds : Nat) :
    skipValueIn (rounds + 1) brackets ('{' :: s) = skipValueIn rounds (.object :: brackets) v := by
  have hkey' : skipKey ('"' :: m) = .ok v := by
    rw [← hkey, skipKey, skipKey, h.readMark rfl, Blanks.refl.readMark rfl]
  rw [skipValueIn, skipBlanks_cons rfl]
  simp only [h.skipBlanks_cons rfl]
  simp [hkey', bind, Except.bind]

theorem skipEndIn_closeArray (rounds : Nat) (rest : List Char) :
    skipEndIn (rounds + 1) (.array :: brackets) (']' :: rest) = skipEndIn rounds brackets rest := rfl

theorem skipEndIn_closeObject (rounds : Nat) (rest : List Char) :
    skipEndIn (rounds + 1) (.object :: brackets) ('}' :: rest) = skipEndIn rounds brackets rest := rfl

theorem skipEndIn_nextItem (rounds : Nat) (rest : List Char) :
    skipEndIn (rounds + 1) (.array :: brackets) (',' :: rest) =
      skipValueIn rounds (.array :: brackets) rest := rfl

theorem skipEndIn_nextMember (h : skipKey s = .ok rest) (rounds : Nat) :
    skipEndIn (rounds + 1) (.object :: brackets) (',' :: s) =
      skipValueIn rounds (.object :: brackets) rest := by
  simp [skipEndIn, skipBlanks_cons (c := ',') rfl, h, bind, Except.bind]

theorem CharsText.skipKey {cs : List (Option Char)} {key v : List Char} (hs : Blanks s ('"' :: key))
    (h : CharsText cs key m) (hm : Blanks m (':' :: v)) : skipKey s = .ok v := by
  obtain ⟨t, ht⟩ := h.readQuoted_skip
  simp [Json.skipKey, hs.readMark rfl, ht, hm.readMark rfl, bind, Except.bind]

end

theorem Spells.length_lt {p : Phrase} (h : Spells p s rest) : rest.length < s.length := by
  induction h with
  | null | truth | falsity =>
    simp only [List.length_cons]
    omega
  | numeral h => exact h.length_lt
  | string h => exact Nat.lt_succ_of_lt h.length_lt
  | emptyArray h | emptyObject h =>
    have := h.length_le
    simp only [List.length_cons] at *
    omega
  | array _ ih | object _ ih =>
    simp only [List.length_cons] at *
    omega
  | element hs _ hrest ih => exact hrest.length_le.trans_lt (ih.trans_le hs.length_le)
  | lastElement _ ih | lastMember _ ih => exact ih
  | elements _ _ ih ih' | members _ _ ih ih' => exact ih'.trans ((Nat.lt_succ_self _).trans ih)
  | member hs hkey hm _ ih =>
    have := hs.length_le
    have := hkey.length_lt
    have := hm.length_le
    simp only [List.length_cons] at *
    omega

theorem opens_of_numeral {c : Char} (h : c = '-' ∨ c.isDigit = true) (cs : List Char) :
    Opens (c :: cs) := by
  obtain ⟨hblank, hfirst⟩ := not_first_of_numeral h
  exact ⟨c, cs, rfl, hblank, fun hmem => hfirst c (by simp_all) rfl⟩

theorem Spells.opens (h : Spells .value s rest) : Opens s := by
  cases h with
  | null => exact ⟨'n', _, rfl, rfl, by decide⟩
  | truth => exact ⟨'t', _, rfl, rfl, by decide⟩
  | falsity => exact ⟨'f', _, rfl, rfl, by decide⟩
  | numeral h =>
    obtain ⟨c, cs, rfl, hc⟩ := h.exists_cons
    exact opens_of_numeral hc cs
  | string => exact ⟨'"', _, rfl, rfl, by decide⟩
  | emptyArray | array => exact ⟨'[', _, rfl, rfl, by decide⟩
  | emptyObject | object => exact ⟨'{', _, rfl, rfl, by decide⟩

theorem Spells.exists_opens (h : Spells .elements s rest) : ∃ m, Blanks s m ∧ Opens m := by
  have element {s rest : List Char} (h : Spells .element s rest) : ∃ m, Blanks s m ∧ Opens m := by
    cases h with
    | element hs hvalue => exact ⟨_, hs, hvalue.opens⟩
  cases h with
  | lastElement h => exact element h
  | elements h => exact element h

theorem Spells.exists_key (h : Spells .members s rest) : ∃ m, Blanks s ('"' :: m) := by
  have member {s rest : List Char} (h : Spells .member s rest) : ∃ m, Blanks s ('"' :: m) := by
    cases h with
    | member hs => exact ⟨_, hs⟩
  cases h with
  | lastMember h => exact member h
  | members h => exact member h

/-- How each phrase is skipped, inside the brackets that it may stand in. -/
def Phrase.Skipped : Phrase → List Char → List Char → Prop
  | value, s, rest => ∀ brackets,
      GoesOn (skipValueIn · brackets s) s (skipEndIn · brackets rest) rest
  | element, s, rest => ∀ bracket brackets, GoesOn (skipValueIn · (bracket :: brackets) s) s
      (skipEndIn · (bracket :: brackets) rest) rest
  | elements, s, rest => ∀ brackets, GoesOn (skipValueIn · (.array :: brackets) s) s
      (skipEndIn · (.array :: brackets) rest) rest
  | member, s, rest | members, s, rest => ∃ v, skipKey s = .ok v ∧ v.length < s.length ∧
      ∀ brackets, GoesOn (skipValueIn · (.object :: brackets) v) v
        (skipEndIn · (.object :: brackets) rest) rest

theorem skipped_scalar {c : Char} (hblank : isBlank c = false) (harray : c ≠ '[')
    (hobject : c ≠ '{') (h : skipScalar (c :: s) = .ok rest)
    (hlength : rest.length < (c :: s).length) : Phrase.value.Skipped (c :: s) rest :=
  fun _ => .round (skipValueIn_scalar hblank harray hobject h) hlength

theorem Spells.skipped {p : Phrase} (h : Spells p s rest) (hrest : Ends rest) :
    p.Skipped s rest := by
  induction h with
  | null => exact skipped_scalar rfl (by decide) (by decide) rfl (Spells.length_lt .null)
  | truth => exact skipped_scalar rfl (by decide) (by decide) rfl (Spells.length_lt .truth)
  | falsity => exact skipped_scalar rfl (by decide) (by decide) rfl (Spells.length_lt .falsity)
  | numeral h =>
    have hscalar := h.skipScalar hrest
    have hlength := h.length_lt
    obtain ⟨c, cs, rfl, hc⟩ := h.exists_cons
    obtain ⟨hblank, hfirst⟩ := not_first_of_numeral hc
    exact skipped_scalar hblank (hfirst '[' (by decide)) (hfirst '{' (by decide)) hscalar hlength
  | string h =>
    obtain ⟨t, ht⟩ := h.readQuoted_skip
    refine skipped_scalar rfl (by decide) (by decide) ?_ (Nat.lt_succ_of_lt h.length_lt)
    simp [skipScalar, ht, bind, Except.bind, pure, Except.pure]
  | emptyArray h =>
    exact fun _ => .round (skipValueIn_emptyArray h) (Spells.length_lt (.emptyArray h))
  | emptyObject h =>
    exact fun _ => .round (skipValueIn_emptyObject h) (Spells.length_lt (.emptyObject h))
  | @array s rest h ih =>
    intro brackets
    obtain ⟨m, hm, hopens⟩ := h.exists_opens
    have hopen : GoesOn (skipValueIn · brackets ('[' :: s)) ('[' :: s)
        (skipValueIn · (.array :: brackets) s) s :=
      .round (skipValueIn_array hm hopens) (Nat.lt_succ_self _)
    have hclose : GoesOn (skipEndIn · (.array :: brackets) (']' :: rest)) (']' :: rest)
        (skipEndIn · brackets rest) rest :=
      .round (skipEndIn_closeArray · rest) (Nat.lt_succ_self _)
    exact (hopen.trans (ih (ends_cons (by decide) _) brackets)).trans hclose
  | @object s rest h ih =>
    intro brackets
    obtain ⟨m, hm⟩ := h.exists_key
    obtain ⟨v, hkey, hv, hmembers⟩ := ih (ends_cons (by decide) _)
    have hopen : GoesOn (skipValueIn · brackets ('{' :: s)) ('{' :: s)
        (skipValueIn · (.object :: brackets) v) v :=
      .round (skipValueIn_object hm hkey) (Nat.lt_succ_of_lt hv)
    have hclose : GoesOn (skipEndIn · (.object :: brackets) ('}' :: rest)) ('}' :: rest)
        (skipEndIn · brackets rest) rest :=
      .round (skipEndIn_closeObject · rest) (Nat.lt_succ_self _)
    exact (hopen.trans (hmembers brackets)).trans hclose
  | @element s m k rest hs _ hk ih =>
    intro bracket brackets
    have hbefore : GoesOn (skipValueIn · (bracket :: brackets) s) s
        (skipValueIn · (bracket :: brackets) m) m := .same (hs.skipValueIn · _) hs.length_le
    have hafter : GoesOn (skipEndIn · (bracket :: brackets) k) k
        (skipEndIn · (bracket :: brackets) rest) rest :=
      .same (hk.skipEndIn · bracket brackets) hk.length_le
    exact (hbefore.trans (ih (hk.ends hrest) (bracket :: brackets))).trans hafter
  | lastElement _ ih => exact fun brackets => ih hrest .array brackets
  | @elements s m rest _ _ ih ih' =>
    intro brackets
    have hcomma : GoesOn (skipEndIn · (.array :: brackets) (',' :: m)) (',' :: m)
        (skipValueIn · (.array :: brackets) m) m :=
      .round (skipEndIn_nextItem · m) (Nat.lt_succ_self _)
    exact ((ih (ends_cons (by decide) _) .array brackets).trans hcomma).trans (ih' hrest brackets)
  | member hs hkey hm _ ih =>
    have := hs.length_le
    have := hkey.length_lt
    have := hm.length_le
    simp only [List.length_cons] at *
    exact ⟨_, hkey.skipKey hs hm, by omega, ih hrest .object⟩
  | lastMember _ ih => exact ih hrest
  | @members s m rest _ _ ih ih' =>
    obtain ⟨v, hkey, hv, hmember⟩ := ih (ends_cons (by decide) _)
    obtain ⟨v', hkey', hv', hmembers⟩ := ih' hrest
    refine ⟨v, hkey, hv, fun brackets => ?_⟩
    have hcomma : GoesOn (skipEndIn · (.object :: brackets) (',' :: m)) (',' :: m)
        (skipValueIn · (.object :: brackets) v') v' :=
      .round (skipEndIn_nextMember hkey') (Nat.lt_succ_of_lt hv')
    exact ((hmember brackets).trans hcomma).trans (hmembers brackets)

/-- A value of any kind is skipped. -/
theorem Spells.skipValue (hs : Blanks s m) (h : Spells .value m rest) (hrest : Ends rest) :
    skipValue s = .ok rest := by
  have := hs.length_le
  obtain ⟨rounds, -, heq⟩ := h.skipped hrest [] (2 * s.length + 2) (by omega)
  exact (hs.skipValueIn _ []).trans (heq.trans (skipEndIn_nil rounds rest))

end Json

end FilterLang
