import FilterLang.Proofs.JsonGrammar

/-! The readers of JSON take what the grammar allows: truth values, strings in any of their
spellings, and arrays of what a reader takes. A reader is given a text with blanks in front, and
takes all of a value where the text around it lets a value end: `Reads`. -/

namespace FilterLang

namespace Json

variable {s m rest : List Char}

theorem Blanks.skipBlanks_eq (h : Blanks s rest) : skipBlanks s = skipBlanks rest := by
  induction h with
  | refl => rfl
  | cons hc _ ih => rw [skipBlanks, List.dropWhile_cons_of_pos hc, ← ih, skipBlanks]

theorem skipBlanks_cons {c : Char} (h : isBlank c = false) (s : List Char) :
    skipBlanks (c :: s) = c :: s := List.dropWhile_cons_of_neg (by simp [h])

theorem Blanks.skipBlanks_cons {c : Char} (h : Blanks s (c :: rest)) (hc : isBlank c = false) :
    skipBlanks s = c :: rest := h.skipBlanks_eq.trans (Json.skipBlanks_cons hc rest)

theorem Blanks.length_le (h : Blanks s rest) : rest.length ≤ s.length := by
  induction h with
  | refl => exact Nat.le_refl _
  | cons _ _ ih => exact Nat.le_succ_of_le ih

theorem Blanks.readMark {mark : Char} (h : Blanks s (mark :: rest)) (hmark : isBlank mark = false) :
    readMark mark s = .ok rest := by
  simp [Json.readMark, h.skipBlanks_cons hmark]

/-- A value may end before these characters. -/
def Ends (s : List Char) : Prop := ∀ c ∈ s.head?, isBlank c = true ∨ c ∈ [',', ']', '}']

theorem ends_nil : Ends [] := by simp [Ends]

theorem ends_cons {c : Char} (h : c ∈ [',', ']', '}']) (s : List Char) : Ends (c :: s) := by
  intro d hd
  cases hd
  exact .inr h

theorem Blanks.ends (h : Blanks s rest) (hrest : Ends rest) : Ends s := by
  cases h with
  | refl => exact hrest
  | cons hc =>
    intro d hd
    cases hd
    exact .inl hc

/-- With a round left for each character of `s`, the run `f` goes on as `g`, with a round left for
each character of the rest. -/
def GoesOn {β : Type} (f : Nat → β) (s : List Char) (g : Nat → β) (rest : List Char) : Prop :=
  ∀ rounds, s.length < rounds → ∃ rounds', rest.length < rounds' ∧ f rounds = g rounds'

section

variable {β : Type} {f g h : Nat → β}

theorem GoesOn.trans (hf : GoesOn f s g m) (hg : GoesOn g m h rest) : GoesOn f s h rest := by
  intro rounds hrounds
  obtain ⟨rounds', hrounds', heq⟩ := hf rounds hrounds
  obtain ⟨rounds'', hrounds'', heq'⟩ := hg rounds' hrounds'
  exact ⟨rounds'', hrounds'', heq.trans heq'⟩

theorem GoesOn.round (h : ∀ rounds, f (rounds + 1) = g rounds) (hlength : rest.length < s.length) :
    GoesOn f s g rest := by
  intro rounds hrounds
  obtain ⟨rounds, rfl⟩ : ∃ n, rounds = n + 1 := ⟨rounds - 1, by omega⟩
  exact ⟨rounds, by omega, h rounds⟩

theorem GoesOn.same (h : ∀ rounds, f rounds = g rounds) (hlength : rest.length ≤ s.length) :
    GoesOn f s g rest := fun rounds hrounds => ⟨rounds, by omega, h rounds⟩

theorem GoesOn.tail {c : Char} (h : GoesOn f s g (c :: rest)) : GoesOn f s g rest :=
  h.trans (.same (fun _ => rfl) (Nat.le_succ _))

/-- A run that comes to an end has its result with enough rounds. -/
theorem GoesOn.eq {b : β} (h : GoesOn f s (fun _ => b) rest) : f (s.length + 1) = b := by
  obtain ⟨_, -, heq⟩ := h _ (Nat.lt_succ_self _)
  exact heq

end

theorem HexDigit.hexValue? {n : Nat} {c : Char} (h : HexDigit n c) : hexValue? c = some n := by
  have all : ∀ n < 16, Json.hexValue? (Nat.digitChar n) = some n ∧
      Json.hexValue? (Nat.digitChar n).toUpper = some n := by decide
  obtain ⟨hlower, hupper⟩ := all n h.1
  obtain ⟨-, rfl | rfl⟩ := h
  · exact hlower
  · exact hupper

theorem Hex.readHex {n : Nat} (h : Hex n s rest) : readHex s = .ok (n, rest) := by
  cases h with
  | @mk a b c d _ ha hb hc hd =>
    have hlong := Nat.not_lt.mpr (four_le_utf8Length a b c d)
    have hvalue : ((n / 0x1000 * 16 + n / 0x100 % 0x10) * 16 + n / 0x10 % 0x10) * 16 +
        n % 0x10 = n := by omega
    simp only [Json.readHex, List.take_succ_cons, List.take_zero, hlong, if_false, ha.hexValue?,
      hb.hexValue?, hc.hexValue?, hd.hexValue?, hvalue]

theorem Hex.length_lt {n : Nat} (h : Hex n s rest) : rest.length < s.length := by
  obtain ⟨_, _, _, _⟩ := h
  simp only [List.length_cons]
  omega

theorem CharText.length_lt {c : Option Char} (h : CharText c s rest) : rest.length < s.length := by
  cases h with
  | plain => simp
  | letter => exact Nat.lt_succ_of_lt (Nat.lt_succ_self _)
  | unit h => exact Nat.lt_succ_of_lt (Nat.lt_succ_of_lt h.length_lt)
  | pair _ hhigh hlow =>
    have := hhigh.length_lt
    have := hlow.length_lt
    simp only [List.length_cons] at *
    omega
  | surrogate _ _ h => exact Nat.lt_succ_of_lt (Nat.lt_succ_of_lt h.length_lt)

theorem CharsText.length_lt {cs : List (Option Char)} (h : CharsText cs s rest) :
    rest.length < s.length := by
  induction h with
  | close => simp
  | cons hc _ ih => exact ih.trans hc.length_lt

theorem toNat_not_surrogate (c : Char) : isLowSurrogate c.toNat = false ∧
    isHighSurrogate c.toNat = false := by
  have hc : c.toNat < 0xD800 ∨ 0xDFFF < c.toNat ∧ c.toNat < 0x110000 := c.valid
  simp only [isLowSurrogate, isHighSurrogate, Bool.and_eq_false_iff, decide_eq_false_iff_not]
  omega

theorem readUnicode_value {c : Char} (h : Hex c.toNat s rest) :
    readUnicode .value s = .ok (c, rest) := by
  obtain ⟨hlow, hhigh⟩ := toNat_not_surrogate c
  simp [readUnicode, h.readHex, hlow, hhigh, bind, Except.bind, pure, Except.pure]

theorem readUnicode_skip {n : Nat} (h : Hex n s rest) :
    readUnicode .skip s = .ok (Char.ofNat n, rest) := by
  simp [readUnicode, h.readHex, bind, Except.bind, pure, Except.pure]

theorem readUnicode_pair {c : Char} (hc : 0x10000 ≤ c.toNat)
    (hhigh : Hex (0xD800 + (c.toNat - 0x10000) / 0x400) s ('\\' :: 'u' :: m))
    (hlow : Hex (0xDC00 + (c.toNat - 0x10000) % 0x400) m rest) :
    readUnicode .value s = .ok (c, rest) := by
  have hbound : c.toNat < 0x110000 := by
    have hvalid : c.toNat < 0xD800 ∨ 0xDFFF < c.toNat ∧ c.toNat < 0x110000 := c.valid
    omega
  have hnotlow : isLowSurrogate (0xD800 + (c.toNat - 0x10000) / 0x400) = false := by
    simp only [isLowSurrogate, Bool.and_eq_false_iff, decide_eq_false_iff_not]
    omega
  have hishigh : isHighSurrogate (0xD800 + (c.toNat - 0x10000) / 0x400) = true := by
    simp only [isHighSurrogate, Bool.and_eq_true, decide_eq_true_eq]
    omega
  have hislow : isLowSurrogate (0xDC00 + (c.toNat - 0x10000) % 0x400) = true := by
    simp only [isLowSurrogate, Bool.and_eq_true, decide_eq_true_eq]
    omega
  have hword : readWord ['\\', 'u'] ('\\' :: 'u' :: m) = .ok m := rfl
  have hvalue : 0x10000 + (0xD800 + (c.toNat - 0x10000) / 0x400 - 0xD800) * 0x400 +
      (0xDC00 + (c.toNat - 0x10000) % 0x400 - 0xDC00) = c.toNat := by omega
  have hpartner : readLowSurrogate (0xD800 + (c.toNat - 0x10000) / 0x400) ('\\' :: 'u' :: m) =
      .ok (c, rest) := by
    simp only [readLowSurrogate, hword, hlow.readHex, hislow, hvalue, bind, Except.bind, pure,
      Except.pure, if_true, Char.ofNat_toNat]
  simp [readUnicode, hhigh.readHex, hnotlow, hishigh, hpartner, bind, Except.bind]

theorem readEscape_letter {e c : Char} (p : Purpose) (h : (e, c) ∈ letterEscapes)
    (rest : List Char) : readEscape p (e :: rest) = .ok (c, rest) := by
  have all : ∀ x ∈ letterEscapes, x.1 ≠ 'u' ∧ shortEscape? x.1 = some x.2 := by decide
  obtain ⟨hne, hshort⟩ := all _ h
  rw [readEscape]
  · simp [hshort]
  · exact fun hu => hne hu

theorem readStringIn_plain {c : Char} (p : Purpose) (hquote : c ≠ '"') (hslash : c ≠ '\\')
    (hc : 0x20 ≤ c.toNat) (rounds : Nat) (text : String) (rest : List Char) :
    readStringIn p (rounds + 1) text (c :: rest) = readStringIn p rounds (text.push c) rest := by
  rw [readStringIn]
  · rw [if_neg (Nat.not_lt.mpr hc)]
  · exact fun h => hquote h
  · exact fun h => hslash h

theorem readStringIn_backslash {c : Char} {p : Purpose} (h : readEscape p s = .ok (c, rest))
    (rounds : Nat) (text : String) :
    readStringIn p (rounds + 1) text ('\\' :: s) = readStringIn p rounds (text.push c) rest := by
  simp [readStringIn, h, bind, Except.bind]

theorem readStringIn_unicode {c : Char} {p : Purpose} (h : readUnicode p s = .ok (c, rest))
    (rounds : Nat) (text : String) : readStringIn p (rounds + 1) text ('\\' :: 'u' :: s) =
      readStringIn p rounds (text.push c) rest :=
  readStringIn_backslash (s := 'u' :: s) h rounds text

/-- Each character takes one round. -/
theorem CharText.goesOn {c : Char} (h : CharText (some c) s rest) (text : String) :
    GoesOn (readStringIn .value · text s) s (readStringIn .value · (text.push c) rest) rest := by
  refine .round (fun rounds => ?_) h.length_lt
  cases h with
  | plain hquote hslash hc => exact readStringIn_plain .value hquote hslash hc _ _ _
  | letter he => exact readStringIn_backslash (readEscape_letter .value he _) _ _
  | unit hunit => exact readStringIn_unicode (readUnicode_value hunit) _ _
  | pair hc hhigh hlow => exact readStringIn_unicode (readUnicode_pair hc hhigh hlow) _ _

theorem CharsText.goesOn {cs : List Char} (h : CharsText (cs.map some) s rest) (text : String) :
    GoesOn (readStringIn .value · text s) s (fun _ => .ok (text ++ String.ofList cs, rest))
      rest := by
  induction cs generalizing s text with
  | nil =>
    cases h
    exact .round (fun _ => by simp [readStringIn]) (Nat.lt_succ_self _)
  | cons c cs ih =>
    cases h with
    | cons hc hcs =>
      have hpush : text.push c ++ String.ofList cs = text ++ String.ofList (c :: cs) := by
        apply String.toList_inj.mp
        simp
      rw [← hpush]
      exact (hc.goesOn text).trans (ih hcs (text.push c))

theorem StringText.readQuoted {t : String} (h : StringText t s rest) :
    readQuoted .value s = .ok (t, rest) := by
  have hread := (CharsText.goesOn h "").eq
  rwa [String.empty_append, String.ofList_toList] at hread

theorem Hex.goesOn_skip {n : Nat} (h : Hex n s rest) (text : String) :
    GoesOn (readStringIn .skip · text ('\\' :: 'u' :: s)) ('\\' :: 'u' :: s)
      (readStringIn .skip · (text.push (Char.ofNat n)) rest) rest :=
  .round (fun rounds => readStringIn_unicode (readUnicode_skip h) rounds text)
    (Nat.lt_succ_of_lt (Nat.lt_succ_of_lt h.length_lt))

/-- Where the characters do not matter a surrogate pair takes two rounds, and any other character
one. -/
theorem CharText.goesOn_skip {c : Option Char} (h : CharText c s rest) (text : String) :
    ∃ text', GoesOn (readStringIn .skip · text s) s (readStringIn .skip · text' rest) rest := by
  have hlength := h.length_lt
  cases h with
  | plain hquote hslash hc =>
    exact ⟨_, .round (fun _ => readStringIn_plain .skip hquote hslash hc _ _ _) hlength⟩
  | letter he =>
    exact ⟨_, .round (fun _ => readStringIn_backslash (readEscape_letter .skip he _) _ _) hlength⟩
  | unit hunit => exact ⟨_, hunit.goesOn_skip text⟩
  | surrogate _ _ hunit => exact ⟨_, hunit.goesOn_skip text⟩
  | pair _ hhigh hlow => exact ⟨_, (hhigh.goesOn_skip text).trans (hlow.goesOn_skip _)⟩

theorem CharsText.goesOn_skip {cs : List (Option Char)} (h : CharsText cs s rest) (text : String) :
    ∃ t, GoesOn (readStringIn .skip · text s) s (fun _ => .ok (t, rest)) rest := by
  induction h generalizing text with
  | close => exact ⟨text, .round (fun _ => rfl) (Nat.lt_succ_self _)⟩
  | cons hc _ ih =>
    obtain ⟨text', hfirst⟩ := hc.goesOn_skip text
    obtain ⟨t, hothers⟩ := ih text'
    exact ⟨t, hfirst.trans hothers⟩

theorem CharsText.readQuoted_skip {cs : List (Option Char)} (h : CharsText cs s rest) :
    ∃ t, readQuoted .skip s = .ok (t, rest) := by
  obtain ⟨t, hread⟩ := h.goesOn_skip ""
  exact ⟨t, hread.eq⟩

/-- A value starts with another character than what separates and closes. -/
def Opens (s : List Char) : Prop :=
  ∃ c cs, s = c :: cs ∧ isBlank c = false ∧ c ∉ [',', ']', '}']

/-- The reader takes the texts of `T` and gives `a` for each of them, after any blanks. -/
structure Reads {α : Type} (read : Reader α) (T : List Char → List Char → Prop) (a : α) : Prop where
  opens {s rest : List Char} : T s rest → Opens s
  length_lt {s rest : List Char} : T s rest → rest.length < s.length
  read_eq {s m rest : List Char} : Blanks s m → T m rest → Ends rest → read s = .ok (a, rest)

section

variable {α β : Type} {read : Reader α} {T : List Char → List Char → Prop} {a : α}

theorem Reads.of_texts (h : ∀ {s rest}, T s rest → ∃ T', Reads read T' a ∧ T' s rest) :
    Reads read T a where
  opens ht := by
    obtain ⟨T', hreads, ht'⟩ := h ht
    exact hreads.opens ht'
  length_lt ht := by
    obtain ⟨T', hreads, ht'⟩ := h ht
    exact hreads.length_lt ht'
  read_eq hs ht hrest := by
    obtain ⟨T', hreads, ht'⟩ := h ht
    exact hreads.read_eq hs ht' hrest

theorem Reads.of_read {read' : Reader β} {b : β} (h : Reads read T a)
    (heq : ∀ {s rest}, read s = .ok (a, rest) → read' s = .ok (b, rest)) : Reads read' T b where
  opens := h.opens
  length_lt := h.length_lt
  read_eq hs ht hrest := heq (h.read_eq hs ht hrest)

end

theorem reads_readBool (b : Bool) : Reads readBool (BoolText b) b where
  opens h := by
    cases h
    · exact ⟨'t', _, rfl, rfl, by decide⟩
    · exact ⟨'f', _, rfl, rfl, by decide⟩
  length_lt h := by
    cases h
    all_goals
      simp only [List.length_cons]
      omega
  read_eq hs h _ := by
    cases h
    · rw [readBool, hs.skipBlanks_cons rfl]
      rfl
    · rw [readBool, hs.skipBlanks_cons rfl]
      rfl

theorem reads_readString (t : String) : Reads readString (QuotedText t) t where
  opens h := by
    obtain ⟨_⟩ := h
    exact ⟨'"', _, rfl, rfl, by decide⟩
  length_lt h := by
    obtain ⟨h⟩ := h
    exact Nat.lt_succ_of_lt (CharsText.length_lt h)
  read_eq hs h _ := by
    obtain ⟨h⟩ := h
    rw [readString, hs.skipBlanks_cons rfl]
    exact h.readQuoted

theorem Opens.nextItem_first (h : Opens m) (hs : Blanks s m) : nextItem true s = .ok (some m) := by
  obtain ⟨c, cs, rfl, hblank, hc⟩ := h
  simp only [List.mem_cons, List.not_mem_nil, or_false, not_or] at hc
  rw [nextItem, hs.skipBlanks_cons hblank]
  split
  · next heq => cases heq
  · next heq => exact absurd (List.cons.inj heq).1 hc.2.1
  · next heq => exact absurd (List.cons.inj heq).1 hc.1
  · rfl

theorem Opens.nextItem (h : Opens m) {v : List Char} (hs : Blanks s (',' :: v)) (hv : Blanks v m) :
    nextItem false s = .ok (some m) := by
  obtain ⟨c, cs, rfl, hblank, hc⟩ := h
  simp only [List.mem_cons, List.not_mem_nil, or_false, not_or] at hc
  rw [Json.nextItem, hs.skipBlanks_cons rfl]
  simp only [Bool.false_eq_true, if_false, hv.skipBlanks_cons hblank]
  split
  · next heq => cases heq
  · next heq => exact absurd (List.cons.inj heq).1 hc.2.1
  · rfl

theorem nextItem_close (first : Bool) (hs : Blanks s (']' :: rest)) :
    nextItem first s = .ok none := by
  simp [nextItem, hs.skipBlanks_cons rfl]

/-- The text from `v` on is where the next item stands: at once, or after a comma. -/
def Next (first : Bool) (s v : List Char) : Prop :=
  if first then s = v else Blanks s (',' :: v)

theorem next_first (s : List Char) : Next true s s := rfl

theorem Blanks.next {v : List Char} (h : Blanks s (',' :: v)) : Next false s v := h

theorem Next.nextItem {first : Bool} {v : List Char} (h : Next first s v) (hv : Blanks v m)
    (hm : Opens m) : nextItem first s = .ok (some m) := by
  cases first with
  | true =>
    obtain rfl : s = v := h
    exact hm.nextItem_first hv
  | false => exact hm.nextItem h hv

theorem Padded.length_lt {T : List Char → List Char → Prop}
    (hT : ∀ {s rest}, T s rest → rest.length < s.length) (h : Padded T s rest) :
    rest.length < s.length := by
  obtain ⟨hs, hT', hrest⟩ := h
  have := hs.length_le
  have := hT hT'
  have := hrest.length_le
  omega

theorem Separated.length_lt {α : Type} {close : Char} {T : α → List Char → List Char → Prop}
    {xs : List α} (hT : ∀ x {s rest}, T x s rest → rest.length < s.length)
    (h : Separated close T xs s rest) : rest.length < s.length := by
  induction h with
  | last hx =>
    have := hT _ hx
    simp only [List.length_cons] at this
    omega
  | cons hx _ ih =>
    have := hT _ hx
    simp only [List.length_cons] at this
    omega

theorem Enclosed.length_lt {α : Type} {close : Char} {T : α → List Char → List Char → Prop}
    {xs : List α} (hT : ∀ x {s rest}, T x s rest → rest.length < s.length)
    (h : Enclosed close T xs s rest) : rest.length < s.length := by
  cases h with
  | empty hs => exact hs.length_le
  | items hitems => exact hitems.length_lt hT

section

variable {α : Type} {read : Reader α} {T : α → List Char → List Char → Prop} {xs : List α}

theorem goesOn_closeItems (first : Bool) (items : List α) (hs : Blanks s (']' :: rest)) :
    GoesOn (readItemsIn read · first items s) (']' :: rest) (fun _ => .ok (items.reverse, rest))
      rest := by
  refine .round (fun rounds => ?_) (Nat.lt_succ_self _)
  simp [readItemsIn, nextItem_close first hs, endArray, hs.readMark rfl, bind, Except.bind, pure,
    Except.pure]

theorem Reads.goesOn_item {x : α} {first : Bool} {v : List Char} (hreads : Reads read (T x) x)
    (hs : Next first s v) (hx : Padded (T x) v rest) (hrest : Ends rest) (items : List α) :
    ∃ k, Blanks k rest ∧ GoesOn (readItemsIn read · first items s) v
      (readItemsIn read · false (x :: items) k) rest := by
  have hlength := hx.length_lt hreads.length_lt
  obtain ⟨hv, hx, hk⟩ := hx
  have hnext := hs.nextItem hv (hreads.opens hx)
  have hread := hreads.read_eq .refl hx (hk.ends hrest)
  refine ⟨_, hk, .round (fun rounds => ?_) hlength⟩
  simp [readItemsIn, hnext, hread, bind, Except.bind]

theorem Separated.goesOn_items {v : List Char} (hreads : ∀ x, Reads read (T x) x)
    (h : Separated ']' (fun x => Padded (T x)) xs v rest) {first : Bool} (hs : Next first s v)
    (items : List α) : GoesOn (readItemsIn read · first items s) v
      (fun _ => .ok (items.reverse ++ xs, rest)) rest := by
  induction h generalizing s first items with
  | @last x _ _ hx =>
    obtain ⟨k, hk, hitem⟩ := (hreads x).goesOn_item hs hx (ends_cons (by decide) _) items
    rw [← List.reverse_cons]
    exact hitem.trans (goesOn_closeItems false _ hk)
  | @cons x xs _ _ _ hx _ ih =>
    obtain ⟨k, hk, hitem⟩ := (hreads x).goesOn_item hs hx (ends_cons (by decide) _) items
    rw [List.append_cons, ← List.reverse_cons]
    exact hitem.tail.trans (ih hk.next (x :: items))

end

/-- An array is read item by item. -/
theorem reads_readArray {α : Type} {read : Reader α} {T : α → List Char → List Char → Prop}
    (h : ∀ x, Reads read (T x) x) (xs : List α) : Reads (readArray read) (ArrayText T xs) xs where
  opens h := by
    obtain ⟨_⟩ := h
    exact ⟨'[', _, rfl, rfl, by decide⟩
  length_lt harray := by
    obtain ⟨hitems⟩ := harray
    exact Nat.lt_succ_of_lt (hitems.length_lt fun x _ _ hx => hx.length_lt (h x).length_lt)
  read_eq hs harray _ := by
    obtain ⟨hitems⟩ := harray
    rw [readArray, hs.skipBlanks_cons rfl]
    cases hitems with
    | empty hclose =>
      exact ((GoesOn.same (fun _ => rfl) hclose.length_le).trans (goesOn_closeItems true [] hclose)).eq
    | items hitems => exact (hitems.goesOn_items h (next_first _) []).eq

/-- A whole text is read as its value. -/
theorem Reads.readText {α : Type} {read : Reader α} {T : List Char → List Char → Prop} {a : α}
    (h : Reads read T a) {text : String} (htext : IsText T text) : readText read text = .ok a := by
  obtain ⟨hs, hT, hrest⟩ := htext
  have hread := h.read_eq hs hT (hrest.ends ends_nil)
  have hblank : skipBlanks _ = [] := hrest.skipBlanks_eq
  simp [Json.readText, hread, hblank, bind, Except.bind]

end Json

end FilterLang
