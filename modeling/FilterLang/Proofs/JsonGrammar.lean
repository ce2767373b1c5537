import FilterLang.Proofs.JsonText
import Mathlib.Data.List.Forall2

/-! The grammar of JSON over characters. A phrase is taken from the front of a text and leaves a
rest. Strings and lists are given with what they hold, so that a text of a certain kind of value is
the same grammar at a certain item. What is written is in the grammar: `writes_array` and
`writes_object`. -/

namespace FilterLang

namespace Json

inductive Blanks : List Char → List Char → Prop
  | refl {s} : Blanks s s
  | cons {c s rest} : isBlank c = true → Blanks s rest → Blanks (c :: s) rest

/-- The character is a hexadecimal digit, of either case. -/
def HexDigit (n : Nat) (c : Char) : Prop :=
  n < 16 ∧ (c = Nat.digitChar n ∨ c = (Nat.digitChar n).toUpper)

/-- A number of 16 bits in four hexadecimal digits. -/
inductive Hex (n : Nat) : List Char → List Char → Prop
  | mk {a b c d rest} : HexDigit (n / 0x1000) a → HexDigit (n / 0x100 % 0x10) b →
      HexDigit (n / 0x10 % 0x10) c → HexDigit (n % 0x10) d → Hex n (a :: b :: c :: d :: rest) rest

/-- The letters after a backslash and the characters that they stand for. -/
def letterEscapes : List (Char × Char) :=
  [('"', '"'), ('\\', '\\'), ('/', '/'), ('b', '\x08'), ('f', '\x0c'), ('n', '\n'), ('r', '\r'),
    ('t', '\t')]

/-- One character in a string. A surrogate without its partner is no character. -/
inductive CharText : Option Char → List Char → List Char → Prop
  | plain {c rest} : c ≠ '"' → c ≠ '\\' → 0x20 ≤ c.toNat → CharText (some c) (c :: rest) rest
  | letter {e c rest} : (e, c) ∈ letterEscapes → CharText (some c) ('\\' :: e :: rest) rest
  | unit {c s rest} : Hex c.toNat s rest → CharText (some c) ('\\' :: 'u' :: s) rest
  | pair {c s s' rest} : 0x10000 ≤ c.toNat →
      Hex (0xD800 + (c.toNat - 0x10000) / 0x400) s ('\\' :: 'u' :: s') →
      Hex (0xDC00 + (c.toNat - 0x10000) % 0x400) s' rest →
      CharText (some c) ('\\' :: 'u' :: s) rest
  | surrogate {n s rest} : 0xD800 ≤ n → n < 0xE000 → Hex n s rest →
      CharText none ('\\' :: 'u' :: s) rest

/-- The characters of a string after its opening quote. -/
inductive CharsText : List (Option Char) → List Char → List Char → Prop
  | close {rest} : CharsText [] ('"' :: rest) rest
  | cons {c cs s m rest} : CharText c s m → CharsText cs m rest → CharsText (c :: cs) s rest

/-- A string after its opening quote. -/
def StringText (t : String) (s rest : List Char) : Prop := CharsText (t.toList.map some) s rest

inductive Digits : List Char → List Char → Prop
  | mk {c cs rest} : (∀ d ∈ c :: cs, d.isDigit = true) → Digits (c :: cs ++ rest) rest

inductive Whole : List Char → List Char → Prop
  | zero {rest} : Whole ('0' :: rest) rest
  | digits {s rest} : s.head? ≠ some '0' → Digits s rest → Whole s rest

inductive Fraction : List Char → List Char → Prop
  | none {s} : Fraction s s
  | digits {s rest} : Digits s rest → Fraction ('.' :: s) rest

inductive Exponent : List Char → List Char → Prop
  | none {s} : Exponent s s
  | digits {e sign s rest} : e = 'e' ∨ e = 'E' → sign ∈ [[], ['+'], ['-']] → Digits s rest →
      Exponent (e :: sign ++ s) rest

inductive UnsignedText : List Char → List Char → Prop
  | mk {s m k rest} : Whole s m → Fraction m k → Exponent k rest → UnsignedText s rest

inductive NumeralText : List Char → List Char → Prop
  | positive {s rest} : UnsignedText s rest → NumeralText s rest
  | negative {s rest} : UnsignedText s rest → NumeralText ('-' :: s) rest

inductive Phrase
  | value
  /-- A value and the blanks around it. -/
  | element
  | elements
  | member
  | members

inductive Spells : Phrase → List Char → List Char → Prop
  | null {rest} : Spells .value ('n' :: 'u' :: 'l' :: 'l' :: rest) rest
  | truth {rest} : Spells .value ('t' :: 'r' :: 'u' :: 'e' :: rest) rest
  | falsity {rest} : Spells .value ('f' :: 'a' :: 'l' :: 's' :: 'e' :: rest) rest
  | numeral {s rest} : NumeralText s rest → Spells .value s rest
  | string {cs s rest} : CharsText cs s rest → Spells .value ('"' :: s) rest
  | emptyArray {s rest} : Blanks s (']' :: rest) → Spells .value ('[' :: s) rest
  | array {s rest} : Spells .elements s (']' :: rest) → Spells .value ('[' :: s) rest
  | emptyObject {s rest} : Blanks s ('}' :: rest) → Spells .value ('{' :: s) rest
  | object {s rest} : Spells .members s ('}' :: rest) → Spells .value ('{' :: s) rest
  | element {s m k rest} : Blanks s m → Spells .value m k → Blanks k rest → Spells .element s rest
  | lastElement {s rest} : Spells .element s rest → Spells .elements s rest
  | elements {s m rest} : Spells .element s (',' :: m) → Spells .elements m rest →
      Spells .elements s rest
  | member {s key m v rest cs} : Blanks s ('"' :: key) → CharsText cs key m → Blanks m (':' :: v) →
      Spells .element v rest → Spells .member s rest
  | lastMember {s rest} : Spells .member s rest → Spells .members s rest
  | members {s m rest} : Spells .member s (',' :: m) → Spells .members m rest →
      Spells .members s rest

section

variable {α : Type}

/-- What `T` takes, and the blanks around it. -/
inductive Padded (T : List Char → List Char → Prop) : List Char → List Char → Prop
  | mk {s m k rest} : Blanks s m → T m k → Blanks k rest → Padded T s rest

/-- One or more items with commas between them, and the mark that closes the list. -/
inductive Separated (close : Char) (T : α → List Char → List Char → Prop) :
    List α → List Char → List Char → Prop
  | last {x s rest} : T x s (close :: rest) → Separated close T [x] s rest
  | cons {x xs s m rest} : T x s (',' :: m) → Separated close T xs m rest →
      Separated close T (x :: xs) s rest

/-- Items after the mark that opens their list. -/
inductive Enclosed (close : Char) (T : α → List Char → List Char → Prop) :
    List α → List Char → List Char → Prop
  | empty {s rest} : Blanks s (close :: rest) → Enclosed close T [] s rest
  | items {xs s rest} : Separated close T xs s rest → Enclosed close T xs s rest

inductive ArrayText (T : α → List Char → List Char → Prop) (xs : List α) :
    List Char → List Char → Prop
  | mk {s rest} : Enclosed ']' (fun x => Padded (T x)) xs s rest → ArrayText T xs ('[' :: s) rest

/-- A member of an object, with its key. -/
inductive MemberText (key : String) (T : List Char → List Char → Prop) :
    List Char → List Char → Prop
  | mk {s k m v rest} : Blanks s ('"' :: k) → StringText key k m → Blanks m (':' :: v) →
      Padded T v rest → MemberText key T s rest

inductive ObjectText (key : α → String) (T : α → List Char → List Char → Prop) (xs : List α) :
    List Char → List Char → Prop
  | mk {s rest} : Enclosed '}' (fun x => MemberText (key x) (T x)) xs s rest →
      ObjectText key T xs ('{' :: s) rest

inductive BoolText : Bool → List Char → List Char → Prop
  | truth {rest} : BoolText true ('t' :: 'r' :: 'u' :: 'e' :: rest) rest
  | falsity {rest} : BoolText false ('f' :: 'a' :: 'l' :: 's' :: 'e' :: rest) rest

inductive QuotedText (t : String) : List Char → List Char → Prop
  | mk {s rest} : StringText t s rest → QuotedText t ('"' :: s) rest

end

/-- A whole text: the value and the blanks around it. -/
def IsText (T : List Char → List Char → Prop) (text : String) : Prop := Padded T text.toList []

/-- The text is one of `T`, whatever stands behind it. -/
def Writes (text : String) (T : List Char → List Char → Prop) : Prop :=
  ∀ rest, T (text.toList ++ rest) rest

theorem hexDigit_digitChar {n : Nat} (h : n < 16) : HexDigit n (Nat.digitChar n) := ⟨h, .inl rfl⟩

theorem charText_escape (c : Char) (rest : List Char) :
    CharText (some c) (escape c ++ rest) rest := by
  unfold escape
  split_ifs with hquote hslash hb ht hn hf hr hcontrol
  · subst hquote; exact .letter (by decide)
  · subst hslash; exact .letter (by decide)
  · subst hb; exact .letter (by decide)
  · subst ht; exact .letter (by decide)
  · subst hn; exact .letter (by decide)
  · subst hf; exact .letter (by decide)
  · subst hr; exact .letter (by decide)
  · have hhigh : c.toNat / 0x1000 = 0 := by omega
    have hnext : c.toNat / 0x100 % 0x10 = 0 := by omega
    have hlow : c.toNat / 0x10 % 0x10 = c.toNat / 16 := by omega
    refine .unit (.mk ?_ ?_ ?_ (hexDigit_digitChar (by omega)))
    · rw [hhigh]; exact hexDigit_digitChar (by decide)
    · rw [hnext]; exact hexDigit_digitChar (by decide)
    · rw [hlow]; exact hexDigit_digitChar (by omega)
  · exact .plain hquote hslash (Nat.not_lt.mp hcontrol)

theorem charsText_escape (cs rest : List Char) :
    CharsText (cs.map some) (cs.flatMap escape ++ '"' :: rest) rest := by
  induction cs with
  | nil => exact .close
  | cons c cs ih =>
    rw [List.flatMap_cons, List.append_assoc]
    exact .cons (charText_escape c _) ih

theorem writes_quote (t : String) : Writes (quote t) (QuotedText t) := by
  intro rest
  simpa [toList_quote] using QuotedText.mk (t := t) (charsText_escape t.toList rest)

theorem writes_boolText (b : Bool) : Writes (boolText b) (BoolText b) := by
  intro rest
  cases b
  · exact .falsity
  · exact .truth

section

variable {T : List Char → List Char → Prop}

theorem Padded.of_text {s rest : List Char} (h : T s rest) : Padded T s rest := .mk .refl h .refl

theorem Writes.padded {text : String} (h : Writes text T) : Writes text (Padded T) :=
  fun rest => .of_text (h rest)

theorem Writes.isText {text : String} (h : Writes text T) : IsText T text := by
  have htext := h []
  rw [List.append_nil] at htext
  exact .of_text htext

theorem Writes.member {j : Json} (h : Writes j.compact T) (key : String) :
    Writes (memberText (key, j)) (MemberText key T) := by
  intro rest
  have hkey : StringText key _ (':' :: (j.compact.toList ++ rest)) :=
    charsText_escape key.toList (':' :: (j.compact.toList ++ rest))
  simpa [memberText, toList_quote] using MemberText.mk .refl hkey .refl (.of_text (h rest))

end

section

variable {α : Type} {close : Char} {T : α → List Char → List Char → Prop} {xs : List α}
  {texts : List String}

theorem separated_commaSeparated {x : α} {text : String} (hx : Writes text (T x))
    (h : List.Forall₂ (fun text x => Writes text (T x)) texts xs) (rest : List Char) :
    Separated close T (x :: xs)
      ((Filter.commaSeparated (text :: texts)).toList ++ close :: rest) rest := by
  induction h generalizing x text with
  | nil =>
    rw [toList_commaSeparated_cons]
    exact .last (hx _)
  | cons hy _ ih =>
    rw [toList_commaSeparated_cons]
    exact .cons (hx _) (ih hy)

/-- Texts with commas between them, written without a blank, are a list of the grammar. -/
theorem enclosed_commaSeparated (h : List.Forall₂ (fun text x => Writes text (T x)) texts xs)
    (rest : List Char) :
    Enclosed close T xs ((Filter.commaSeparated texts).toList ++ close :: rest) rest := by
  cases h with
  | nil => exact .empty .refl
  | cons hx hxs => exact .items (separated_commaSeparated hx hxs rest)

theorem writes_array {items : List Json}
    (h : List.Forall₂ (fun j x => Writes j.compact (T x)) items xs) :
    Writes (array items).compact (ArrayText T xs) := by
  intro rest
  rw [toList_compact_array]
  refine .mk (enclosed_commaSeparated ?_ rest)
  rw [List.forall₂_map_left_iff]
  exact h.imp fun _ _ hwrites => hwrites.padded

theorem writes_object {key : α → String} {members : List (String × Json)}
    (h : List.Forall₂ (fun m x => m.1 = key x ∧ Writes m.2.compact (T x)) members xs) :
    Writes (object members).compact (ObjectText key T xs) := by
  intro rest
  rw [toList_compact_object]
  refine .mk (enclosed_commaSeparated ?_ rest)
  rw [List.forall₂_map_left_iff]
  exact h.imp fun m x hwrites => hwrites.1 ▸ hwrites.2.member m.1

end

end Json

end FilterLang
