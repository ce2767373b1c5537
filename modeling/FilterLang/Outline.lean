import FilterLang.Grapheme.BreakTable
import FilterLang.Outline.UnprintableTable

/-! Outlines of values, for people who look at a tree: each node has its name, then its parts in
parentheses or its named parts in braces. An outline is written on one line, or with one part a line
and four blanks a level. -/

namespace FilterLang

inductive Outline
  | word (name : String)
  | text (s : String)
  | wrapped (name : String) (inner : Outline)
  | record (name : String) (parts : List (String × Outline))
  | list (items : List Outline)

namespace Outline

def unprintable : List CharRanges :=
  [UnprintableTable.controls, UnprintableTable.separators, UnprintableTable.privateUse,
    UnprintableTable.unassigned]

theorem unprintable_ascending : ∀ ranges ∈ unprintable, ranges.ascending = true := by
  decide +kernel

def isPrintable (c : Char) : Bool :=
  !unprintable.any fun ranges => ranges.has c

/-- Marks are not shown as they are, for they would join the character or the quote before them. -/
def isShown (c : Char) : Bool :=
  !Grapheme.BreakTable.extenders.has c && isPrintable c

def codePoint (c : Char) : List Char :=
  ['\\', 'u', '\x7b'] ++ Nat.toDigits 16 c.toNat ++ ['\x7d']

def escape (c : Char) : List Char :=
  if c = '"' then ['\\', '"']
  else if c = '\\' then ['\\', '\\']
  else if c = '\t' then ['\\', 't']
  else if c = '\n' then ['\\', 'n']
  else if c = '\r' then ['\\', 'r']
  else if c = '\x00' then ['\\', '0']
  else if isShown c then [c]
  else codePoint c

theorem isShown_of_ascii {c : Char} (h : 0x20 ≤ c.toNat) (h' : c.toNat < 0x7F) :
    isShown c = true := by
  obtain ⟨-, hseparators, hprivate, hunassigned, -⟩ : _ ∧ _ ∧ _ ∧ _ ∧ _ := by
    simpa only [unprintable, List.forall_mem_cons] using unprintable_ascending
  have hcontrols : UnprintableTable.controls.has c = false := by
    unfold UnprintableTable.controls
    rw [CharRanges.has_cons, CharRanges.has_eq_false_of_lt (by decide) (by omega)]
    simp; omega
  have hextenders : Grapheme.BreakTable.extenders.has c = false :=
    CharRanges.has_eq_false_of_lt Grapheme.BreakTable.extenders_ascending (by omega)
  replace hseparators : UnprintableTable.separators.has c = false :=
    CharRanges.has_eq_false_of_lt hseparators (by omega)
  replace hprivate : UnprintableTable.privateUse.has c = false :=
    CharRanges.has_eq_false_of_lt hprivate (by omega)
  replace hunassigned : UnprintableTable.unassigned.has c = false :=
    CharRanges.has_eq_false_of_lt hunassigned (by omega)
  simp [isShown, isPrintable, unprintable, *]

theorem exists_digit_of_mem_toDigits {c : Char} {n : Nat} (hc : c ∈ Nat.toDigits 16 n) :
    ∃ d < 16, c = Nat.digitChar d := by
  induction n using Nat.strongRecOn with
  | ind n ih =>
    rw [Nat.toDigits_eq_if (by decide)] at hc
    split at hc
    next hn => exact ⟨n, hn, List.mem_singleton.mp hc⟩
    next hn =>
      rcases List.mem_append.mp hc with hc | hc
      · exact ih (n / 16) (by omega) hc
      · exact ⟨n % 16, Nat.mod_lt n (by decide), List.mem_singleton.mp hc⟩

theorem ascii_of_mem_codePoint {c d : Char} (hd : d ∈ codePoint c) :
    0x20 ≤ d.toNat ∧ d.toNat < 0x7F := by
  have hdigits : ∀ n < 16, 0x20 ≤ (Nat.digitChar n).toNat ∧ (Nat.digitChar n).toNat < 0x7F := by
    decide
  simp only [codePoint, List.mem_append, List.mem_cons, List.not_mem_nil, or_false] at hd
  rcases hd with ((rfl | rfl | rfl) | hd) | rfl
  case inl.inr =>
    obtain ⟨n, hn, rfl⟩ := exists_digit_of_mem_toDigits hd
    exact hdigits n hn
  all_goals decide

/-- Whatever characters a text has, its outline is made of characters that are seen. -/
theorem isShown_of_mem_escape {c d : Char} (hd : d ∈ escape c) : isShown d = true := by
  unfold escape at hd
  iterate 6
    split at hd
    · simp only [List.mem_cons, List.not_mem_nil, or_false] at hd
      rcases hd with rfl | rfl <;> exact isShown_of_ascii (by decide) (by decide)
  split at hd
  next hc => rwa [List.mem_singleton.mp hd]
  next =>
    obtain ⟨h, h'⟩ := ascii_of_mem_codePoint hd
    exact isShown_of_ascii h h'

example : escape '\u0301' = "\\u\x7b301\x7d".toList := by decide +kernel

def quote (s : String) : String :=
  "\"" ++ String.ofList (s.toList.flatMap escape) ++ "\""

mutual

def line : Outline → String
  | word name => name
  | text s => quote s
  | wrapped name inner => name ++ "(" ++ line inner ++ ")"
  | record name parts => name ++ " \x7b " ++ lineParts parts ++ " \x7d"
  | list items => "[" ++ lineItems items ++ "]"

def lineParts : List (String × Outline) → String
  | [] => ""
  | [(key, o)] => key ++ ": " ++ line o
  | (key, o) :: ps => key ++ ": " ++ line o ++ ", " ++ lineParts ps

def lineItems : List Outline → String
  | [] => ""
  | [o] => line o
  | o :: os => line o ++ ", " ++ lineItems os

end

mutual

/-- The form with one part a line; every line but the first starts with `margin`. -/
def lines (margin : String) : Outline → String
  | word name => name
  | text s => quote s
  | wrapped name inner =>
    name ++ "(\n" ++ (margin ++ "    ") ++ lines (margin ++ "    ") inner ++ ",\n" ++ margin ++ ")"
  | record name parts =>
    name ++ " \x7b\n" ++ linesParts (margin ++ "    ") parts ++ margin ++ "\x7d"
  | list [] => "[]"
  | list (o :: os) => "[\n" ++ linesItems (margin ++ "    ") (o :: os) ++ margin ++ "]"

def linesParts (margin : String) : List (String × Outline) → String
  | [] => ""
  | (key, o) :: ps => margin ++ key ++ ": " ++ lines margin o ++ ",\n" ++ linesParts margin ps

def linesItems (margin : String) : List Outline → String
  | [] => ""
  | o :: os => margin ++ lines margin o ++ ",\n" ++ linesItems margin os

end

end Outline

end FilterLang
