import FilterLang.Grapheme.BreakTable

/-! How a character behaves at the borders of grapheme clusters: the Unicode property
Grapheme_Cluster_Break, with pictographs, the letters and marks of conjuncts and the two joiners told
apart. -/

namespace FilterLang.Grapheme

inductive Break
  | carriageReturn
  | lineFeed
  | control
  | extender
  | linker
  | joiner
  | nonJoiner
  | spacingMark
  | prepended
  | consonant
  | pictograph
  | regionalIndicator
  | leadingJamo
  | vowelJamo
  | trailingJamo
  | openSyllable
  | closedSyllable
  | other
  deriving DecidableEq

namespace Break

/-- The classes that are tables; a character that is in two of them has the class of the first. -/
def tables : List (Break × CharRanges) :=
  [(carriageReturn, [(0x0D, 0x0D)]), (lineFeed, [(0x0A, 0x0A)]), (control, BreakTable.controls),
    (joiner, [(0x200D, 0x200D)]), (nonJoiner, [(0x200C, 0x200C)]), (linker, BreakTable.linkers),
    (extender, BreakTable.extenders), (extender, [(0x1F3FB, 0x1F3FF)]),
    (spacingMark, BreakTable.spacingMarks), (prepended, BreakTable.prepended),
    (consonant, BreakTable.consonants), (pictograph, BreakTable.pictographs),
    (regionalIndicator, [(0x1F1E6, 0x1F1FF)]), (leadingJamo, BreakTable.leadingJamo),
    (vowelJamo, BreakTable.vowelJamo), (trailingJamo, BreakTable.trailingJamo)]

theorem tables_ascending : ∀ table ∈ tables, table.2.ascending = true := by decide +kernel

def firstSyllable : Nat := 0xAC00

/-- The class of a Hangul syllable; of those with the same start the first has nothing after its vowel,
and 27 follow it that do. -/
def syllable? (c : Char) : Option Break :=
  if firstSyllable ≤ c.toNat ∧ c.toNat ≤ 0xD7A3 then
    some (if (c.toNat - firstSyllable) % 28 = 0 then openSyllable else closedSyllable)
  else none

def ofChar (c : Char) : Break :=
  if ' ' ≤ c ∧ c ≤ '~' then other
  else
    match syllable? c, tables.find? fun table => table.2.has c with
    | some syllable, _ => syllable
    | none, some table => table.1
    | none, none => other

/-- Characters that are never part of a larger cluster, but for a line break of two characters. -/
def isControl (b : Break) : Bool :=
  b = carriageReturn || b = lineFeed || b = control

/-- Characters that join whatever is before them, a control excepted. -/
def attaches (b : Break) : Bool :=
  b = extender || b = linker || b = joiner || b = nonJoiner || b = spacingMark

def withinSyllable : Break → Break → Bool
  | leadingJamo, next =>
    next = leadingJamo || next = vowelJamo || next = openSyllable || next = closedSyllable
  | vowelJamo, next | openSyllable, next => next = vowelJamo || next = trailingJamo
  | trailingJamo, next | closedSyllable, next => next = trailingJamo
  | _, _ => false

end Break

end FilterLang.Grapheme
