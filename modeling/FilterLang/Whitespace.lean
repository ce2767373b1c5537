import FilterLang.CharRanges

/-! The characters with the Unicode property White_Space, and texts without them at the ends. -/

namespace FilterLang.Whitespace

def ranges : CharRanges :=
  [(0x09, 0x0D), (0x20, 0x20), (0x85, 0x85), (0xA0, 0xA0), (0x1680, 0x1680), (0x2000, 0x200A),
    (0x2028, 0x2029), (0x202F, 0x202F), (0x205F, 0x205F), (0x3000, 0x3000)]

def has (c : Char) : Bool := ranges.has c

def trimChars (s : List Char) : List Char :=
  ((s.dropWhile has).reverse.dropWhile has).reverse

def trim (s : String) : String := String.ofList (trimChars s.toList)

theorem ranges_ascending : ranges.ascending = true := by decide

end FilterLang.Whitespace
