/-! Sets of characters, given by ranges of their code points. -/

namespace FilterLang

/-- The first and the last code point of each range. -/
abbrev CharRanges := List (Nat × Nat)

namespace CharRanges

def has (ranges : CharRanges) (c : Char) : Bool :=
  ranges.any fun (first, last) => first ≤ c.toNat && c.toNat ≤ last

/-- No range is empty, and each starts after the end of the one before it. -/
def ascending : CharRanges → Bool
  | [] => true
  | [r] => r.1 ≤ r.2
  | r :: s :: rest => r.1 ≤ r.2 && r.2 < s.1 && ascending (s :: rest)

variable {r : Nat × Nat} {rest : CharRanges} {c : Char}

theorem has_cons : has (r :: rest) c = ((r.1 ≤ c.toNat && c.toNat ≤ r.2) || has rest c) := rfl

theorem has_eq_false_of_lt (h : ascending (r :: rest) = true) (hc : c.toNat < r.1) :
    has (r :: rest) c = false := by
  induction rest generalizing r with
  | nil => simp [has]; omega
  | cons s rest ih =>
    obtain ⟨⟨hr, hs⟩, hrest⟩ : (r.1 ≤ r.2 ∧ r.2 < s.1) ∧ ascending (s :: rest) = true := by
      simpa [ascending] using h
    rw [has_cons, ih hrest (by omega)]
    simp; omega

end CharRanges

end FilterLang
