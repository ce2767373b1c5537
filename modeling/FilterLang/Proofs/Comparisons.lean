import FilterLang.Proofs.Unnegated

/-! Comparisons of a field with a value are read back from their text, whatever the name is, empty
or an operator or with blanks: `parse_definition_compare`. Only a name that reads as a number is not:
it is written bare like any number, and a number is a value in the place of a field too. -/

namespace FilterLang

namespace Filter

variable {n : String} {v : Literal}

theorem textReads_compare (hn : Quotable n) (hv : Quotable v.write) (op : Comparison) :
    TextReads .expression 0 (Filter.compare n op v).definition
      (comparison op (fieldLeaf n) (value v.write)) fun _ => True := by
  have hread : TextReads .expression 0
      (atom n ++ " " ++ (Operator.relation (.comparison op)).spelling ++ " " ++ atom v.write)
      ((Relation.comparison op).apply (fieldLeaf n) (value v.write)) fun _ => True :=
    (textReads_leaf hn 0).relation (rightReads_value hv op 0)
  exact hread

theorem comparison_fieldLeaf_eq_iff (op : Comparison) :
    comparison op (fieldLeaf n) (value v.write) = Filter.compare n op v ↔ ¬ LexesAsNumber n := by
  by_cases hnumber : LexesAsNumber n
  · simp [fieldLeaf_of_number hnumber, Filter.compare, hnumber]
  · simp [fieldLeaf_of_not_number hnumber, Filter.compare, hnumber]

/-- The text of a comparison is read as a comparison with the same operator and value. Its left
operand is the field again just if the name does not read as a number. -/
theorem parse_definition_compare {c : Config} (hc : c.numbers = .verbatim) (hn : Quotable n)
    (hv : Quotable v.write) (op : Comparison) :
    parse c (Filter.compare n op v).definition =
        .ok (some (comparison op (fieldLeaf n) (value v.write))) ∧
      (parse c (Filter.compare n op v).definition = .ok (some (Filter.compare n op v)) ↔
        ¬ LexesAsNumber n) := by
  have hparse : parse c (Filter.compare n op v).definition =
      .ok (some (comparison op (fieldLeaf n) (value v.write))) := by
    obtain ⟨ts, hlex, hread⟩ := textReads_compare hn hv op 0
    have hexpr := hread [] trivial
    rw [List.append_nil, ← hc] at hexpr
    exact parse_eq_ok_some_iff.mpr ⟨ts, hlex, .chain (hexpr.mono (Nat.zero_le _)) .noTail⟩
  refine ⟨hparse, ?_⟩
  rw [hparse, ← comparison_fieldLeaf_eq_iff (v := v) op]
  simp

theorem parse_definition_compare_number :
    Quotable "20" ∧ Quotable (Literal.text "v").write ∧
      (Filter.compare "20" .equal (.text "v")).definition = "20 = v" ∧
      parse {} "20 = v" = .ok (some (comparison .equal (value "20") (value "v"))) ∧
      parse {} "20 = v" ≠ .ok (some (Filter.compare "20" .equal (.text "v"))) := by
  have hn : Quotable "20" := by decide
  have hv : Quotable (Literal.text "v").write := by decide
  have hdef : (Filter.compare "20" .equal (.text "v")).definition = "20 = v" := by rfl
  have hnumber : LexesAsNumber "20" :=
    lexesAsNumber_iff.mpr ⟨List.all_eq_true.mp (by decide), by rfl⟩
  obtain ⟨hparse, hiff⟩ := parse_definition_compare (c := {}) rfl hn hv .equal
  rw [hdef, fieldLeaf_of_number hnumber] at hparse
  rw [hdef] at hiff
  exact ⟨hn, hv, hdef, hparse, fun h => hiff.mp h hnumber⟩

end Filter

end FilterLang
