import FilterLang.Filter.Build
import FilterLang.Proofs.Unnegated

/-! The values right of `IN` may stand apart, in one list or in several, in any mix: the text is the
same, and it is read as one list of all the values in their order: `operation_membership_operands`.
A list is joined with commas like the operands are, so where one ends leaves no mark in the text. -/

namespace FilterLang

namespace Filter

/-- Some consecutive values right of `IN`, given as one list or one by one. -/
structure Piece where
  asList : Bool
  literals : List Literal
  ne_nil : literals ≠ []

def Piece.operands (p : Piece) : List Filter :=
  if p.asList then [values (p.literals.map Literal.write)]
  else p.literals.map fun v => value v.write

theorem commaSeparated_cons {ts : List String} (h : ts ≠ []) (t : String) :
    commaSeparated (t :: ts) = t ++ "," ++ commaSeparated ts := by
  cases ts with
  | nil => exact absurd rfl h
  | cons => rfl

theorem commaSeparated_append {xs ys : List String} (hxs : xs ≠ []) (hys : ys ≠ []) :
    commaSeparated (xs ++ ys) = commaSeparated xs ++ "," ++ commaSeparated ys := by
  induction xs with
  | nil => exact absurd rfl hxs
  | cons x xs ih =>
    cases xs with
    | nil => exact commaSeparated_cons hys x
    | cons x' xs =>
      have hxs' : x' :: xs ≠ [] := List.cons_ne_nil x' xs
      rw [List.cons_append, commaSeparated_cons (List.append_ne_nil_of_left_ne_nil hxs' ys),
        ih hxs', commaSeparated_cons hxs']
      simp only [String.append_assoc]

/-- Where parts have one text each, so do the lists that they are parts of. -/
theorem commaSeparated_flatMap {α : Type} {f g : α → List String} (hf : ∀ x, f x ≠ [])
    (hg : ∀ x, g x ≠ []) (h : ∀ x, commaSeparated (f x) = commaSeparated (g x)) (xs : List α) :
    commaSeparated (xs.flatMap f) = commaSeparated (xs.flatMap g) := by
  induction xs with
  | nil => rfl
  | cons x xs ih =>
    cases xs with
    | nil => simpa using h x
    | cons y xs =>
      have hfs : (y :: xs).flatMap f ≠ [] := by simp [hf]
      have hgs : (y :: xs).flatMap g ≠ [] := by simp [hg]
      rw [List.flatMap_cons (f := f), commaSeparated_append (hf x) hfs, h x, ih,
        List.flatMap_cons (f := g) (x := x), commaSeparated_append (hg x) hgs]

theorem Piece.operands_ne_nil (p : Piece) : p.operands ≠ [] := by
  unfold operands
  split_ifs
  · exact List.cons_ne_nil _ _
  · simpa using p.ne_nil

theorem Piece.commaSeparated_operands (p : Piece) :
    commaSeparated (p.operands.map definition) =
      commaSeparated (p.literals.map fun v => atom v.write) := by
  unfold operands
  split_ifs
  · simp [commaSeparated, definition, Function.comp_def]
  · simp [definition, Function.comp_def]

theorem commaSeparated_flatMap_operands (pieces : List Piece) :
    commaSeparated ((pieces.flatMap Piece.operands).map definition) =
      commaSeparated ((pieces.flatMap Piece.literals).map fun v => atom v.write) := by
  rw [List.map_flatMap, List.map_flatMap]
  exact commaSeparated_flatMap (fun p => by simpa using p.operands_ne_nil)
    (fun p => by simpa using p.ne_nil) (fun p => p.commaSeparated_operands) pieces

variable {n : String} {vs : List Literal}

theorem definition_isIn (n : String) (vs : List Literal) :
    (isIn n vs).definition = atom n ++ " " ++ Relation.membership.spelling ++ " " ++
      parenthesized (commaSeparated (vs.map fun v => atom v.write)) := by
  simp [isIn, definition, definitions, commaSeparated, Function.comp_def]

/-- The text of a membership nests one level, and no operator after it changes how it is read. -/
theorem textReads_isIn (hn : Quotable n) (hv : ∀ v ∈ vs, Quotable v.write) :
    TextReads .expression 1 (isIn n vs).definition
      (membership (fieldLeaf n) [values (vs.map Literal.write)]) fun _ => True := by
  have hright : ∀ text ∈ vs.map Literal.write, Quotable text := by simpa using hv
  have hread : TextReads .expression 1 _ (Relation.membership.apply (fieldLeaf n) _) fun _ => True :=
    (textReads_leaf hn 1).relation (rightReads_values hright Nat.le.refl)
  rw [List.map_map] at hread
  rw [definition_isIn]
  exact hread

theorem parse_definition_isIn {c : Config} (hc : c.numbers = .verbatim) (hdepth : 1 ≤ c.maxDepth)
    (hn : Quotable n) (hnumber : ¬ LexesAsNumber n) (hv : ∀ v ∈ vs, Quotable v.write) :
    parse c (isIn n vs).definition = .ok (some (isIn n vs)) := by
  obtain ⟨ts, hlex, hread⟩ := textReads_isIn hn hv 0
  have hexpr := hread [] trivial
  rw [List.append_nil, ← hc, fieldLeaf_of_not_number hnumber] at hexpr
  exact parse_eq_ok_some_iff.mpr ⟨ts, hlex, .chain (hexpr.mono hdepth) .noTail⟩

/-- However the values are cut into lists and single values, the membership is built, has the text
of the membership in one list, and is read from it as that one. -/
theorem operation_membership_operands {c : Config} {pieces : List Piece}
    (hc : c.numbers = .verbatim) (hdepth : 1 ≤ c.maxDepth) (hn : Quotable n)
    (hnumber : ¬ LexesAsNumber n) (hne : vs ≠ []) (hv : ∀ v ∈ vs, Quotable v.write)
    (hcut : pieces.flatMap Piece.literals = vs) :
    ∃ q, operation (.relation .membership) (name n :: pieces.flatMap Piece.operands) = .ok q ∧
      q.definition = (isIn n vs).definition ∧
      parse c q.definition = .ok (some (isIn n vs)) := by
  obtain ⟨p, pieces, rfl⟩ := List.exists_cons_of_ne_nil (l := pieces) fun h => hne (by simp [← hcut, h])
  have hdef : (membership (name n) ((p :: pieces).flatMap Piece.operands)).definition =
      (isIn n vs).definition := by
    rw [definition_isIn, ← hcut, ← commaSeparated_flatMap_operands, definition, definitions_eq_map]
    rfl
  obtain ⟨x, xs, hx⟩ := List.exists_cons_of_ne_nil (l := (p :: pieces).flatMap Piece.operands)
    (by simp [p.operands_ne_nil])
  rw [hx] at hdef ⊢
  exact ⟨_, rfl, hdef, hdef ▸ parse_definition_isIn hc hdepth hn hnumber hv⟩

/-- Values with a comma, a parenthesis, a quote and the spelling of an operator, cut in three. -/
theorem operation_membership_operands_mixed :
    let pieces : List Piece :=
      [⟨false, [.text "a,b", .text "(c"], by decide⟩, ⟨true, [.text "it's"], by decide⟩,
        ⟨true, [.text "IN", .text ""], by decide⟩]
    let vs : List Literal := [.text "a,b", .text "(c", .text "it's", .text "IN", .text ""]
    ∃ q, operation (.relation .membership) (name "x" :: pieces.flatMap Piece.operands) = .ok q ∧
      q.definition = "x IN ('a,b','(c',\"it's\",'IN','')" ∧
      parse { maxDepth := 1 } q.definition = .ok (some (isIn "x" vs)) := by
  intro pieces vs
  have hnumber : ¬ LexesAsNumber "x" := fun h => by
    have hfirst := (lexesAsNumber_iff.mp h).2
    cases hfirst
  obtain ⟨q, hq, hdef, hparse⟩ := operation_membership_operands (c := { maxDepth := 1 }) rfl
    Nat.le.refl (by decide) hnumber (by decide) (by decide)
    (show pieces.flatMap Piece.literals = vs from rfl)
  exact ⟨q, hq, hdef.trans (by rfl), hparse⟩

end Filter

end FilterLang
