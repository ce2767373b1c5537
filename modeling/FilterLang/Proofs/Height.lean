import FilterLang.Proofs.Embedding
import FilterLang.Proofs.Shape
import Mathlib.Tactic.Ring

/-! How high a tree the depth limit lets through: `height_bound`. A chain gives its levels back
where its group ends, so a group costs one level and may still hold a chain of all the levels below
it. Groups inside groups add these chains up, and the height grows with the square of the limit. -/

namespace FilterLang

namespace Filter

mutual

/-- How many nodes are above the lowest leaf. A list of values is a leaf. -/
def height : Filter → Nat
  | name _ | value _ | values _ => 0
  | group inner => inner.height + 1
  | negation operand => operand.height + 1
  | comparison _ left right => max left.height right.height + 1
  | membership field among => max field.height (greatestHeight among) + 1
  | connection _ left right => max left.height right.height + 1

def greatestHeight : List Filter → Nat
  | [] => 0
  | q :: qs => max q.height (greatestHeight qs)

end

theorem height_apply (r : Relation) (left right : Filter) :
    (r.apply left right).height = max left.height right.height + 1 := by
  cases r <;> simp [Relation.apply, height, greatestHeight]

end Filter

/-- The greatest height of what stands in the place of a field within some levels. -/
def primaryHeight : Nat → Nat
  | 0 => 0
  | n + 1 => primaryHeight n + n + 2

theorem primaryHeight_eq (n : Nat) : primaryHeight n = n + n * (n + 1) / 2 := by
  induction n with
  | zero => rfl
  | succ n ih =>
    have hsquare : (n + 1) * (n + 1 + 1) = n * (n + 1) + 2 * (n + 1) := by ring
    rw [primaryHeight, ih, hsquare]
    omega

/-- The greatest height of a phrase within some levels. -/
def Phrase.greatestHeight (p : Phrase) (n : Nat) : Nat :=
  match p with
  | chain => primaryHeight n + n + 1
  | tails left => max left.height (primaryHeight n + 1) + n
  | expression => primaryHeight n + 1
  | primary | operand => primaryHeight n

theorem height_of_leaf? {numbers : NumberText} {make : String → Filter} {k : TokenKind}
    {q : Filter} (hmake : ∀ text, (make text).height = 0) (h : k.leaf? numbers make = some q) :
    q.height = 0 := by
  obtain ⟨text, rfl | rfl⟩ := TokenKind.eq_of_leaf? h
  · exact hmake text
  · rfl

/-- A right operand has no more room than the primary left of it, and each tail uses up a level for
the one node that it puts on the tree. -/
theorem Derives.height_le {numbers : NumberText} {p : Phrase} {n : Nat} {ts rest : List Token}
    {q : Filter} (h : Derives numbers p n ts q rest) : q.height ≤ p.greatestHeight n := by
  induction h with
  | chain _ _ ih ih' => simp only [Phrase.greatestHeight] at *; omega
  | noTail => simp only [Phrase.greatestHeight]; omega
  | connectionTail _ _ _ ih ih' =>
    simp only [Phrase.greatestHeight, Filter.height, primaryHeight] at *
    omega
  | relationTail _ _ _ ih ih' =>
    simp only [Phrase.greatestHeight, Filter.height_apply, primaryHeight] at *
    omega
  | negationTail _ _ ih =>
    simp only [Phrase.greatestHeight, Filter.height, primaryHeight] at *
    omega
  | connection _ _ _ ih ih' =>
    simp only [Phrase.greatestHeight, Filter.height, primaryHeight] at *
    omega
  | relation _ _ _ ih ih' =>
    simp only [Phrase.greatestHeight, Filter.height_apply] at *
    omega
  | negationAfter _ _ ih => simp only [Phrase.greatestHeight, Filter.height] at *; omega
  | alone _ _ ih => simp only [Phrase.greatestHeight] at *; omega
  | group _ _ _ ih =>
    simp only [Phrase.greatestHeight, Filter.height, primaryHeight] at *
    omega
  | negation _ _ ih =>
    simp only [Phrase.greatestHeight, Filter.height, primaryHeight] at *
    omega
  | field ht => simp [height_of_leaf? (fun _ => rfl) ht]
  | list => exact Nat.zero_le _
  | negatedOperand _ _ ih =>
    simp only [Phrase.greatestHeight, Filter.height, primaryHeight] at *
    omega
  | value ht => simp [height_of_leaf? (fun _ => rfl) ht]

def negations : Nat → List Char
  | 0 => []
  | m + 1 => ' ' :: (Operator.negation.spelling.toList ++ negations m)

def negated : Nat → Filter → Filter
  | 0, q => q
  | m + 1, q => negated m (.negation q)

theorem height_negated (m : Nat) (q : Filter) : (negated m q).height = q.height + m := by
  induction m generalizing q with
  | zero => rfl
  | succ m ih =>
    rw [negated, ih, Filter.height]
    omega

theorem endsWord_negations (m : Nat) : EndsWord (negations m) := by
  cases m with
  | zero => exact endsWord_nil
  | succ m => exact endsWord_cons.mpr (by decide)

/-- The first negation of a text ends the expression before it or starts a tail of the chain. -/
theorem exists_lexes_negation_append {b : List Char} {P : List Token → Prop} (k : Nat)
    (hends : EndsWord b) (hb : ∀ k, ∃ ts, Lexes k b ts ∧ P ts) :
    ∃ os ts, Lexes k (Operator.negation.spelling.toList ++ b) (os ++ ts) ∧
      (∀ rest, Spelled .negation (os ++ rest) rest) ∧ P ts := by
  obtain ⟨os, hos, ho⟩ := exists_lexes_spelling .negation k
  obtain ⟨ts, hts, hP⟩ := hb (k + utf8Length Operator.negation.spelling.toList)
  exact ⟨os, ts, hos.append (.inl hends) hts, fun rest => ho rest (.of_word rfl rest), hP⟩

theorem exists_lexes_negations (numbers : NumberText) (m : Nat) (q : Filter) (k : Nat) :
    ∃ ts, Lexes k (negations m) ts ∧
      ∀ rest, Derives numbers (.tails q) m (ts ++ rest) (negated m q) rest := by
  induction m generalizing q k with
  | zero => exact ⟨[], .nil, fun rest => .noTail⟩
  | succ m ih =>
    obtain ⟨os, ts, hlex, ho, hts⟩ :=
      exists_lexes_negation_append (k + ' '.utf8Size) (endsWord_negations m) (ih (.negation q))
    refine ⟨os ++ ts, .blank (by decide) hlex, fun rest => ?_⟩
    rw [List.append_assoc]
    exact .negationTail (ho _) (hts rest)

/-- After a primary one negation is part of its expression, and each other one costs a level. -/
theorem ReadsAsPrimary.negations {numbers : NumberText} {n : Nat} {a : List Char} {q : Filter}
    (h : ReadsAsPrimary numbers n a q) (k : Nat) :
    ∃ ts, Lexes k (a ++ negations (n + 1)) ts ∧
      ∀ rest, Derives numbers .chain n (ts ++ rest) (negated (n + 1) q) rest := by
  obtain ⟨ts, hlex, hts⟩ := h k
  obtain ⟨os, us, hlex', ho, hus⟩ :=
    exists_lexes_negation_append (k + utf8Length a + 1) (endsWord_negations n)
      (exists_lexes_negations numbers n (.negation q))
  refine ⟨ts ++ (os ++ us), hlex.spaced hlex', fun rest => ?_⟩
  rw [List.append_assoc, List.append_assoc]
  exact .chain (.negationAfter (hts _) (ho _)) (hus rest)

theorem exists_readsAsPrimary (numbers : NumberText) (n : Nat) :
    ∃ a q, ReadsAsPrimary numbers n a q ∧ q.height = primaryHeight n := by
  induction n with
  | zero =>
    refine ⟨['a'], .name "a", fun k => ?_, rfl⟩
    have hword := Lexes.word (k := k) (w := ['a']) (by simp) (List.all_eq_true.mp (by decide))
      endsWord_nil .nil
    have hkind : TokenKind.ofWord (String.ofList ['a']) = .word "a" := TokenKind.ofWord_eq_word rfl
    rw [hkind] at hword
    exact ⟨_, hword, fun rest => .field rfl⟩
  | succ n ih =>
    obtain ⟨a, q, ha, hq⟩ := ih
    refine ⟨'(' :: (a ++ negations (n + 1)) ++ [')'], .group (negated (n + 1) q), fun k => ?_, ?_⟩
    · obtain ⟨ts, hlex, hts⟩ := ha.negations (k + 1)
      obtain ⟨t, u, ht, hu, hwhole⟩ := hlex.parenthesized
      refine ⟨_, hwhole, fun rest => ?_⟩
      simpa using Derives.group ht (hts (u :: rest)) hu
    · rw [Filter.height, height_negated, hq, primaryHeight]
      omega

/-- No tree is higher than this, and some tree is as high. -/
theorem height_bound (c : Config) :
    (∀ f q, Filter.parse c f = .ok (some q) →
      q.height ≤ 1 + 2 * c.maxDepth + c.maxDepth * (c.maxDepth + 1) / 2) ∧
    ∃ f q, Filter.parse c f = .ok (some q) ∧
      q.height = 1 + 2 * c.maxDepth + c.maxDepth * (c.maxDepth + 1) / 2 := by
  have hbound : primaryHeight c.maxDepth + c.maxDepth + 1 =
      1 + 2 * c.maxDepth + c.maxDepth * (c.maxDepth + 1) / 2 := by
    rw [primaryHeight_eq]
    omega
  rw [← hbound]
  constructor
  · intro f q h
    obtain ⟨ts, -, hts⟩ := parse_eq_ok_some_iff.mp h
    exact hts.height_le
  · obtain ⟨a, q, ha, hq⟩ := exists_readsAsPrimary c.numbers c.maxDepth
    obtain ⟨ts, hlex, hts⟩ := ha.negations 0
    refine ⟨String.ofList (a ++ negations (c.maxDepth + 1)), negated (c.maxDepth + 1) q, ?_, ?_⟩
    · refine parse_eq_ok_some_iff.mpr ⟨ts, by simpa using hlex, ?_⟩
      simpa using hts []
    · rw [height_negated, hq]
      omega

end FilterLang
