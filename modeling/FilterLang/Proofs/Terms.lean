import FilterLang.Filter.Build

/-! The terms of a chain: `terms_faithful`. Trees that join the same operands in the same order can
have many shapes: `a AND b AND c` leans to the right, `(a AND b) AND c` has a group on the left. Who
turns a filter into another query reads the list of terms and not the shape. The terms are subtrees
in the order of the text, taken together they mean what the tree means, and two trees have the same
terms just if re-association takes one to the other. -/

namespace FilterLang

namespace Filter

/-- The subtree at the end of a path, which counts operands from the root downwards. -/
def at? (q : Filter) : List Nat → Option Filter
  | [] => some q
  | i :: path => q.operands[i]?.bind (·.at? path)

/-- The subtree at the first path ends before that at the second one begins. -/
inductive LeftOf : List Nat → List Nat → Prop
  | fork {i j : Nat} (path path' : List Nat) : i < j → LeftOf (i :: path) (j :: path')
  | under {path path' : List Nat} (i : Nat) : LeftOf path path' → LeftOf (i :: path) (i :: path')

/-- A connection of `op`, or a group directly around one. -/
def isChain (op : Connective) : Filter → Bool
  | group inner => inner.isConnection op
  | q => q.isConnection op

end Filter

namespace Connective

/-- What the connective makes of the truth of its two sides. -/
def join : Connective → Bool → Bool → Bool
  | and => (· && ·)
  | or => (· || ·)

/-- What it makes of a whole list. -/
def joinAll : Connective → List Bool → Bool
  | and, bs => bs.all id
  | or, bs => bs.any id

theorem joinAll_singleton (op : Connective) (b : Bool) : op.joinAll [b] = b := by
  cases op <;> simp [joinAll]

theorem joinAll_append (op : Connective) (bs cs : List Bool) :
    op.joinAll (bs ++ cs) = op.join (op.joinAll bs) (op.joinAll cs) := by
  cases op <;> simp [joinAll, join]

end Connective

/-- Which trees hold. Connections and groups are bound to their meaning, all other trees are free
to hold or not. -/
structure Valuation where
  holds : Filter → Bool
  holds_group : ∀ inner, holds (.group inner) = holds inner
  holds_connection : ∀ op left right,
    holds (.connection op left right) = op.join (holds left) (holds right)

namespace Filter

/-- The truth of a tree from that of the trees that are neither connections nor groups. -/
def holdsWith (leaf : Filter → Bool) : Filter → Bool
  | group inner => inner.holdsWith leaf
  | connection op left right => op.join (left.holdsWith leaf) (right.holdsWith leaf)
  | q => leaf q

end Filter

def Valuation.ofLeaves (leaf : Filter → Bool) : Valuation where
  holds := Filter.holdsWith leaf
  holds_group _ := rfl
  holds_connection _ _ _ := rfl

namespace Filter

/-- Trees that differ in how a chain of `op` associates and in which of its parts stand in
groups. -/
inductive Reassociated (op : Connective) : Filter → Filter → Prop
  | rotate (x y z : Filter) : Reassociated op
      (connection op (connection op x y) z) (connection op x (connection op y z))
  | ungroup (x y : Filter) : Reassociated op (group (connection op x y)) (connection op x y)
  | left {x x' : Filter} (y : Filter) : Reassociated op x x' →
      Reassociated op (connection op x y) (connection op x' y)
  | right (x : Filter) {y y' : Filter} : Reassociated op y y' →
      Reassociated op (connection op x y) (connection op x y')
  /-- Within a group that is itself a part of a chain. -/
  | inGroup {x x' : Filter} : x.isConnection op = true → x'.isConnection op = true →
      Reassociated op x x' → Reassociated op (group x) (group x')
  | refl (x : Filter) : Reassociated op x x
  | symm {x y : Filter} : Reassociated op x y → Reassociated op y x
  | trans {x y z : Filter} : Reassociated op x y → Reassociated op y z → Reassociated op x z

variable {op : Connective}

theorem isConnection_iff {q : Filter} :
    q.isConnection op = true ↔ ∃ left right, q = connection op left right := by
  cases q <;> simp [isConnection]

theorem terms_connection (op : Connective) (left right : Filter) :
    (connection op left right).terms op = left.terms op ++ right.terms op := by
  rw [terms, if_pos rfl]

theorem terms_group {inner : Filter} (h : inner.isConnection op = true) :
    (group inner).terms op = inner.terms op := by
  rw [terms, if_pos h]

theorem terms_of_not_isChain {q : Filter} (h : q.isChain op = false) : q.terms op = [q] := by
  cases q with
  | connection op' left right => rw [terms, if_neg (by simpa [isChain, isConnection] using h)]
  | group inner => rw [terms, if_neg (by simpa [isChain] using h)]
  | _ => rfl

/-- A tree is a term, a connection, or a group around a connection. -/
theorem chain_induction {P : Filter → Prop} (op : Connective)
    (term : ∀ q, q.isChain op = false → P q)
    (connection : ∀ left right, P left → P right → P (connection op left right))
    (group : ∀ inner, inner.isConnection op = true → P inner → P (group inner))
    (q : Filter) : P q := by
  fun_induction terms op q with
  | case1 left right ihl ihr => exact connection left right ihl ihr
  | case2 op' left right h => exact term _ (by simpa [isChain, isConnection] using h)
  | case3 inner h ih => exact group inner h ih
  | case4 inner h => exact term _ (by simpa [isChain] using h)
  | case5 q hconnection hgroup =>
    cases q with
    | connection op' left right => exact (hconnection op' left right rfl).elim
    | group inner => exact (hgroup inner rfl).elim
    | _ => exact term _ rfl

theorem terms_ne_nil (op : Connective) (q : Filter) : q.terms op ≠ [] := by
  induction q using chain_induction op with
  | term q h => simp [terms_of_not_isChain h]
  | connection left right ihl ihr => simp [terms_connection, ihl]
  | group inner h ih => rwa [terms_group h]

theorem isChain_of_mem_terms {q x : Filter} (hx : x ∈ q.terms op) : x.isChain op = false := by
  induction q using chain_induction op with
  | term q h =>
    rw [terms_of_not_isChain h, List.mem_singleton] at hx
    rwa [hx]
  | connection left right ihl ihr =>
    rw [terms_connection, List.mem_append] at hx
    exact hx.elim ihl ihr
  | group inner h ih => exact ih (by rwa [terms_group h] at hx)

theorem at?_cons {q x : Filter} {i : Nat} (h : q.operands[i]? = some x) (path : List Nat) :
    q.at? (i :: path) = x.at? path := by
  rw [at?, h, Option.bind_some]

theorem map_at?_cons {q x : Filter} {i : Nat} (h : q.operands[i]? = some x)
    (paths : List (List Nat)) : (paths.map (i :: ·)).map q.at? = paths.map x.at? := by
  simp [at?_cons h]

theorem pairwise_leftOf_map_cons {paths : List (List Nat)} (h : paths.Pairwise LeftOf) (i : Nat) :
    (paths.map (i :: ·)).Pairwise LeftOf :=
  h.map _ fun _ _ => .under i

theorem exists_paths (op : Connective) (q : Filter) : ∃ paths : List (List Nat),
    paths.map q.at? = (q.terms op).map some ∧ paths.Pairwise LeftOf := by
  induction q using chain_induction op with
  | term q h => exact ⟨[[]], by simp [terms_of_not_isChain h, at?], by simp⟩
  | connection left right ihl ihr =>
    obtain ⟨lefts, hl, hlefts⟩ := ihl
    obtain ⟨rights, hr, hrights⟩ := ihr
    refine ⟨lefts.map (0 :: ·) ++ rights.map (1 :: ·), ?_, ?_⟩
    · rw [List.map_append, map_at?_cons rfl, map_at?_cons rfl, hl, hr, terms_connection,
        List.map_append]
    · refine List.pairwise_append.mpr
        ⟨pairwise_leftOf_map_cons hlefts 0, pairwise_leftOf_map_cons hrights 1, ?_⟩
      simp only [List.mem_map]
      rintro _ ⟨path, -, rfl⟩ _ ⟨path', -, rfl⟩
      exact .fork path path' Nat.zero_lt_one
  | group inner h ih =>
    obtain ⟨paths, hp, hpaths⟩ := ih
    refine ⟨paths.map (0 :: ·), ?_, pairwise_leftOf_map_cons hpaths 0⟩
    rw [map_at?_cons rfl, hp, terms_group h]

theorem holds_eq_joinAll (v : Valuation) (op : Connective) (q : Filter) :
    v.holds q = op.joinAll ((q.terms op).map v.holds) := by
  induction q using chain_induction op with
  | term q h => rw [terms_of_not_isChain h, List.map_singleton, op.joinAll_singleton]
  | connection left right ihl ihr =>
    rw [v.holds_connection, ihl, ihr, ← op.joinAll_append, ← List.map_append, terms_connection]
  | group inner h ih => rw [v.holds_group, ih, terms_group h]

theorem Reassociated.terms_eq {x y : Filter} (h : Reassociated op x y) :
    x.terms op = y.terms op := by
  induction h with
  | rotate x y z => simp only [terms_connection, List.append_assoc]
  | ungroup x y => exact terms_group (by simp [isConnection])
  | left y _ ih => rw [terms_connection, terms_connection, ih]
  | right x _ ih => rw [terms_connection, terms_connection, ih]
  | inGroup hx hx' _ ih => rw [terms_group hx, terms_group hx', ih]
  | refl => rfl
  | symm _ ih => exact ih.symm
  | trans _ _ ihxy ihyz => exact ihxy.trans ihyz

/-- The terms joined again, with every connection leaning to the right. -/
def rightChain (op : Connective) (x : Filter) : List Filter → Filter
  | [] => x
  | y :: ys => connection op x (rightChain op y ys)

theorem reassociated_rightChain_append (x : Filter) (xs : List Filter) (y : Filter)
    (ys : List Filter) : Reassociated op (connection op (rightChain op x xs) (rightChain op y ys))
      (rightChain op x (xs ++ y :: ys)) := by
  induction xs generalizing x with
  | nil => exact .refl _
  | cons z zs ih => exact (Reassociated.rotate x _ _).trans ((ih z).right x)

theorem exists_reassociated_rightChain (op : Connective) (q : Filter) :
    ∃ x xs, q.terms op = x :: xs ∧ Reassociated op q (rightChain op x xs) := by
  induction q using chain_induction op with
  | term q h => exact ⟨q, [], terms_of_not_isChain h, .refl q⟩
  | connection left right ihl ihr =>
    obtain ⟨x, xs, hl, hleft⟩ := ihl
    obtain ⟨y, ys, hr, hright⟩ := ihr
    refine ⟨x, xs ++ y :: ys, by rw [terms_connection, hl, hr, List.cons_append], ?_⟩
    exact (hleft.left right).trans
      ((hright.right _).trans (reassociated_rightChain_append x xs y ys))
  | group inner h ih =>
    obtain ⟨x, xs, hterms, hinner⟩ := ih
    obtain ⟨left, right, rfl⟩ := isConnection_iff.mp h
    exact ⟨x, xs, by rw [terms_group h, hterms], (Reassociated.ungroup left right).trans hinner⟩

theorem terms_eq_iff_reassociated {x y : Filter} :
    x.terms op = y.terms op ↔ Reassociated op x y := by
  refine ⟨fun h => ?_, Reassociated.terms_eq⟩
  obtain ⟨a, as, ha, hx⟩ := exists_reassociated_rightChain op x
  obtain ⟨b, bs, hb, hy⟩ := exists_reassociated_rightChain op y
  obtain ⟨rfl, rfl⟩ := List.cons.inj (ha.symm.trans (h.trans hb))
  exact hx.trans hy.symm

/-- The terms of a tree, for either connective: subtrees that stand in the tree from left to
right, at least one and none of them more of the chain; under every valuation the tree holds as
its terms do together; and they determine the tree up to its association and the groups around
parts of the chain. -/
theorem terms_faithful (op : Connective) (q : Filter) :
    q.terms op ≠ [] ∧
    (∃ paths : List (List Nat),
      paths.map q.at? = (q.terms op).map some ∧ paths.Pairwise LeftOf) ∧
    (∀ x ∈ q.terms op, x.isChain op = false) ∧
    (∀ v : Valuation, v.holds q = op.joinAll ((q.terms op).map v.holds)) ∧
    ∀ q', q.terms op = q'.terms op ↔ Reassociated op q q' :=
  ⟨terms_ne_nil op q, exists_paths op q, fun _ => isChain_of_mem_terms,
    fun v => holds_eq_joinAll v op q, fun _ => terms_eq_iff_reassociated⟩

/-- `(a AND b) AND (c OR d)` without `c`. -/
theorem terms_faithful_grouped :
    (Valuation.ofLeaves (· != name "c")).holds (connection .and
      (group (connection .and (name "a") (name "b")))
      (group (connection .or (name "c") (name "d")))) = true ∧
    Reassociated .and
      (connection .and (group (connection .and (name "a") (name "b")))
        (group (connection .or (name "c") (name "d"))))
      (connection .and (name "a")
        (connection .and (name "b") (group (connection .or (name "c") (name "d"))))) := by
  obtain ⟨-, -, -, hholds, hiff⟩ := terms_faithful .and (connection .and
    (group (connection .and (name "a") (name "b"))) (group (connection .or (name "c") (name "d"))))
  exact ⟨(hholds _).trans (by decide), (hiff _).mp rfl⟩

end Filter

end FilterLang
