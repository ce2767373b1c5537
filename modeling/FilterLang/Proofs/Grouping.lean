import FilterLang.Proofs.Terms
import Mathlib.Data.List.Chain

/-! How many groups around a part of a chain leave its terms as they are:
`terms_fill_inGroups_iff`. One group around a connection of the chain is looked through wherever the
connection stands. Where one group stands directly around another the outer one is a term itself,
and the chain inside is not expanded. -/

namespace FilterLang

namespace Filter

/-- A step from a part of a tree to what is directly around it. -/
inductive Link
  /-- The part stands left of `right`. -/
  | before (right : Filter)
  /-- The part stands right of `left`. -/
  | after (left : Filter)
  | group
  deriving DecidableEq

def Link.around (op : Connective) : Link → Filter → Filter
  | before right, part => connection op part right
  | after left, part => connection op left part
  | group, part => Filter.group part

/-- The tree with a part at the end of the links; the first link is the outermost. -/
def fill (op : Connective) (links : List Link) (part : Filter) : Filter :=
  links.foldr (Link.around op) part

/-- No group stands directly around another group. -/
def Apart (links : List Link) : Prop :=
  links.IsChain fun outer inner => ¬ (outer = .group ∧ inner = .group)

instance (links : List Link) : Decidable (Apart links) :=
  inferInstanceAs (Decidable (List.IsChain _ _))

def inGroups : Nat → Filter → Filter
  | 0, q => q
  | n + 1, q => group (q.inGroups n)

variable {op : Connective}

theorem fill_cons (link : Link) (links : List Link) (part : Filter) :
    fill op (link :: links) part = link.around op (fill op links part) := rfl

theorem fill_group (links : List Link) (part : Filter) :
    fill op (.group :: links) part = group (fill op links part) := rfl

theorem fill_inj {links : List Link} {x y : Filter} :
    fill op links x = fill op links y ↔ x = y := by
  induction links with
  | nil => rfl
  | cons link links ih =>
    rw [fill_cons, fill_cons, ← ih]
    cases link <;> simp [Link.around]

theorem isConnection_fill {link : Link} (h : link ≠ .group) (links : List Link) (part : Filter) :
    (fill op (link :: links) part).isConnection op = true := by
  cases link with
  | before right => simp [fill_cons, Link.around, isConnection]
  | after left => simp [fill_cons, Link.around, isConnection]
  | group => exact absurd rfl h

theorem terms_group_group (op : Connective) (q : Filter) :
    (group (group q)).terms op = [group (group q)] := terms_of_not_isChain rfl

theorem one_lt_length_terms (op : Connective) (left right : Filter) :
    1 < ((connection op left right).terms op).length := by
  have hl := List.length_pos_iff.mpr (terms_ne_nil op left)
  have hr := List.length_pos_iff.mpr (terms_ne_nil op right)
  rw [terms_connection, List.length_append]
  omega

theorem singleton_ne_terms (q left right : Filter) : [q] ≠ (connection op left right).terms op := by
  intro h
  have hlength := one_lt_length_terms op left right
  rw [← h] at hlength
  exact Nat.lt_irrefl 1 hlength

/-- Around a side of a connection the other side gives its terms in any case. -/
theorem terms_fill_cons_iff {link : Link} (h : link ≠ .group) (links : List Link)
    (x y : Filter) :
    (fill op (link :: links) x).terms op = (fill op (link :: links) y).terms op ↔
      (fill op links x).terms op = (fill op links y).terms op := by
  cases link with
  | before right => simp only [fill_cons, Link.around, terms_connection, List.append_left_inj]
  | after left => simp only [fill_cons, Link.around, terms_connection, List.append_right_inj]
  | group => exact absurd rfl h

theorem apart_cons_iff {link : Link} (h : link ≠ .group) (links : List Link) :
    Apart (link :: links) ↔ Apart links := by
  cases links <;> simp [Apart, h]

theorem getLast?_cons_ne_group_iff {link : Link} (h : link ≠ .group) (links : List Link) :
    (link :: links).getLast? ≠ some .group ↔ links.getLast? ≠ some .group := by
  cases links <;> simp [h]

/-- A part of a chain is put into one group more and some groups more: the terms stay if it is just
one group, no group stands directly around it, and all of the chain above it is looked through. -/
theorem terms_fill_group_iff (left right : Filter) (links : List Link) (n : Nat) :
    (fill op links (group ((connection op left right).inGroups n))).terms op =
        (fill op links (connection op left right)).terms op ↔
      n = 0 ∧ Apart links ∧ links.getLast? ≠ some .group := by
  induction links with
  | nil =>
    cases n with
    | zero => simp [fill, inGroups, Apart, terms_group, isConnection]
    | succ n => simpa [fill, inGroups, terms_group_group] using singleton_ne_terms _ left right
  | cons link links ih =>
    obtain rfl | hlink := eq_or_ne link .group
    · cases links with
      | nil => simpa [fill, Link.around, terms_group_group, terms_group, isConnection] using
          singleton_ne_terms _ left right
      | cons next links =>
        obtain rfl | hnext := eq_or_ne next .group
        · have hne : fill op links (group ((connection op left right).inGroups n)) ≠
              fill op links (connection op left right) := fun h => by
            cases fill_inj.mp h
          simpa [fill_group, terms_group_group, Apart] using hne
        · -- the group holds a connection of the chain before and after
          rw [fill_group, fill_group, terms_group (isConnection_fill hnext _ _),
            terms_group (isConnection_fill hnext _ _), ih]
          simp [Apart, hnext]
    · rw [terms_fill_cons_iff hlink, apart_cons_iff hlink, getLast?_cons_ne_group_iff hlink, ih]

/-- A connection of the chain is put into groups where it stands. The terms stay just if this makes
no group that stands directly around another: at most one group is added, it is not added inside a
group, and there are no two such groups above. -/
theorem terms_fill_inGroups_iff (op : Connective) (left right : Filter) (links : List Link)
    (n : Nat) :
    (fill op links ((connection op left right).inGroups n)).terms op =
        (fill op links (connection op left right)).terms op ↔
      n = 0 ∨ n = 1 ∧ Apart links ∧ links.getLast? ≠ some .group := by
  cases n with
  | zero => simp [inGroups]
  | succ n => simpa [inGroups] using terms_fill_group_iff left right links n

/-- `((a AND b)) AND c` has two terms, and one of them is the chain in its groups. -/
theorem terms_fill_inGroups_iff_two :
    let part := connection .and (name "a") (name "b")
    let links : List Link := [.before (name "c")]
    Apart links ∧ (fill .and links part).terms .and = [name "a", name "b", name "c"] ∧
      (fill .and links (part.inGroups 2)).terms .and = [group (group part), name "c"] ∧
      (fill .and links (part.inGroups 2)).terms .and ≠ (fill .and links part).terms .and := by
  intro part links
  refine ⟨by decide, rfl, rfl, fun h => ?_⟩
  exact absurd ((terms_fill_inGroups_iff .and _ _ links 2).mp h) (by decide)

end Filter

end FilterLang
