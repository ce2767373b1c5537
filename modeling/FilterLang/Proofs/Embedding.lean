import FilterLang.Filter.Build
import FilterLang.Proofs.Acceptance
import FilterLang.Proofs.Writing

/-! A text that is read as a filter can be put in parentheses and combined with others, before it is
read, to the same effect as combining the trees. Its tokens keep their kinds and only come later,
and what they derive up to the end they derive up to a closing parenthesis too. -/

namespace FilterLang

variable {numbers : NumberText} {n : Nat} {a b : List Char} {F G : Filter}

/-- Wherever the characters stand, their tokens are this one primary. -/
def ReadsAsPrimary (numbers : NumberText) (n : Nat) (a : List Char) (q : Filter) : Prop :=
  ∀ k, ∃ ts, Lexes k a ts ∧ ∀ rest, Derives numbers .primary n (ts ++ rest) q rest

/-- Wherever the characters stand last, their tokens are this one expression. -/
def ReadsAsExpression (numbers : NumberText) (n : Nat) (a : List Char) (q : Filter) : Prop :=
  ∀ k, ∃ ts, Lexes k a ts ∧ Derives numbers .expression n ts q []

theorem readsAsPrimary_of_parse {c : Config} {f : String}
    (hf : Filter.parse c f = .ok (some F)) :
    ReadsAsPrimary c.numbers (c.maxDepth + 1) ('(' :: f.toList ++ [')']) F.grouped := by
  intro k
  obtain ⟨ts, hlex, hF⟩ := parse_eq_ok_some_iff.mp hf
  have hlater := hlex.later (k + 1)
  rw [Nat.zero_add] at hlater
  obtain ⟨t, u, ht, hu, hwhole⟩ := hlater.parenthesized
  refine ⟨_, hwhole, fun rest => ?_⟩
  have hclose : Closes (u :: rest) := closes_cons.mpr hu
  have hinner := (hF.later (k + 1)).extend hclose
  simpa [Filter.grouped] using Derives.group ht hinner hu

theorem ReadsAsPrimary.alone (h : ReadsAsPrimary numbers n a F) :
    ReadsAsExpression numbers n a F := by
  intro k
  obtain ⟨ts, hlex, hts⟩ := h k
  have hprimary := hts []
  rw [List.append_nil] at hprimary
  exact ⟨ts, hlex, .alone hprimary closes_nil⟩

theorem ReadsAsPrimary.negation (h : ReadsAsPrimary numbers n a F) :
    ReadsAsExpression numbers (n + 1) (Operator.negation.spelling.toList ++ ' ' :: a) F.not := by
  intro k
  obtain ⟨os, hos, ho⟩ := exists_lexes_spelling .negation k
  obtain ⟨ts, hlex, hts⟩ := h.alone (k + utf8Length Operator.negation.spelling.toList + 1)
  exact ⟨_, hos.spaced hlex, .alone (.negation (ho ts (.of_word rfl ts)) hts) closes_nil⟩

theorem ReadsAsPrimary.connection (h : ReadsAsPrimary numbers n a F) (op : Connective)
    (h' : ReadsAsPrimary numbers n b G) :
    ReadsAsExpression numbers (n + 1)
      (a ++ ' ' :: ((Operator.connective op).spelling.toList ++ ' ' :: b))
      (.connection op F G) := by
  intro k
  obtain ⟨ts, hlex, hts⟩ := h k
  obtain ⟨os, us, hwhole, ho, hus⟩ := exists_lexes_infix hlex (.connective op) h'.alone
  exact ⟨_, hwhole, .connection ((hts _).mono (Nat.le_add_right n 1)) (ho us (.of_word rfl us)) hus⟩

theorem ReadsAsExpression.parse {c : Config} {text : String} {q : Filter}
    (h : ReadsAsExpression c.numbers n text.toList q) (hn : n ≤ c.maxDepth) :
    Filter.parse c text = .ok (some q) := by
  obtain ⟨ts, hlex, hts⟩ := h 0
  exact parse_eq_ok_some_iff.mpr ⟨ts, hlex, .chain (hts.mono hn) .noTail⟩

/-- Filters can be put in groups and combined before they are read, if two more levels are
allowed. -/
theorem parse_embedded {c : Config} {f g : String} (hf : Filter.parse c f = .ok (some F))
    (hg : Filter.parse c g = .ok (some G)) :
    let c' : Config := { c with maxDepth := c.maxDepth + 2 }
    Filter.parse c' ("(" ++ f ++ ")") = .ok (some F.grouped) ∧
    Filter.parse c' ("NOT (" ++ f ++ ")") = .ok (some F.grouped.not) ∧
    Filter.parse c' ("(" ++ f ++ ") AND (" ++ g ++ ")") = .ok (some (F.grouped.and G.grouped)) ∧
    Filter.parse c' ("(" ++ f ++ ") OR (" ++ g ++ ")") = .ok (some (F.grouped.or G.grouped)) := by
  intro c'
  have hF : ReadsAsPrimary c'.numbers (c.maxDepth + 1) ('(' :: f.toList ++ [')']) F.grouped :=
    readsAsPrimary_of_parse hf
  have hG : ReadsAsPrimary c'.numbers (c.maxDepth + 1) ('(' :: g.toList ++ [')']) G.grouped :=
    readsAsPrimary_of_parse hg
  refine ⟨ReadsAsExpression.parse (n := c.maxDepth + 1) ?_ (Nat.le_succ _),
    ReadsAsExpression.parse (n := c.maxDepth + 2) ?_ (Nat.le_refl _),
    ReadsAsExpression.parse (n := c.maxDepth + 2) ?_ (Nat.le_refl _),
    ReadsAsExpression.parse (n := c.maxDepth + 2) ?_ (Nat.le_refl _)⟩
  · simpa using hF.alone
  · simpa [Operator.spelling] using hF.negation
  · simpa [Operator.spelling, Connective.spelling, Filter.and] using hF.connection .and hG
  · simpa [Operator.spelling, Connective.spelling, Filter.or] using hF.connection .or hG

/-- A parenthesis in a quoted text closes nothing. -/
theorem parse_embedded_quoted_parenthesis :
    let F := (Filter.name "x").not
    let G := Filter.compare "y" .equal (.text ") OR z")
    Filter.parse { maxDepth := 1 } "x NOT" = .ok (some F) ∧
    Filter.parse { maxDepth := 1 } "y = ') OR z'" = .ok (some G) ∧
    Filter.parse { maxDepth := 3 } "(x NOT) AND (y = ') OR z')" =
      .ok (some (F.grouped.and G.grouped)) := by
  intro F G
  have hF : Filter.parse { maxDepth := 1 } "x NOT" = .ok (some F) := by rfl
  have hG : Filter.parse { maxDepth := 1 } "y = ') OR z'" = .ok (some G) := by rfl
  exact ⟨hF, hG, (parse_embedded hF hG).2.2.1⟩

end FilterLang
