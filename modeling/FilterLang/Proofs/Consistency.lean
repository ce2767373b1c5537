import FilterLang.Proofs.Descent
import Mathlib.Data.List.TakeWhile
import Mathlib.Logic.Function.Iterate

/-! A reader of filters stays consistent, however often it is asked: `consistent`. Between two calls
no level is open, and the cursor is where the tokens ahead start. What has once been read with
success is read to the end, and then there is nothing more; and what stands behind the first token
for the end is never looked at. -/

namespace FilterLang

namespace Parser

theorem atEnd_iff_upToEnd {p : Parser} : p.atEnd = true ↔ upToEnd p.tokens = [] := by
  obtain ⟨c, tokens, depth⟩ := p
  cases tokens with
  | nil => simp [atEnd, upToEnd]
  | cons t ts => simp [atEnd, upToEnd, List.takeWhile_cons]

/-- What is read with success is read to the end. -/
theorem upToEnd_of_run {c : Config} {q : Filter} (s : ParseState) (ts : List Token)
    (hok : (s.run c ts).1 = .ok q) : upToEnd (s.run c ts).2 = [] := by
  induction ts generalizing s with
  | nil => rfl
  | cons t ts ih =>
    by_cases ht : t.kind = .endOfInput
    · rw [ParseState.run_end ht, upToEnd, List.takeWhile_cons_of_neg (by simpa using ht)]
    · rw [ParseState.run, if_neg ht] at hok ⊢
      cases hread : s.read c t with
      | ok s' =>
        rw [hread] at hok
        exact ih s' hok
      | error e =>
        rw [hread] at hok
        cases hok

theorem atEnd_of_next {p : Parser} {q : Option Filter} (hok : p.next.1 = .ok q) :
    p.next.2.atEnd = true := by
  cases hat : p.atEnd with
  | true => rwa [next_of_atEnd hat]
  | false =>
    rw [next, hat] at hok ⊢
    simp only [Bool.false_eq_true, if_false] at hok ⊢
    rw [atEnd_iff_upToEnd]
    cases hrun : ((ParseState.start p.depth).run p.config p.tokens).1 with
    | ok q => exact upToEnd_of_run _ _ hrun
    | error e =>
      rw [hrun] at hok
      cases hok

/-- The reader with nothing behind the first token for the end. -/
def cut (p : Parser) : Parser := { p with tokens := upToEnd p.tokens }

theorem next_cut (p : Parser) : p.cut.next = (p.next.1, p.next.2.cut) := by
  cases hat : p.atEnd with
  | true =>
    have hcut : p.cut.atEnd = true := by
      rw [atEnd_iff_upToEnd, cut, upToEnd, upToEnd, List.takeWhile_idem]
      exact atEnd_iff_upToEnd.mp hat
    rw [next_of_atEnd hat, next_of_atEnd hcut]
  | false =>
    have hcut : p.cut.atEnd = false := by
      rw [Bool.eq_false_iff, ne_eq, atEnd_iff_upToEnd, cut, upToEnd, upToEnd, List.takeWhile_idem]
      exact mt atEnd_iff_upToEnd.mpr (Bool.eq_false_iff.mp hat)
    rw [next, next, hat, hcut]
    simp only [Bool.false_eq_true, if_false, cut, upToEnd, ParseState.run_takeWhile]

/-- The reader after some calls. -/
def after (p : Parser) (n : Nat) : Parser := (fun p => p.next.2)^[n] p

theorem after_succ (p : Parser) (n : Nat) : p.after (n + 1) = (p.after n).next.2 :=
  Function.iterate_succ_apply' _ n p

theorem after_cut (p : Parser) (n : Nat) : p.cut.after n = (p.after n).cut := by
  induction n with
  | zero => rfl
  | succ n ih => rw [after_succ, after_succ, ih, next_cut]

/-- A reader that is at the end stays there. -/
theorem after_of_atEnd {p : Parser} {n m : Nat} (hat : (p.after n).atEnd = true) (hle : n ≤ m) :
    p.after m = p.after n := by
  induction hle with
  | refl => rfl
  | step hle ih => rw [after_succ, ih, next_of_atEnd hat]

end Parser

namespace Descent

/-- The trail of a reader after some calls. -/
def trail (c : Config) (tokens : List Token) (n : Nat) : Trail :=
  (fun h => (next c tokens h).2)^[n] .start

/-- What the next call gives then. -/
def answer (c : Config) (tokens : List Token) (n : Nat) : Except ParseError (Option Filter) :=
  (next c tokens (trail c tokens n)).1

variable (c : Config) (tokens : List Token) (n : Nat)

theorem trail_succ : trail c tokens (n + 1) = (next c tokens (trail c tokens n)).2 :=
  Function.iterate_succ_apply' _ n _

theorem depth_trail : (trail c tokens n).now.depth = 0 := by
  induction n with
  | zero => rfl
  | succ n ih => rw [trail_succ, (returns_next (c := c)).depth_eq, ih]

-- Both groups are left again where the second one is not closed.
example :
    (trail { maxDepth := 3 } [⟨.openParen, 0, 1⟩, ⟨.openParen, 1, 2⟩, ⟨.word "a", 2, 3⟩] 1).visited =
      [⟨3, 0⟩, ⟨3, 1⟩, ⟨3, 2⟩, ⟨3, 2⟩, ⟨2, 2⟩, ⟨2, 1⟩, ⟨1, 1⟩, ⟨1, 0⟩, ⟨0, 0⟩] := by decide

theorem sound_trail : (trail c tokens n).Sound c.maxDepth (firstEnd tokens) := by
  induction n with
  | zero => exact .start _ _
  | succ n ih =>
    rw [trail_succ]
    exact returns_next.sound ih

theorem after_eq :
    (Parser.ofTokens c tokens).after n = ⟨c, (trail c tokens n).ahead tokens, 0⟩ := by
  induction n with
  | zero => rfl
  | succ n ih => rw [Parser.after_succ, ih, next_eq (depth_trail c tokens n), trail_succ]

theorem answer_eq : answer c tokens n = ((Parser.ofTokens c tokens).after n).next.1 := by
  rw [after_eq, next_eq (depth_trail c tokens n), answer]

theorem answer_upToEnd : answer c (upToEnd tokens) n = answer c tokens n := by
  rw [answer_eq, answer_eq]
  have hcut : Parser.ofTokens c (upToEnd tokens) = (Parser.ofTokens c tokens).cut := rfl
  rw [hcut, Parser.after_cut, Parser.next_cut]

variable {c tokens n} {q : Option Filter}

theorem position_of_answer (hok : answer c tokens n = .ok q) :
    (trail c tokens (n + 1)).now.position = firstEnd tokens := by
  rw [answer_eq] at hok
  have hat := Parser.atEnd_of_next hok
  rw [← Parser.after_succ, after_eq, atEnd_iff] at hat
  have hle := (sound_trail c tokens (n + 1)).now.2.2
  exact Nat.le_antisymm hle (Nat.le_of_not_lt fun hlt => (lt_firstEnd_iff hle).mp hlt hat)

theorem answer_of_answer {m : Nat} (hok : answer c tokens n = .ok q) (hlt : n < m) :
    answer c tokens m = .ok none := by
  rw [answer_eq] at hok ⊢
  have hat := Parser.atEnd_of_next hok
  rw [← Parser.after_succ] at hat
  rw [Parser.after_of_atEnd hat hlt, Parser.next_of_atEnd hat]

end Descent

/-- A reader after some calls, and what the next one does. The cursor stands for what `Parser` has
left: the first two fields say so. -/
structure Consistent (c : Config) (tokens : List Token) (n : Nat) : Prop where
  after_eq : (Parser.ofTokens c tokens).after n =
    ⟨c, tokens.drop (Descent.trail c tokens n).now.position, 0⟩
  answer_eq : Descent.answer c tokens n = ((Parser.ofTokens c tokens).after n).next.1
  depth_eq : (Descent.trail c tokens n).now.depth = 0
  /-- Not only between the calls, but wherever the cursor has been. -/
  bounds : ∀ v ∈ (Descent.trail c tokens n).visited,
    0 ≤ v.depth ∧ v.depth ≤ c.maxDepth ∧ v.position ≤ firstEnd tokens
  ordered : (Descent.trail c tokens n).visited.Pairwise fun later earlier =>
    earlier.position ≤ later.position
  suffix : (Descent.trail c tokens n).visited <:+ (Descent.trail c tokens (n + 1)).visited
  answer_upToEnd : Descent.answer c (upToEnd tokens) n = Descent.answer c tokens n
  position_of_answer : ∀ q, Descent.answer c tokens n = .ok q →
    (Descent.trail c tokens (n + 1)).now.position = firstEnd tokens
  answer_of_answer : ∀ q, Descent.answer c tokens n = .ok q →
    ∀ m > n, Descent.answer c tokens m = .ok none

/-- However often a reader is asked, no level stays open and no token is passed over. -/
theorem consistent (c : Config) (tokens : List Token) (n : Nat) : Consistent c tokens n where
  after_eq := Descent.after_eq c tokens n
  answer_eq := Descent.answer_eq c tokens n
  depth_eq := Descent.depth_trail c tokens n
  bounds := (Descent.sound_trail c tokens n).bounds
  ordered := (Descent.sound_trail c tokens n).ordered
  suffix := by
    rw [Descent.trail_succ]
    exact (Descent.returns_next (c := c)).suffix
  answer_upToEnd := Descent.answer_upToEnd c tokens n
  position_of_answer := fun _ => Descent.position_of_answer
  answer_of_answer := fun _ hok _ => Descent.answer_of_answer hok

end FilterLang
