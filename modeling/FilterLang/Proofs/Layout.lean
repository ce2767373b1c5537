import FilterLang.Proofs.SideBySide

/-! What is between the tokens of a filter does not matter: `next_of_inStep`. The places of tokens
are looked at only to see whether two symbols touch, and to say where a fault was found. -/

namespace FilterLang

theorem Config.corresponds_eq (c : Config) : c.Corresponds (· = ·) c where
  maxDepth := rfl
  name _ := rfl
  value _ := rfl
  number _ _ := rfl
  values h := by
    have htexts := h.imp fun _ _ => Filter.value.inj
    rw [List.forall₂_eq_eq_eq] at htexts
    rw [htexts]
  group h := by rw [h]
  negation h := by rw [h]
  relation _ {_ _ _ _} hl hr := by rw [hl, hr]
  connection _ {_ _ _ _} hl hr := by rw [hl, hr]

/-- Two lists of tokens of the same kinds, whose symbols touch at the same places, are read alike:
there is the same filter ahead, or nothing, or the same fault at tokens with the same positions. -/
theorem next_of_inStep {ts us : List Token} (hlength : ts.length = us.length)
    (h : InStep (ts.zip us)) (c : Config) :
    Matched (SameError (ts.zip us)) (· = ·) (Parser.ofTokens c ts).next.1
      (Parser.ofTokens c us).next.1 := by
  have hnext := matched_next c.corresponds_eq h
  rw [List.map_fst_zip (Nat.le_of_eq hlength),
    List.map_snd_zip (Nat.le_of_eq hlength.symm)] at hnext
  refine hnext.imp fun r r' hr => ?_
  cases hr with
  | some h => rw [h]
  | none => rfl

theorem next_of_inStep_unknownOperator :
    -- the texts `a<~b` and `a   <~ b`
    let ts : List Token :=
      [⟨.word "a", 0, 1⟩, ⟨.symbol '<', 1, 2⟩, ⟨.symbol '~', 2, 3⟩, ⟨.word "b", 3, 4⟩]
    let us : List Token :=
      [⟨.word "a", 0, 1⟩, ⟨.symbol '<', 4, 5⟩, ⟨.symbol '~', 5, 6⟩, ⟨.word "b", 7, 8⟩]
    Matched (SameError (ts.zip us)) (· = ·) (Parser.ofTokens {} ts).next.1
        (Parser.ofTokens {} us).next.1 ∧
      (Parser.ofTokens {} ts).next.1 = .error (.unknownOperator "<~" ⟨1, 3⟩) ∧
      (Parser.ofTokens {} us).next.1 = .error (.unknownOperator "<~" ⟨4, 6⟩) := by
  intro ts us
  have hlength : ts.length = us.length := rfl
  have hstep : InStep (ts.zip us) := ⟨by decide, by decide⟩
  exact ⟨next_of_inStep hlength hstep {}, by decide, by decide⟩

end FilterLang
