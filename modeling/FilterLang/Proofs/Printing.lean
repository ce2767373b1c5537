import FilterLang.Proofs.Concatenation
import FilterLang.Proofs.Segmentation

/-! Tokens that are printed with blanks between them are read as the same tokens again:
`ofText_printed`. A token that was read is all that its text is read as, and a blank ends it
whatever it is, so the texts are read one after the other. -/

namespace FilterLang

structure Gap where
  text : String
  ne_empty : text ≠ ""
  isBlank_of_mem : ∀ c ∈ text.toList, isBlank c = true

theorem Gap.endsWord (g : Gap) (cs : List Char) : EndsWord (g.text.toList ++ cs) := by
  obtain ⟨c, w, hw⟩ := List.exists_cons_of_ne_nil (mt String.toList_eq_nil_iff.mp g.ne_empty)
  have hc : isBlank c = true := g.isBlank_of_mem c (by simp [hw])
  rw [hw]
  exact endsWord_cons.mpr (isWordChar_eq_false_of_isBlank hc)

/-- The texts of the tokens, with the gap number `n` between the tokens number `n` and `n + 1`. -/
def printed (gap : Nat → Gap) : List Token → String
  | [] => ""
  | [t] => t.kind.text
  | t :: u :: ts => t.kind.text ++ (gap 0).text ++ printed (fun n => gap (n + 1)) (u :: ts)

theorem Lexes.blanks {k : Nat} {w cs : List Char} {ts : List Token}
    (hw : ∀ c ∈ w, isBlank c = true) (h : Lexes (k + utf8Length w) cs ts) :
    Lexes k (w ++ cs) ts := by
  induction w generalizing k with
  | nil => exact h
  | cons c w ih =>
    rw [utf8Length, ← Nat.add_assoc] at h
    exact .blank (hw c (by simp)) (ih (fun c hc => hw c (by simp [hc])) h)

theorem exists_lexes_printed {ts : List Token} (hts : ∀ t ∈ ts, t.kind.WellFormed)
    (hne : ∀ t ∈ ts, t.kind.text.toList ≠ []) (gap : Nat → Gap) (k : Nat) :
    ∃ us, Lexes k (printed gap ts).toList us ∧ us.map (·.kind) = ts.map (·.kind) := by
  induction ts generalizing gap k with
  | nil => exact ⟨[], .nil, rfl⟩
  | cons t ts ih =>
    have ht := hts t (List.mem_cons_self ..)
    have htext := hne t (List.mem_cons_self ..)
    cases ts with
    | nil =>
      have hlex := ht.lexes_text (k := k) htext (fun _ => endsWord_nil) .nil
      rw [List.append_nil] at hlex
      exact ⟨_, hlex, rfl⟩
    | cons u ts =>
      obtain ⟨us, hus, hkinds⟩ := ih (fun v hv => hts v (List.mem_cons_of_mem _ hv))
        (fun v hv => hne v (List.mem_cons_of_mem _ hv)) (fun n => gap (n + 1))
        (k + utf8Length t.kind.text.toList + utf8Length (gap 0).text.toList)
      have hlex := ht.lexes_text (k := k) htext (fun _ => (gap 0).endsWord _)
        (.blanks (gap 0).isBlank_of_mem hus)
      refine ⟨⟨t.kind, k, k + utf8Length t.kind.text.toList⟩ :: us, ?_, ?_⟩
      · simpa [printed] using hlex
      · simp only [List.map_cons, hkinds]

/-- The tokens of a text, printed with blanks of any kind and number between them, are the tokens
of what is printed. -/
theorem ofText_printed {text : String} {tokens : List Token} (h : Token.ofText text = .ok tokens)
    (gap : Nat → Gap) :
    ∃ tokens', Token.ofText (printed gap (upToEnd tokens)) = .ok tokens' ∧
      tokens'.map (·.kind) = tokens.map (·.kind) := by
  obtain ⟨ts, hts, htokens⟩ := Token.ofText_eq_ok_iff.mp h
  have hupToEnd : upToEnd tokens = ts := (upToEnd_of_ofText h).unique hts
  obtain ⟨us, hus, hkinds⟩ := exists_lexes_printed hts.wellFormed
    (fun t ht => (hts.exists_text t ht).1) gap 0
  rw [hupToEnd]
  refine ⟨_, Token.ofText_of_lexes hus, ?_⟩
  simp [htokens, hkinds]

/-- Symbols that touched are still two, and a number in quotes is still in quotes. -/
theorem ofText_printed_symbols :
    let tokens : List Token := [⟨.word "é", 0, 2⟩, ⟨.symbol '<', 2, 3⟩, ⟨.symbol '>', 3, 4⟩,
      ⟨.quoted '"' "1", 4, 7⟩, ⟨.endOfInput, 7, 7⟩]
    Token.ofText "é<>\"1\"" = .ok tokens ∧
      ∃ gap : Nat → Gap, printed gap (upToEnd tokens) = "é\t <\t >\t \"1\"" ∧
        ∃ tokens', Token.ofText "é\t <\t >\t \"1\"" = .ok tokens' ∧
          tokens'.map (·.kind) = tokens.map (·.kind) := by
  intro tokens
  have hread : Token.ofText "é<>\"1\"" = .ok tokens := by rfl
  let gap : Gap := ⟨"\t ", by decide, by simp [isBlank]⟩
  have hprinted : printed (fun _ => gap) (upToEnd tokens) = "é\t <\t >\t \"1\"" := by decide
  exact ⟨hread, fun _ => gap, hprinted, hprinted ▸ ofText_printed hread fun _ => gap⟩

end FilterLang
