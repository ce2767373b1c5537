import FilterLang.Filter.Build
import FilterLang.Proofs.Acceptance
import FilterLang.Proofs.Writing

/-! What a value can do to the filter that it is written in. One that can be quoted is read back as it
is. One with both kinds of quote ends at its first double quote, and the characters after that are
read as more of the filter: mostly they are malformed, but a value can be made for which they are
not, and then the filter that is read is another one. -/

namespace FilterLang

/-- ASCII letters that spell no operator. -/
structure PlainName (n : String) : Prop where
  ne_empty : n ≠ ""
  letters : ∀ c ∈ n.toList, c.isAlpha = true
  lookup : Operator.lookup n = none

theorem isAlpha_eq_false_of_startsNumeric {c : Char} {cs : List Char}
    (h : startsNumeric (c :: cs) = true) : c.isAlpha = false := by
  have all : ∀ n < 58, (Char.ofNat n).isAlpha = false := by decide
  have hc : c = '-' ∨ c = '.' ∨ c.isDigit = true := by
    unfold startsNumeric at h
    split at h <;> simp_all
  rcases hc with rfl | rfl | hdigit
  · rfl
  · rfl
  · have hle : c.toNat ≤ 57 := (Char.isDigit_iff_toNat.mp hdigit).2
    simpa using all c.toNat (by omega)

namespace PlainName

variable {n : String}

theorem isWordChar (h : PlainName n) : ∀ c ∈ n.toList, isWordChar c = true := by
  intro c hc
  simp [FilterLang.isWordChar, Char.isAlphanum, h.letters c hc]

theorem atom_eq (h : PlainName n) : Filter.atom n = n :=
  if_pos ⟨h.ne_empty, List.all_eq_true.mpr h.isWordChar, by simp [h.lookup]⟩

theorem quotable (h : PlainName n) : Quotable n := by
  rintro ⟨hmem, -⟩
  exact absurd (h.letters _ hmem) (by decide)

theorem startsNumeric_eq_false (h : PlainName n) : startsNumeric n.toList = false := by
  obtain ⟨c, cs, hn⟩ := List.exists_cons_of_ne_nil (l := n.toList) (by simpa using h.ne_empty)
  have hc : c.isAlpha = true := h.letters c (by simp [hn])
  rw [hn]
  refine Bool.eq_false_iff.mpr fun hnumeric => ?_
  rw [isAlpha_eq_false_of_startsNumeric hnumeric] at hc
  cases hc

end PlainName

/-- A chain from a text that starts with a whole expression. -/
theorem parse_append_iff {c : Config} {text : String} {a b : List Char} {ts : List Token}
    {left q : Filter} (htext : text.toList = a ++ b) (ha : Lexes 0 a ts) (hab : Parted a b)
    (hleft : ∀ rest, Derives c.numbers .expression c.maxDepth (ts ++ rest) left rest) :
    Filter.parse c text = .ok (some q) ↔ ∃ us, Lexes (utf8Length a) b us ∧
      Derives c.numbers (.tails left) c.maxDepth us q [] := by
  rw [parse_eq_ok_some_iff, htext]
  constructor
  · rintro ⟨ts', hlex, hq⟩
    obtain ⟨us, rfl, hus⟩ := ha.exists_of_append hab hlex
    rw [Nat.zero_add] at hus
    exact ⟨us, hus, (hleft us).tails_of_chain hlex.lexical hq⟩
  · rintro ⟨us, hus, hq⟩
    rw [← Nat.zero_add (utf8Length a)] at hus
    exact ⟨ts ++ us, ha.append hab hus, .chain (hleft us) hq⟩

/-- A chain that goes on after a tree which is no field is no comparison of a field. -/
theorem Derives.tails_ne {numbers : NumberText} {n : Nat} {ts rest : List Token} {left q : Filter}
    (h : Derives numbers (.tails left) n ts q rest) (hleft : ∀ m, left ≠ .name m) :
    (q = left ∧ rest = ts) ∨ ∀ m op right, q ≠ .comparison op (.name m) right := by
  generalize hp : Phrase.tails left = p at h
  induction h generalizing left with
  | noTail =>
    cases hp
    exact .inl ⟨rfl, rfl⟩
  | connectionTail _ _ _ _ ih =>
    cases hp
    rcases ih (by simp) rfl with ⟨rfl, -⟩ | h
    · exact .inr (by simp)
    · exact .inr h
  | @relationTail _ r _ _ _ _ _ _ _ _ _ _ _ ih =>
    cases hp
    rcases ih (by cases r <;> simp [Relation.apply]) rfl with ⟨rfl, -⟩ | h
    · refine .inr fun m op right h => ?_
      cases r <;> cases h
      exact hleft m rfl
    · exact .inr h
  | negationTail _ _ ih =>
    cases hp
    rcases ih (by simp) rfl with ⟨rfl, -⟩ | h
    · exact .inr (by simp)
    · exact .inr h
  | _ => cases hp

/-- The value is cut at its first double quote, and what follows makes more of the filter. -/
def GoesOn (n : String) (op : Comparison) (v : String) (q : Filter) : Prop :=
  ∃ a b ts, v = a ++ "\"" ++ b ∧ '"' ∉ a.toList ∧ '\'' ∈ v.toList ∧
    Lexes (utf8Length (n ++ " " ++ op.spelling ++ " \"" ++ a ++ "\"").toList) (b ++ "\"").toList ts ∧
    Derives .verbatim (.tails (.compare n op (.text a))) ({} : Config).maxDepth ts q []

theorem exists_lexes_comparison {n text : String} {w : List Char} (hn : PlainName n)
    (op : Comparison) (hw : ∀ k, ∃ us, Lexes k w us ∧ ∃ t : Token, us = [t] ∧ t.StandsFor text) :
    ∃ ts, Lexes 0 (n.toList ++ ' ' :: (op.spelling.toList ++ ' ' :: w)) ts ∧ ∀ rest,
      Derives .verbatim .expression ({} : Config).maxDepth (ts ++ rest)
        (.compare n op (.text text)) rest := by
  obtain ⟨_, hlex, t, rfl, ht⟩ := exists_lexes_atom hn.quotable 0
  rw [hn.atom_eq] at hlex
  obtain ⟨os, us, hwhole, ho, u, rfl, hu⟩ :=
    exists_lexes_infix hlex (.relation (.comparison op)) hw
  have hfield := ht.field (not_lexesAsNumber hn.startsNumeric_eq_false)
  refine ⟨_, hwhole, fun rest => ?_⟩
  have hspelled : Spelled (.relation (.comparison op)) (os ++ u :: rest) (u :: rest) :=
    ho _ (.of_standsFor hu rest)
  simpa [Filter.compare, Relation.apply, Literal.write] using
    Derives.relation (.field hfield) hspelled (.value hu.value)

theorem definition_compare {n : String} (hn : PlainName n) (op : Comparison) (v : String) :
    (Filter.compare n op (.text v)).definition.toList =
      n.toList ++ ' ' :: (op.spelling.toList ++ ' ' :: (Filter.atom v).toList) := by
  simp [Filter.compare, Filter.definition, Literal.write, hn.atom_eq]

theorem parse_compare_of_quotable {n v : String} (hn : PlainName n) (op : Comparison)
    (hv : Quotable v) : Filter.parse {} (Filter.compare n op (.text v)).definition =
      .ok (some (.compare n op (.text v))) := by
  obtain ⟨ts, hlex, hts⟩ := exists_lexes_comparison hn op (exists_lexes_atom hv)
  have hexpr := hts []
  rw [List.append_nil] at hexpr
  rw [← definition_compare hn] at hlex
  exact parse_eq_ok_some_iff.mpr ⟨ts, hlex, .chain hexpr .noTail⟩

theorem atom_of_mem {v : String} (h : '\'' ∈ v.toList) : Filter.atom v = "\"" ++ v ++ "\"" := by
  have hbare : ¬ (v ≠ "" ∧ v.toList.all isWordChar = true ∧ (Operator.lookup v).isNone = true) :=
    fun hv => absurd (List.all_eq_true.mp hv.2.1 _ h) (by decide)
  rw [Filter.atom, if_neg hbare, if_pos (by simpa using h)]

theorem parse_compare_cut_iff {n v a b : String} {q : Filter} (hn : PlainName n) (op : Comparison)
    (hv : v = a ++ "\"" ++ b) (ha : '"' ∉ a.toList) (hquote : '\'' ∈ v.toList) :
    Filter.parse {} (Filter.compare n op (.text v)).definition = .ok (some q) ↔
      ∃ ts, Lexes (utf8Length (n ++ " " ++ op.spelling ++ " \"" ++ a ++ "\"").toList)
          (b ++ "\"").toList ts ∧
        Derives .verbatim (.tails (.compare n op (.text a))) ({} : Config).maxDepth ts q [] := by
  have hcut (k : Nat) : ∃ us, Lexes k ('"' :: a.toList ++ ['"']) us ∧
      ∃ t : Token, us = [t] ∧ t.StandsFor a := by
    obtain ⟨s, hs⟩ := lexes_quoted (d := '"') rfl ha k
    exact ⟨_, hs, _, rfl, rfl, rfl, fun _ => rfl⟩
  obtain ⟨ts, hlex, hts⟩ := exists_lexes_comparison hn op hcut
  have hstart : n.toList ++ ' ' :: (op.spelling.toList ++ ' ' :: ('"' :: a.toList ++ ['"'])) =
      (n ++ " " ++ op.spelling ++ " \"" ++ a ++ "\"").toList := by simp
  rw [hstart] at hlex
  have hend : ∀ c ∈ (n ++ " " ++ op.spelling ++ " \"" ++ a ++ "\"").toList.getLast?,
      isWordChar c = false := by
    have hquote : "\"".toList = ['"'] := rfl
    rw [String.toList_append, hquote, List.getLast?_concat]
    rintro _ ⟨⟩
    decide
  refine parse_append_iff (c := {}) ?_ hlex (.inr hend) hts
  rw [definition_compare hn, atom_of_mem hquote, hv]
  simp

theorem GoesOn.not_quotable {n v : String} {op : Comparison} {q : Filter}
    (h : GoesOn n op v q) : ¬ Quotable v := by
  obtain ⟨a, b, ts, hv, -, hquote, -⟩ := h
  exact fun h' => h' ⟨hquote, by simp [hv]⟩

theorem GoesOn.ne_compare {n v : String} {op : Comparison} {q : Filter} (h : GoesOn n op v q) :
    q ≠ .compare n op (.text v) := by
  obtain ⟨a, b, ts, -, -, -, hlex, hq⟩ := h
  rcases hq.tails_ne (by simp [Filter.compare]) with ⟨-, rfl⟩ | h
  · exact absurd (hlex.isBlank_of_nil '"' (by simp)) (by decide)
  · exact h n op (.value v)

/-- The text of a comparison is read as that comparison just if the value can be quoted; else it is
malformed unless the value goes on after its first double quote, and then it is read as another
filter. -/
theorem parse_compare_eq_ok_iff {n : String} (hn : PlainName n) (op : Comparison) (v : String) :
    (∀ r, Filter.parse {} (Filter.compare n op (.text v)).definition = .ok r ↔
      ∃ q, r = some q ∧ (Quotable v ∧ q = .compare n op (.text v) ∨ GoesOn n op v q)) ∧
    ∀ q, GoesOn n op v q → q ≠ .compare n op (.text v) := by
  refine ⟨fun r => ?_, fun q => GoesOn.ne_compare⟩
  by_cases hv : Quotable v
  · rw [parse_compare_of_quotable hn op hv]
    constructor
    · intro h
      exact ⟨_, by simpa using h.symm, .inl ⟨hv, rfl⟩⟩
    · rintro ⟨q, rfl, ⟨-, rfl⟩ | hq⟩
      · rfl
      · exact absurd hv hq.not_quotable
  · obtain ⟨hquote, hdouble⟩ := Decidable.of_not_not hv
    obtain ⟨a, b, hsplit, ha⟩ := List.eq_append_cons_of_mem hdouble
    have hsplit : v = String.ofList a ++ "\"" ++ String.ofList b := by
      apply String.toList_inj.mp
      simpa using hsplit
    constructor
    · intro h
      cases r with
      | none =>
        have hblank := (parse_eq_ok_none_iff.mp h).isBlank_of_nil '"'
        rw [definition_compare hn, atom_of_mem hquote] at hblank
        exact absurd (hblank (by simp)) (by decide)
      | some q =>
        obtain ⟨ts, hts⟩ := (parse_compare_cut_iff hn op hsplit (by simpa using ha) hquote).mp h
        exact ⟨q, rfl, .inr ⟨_, _, ts, hsplit, by simpa using ha, hquote, hts⟩⟩
    · rintro ⟨q, rfl, ⟨hv', -⟩ | ⟨a', b', ts, hv', ha', hquote', hts⟩⟩
      · exact absurd hv' hv
      · exact (parse_compare_cut_iff hn op hv' ha' hquote').mpr ⟨ts, hts⟩

/-- A value that joins a condition to its comparison. -/
theorem parse_compare_eq_ok_joined :
    let q := (Filter.compare "n" .equal (.text "'")).and (.compare "x" .equal (.text ""))
    (Filter.compare "n" .equal (.text "'\" AND x = \"")).definition = "n = \"'\" AND x = \"\"" ∧
    Filter.parse {} "n = \"'\" AND x = \"\"" = .ok (some q) ∧
    GoesOn "n" .equal "'\" AND x = \"" q ∧ q ≠ .compare "n" .equal (.text "'\" AND x = \"") := by
  intro q
  have hn : PlainName "n" := ⟨by decide, List.all_eq_true.mp rfl, by decide⟩
  have hdef : (Filter.compare "n" .equal (.text "'\" AND x = \"")).definition =
      "n = \"'\" AND x = \"\"" := by rfl
  have hparse : Filter.parse {} "n = \"'\" AND x = \"\"" = .ok (some q) := by rfl
  obtain ⟨hiff, hne⟩ := parse_compare_eq_ok_iff hn .equal "'\" AND x = \""
  have hresult := hiff (some q)
  rw [hdef, hparse] at hresult
  obtain ⟨_, ⟨⟩, ⟨hv, -⟩ | hq⟩ := hresult.mp rfl
  · exact absurd hv (by decide)
  · exact ⟨hdef, hparse, hq, hne q hq⟩

end FilterLang
