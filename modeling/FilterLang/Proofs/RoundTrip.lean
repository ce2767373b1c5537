import FilterLang.Filter.Build
import FilterLang.Proofs.Acceptance
import FilterLang.Proofs.Writing

/-! What `definition` writes is read again as the same tree, up to the groups that it puts in. Trees
that have these groups already are settled: there is no negation but of a group, and no connection
with an operand that needs one. They are read back just as they are, so it remains to see that
any other tree is written like a settled one. -/

namespace FilterLang

namespace Filter

/-- The trees that comparisons, memberships, connections, negations and groups make of fields. -/
inductive Simple : Filter → Prop
  | name {text} : Quotable text → ¬ LexesAsNumber text → Simple (name text)
  | group {q} : Simple q → Simple (group q)
  | negation {q} : Simple q → Simple (negation q)
  | comparison {op left text} : left.isPrimary = true → Simple left → Quotable text →
      Simple (comparison op left (value text))
  | membership {field texts} : field.isPrimary = true → Simple field →
      (∀ text ∈ texts, Quotable text) → Simple (membership field [values texts])
  | connection {op left right} : Simple left → Simple right → Simple (connection op left right)

/-- The simple trees that need no more groups. -/
inductive Settled : Filter → Prop
  | name {text} : Quotable text → ¬ LexesAsNumber text → Settled (name text)
  | group {q} : Settled q → Settled (group q)
  | negation {q} : Settled q → Settled (negation (group q))
  | comparison {op left text} : left.isPrimary = true → Settled left → Quotable text →
      Settled (comparison op left (value text))
  | membership {field texts} : field.isPrimary = true → Settled field →
      (∀ text ∈ texts, Quotable text) → Settled (membership field [values texts])
  | connection {op left right} : Settled left → left.leftNeedsGroup = false → Settled right →
      right.rightNeedsGroup = false → Settled (connection op left right)

mutual

/-- The tree without its groups. -/
def ungrouped : Filter → Filter
  | name text => name text
  | value text => value text
  | values texts => values texts
  | group inner => inner.ungrouped
  | negation operand => negation operand.ungrouped
  | comparison op left right => comparison op left.ungrouped right.ungrouped
  | membership field among => membership field.ungrouped (ungroupedAll among)
  | connection op left right => connection op left.ungrouped right.ungrouped

def ungroupedAll : List Filter → List Filter
  | [] => []
  | q :: qs => q.ungrouped :: ungroupedAll qs

end

def groupIf (b : Bool) (q : Filter) : Filter := if b then group q else q

/-- The tree with the groups that are written. -/
def regrouped : Filter → Filter
  | group inner => group inner.regrouped
  | negation operand => negation (operand.regrouped.groupIf !operand.isGroup)
  | comparison op left right => comparison op left.regrouped right
  | membership field among => membership field.regrouped among
  | connection op left right => connection op (left.regrouped.groupIf left.leftNeedsGroup)
      (right.regrouped.groupIf right.rightNeedsGroup)
  | q => q

theorem isGroup_regrouped (q : Filter) : q.regrouped.isGroup = q.isGroup := by
  cases q <;> rfl

theorem isPrimary_regrouped (q : Filter) : q.regrouped.isPrimary = q.isPrimary := by
  cases q <;> rfl

theorem rightNeedsGroup_regrouped {q : Filter} (h : q.rightNeedsGroup = false) :
    q.regrouped.rightNeedsGroup = false := by
  cases q with
  | connection op left right =>
    simp only [regrouped, rightNeedsGroup, Bool.not_eq_false'] at h ⊢
    rw [groupIf]
    split_ifs
    · rfl
    · rw [isPrimary_regrouped, h]
  | _ => rfl

theorem rightNeedsGroup_groupIf (q : Filter) :
    (q.regrouped.groupIf q.rightNeedsGroup).rightNeedsGroup = false := by
  rw [groupIf]
  split_ifs with h
  · rfl
  · exact rightNeedsGroup_regrouped (Bool.eq_false_iff.mpr h)

theorem endsWithComparison_regrouped : ∀ q : Filter,
    q.regrouped.endsWithComparison = q.endsWithComparison
  | connection op left right => by
    simp only [regrouped, endsWithComparison, rightNeedsGroup_groupIf]
    cases h : right.rightNeedsGroup with
    | true => rfl
    | false => simp [groupIf, endsWithComparison_regrouped right]
  | name _ | value _ | values _ | group _ | negation _ | comparison _ _ _ | membership _ _ => rfl

theorem leftNeedsGroup_regrouped (q : Filter) : q.regrouped.leftNeedsGroup = q.leftNeedsGroup := by
  cases q with
  | connection op left right =>
    exact congrArg Bool.not (endsWithComparison_regrouped (connection op left right))
  | _ => rfl

theorem leftNeedsGroup_groupIf (q : Filter) :
    (q.regrouped.groupIf q.leftNeedsGroup).leftNeedsGroup = false := by
  rw [groupIf]
  split_ifs with h
  · rfl
  · rw [leftNeedsGroup_regrouped, Bool.eq_false_iff.mpr h]

theorem isPrimary_or_endsWithComparison {q : Filter} (h : q.leftNeedsGroup = false) :
    q.isPrimary = true ∨ q.endsWithComparison = true := by
  cases q with
  | name | value | values | group => exact .inl rfl
  | comparison | membership => exact .inr rfl
  | negation => cases h
  | connection => exact .inr (by simpa [leftNeedsGroup] using h)

theorem leftNeedsGroup_eq_false {q : Filter}
    (h : q.isPrimary = true ∨ q.endsWithComparison = true) : q.leftNeedsGroup = false := by
  cases q with
  | negation => rcases h with h | h <;> cases h
  | connection => simpa [leftNeedsGroup, isPrimary] using h
  | _ => rfl

theorem definition_groupIf (b : Bool) (q : Filter) :
    (q.groupIf b).definition = if b then parenthesized q.definition else q.definition := by
  cases b <;> simp [groupIf, definition]

theorem ungrouped_groupIf (b : Bool) (q : Filter) : (q.groupIf b).ungrouped = q.ungrouped := by
  cases b <;> simp [groupIf, ungrouped]

/-- The groups that a tree is given are those that are written anyway. -/
theorem definition_regrouped : ∀ q : Filter, q.regrouped.definition = q.definition
  | group inner => by rw [regrouped, definition, definition_regrouped inner, definition]
  | negation operand => by
    have hgroup : (operand.regrouped.groupIf !operand.isGroup).isGroup = true := by
      cases h : operand.isGroup with
      | true => exact (isGroup_regrouped operand).trans h
      | false => rfl
    simp only [regrouped, definition, hgroup, if_true, definition_groupIf,
      definition_regrouped operand]
    cases operand.isGroup <;> rfl
  | comparison op left right => by simp only [regrouped, definition, definition_regrouped left]
  | membership field among => by simp only [regrouped, definition, definition_regrouped field]
  | connection op left right => by
    simp only [regrouped, definition, leftNeedsGroup_groupIf, rightNeedsGroup_groupIf,
      definition_groupIf, definition_regrouped left, definition_regrouped right,
      Bool.false_eq_true, if_false]
  | name _ | value _ | values _ => rfl

theorem ungrouped_regrouped : ∀ q : Filter, q.regrouped.ungrouped = q.ungrouped
  | group inner => ungrouped_regrouped inner
  | negation operand => by
    simp only [regrouped, ungrouped, ungrouped_groupIf, ungrouped_regrouped operand]
  | comparison op left right => by simp only [regrouped, ungrouped, ungrouped_regrouped left]
  | membership field among => by simp only [regrouped, ungrouped, ungrouped_regrouped field]
  | connection op left right => by
    simp only [regrouped, ungrouped, ungrouped_groupIf, ungrouped_regrouped left,
      ungrouped_regrouped right]
  | name _ | value _ | values _ => rfl

theorem Settled.groupIf {q : Filter} (h : q.Settled) (b : Bool) : (q.groupIf b).Settled := by
  cases b with
  | false => exact h
  | true => exact .group h

theorem Simple.settled_regrouped {q : Filter} (h : q.Simple) : q.regrouped.Settled := by
  induction h with
  | name hquote hnumber => exact .name hquote hnumber
  | group _ ih => exact .group ih
  | @negation q _ ih =>
    cases q with
    | group inner =>
      cases ih with
      | group hinner => exact .negation hinner
    | _ => exact .negation ih
  | comparison hleft _ hquote ih =>
    exact .comparison ((isPrimary_regrouped _).trans hleft) ih hquote
  | membership hfield _ hquote ih =>
    exact .membership ((isPrimary_regrouped _).trans hfield) ih hquote
  | connection _ _ ihl ihr =>
    exact .connection (ihl.groupIf _) (leftNeedsGroup_groupIf _) (ihr.groupIf _)
      (rightNeedsGroup_groupIf _)

end Filter

/-- The tokens are read as the tree, in each place that its text is written in. -/
structure ReadsBack (q : Filter) (ts : List Token) : Prop where
  primary : q.isPrimary = true → ∀ rest, Derivable .verbatim .primary (ts ++ rest) q rest
  expression : q.rightNeedsGroup = false → ∀ rest, Closes rest ∨ q.endsWithComparison = true →
    Derivable .verbatim .expression (ts ++ rest) q rest
  chain : ∀ rest, Closes rest ∨ q.endsWithComparison = true →
    Derivable .verbatim .chain (ts ++ rest) q rest

namespace ReadsBack

variable {q : Filter} {ts : List Token}

theorem of_expression (hq : q.isPrimary = false)
    (h : ∀ rest, Closes rest ∨ q.endsWithComparison = true →
      Derivable .verbatim .expression (ts ++ rest) q rest) : ReadsBack q ts where
  primary hq' := by simp [hq] at hq'
  expression _ := h
  chain rest hrest := (h rest hrest).chain .noTail

theorem of_primary (hq : q.endsWithComparison = false)
    (h : ∀ rest, Derivable .verbatim .primary (ts ++ rest) q rest) : ReadsBack q ts := by
  have hexpr (rest : List Token) (hrest : Closes rest ∨ q.endsWithComparison = true) :
      Derivable .verbatim .expression (ts ++ rest) q rest :=
    (h rest).alone (hrest.resolve_right (by simp [hq]))
  exact ⟨fun _ => h, fun _ => hexpr, fun rest hrest => (hexpr rest hrest).chain .noTail⟩

theorem group {t u : Token} (ht : t.kind = .openParen) (h : ReadsBack q ts)
    (hu : u.kind = .closeParen) : ReadsBack (.group q) (t :: ts ++ [u]) := by
  refine of_primary rfl fun rest => ?_
  have hchain := h.chain (u :: rest) (.inl (closes_cons.mpr hu))
  simpa using hchain.group ht hu

theorem negation {os : List Token} (ho : ∀ rest, Spelled .negation (os ++ rest) rest)
    (h : ReadsBack (.group q) ts) : ReadsBack (.negation (.group q)) (os ++ ts) := by
  refine of_expression rfl fun rest hrest => ?_
  -- a negation takes all that follows, so something must close it
  have hclose : Closes rest := hrest.resolve_right Bool.false_ne_true
  have hexpr := h.expression rfl rest (.inl hclose)
  rw [List.append_assoc]
  exact (Derivable.negation (ho _) hexpr).alone hclose

theorem relation {r : Relation} {right : Filter} {os us : List Token}
    (hq : q.isPrimary = true) (h : ReadsBack q ts) (hr : (r.apply q right).isPrimary = false)
    (ho : ∀ rest, Spelled (.relation r) (os ++ (us ++ rest)) (us ++ rest))
    (hright : ∀ rest, Derivable .verbatim .operand (us ++ rest) right rest) :
    ReadsBack (r.apply q right) (ts ++ (os ++ us)) := by
  refine of_expression hr fun rest _ => ?_
  rw [List.append_assoc, List.append_assoc]
  exact (h.primary hq _).relation (ho rest) (hright rest)

theorem connection {op : Connective} {left right : Filter} {os us : List Token}
    (hl : left.leftNeedsGroup = false) (h : ReadsBack left ts)
    (ho : ∀ rest, Spelled (.connective op) (os ++ rest) rest)
    (hr : right.rightNeedsGroup = false) (h' : ReadsBack right us) :
    ReadsBack (.connection op left right) (ts ++ (os ++ us)) := by
  have hright (rest : List Token)
      (hrest : Closes rest ∨ (Filter.connection op left right).endsWithComparison = true) :
      Derivable .verbatim .expression (us ++ rest) right rest :=
    h'.expression hr rest (hrest.imp_right fun hends => by
      simpa [Filter.endsWithComparison, hr] using hends)
  have hprimary (hleft : left.isPrimary = true) (rest : List Token)
      (hrest : Closes rest ∨ (Filter.connection op left right).endsWithComparison = true) :
      Derivable .verbatim .expression (ts ++ (os ++ us) ++ rest) (.connection op left right)
        rest := by
    rw [List.append_assoc, List.append_assoc]
    exact (h.primary hleft _).connection (ho _) (hright rest hrest)
  constructor
  · exact fun hq => absurd hq Bool.false_ne_true
  · exact fun hq => hprimary (by simpa [Filter.rightNeedsGroup] using hq)
  · intro rest hrest
    rcases Filter.isPrimary_or_endsWithComparison hl with hleft | hends
    · exact (hprimary hleft rest hrest).chain .noTail
    · rw [List.append_assoc, List.append_assoc]
      exact (h.chain _ (.inr hends)).chain_tails (.connectionTail (ho _) (hright rest hrest))

end ReadsBack

namespace Filter

theorem exists_readsBack_group {q : Filter}
    (h : ∀ k, ∃ ts, Lexes k q.definition.toList ts ∧ ReadsBack q ts) (k : Nat) :
    ∃ ts, Lexes k (group q).definition.toList ts ∧ ReadsBack (group q) ts := by
  obtain ⟨ts, hlex, hts⟩ := h (k + 1)
  obtain ⟨t, u, ht, hu, hwhole⟩ := hlex.parenthesized
  exact ⟨_, by simpa [definition, parenthesized] using hwhole, hts.group ht hu⟩

/-- Wherever the text of a settled tree stands, its tokens are read as the tree. -/
theorem Settled.readsBack {q : Filter} (h : q.Settled) (k : Nat) :
    ∃ ts, Lexes k q.definition.toList ts ∧ ReadsBack q ts := by
  induction h generalizing k with
  | name hquote hnumber =>
    obtain ⟨_, hlex, t, rfl, ht⟩ := exists_lexes_atom hquote k
    exact ⟨[t], hlex, .of_primary rfl fun rest => ⟨0, .field (ht.field hnumber)⟩⟩
  | group _ ih => exact exists_readsBack_group ih k
  | @negation q _ ih =>
    obtain ⟨os, hos, ho⟩ := exists_lexes_spelling .negation k
    obtain ⟨ts, hlex, hts⟩ := exists_readsBack_group ih _
    refine ⟨_, ?_, hts.negation fun rest => ho rest (.of_word rfl rest)⟩
    simpa [definition, isGroup] using hos.spaced hlex
  | @comparison op left text hleft _ hquote ih =>
    obtain ⟨ts, hlex, hts⟩ := ih k
    obtain ⟨os, us, hwhole, ho, t, rfl, ht⟩ :=
      exists_lexes_infix hlex (.relation (.comparison op)) (exists_lexes_atom hquote)
    refine ⟨ts ++ (os ++ [t]), ?_, hts.relation (r := .comparison op) hleft rfl
      (fun rest => ho _ (.of_standsFor ht rest)) fun rest => ⟨0, .value ht.value⟩⟩
    simpa [definition, Operator.spelling, Relation.spelling] using hwhole
  | membership hfield _ hquote ih =>
    obtain ⟨ts, hlex, hts⟩ := ih k
    obtain ⟨os, us, hwhole, ho, hus⟩ := exists_lexes_infix hlex (.relation .membership)
      (exists_lexes_list hquote)
    refine ⟨_, ?_, hts.relation (r := .membership) hfield rfl
      (fun rest => ho _ (.of_word rfl _)) hus⟩
    simpa [definition, definitions, commaSeparated, Operator.spelling] using hwhole
  | @connection op left right _ hl _ hr ihl ihr =>
    obtain ⟨ts, hlex, hts⟩ := ihl k
    obtain ⟨os, us, hwhole, ho, hus⟩ := exists_lexes_infix hlex (.connective op) ihr
    refine ⟨_, ?_, hts.connection hl (fun rest => ho rest (.of_word rfl rest)) hr hus⟩
    simpa [definition, hl, hr, Operator.spelling] using hwhole

theorem Settled.parse_eq_ok {q : Filter} (h : q.Settled) :
    ∃ ts, Lexes 0 q.definition.toList ts ∧ ∀ c : Config, c.numbers = .verbatim →
      ts.length ≤ c.maxDepth → parse c q.definition = .ok (some q) := by
  obtain ⟨ts, hlex, hts⟩ := h.readsBack 0
  refine ⟨ts, hlex, fun c hc hdepth => parse_eq_ok_some_iff.mpr ⟨ts, hlex, ?_⟩⟩
  obtain ⟨n, hn⟩ := hts.chain [] (.inl closes_nil)
  rw [List.append_nil] at hn
  rw [hc]
  exact hn.of_length_le (by simp only [List.length_nil]; omega)

/-- The text of a simple tree is read as a tree that differs in its groups only, and that has the
same text. -/
theorem Simple.parse_definition {q : Filter} (h : q.Simple) :
    ∃ toks, Token.ofText q.definition = .ok toks ∧ ∀ c : Config, c.numbers = .verbatim →
      toks.dropLast.length ≤ c.maxDepth → ∃ p, parse c q.definition = .ok (some p) ∧
        p.ungrouped = q.ungrouped ∧ p.definition = q.definition := by
  obtain ⟨ts, hlex, hparse⟩ := h.settled_regrouped.parse_eq_ok
  rw [definition_regrouped] at hlex hparse
  refine ⟨_, Token.ofText_of_lexes hlex, fun c hc hdepth => ?_⟩
  rw [List.dropLast_concat] at hdepth
  exact ⟨q.regrouped, hparse c hc hdepth, ungrouped_regrouped q, definition_regrouped q⟩

/-- Both operands of this `OR` get groups that they did not have. -/
theorem simple_parse_definition_or :
    let q := (name "a").not.or ((compare "b" .equal (.text "it's")).and (isIn "c" []))
    q.Simple ∧ q.definition = "(NOT (a)) OR (b = \"it's\" AND c IN ())" ∧
      ∃ p, parse {} q.definition = .ok (some p) ∧ p.ungrouped = q.ungrouped ∧
        p.definition = q.definition := by
  intro q
  have hname (text : String) (h : startsNumeric text.toList = false) (h' : Quotable text) :
      (name text).Simple := .name h' (not_lexesAsNumber h)
  have hq : q.Simple :=
    .connection (.negation (hname "a" rfl (by decide)))
      (.connection (.comparison rfl (hname "b" rfl (by decide)) (by decide))
        (.membership rfl (hname "c" rfl (by decide)) (by simp)))
  have hdef : q.definition = "(NOT (a)) OR (b = \"it's\" AND c IN ())" := by rfl
  obtain ⟨toks, htoks, hparse⟩ := Simple.parse_definition hq
  have hlength : (Token.ofText "(NOT (a)) OR (b = \"it's\" AND c IN ())").map
      (·.dropLast.length) = .ok 17 := by rfl
  rw [← hdef, htoks] at hlength
  have hdepth : toks.dropLast.length = 17 := by simpa [Except.map] using hlength
  exact ⟨hq, hdef, hparse {} rfl (by simp [hdepth])⟩

end Filter

end FilterLang
