import FilterLang.Filter.Descent
import Mathlib.Tactic.SplitIfs

/-! A reader by descent keeps its cursor in order: `returns_next`. Whatever a phrase makes of the
tokens, and wherever it fails, the depth counter is behind it what it was before; in between the
counter stays within the limit, and the cursor never goes back and never passes the first token for
the end. -/

namespace FilterLang

/-- The tokens before the first one for the end. -/
def upToEnd (tokens : List Token) : List Token := tokens.takeWhile (·.kind ≠ .endOfInput)

/-- Where the first token for the end is, or else the end of the list. -/
def firstEnd (tokens : List Token) : Nat := (upToEnd tokens).length

theorem firstEnd_cons {t : Token} {ts : List Token} :
    firstEnd (t :: ts) = if t.kind = .endOfInput then 0 else firstEnd ts + 1 := by
  unfold firstEnd upToEnd
  split_ifs with ht
  · rw [List.takeWhile_cons_of_neg (by simpa using ht), List.length_nil]
  · rw [List.takeWhile_cons_of_pos (by simpa using ht), List.length_cons]

namespace Trail

/-- The cursor has never gone back, and was always at a depth and a position that are allowed. -/
structure Sound (limit stop : Nat) (h : Trail) : Prop where
  bounds : ∀ v ∈ h.visited, 0 ≤ v.depth ∧ v.depth ≤ limit ∧ v.position ≤ stop
  ordered : h.visited.Pairwise fun later earlier => earlier.position ≤ later.position

/-- A sound trail goes on and stays sound, and the cursor does not go back. -/
structure Goes (limit stop : Nat) (h h' : Trail) : Prop where
  sound : h.Sound limit stop → h'.Sound limit stop
  suffix : h.visited <:+ h'.visited
  position_le : h.now.position ≤ h'.now.position

/-- The levels that were entered are left again. -/
structure Returns (limit stop : Nat) (h h' : Trail) : Prop extends h.Goes limit stop h' where
  depth_eq : h'.now.depth = h.now.depth

variable {limit stop : Nat} {h h' h'' : Trail} {v : Cursor}

theorem Sound.start (limit stop : Nat) : Trail.start.Sound limit stop where
  bounds := by simp [Trail.visited, Trail.start]
  ordered := List.pairwise_singleton ..

theorem Sound.now (hs : h.Sound limit stop) :
    0 ≤ h.now.depth ∧ h.now.depth ≤ limit ∧ h.now.position ≤ stop :=
  hs.bounds h.now (List.mem_cons_self ..)

theorem Sound.move (hs : h.Sound limit stop) (hposition : h.now.position ≤ v.position)
    (hv : 0 ≤ v.depth ∧ v.depth ≤ limit ∧ v.position ≤ stop) : (h.move v).Sound limit stop where
  bounds := List.forall_mem_cons.mpr ⟨hv, hs.bounds⟩
  ordered := by
    refine .cons (List.forall_mem_cons.mpr ⟨hposition, fun u hu => ?_⟩) hs.ordered
    exact Nat.le_trans (List.rel_of_pairwise_cons hs.ordered hu) hposition

/-- One move, where it is allowed. -/
theorem Goes.move (hposition : h.now.position ≤ v.position)
    (hv : h.Sound limit stop → 0 ≤ v.depth ∧ v.depth ≤ limit ∧ v.position ≤ stop) :
    h.Goes limit stop (h.move v) :=
  ⟨fun hs => hs.move hposition (hv hs), List.suffix_cons .., hposition⟩

theorem Goes.trans (hg : h.Goes limit stop h') (hg' : h'.Goes limit stop h'') :
    h.Goes limit stop h'' :=
  ⟨fun hs => hg'.sound (hg.sound hs), hg.suffix.trans hg'.suffix,
    Nat.le_trans hg.position_le hg'.position_le⟩

theorem Returns.trans (hr : h.Returns limit stop h') (hr' : h'.Returns limit stop h'') :
    h.Returns limit stop h'' :=
  ⟨hr.toGoes.trans hr'.toGoes, hr'.depth_eq.trans hr.depth_eq⟩

theorem Returns.refl (h : Trail) : h.Returns limit stop h :=
  ⟨⟨id, List.suffix_refl _, Nat.le_refl _⟩, rfl⟩

/-- One level deeper, if the limit allows it. -/
theorem Goes.deeper (hdeep : ¬ (limit : Int) ≤ h.now.depth) :
    h.Goes limit stop (h.move { h.now with depth := h.now.depth + 1 }) := by
  refine .move (Nat.le_refl _) fun hs => ⟨?_, ?_, hs.now.2.2⟩
  · have := hs.now.1
    simp only
    omega
  · simp only
    omega

/-- The depth is set back to what it was. -/
theorem Goes.back (hg : h.Goes limit stop h') (hdepth : v.depth = h.now.depth)
    (hposition : v.position = h'.now.position) : h.Returns limit stop (h'.move v) := by
  refine ⟨⟨fun hs => ?_, hg.suffix.trans (List.suffix_cons ..), ?_⟩, hdepth⟩
  · have hs' := hg.sound hs
    refine hs'.move (Nat.le_of_eq hposition.symm) ?_
    rw [hdepth, hposition]
    exact ⟨hs.now.1, hs.now.2.1, hs'.now.2.2⟩
  · exact Nat.le_trans hg.position_le (Nat.le_of_eq hposition.symm)

/-- A level is left from the depth at which it was entered. -/
theorem Returns.nested (hdeep : ¬ (limit : Int) ≤ h.now.depth)
    (hr : (h.move { h.now with depth := h.now.depth + 1 }).Returns limit stop h') :
    h.Returns limit stop (h'.move { h'.now with depth := h'.now.depth - 1 }) := by
  have hdepth : h'.now.depth = h.now.depth + 1 := hr.depth_eq
  exact ((Goes.deeper hdeep).trans hr.toGoes).back (by simp only; omega) rfl

end Trail

namespace Descent

variable {c : Config} {tokens : List Token} {α β : Type} {h : Trail} {t : Token}

theorem exists_of_bind_eq_ok {m : Descent α} {f : α → Descent β} {b : β}
    (hok : ((m >>= f) h).1 = .ok b) : ∃ a, (m h).1 = .ok a ∧ (f a (m h).2).1 = .ok b := by
  rw [bind_apply] at hok
  rcases hm : m h with ⟨r, h'⟩
  rw [hm] at hok
  cases r with
  | error e => cases hok
  | ok a => exact ⟨a, rfl, hok⟩

/-- Up to the first token for the end, all tokens but that one are other tokens. -/
theorem lt_firstEnd_iff {position : Nat} (hle : position ≤ firstEnd tokens) :
    position < firstEnd tokens ↔ (tokenAt tokens position).kind ≠ .endOfInput := by
  induction tokens generalizing position with
  | nil => simp [firstEnd, upToEnd, tokenAt]
  | cons t ts ih =>
    rw [firstEnd_cons] at hle ⊢
    cases position with
    | zero => split_ifs with hend <;> simp [tokenAt, hend]
    | succ position =>
      split_ifs at hle ⊢ with hend
      · omega
      · rw [Nat.add_lt_add_iff_right, ih (Nat.le_of_succ_le_succ hle)]
        rfl

/-- The cursor is behind the reading where it can be, at the depth that it was at before. -/
def Returns (c : Config) (tokens : List Token) (m : Descent α) (h : Trail) : Prop :=
  h.Returns c.maxDepth (firstEnd tokens) (m h).2

/-- The same without the depth. -/
def Goes (c : Config) (tokens : List Token) (m : Descent α) (h : Trail) : Prop :=
  h.Goes c.maxDepth (firstEnd tokens) (m h).2

theorem Returns.goes {m : Descent α} (hm : Returns c tokens m h) : Goes c tokens m h := hm.toGoes

theorem bind_snd_ind {R : Trail → Prop} {m : Descent α} {f : α → Descent β}
    (herror : R (m h).2) (hok : ∀ a, (m h).1 = .ok a → R (f a (m h).2).2) :
    R ((m >>= f) h).2 := by
  rw [bind_apply]
  rcases hm : m h with ⟨r, h'⟩
  rw [hm] at herror hok
  cases r with
  | error e => exact herror
  | ok a => exact hok a rfl

theorem Returns.bind {m : Descent α} {f : α → Descent β} (hm : Returns c tokens m h)
    (hf : ∀ a, Returns c tokens (f a) (m h).2) : Returns c tokens (m >>= f) h :=
  bind_snd_ind hm fun a _ => hm.trans (hf a)

theorem Goes.bind {m : Descent α} {f : α → Descent β} (hm : Goes c tokens m h)
    (hf : ∀ a, Goes c tokens (f a) (m h).2) : Goes c tokens (m >>= f) h :=
  bind_snd_ind hm fun a _ => hm.trans (hf a)

theorem returns_pure (a : α) : Returns c tokens (pure a) h := .refl h

theorem returns_throw (e : ParseError) : Returns c tokens (throw e : Descent α) h := .refl h

theorem returns_cursor : Returns c tokens cursor h := .refl h

theorem returns_current : Returns c tokens (current tokens) h := .refl h

theorem returns_current_bind {f : Token → Descent α}
    (hf : Returns c tokens (f (h.token tokens)) h) :
    Returns c tokens (current tokens >>= f) h := hf

theorem returns_advance (ht : (h.token tokens).kind ≠ .endOfInput) :
    Returns c tokens (advance tokens) h := by
  unfold Returns
  rw [advance_apply]
  split_ifs with hlt
  · refine ⟨.move (Nat.le_succ _) fun hs => ?_, rfl⟩
    exact ⟨hs.now.1, hs.now.2.1, (lt_firstEnd_iff hs.now.2.2).mpr ht⟩
  · exact .refl h

theorem returns_unrecognized : Returns c tokens (unrecognized tokens : Descent α) h := by
  refine returns_current_bind ?_
  split <;> exact returns_throw _

theorem returns_take {x : α} (ht : (h.token tokens).kind ≠ .endOfInput) :
    Returns c tokens (take tokens x) h :=
  (returns_advance ht).bind fun _ => returns_pure _

theorem drop_advance {ahead : List Token} (hahead : h.ahead tokens = t :: ahead) :
    (advance tokens h).2.ahead tokens = ahead := by
  obtain ⟨hlt, -, hdrop⟩ := Trail.of_ahead_eq_cons hahead
  rw [advance_apply, if_pos hlt]
  exact hdrop

theorem returns_symbols {text : String} {span : Span} {ahead : List Token}
    (hahead : h.ahead tokens = ahead) :
    Returns c tokens (symbols tokens text span ahead) h := by
  induction ahead generalizing h text span with
  | nil => exact returns_pure _
  | cons t ahead ih =>
    obtain ⟨-, ht, -⟩ := Trail.of_ahead_eq_cons hahead
    by_cases hsymbol : ∃ ch, t.kind = .symbol ch
    · obtain ⟨ch, hch⟩ := hsymbol
      rw [symbols_cons hch]
      split_ifs
      · exact returns_pure _
      · exact (returns_advance (by simp [ht, hch])).bind fun _ => ih (drop_advance hahead)
    · rw [symbols_cons_of_ne (not_exists.mp hsymbol)]
      exact returns_pure _

theorem returns_spelling {text : String} {span : Span} :
    Returns c tokens (if text = "" then unrecognized tokens else pure (text, span)) h := by
  split_ifs
  · exact returns_unrecognized
  · exact returns_pure _

theorem returns_symbolOperator : Returns c tokens (symbolOperator tokens) h :=
  returns_current_bind ((returns_symbols rfl).bind fun _ => returns_spelling)

theorem returns_nested {inner : Descent α} (hinner : ∀ h, Returns c tokens inner h) :
    Returns c tokens (nested c inner) h := by
  unfold Returns
  rw [nested_apply]
  split_ifs with hdeep
  · exact .refl h
  · exact Trail.Returns.nested hdeep (hinner _)

theorem returns_keepingDepth {inner : Descent α} (hinner : Goes c tokens inner h) :
    Returns c tokens (keepingDepth inner) h := by
  unfold Returns
  rw [keepingDepth_apply]
  exact hinner.back rfl rfl

theorem returns_build {o : Operator} {operands : List Filter} :
    Returns c tokens (build o operands) h := by
  unfold build
  split
  · exact returns_pure _
  · exact returns_throw _

theorem returns_valueList {texts : List String} {ahead : List Token}
    (hahead : h.ahead tokens = ahead) :
    Returns c tokens (valueList c tokens texts ahead) h := by
  induction ahead generalizing h texts with
  | nil => exact returns_pure _
  | cons t ahead ih =>
    obtain ⟨-, ht, -⟩ := Trail.of_ahead_eq_cons hahead
    rw [valueList]
    cases hkind : t.kind with
    | closeParen | endOfInput => exact returns_pure _
    | comma | word | quoted | number =>
      exact (returns_advance (by simp [ht, hkind])).bind fun _ => ih (drop_advance hahead)
    | openParen | symbol => exact returns_unrecognized

/-- Whatever is read inside a level gives back the depth that it finds. -/
structure Inside.Returns (c : Config) (tokens : List Token) (i : Inside) : Prop where
  expression : ∀ h, Descent.Returns c tokens i.expression h
  group : ∀ h, Descent.Returns c tokens i.group h

variable {i : Inside}

theorem returns_enclosed (hi : i.Returns c tokens) (asField : Bool) (h : Trail) :
    Returns c tokens (enclosed c tokens i asField) h := by
  cases asField with
  | true => exact (hi.group h).bind fun _ => returns_pure _
  | false => exact returns_valueList rfl

theorem returns_parenthesis (hi : i.Returns c tokens) (asField : Bool)
    (ht : (h.token tokens).kind = .openParen) :
    Returns c tokens (parenthesis c tokens i asField) h := by
  refine returns_current_bind ((returns_advance (by simp [ht])).bind fun _ => ?_)
  refine (returns_nested (returns_enclosed hi asField)).bind fun q => returns_current_bind ?_
  split_ifs with hclose
  · exact returns_take (by simp [hclose])
  · exact returns_throw _

theorem returns_primary (hi : i.Returns c tokens) (asField : Bool) :
    Returns c tokens (primary c tokens i asField) h := by
  refine returns_current_bind ?_
  cases ht : (h.token tokens).kind with
  | openParen => exact returns_parenthesis hi asField ht
  | word text =>
    simp only
    cases Operator.lookupBefore text with
    | none => exact returns_take (by simp [ht])
    | some o =>
      refine (returns_advance (by simp [ht])).bind fun _ => returns_nested fun h => ?_
      exact (hi.expression h).bind fun _ => returns_build
  | quoted | number => exact returns_take (by simp [ht])
  | closeParen | comma | symbol | endOfInput => exact returns_unrecognized

theorem returns_values (hi : i.Returns c tokens) (n : Nat) :
    Returns c tokens (values c tokens i n) h := by
  induction n generalizing h with
  | zero => exact returns_pure _
  | succ n ih => exact (returns_primary hi _).bind fun _ => ih.bind fun _ => returns_pure _

theorem returns_operation (hi : i.Returns c tokens) (left : Filter) (text : String) (span : Span) :
    Returns c tokens (operation c tokens i left text span) h := by
  unfold operation
  cases Operator.lookup text with
  | none => exact returns_throw _
  | some o =>
    simp only
    split_ifs
    · exact (returns_nested hi.expression).bind fun _ => returns_build
    · exact (returns_values hi _).bind fun _ => returns_build

theorem returns_continuation (hi : i.Returns c tokens) (left : Filter) :
    Returns c tokens (continuation c tokens i left) h := by
  refine returns_current_bind ?_
  cases ht : (h.token tokens).kind with
  | word text => exact (returns_advance (by simp [ht])).bind fun _ => returns_operation hi _ _ _
  | number | closeParen | endOfInput => exact returns_pure _
  | quoted | openParen | comma | symbol =>
    exact returns_symbolOperator.bind fun _ => returns_operation hi _ _ _

theorem returns_expression (hi : i.Returns c tokens) :
    Returns c tokens (expression c tokens i) h :=
  (returns_primary hi _).bind fun _ => returns_continuation hi _

theorem goes_descend_bind {f : Unit → Descent α} (hf : ∀ h, Goes c tokens (f ()) h) :
    Goes c tokens (descend c >>= f) h := by
  unfold Goes
  rw [descend_bind]
  split_ifs with hdeep
  · exact (Trail.Returns.refl h).toGoes
  · exact (Trail.Goes.deeper hdeep).trans (hf _)

/-- A chain costs levels as it goes on, and what it is made of gives them back; by induction on the
levels that are left. -/
theorem returns_inside_goes_chain (levels : Nat) :
    (inside c tokens levels).Returns c tokens ∧
      ∀ inGroup left h, Goes c tokens (chain c tokens levels inGroup left) h := by
  induction levels with
  | zero =>
    refine ⟨⟨fun h => returns_throw _, fun h => returns_throw _⟩, fun inGroup left h => ?_⟩
    unfold chain
    refine returns_current.goes.bind fun t => ?_
    split_ifs
    · exact (returns_pure _).goes
    · exact goes_descend_bind fun h => (returns_throw _).goes
  | succ levels ih =>
    obtain ⟨hi, hchain⟩ := ih
    refine ⟨⟨fun h => returns_expression hi, fun h => ?_⟩, fun inGroup left h => ?_⟩
    · exact (returns_expression hi).bind fun _ => returns_keepingDepth (hchain _ _ _)
    · unfold chain
      refine returns_current.goes.bind fun t => ?_
      split_ifs
      · exact (returns_pure _).goes
      · refine goes_descend_bind fun h => returns_cursor.goes.bind fun start => ?_
        refine (returns_continuation hi _).goes.bind fun _ => returns_cursor.goes.bind fun v => ?_
        split_ifs
        · exact returns_unrecognized.goes
        · exact hchain _ _ _

theorem returns_whole (levels : Nat) : Returns c tokens (whole c tokens levels) h := by
  obtain ⟨hi, hchain⟩ := returns_inside_goes_chain (c := c) levels
  exact (returns_expression hi).bind fun _ => returns_keepingDepth (hchain _ _ _)

theorem returns_next : Returns c tokens (next c tokens) h := by
  refine returns_current_bind ?_
  split_ifs
  · exact returns_pure _
  · exact returns_cursor.bind fun _ => (returns_whole _).bind fun _ => returns_pure _

end Descent

end FilterLang
