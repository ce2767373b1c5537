import FilterLang.Proofs.Balance
import FilterLang.Proofs.Reading

/-! How reading by descent is compared with reading with a stack. A stack says what becomes of the
result of a phrase, and so do the calls that are open: a phrase `Follows` a stack if, from the tokens
ahead of the cursor, the stack comes to what it makes of the result of the phrase from the tokens
that are ahead then. Each part of a reading has a rule, so that a phrase is followed by composing
the rules as its definition composes the parts. -/

namespace FilterLang

open ParseState

/-- What is read from the tokens ahead, and the tokens that are left. -/
abbrev Reading := List Token → Except ParseError Filter × List Token

namespace Descent

variable {c : Config} {tokens ahead : List Token} {α β : Type} {h : Trail} {t : Token}
  {s : ParseState}

/-- From the tokens ahead of the cursor `whole` makes what `goal` makes of the result of `m`, from
the tokens that are ahead then; and it fails where `m` fails. -/
def Follows (tokens : List Token) (whole : Reading) (m : Descent α) (goal : α → Reading)
    (h : Trail) : Prop :=
  whole (h.ahead tokens) =
    match m h with
    | (.ok a, h') => goal a (h'.ahead tokens)
    | (.error e, h') => (.error e, h'.ahead tokens)

namespace Follows

variable {whole : Reading} {goal : α → Reading}

theorem pure {a : α} (hwhole : whole (h.ahead tokens) = goal a (h.ahead tokens)) :
    Follows tokens whole (pure a) goal h := hwhole

theorem throw {e : ParseError} (hwhole : whole (h.ahead tokens) = (.error e, h.ahead tokens)) :
    Follows tokens whole (throw e) goal h := hwhole

theorem of_eq {whole' : Reading} {m : Descent α}
    (hwhole : whole (h.ahead tokens) = whole' (h.ahead tokens))
    (hm : Follows tokens whole' m goal h) : Follows tokens whole m goal h := hwhole.trans hm

theorem pure_bind {m : Descent α} {f : α → Descent β} {goal : β → Reading} {a : α}
    (hm : m h = (.ok a, h)) (hf : Follows tokens whole (f a) goal h) :
    Follows tokens whole (m >>= f) goal h := by
  unfold Follows
  rw [bind_apply, hm]
  exact hf

theorem bind {m : Descent α} {f : α → Descent β} {mid : α → Reading} {goal : β → Reading}
    (hm : Follows tokens whole m mid h)
    (hf : ∀ a, (m h).1 = .ok a → Follows tokens (mid a) (f a) goal (m h).2) :
    Follows tokens whole (m >>= f) goal h := by
  unfold Follows at hm ⊢
  rw [hm, bind_apply]
  rcases hmh : m h with ⟨r, h'⟩
  rw [hmh] at hf
  cases r with
  | error e => rfl
  | ok a => exact hf a rfl

theorem current_bind {f : Token → Descent α} (hf : Follows tokens whole (f (h.token tokens)) goal h) :
    Follows tokens whole (current tokens >>= f) goal h := hf

theorem cursor_bind {f : Cursor → Descent α} (hf : Follows tokens whole (f h.now) goal h) :
    Follows tokens whole (cursor >>= f) goal h := hf

theorem rest_bind {f : List Token → Descent α}
    (hf : Follows tokens whole (f (h.ahead tokens)) goal h) :
    Follows tokens whole (rest tokens >>= f) goal h := hf

theorem advance {next : Reading} (hahead : h.ahead tokens = t :: ahead)
    (hwhole : whole (t :: ahead) = next ahead) :
    Follows tokens whole (advance tokens) (fun _ => next) h := by
  unfold Follows
  obtain ⟨hlt, -, hdrop⟩ := Trail.of_ahead_eq_cons hahead
  rw [advance_apply, if_pos hlt, hahead, hwhole]
  exact congrArg next hdrop.symm

theorem take {a : α} (hahead : h.ahead tokens = t :: ahead)
    (hwhole : whole (t :: ahead) = goal a ahead) :
    Follows tokens whole (take tokens a) goal h :=
  bind (advance hahead hwhole) fun _ _ => pure rfl

/-- A level is entered with the same check. -/
theorem nested {taken : Bool} {g : ParseState → Except Fault ParseState} {m : Descent α}
    (hdepth : h.now.depth = s.depth)
    (hm : s.depth < c.maxDepth →
      Follows tokens (resume c (g { s with depth := s.depth + 1 })) m goal
        (h.move { h.now with depth := h.now.depth + 1 })) :
    Follows tokens (resume c (s.descend c taken >>= g)) (nested c m) goal h := by
  unfold Follows
  rw [nested_apply, hdepth, resume_descend]
  by_cases hdeep : c.maxDepth ≤ s.depth
  · rw [if_pos hdeep, if_pos (by exact_mod_cast hdeep)]
  · rw [if_neg hdeep, if_neg (by exact_mod_cast hdeep)]
    have hin := hm (by omega)
    unfold Follows at hin
    rw [hdepth] at hin
    refine hin.trans ?_
    rcases m _ with ⟨r, h'⟩
    cases r <;> rfl

theorem descend {f : Unit → Descent α} (hdepth : h.now.depth < c.maxDepth)
    (hf : Follows tokens whole (f ()) goal (h.move { h.now with depth := h.now.depth + 1 })) :
    Follows tokens whole (Descent.descend c >>= f) goal h := by
  unfold Follows at hf ⊢
  rw [descend_bind, if_neg (by omega)]
  exact hf

theorem keepingDepth {m : Descent α} (hm : Follows tokens whole m goal h) :
    Follows tokens whole (Descent.keepingDepth m) goal h := by
  unfold Follows at hm ⊢
  rw [keepingDepth_apply, hm]
  rcases m h with ⟨r, h'⟩
  cases r <;> rfl

end Follows

theorem run_at_end (ht : (h.token tokens).kind = .endOfInput) :
    run c s (h.ahead tokens) = (s.readEnd c, h.ahead tokens) := by
  rw [Trail.token_eq_headD] at ht
  cases hahead : h.ahead tokens with
  | nil => rfl
  | cons t ahead =>
    rw [hahead] at ht
    exact run_end ht

theorem Follows.unrecognized {goal : α → Reading} (ht : (h.token tokens).kind ≠ .endOfInput)
    (hread : s.read c (h.token tokens) = ParseState.unrecognized (h.token tokens)) :
    Follows tokens (run c s) (unrecognized tokens) goal h := by
  obtain ⟨ahead, hahead⟩ := Trail.ahead_eq_cons ht
  refine .current_bind ?_
  split
  · next hend => exact absurd hend ht
  · refine .throw ?_
    rw [hahead]
    exact run_of_fault ht hread

theorem Follows.unexpectedEnd {goal : α → Reading} (ht : (h.token tokens).kind = .endOfInput)
    (hend : s.readEnd c = .error .unexpectedEnd) :
    Follows tokens (run c s) (Descent.unrecognized tokens) goal h := by
  refine .current_bind ?_
  rw [ht]
  refine .throw ?_
  rw [run_at_end ht, hend]

end Descent

end FilterLang
