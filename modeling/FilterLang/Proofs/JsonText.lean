import FilterLang.Filter.Definition
import FilterLang.Filter.Json
import FilterLang.Json.Reader
import Mathlib.Data.List.TakeWhile
import Mathlib.Tactic.SplitIfs

/-! The compact text of a JSON value tells the value, and so that of a filter tells the filter:
`compact_toJson_eq_iff`. A value is followed by some other text, and the two come apart in one way:
a string ends at the quote where reading it ends, and a number where the digits end. -/

namespace FilterLang

namespace Json

theorem hexValue?_digitChar : ∀ n < 16, hexValue? (Nat.digitChar n) = some n := by decide

theorem four_le_utf8Length (a b c d : Char) : 4 ≤ utf8Length [a, b, c, d] := by
  have := a.utf8Size_pos
  have := b.utf8Size_pos
  have := c.utf8Size_pos
  have := d.utf8Size_pos
  simp only [utf8Length]
  omega

/-- Two hexadecimal digits are enough for a control character. -/
theorem readUnicode_digitChars (p : Purpose) {c : Char} (hc : c.toNat < 0x20) (rest : List Char) :
    readUnicode p ('0' :: '0' :: Nat.digitChar (c.toNat / 16) :: Nat.digitChar (c.toNat % 16) ::
      rest) = .ok (c, rest) := by
  have hlong : ¬ utf8Length ['0', '0', Nat.digitChar (c.toNat / 16),
      Nat.digitChar (c.toNat % 16)] < 4 := Nat.not_lt.mpr (four_le_utf8Length _ _ _ _)
  have hzero : hexValue? '0' = some 0 := rfl
  have hvalue : ((0 * 16 + 0) * 16 + c.toNat / 16) * 16 + c.toNat % 16 = c.toNat := by omega
  have hlow : isLowSurrogate c.toNat = false := by
    simp only [isLowSurrogate, Bool.and_eq_false_iff, decide_eq_false_iff_not]
    omega
  have hhigh : isHighSurrogate c.toNat = false := by
    simp only [isHighSurrogate, Bool.and_eq_false_iff, decide_eq_false_iff_not]
    omega
  have hhex : readHex ('0' :: '0' :: Nat.digitChar (c.toNat / 16) ::
      Nat.digitChar (c.toNat % 16) :: rest) = .ok (c.toNat, rest) := by
    simp only [readHex, List.take_succ_cons, List.take_zero, hlong, if_false, hzero,
      hexValue?_digitChar _ (show c.toNat / 16 < 16 by omega),
      hexValue?_digitChar _ (show c.toNat % 16 < 16 by omega), hvalue]
  simp [readUnicode, hhex, hlow, hhigh, bind, Except.bind, pure, Except.pure]

/-- Each round of reading a string takes one character with its escape. -/
theorem readStringIn_escape (p : Purpose) (rounds : Nat) (text : String) (c : Char)
    (rest : List Char) :
    readStringIn p (rounds + 1) text (escape c ++ rest) =
      readStringIn p rounds (text.push c) rest := by
  unfold escape
  split_ifs with hquote hslash hb ht hn hf hr hcontrol
  · subst hquote; rfl
  · subst hslash; rfl
  · subst hb; rfl
  · subst ht; rfl
  · subst hn; rfl
  · subst hf; rfl
  · subst hr; rfl
  · simp only [List.cons_append, List.nil_append, readStringIn, readEscape,
      readUnicode_digitChars p hcontrol, bind, Except.bind]
  · rw [List.singleton_append, readStringIn]
    · rw [if_neg hcontrol]
    · rintro rfl
      exact hquote rfl
    · rintro rfl
      exact hslash rfl

theorem readStringIn_flatMap_escape (p : Purpose) (cs : List Char) {rounds : Nat} (text : String)
    (rest : List Char) (hrounds : cs.length < rounds) :
    readStringIn p rounds text (cs.flatMap escape ++ '"' :: rest) =
      .ok (text ++ String.ofList cs, rest) := by
  induction cs generalizing rounds text with
  | nil =>
    obtain ⟨n, rfl⟩ : ∃ n, rounds = n + 1 := ⟨rounds - 1, by omega⟩
    simp [readStringIn]
  | cons c cs ih =>
    obtain ⟨n, rfl⟩ : ∃ n, rounds = n + 1 := ⟨rounds - 1, by omega⟩
    have hpush : text.push c ++ String.ofList cs = text ++ String.ofList (c :: cs) := by
      apply String.toList_inj.mp
      simp
    rw [List.flatMap_cons, List.append_assoc, readStringIn_escape,
      ih (text.push c) (by simpa using hrounds), hpush]

/-- No number that stands before these characters goes on with them. -/
def EndsNumber (cs : List Char) : Prop := ∀ c ∈ cs.head?, c.isDigit = false

theorem endsNumber_nil : EndsNumber [] := by simp [EndsNumber]

theorem endsNumber_cons {c : Char} {cs : List Char} :
    EndsNumber (c :: cs) ↔ c.isDigit = false := by simp [EndsNumber]

/-- Wherever the text of `x` comes first, it is the text of nothing else, and what follows it is
told too. -/
def Tells {α : Type} (text : α → String) (x : α) : Prop :=
  ∀ (y : α) (r r' : List Char), EndsNumber r → EndsNumber r' →
    (text x).toList ++ r = (text y).toList ++ r' → x = y ∧ r = r'

theorem toList_quote (s : String) :
    (quote s).toList = '"' :: (s.toList.flatMap escape ++ ['"']) := by
  simp [quote]

theorem quote_append_inj {s t : String} {r r' : List Char}
    (h : (quote s).toList ++ r = (quote t).toList ++ r') : s = t ∧ r = r' := by
  have hread (s : String) (r : List Char) (rounds : Nat) (hrounds : s.toList.length < rounds) :
      readStringIn .value rounds "" (s.toList.flatMap escape ++ '"' :: r) = .ok (s, r) := by
    rw [readStringIn_flatMap_escape _ _ _ _ hrounds]
    simp
  have hs := hread s r (s.toList.length + t.toList.length + 1) (by omega)
  have ht := hread t r' (s.toList.length + t.toList.length + 1) (by omega)
  simp only [toList_quote, List.cons_append, List.append_assoc, List.nil_append,
    List.cons.injEq, true_and] at h
  rw [h, ht] at hs
  simpa [eq_comm] using hs

theorem toString_append_inj {n m : Nat} {r r' : List Char} (hr : EndsNumber r)
    (hr' : EndsNumber r') (h : (toString n).toList ++ r = (toString m).toList ++ r') :
    n = m ∧ r = r' := by
  have hdigits (n : Nat) {r : List Char} (hr : EndsNumber r) :
      ((toString n).toList ++ r).takeWhile Char.isDigit = Nat.toDigits 10 n := by
    have hall : ∀ c ∈ Nat.toDigits 10 n, c.isDigit = true :=
      fun c hc => Nat.isDigit_of_mem_toDigits (by decide) (by decide) hc
    have hnone : r.takeWhile Char.isDigit = [] := by
      cases r with
      | nil => rfl
      | cons c r => rw [List.takeWhile_cons_of_neg (by simpa using endsNumber_cons.mp hr)]
    rw [Nat.toString_eq_ofList_toDigits, String.toList_ofList, List.takeWhile_append_of_pos hall,
      hnone, List.append_nil]
  have hnm : Nat.toDigits 10 n = Nat.toDigits 10 m := by rw [← hdigits n hr, h, hdigits m hr']
  have hn : n = m := by
    rw [← Nat.ofDigitChars_ten_toDigits (n := n), hnm, Nat.ofDigitChars_ten_toDigits]
  subst hn
  exact ⟨rfl, List.append_cancel_left h⟩

/-- What follows an item: a comma and the other items, and at last the closing bracket. -/
theorem toList_commaSeparated_cons (t : String) (ts : List String) (close : Char) (r : List Char) :
    (Filter.commaSeparated (t :: ts)).toList ++ close :: r =
      t.toList ++ if ts = [] then close :: r
        else ',' :: ((Filter.commaSeparated ts).toList ++ close :: r) := by
  cases ts <;> simp [Filter.commaSeparated]

theorem commaSeparated_append_inj {α : Type} {text : α → String} {close : Char} {xs ys : List α}
    {r r' : List Char} (htells : ∀ x ∈ xs, Tells text x) (hcomma : close ≠ ',')
    (hdigit : close.isDigit = false) (hfirst : ∀ x s s', (text x).toList ++ s ≠ close :: s')
    (h : (Filter.commaSeparated (xs.map text)).toList ++ close :: r =
      (Filter.commaSeparated (ys.map text)).toList ++ close :: r') : xs = ys ∧ r = r' := by
  have hends (ts : List String) (r : List Char) : EndsNumber (if ts = [] then close :: r
      else ',' :: ((Filter.commaSeparated ts).toList ++ close :: r)) := by
    split_ifs
    · exact endsNumber_cons.mpr hdigit
    · exact endsNumber_cons.mpr (by decide)
  induction xs generalizing ys with
  | nil =>
    cases ys with
    | nil => simpa [Filter.commaSeparated] using h
    | cons y ys =>
      rw [List.map_cons, toList_commaSeparated_cons] at h
      exact absurd h.symm (hfirst y _ _)
  | cons x xs ih =>
    cases ys with
    | nil =>
      rw [List.map_cons, toList_commaSeparated_cons] at h
      exact absurd h (hfirst x _ _)
    | cons y ys =>
      rw [List.map_cons, List.map_cons, toList_commaSeparated_cons,
        toList_commaSeparated_cons] at h
      obtain ⟨rfl, hrest⟩ := htells x (by simp) y _ _ (hends _ _) (hends _ _) h
      simp only [List.map_eq_nil_iff] at hrest
      split_ifs at hrest with hxs hys hys
      · subst hxs hys
        simpa using hrest
      · exact absurd (List.cons.inj hrest).1 hcomma
      · exact absurd (List.cons.inj hrest).1.symm hcomma
      · obtain ⟨rfl, rfl⟩ := ih (fun x hx => htells x (by simp [hx])) (List.cons.inj hrest).2
        exact ⟨rfl, rfl⟩

theorem compactItems_eq (js : List Json) :
    compactItems js = Filter.commaSeparated (js.map compact) := by
  induction js with
  | nil => rfl
  | cons j js ih =>
    cases js with
    | nil => rfl
    | cons j' js => simp only [compactItems, ih, List.map_cons, Filter.commaSeparated]

def memberText (m : String × Json) : String := quote m.1 ++ ":" ++ m.2.compact

theorem compactMembers_eq (ms : List (String × Json)) :
    compactMembers ms = Filter.commaSeparated (ms.map memberText) := by
  induction ms with
  | nil => rfl
  | cons m ms ih =>
    obtain ⟨key, j⟩ := m
    cases ms with
    | nil => rfl
    | cons m' ms => simp only [compactMembers, ih, List.map_cons, Filter.commaSeparated, memberText]

theorem toList_compact_array (items : List Json) (r : List Char) :
    (array items).compact.toList ++ r =
      '[' :: ((Filter.commaSeparated (items.map compact)).toList ++ ']' :: r) := by
  simp [compact, compactItems_eq]

theorem toList_compact_object (members : List (String × Json)) (r : List Char) :
    (object members).compact.toList ++ r =
      '\x7b' :: ((Filter.commaSeparated (members.map memberText)).toList ++ '\x7d' :: r) := by
  simp [compact, compactMembers_eq]

inductive Kind
  | null
  | bool
  | natural
  | string
  | array
  | object

def kind : Json → Kind
  | null => .null
  | bool _ => .bool
  | natural _ => .natural
  | string _ => .string
  | array _ => .array
  | object _ => .object

/-- The kind of value that starts with a character. -/
def Kind.ofFirst? (c : Char) : Option Kind :=
  if c.isDigit then some natural
  else if c = 'n' then some null
  else if c = 't' ∨ c = 'f' then some bool
  else if c = '"' then some string
  else if c = '[' then some array
  else if c = '\x7b' then some object
  else none

theorem exists_first (j : Json) :
    ∃ c cs, j.compact.toList = c :: cs ∧ Kind.ofFirst? c = some j.kind := by
  cases j with
  | null => exact ⟨'n', _, rfl, rfl⟩
  | bool b =>
    cases b with
    | false => exact ⟨'f', _, rfl, rfl⟩
    | true => exact ⟨'t', _, rfl, rfl⟩
  | natural n =>
    obtain ⟨c, cs, hcs⟩ := List.exists_cons_of_ne_nil (Nat.toDigits_ne_nil (n := n) (b := 10))
    have hc : c.isDigit = true :=
      Nat.isDigit_of_mem_toDigits (b := 10) (n := n) (by decide) (by decide) (by simp [hcs])
    refine ⟨c, cs, ?_, if_pos hc⟩
    rw [compact, Nat.toString_eq_ofList_toDigits, String.toList_ofList, hcs]
  | string s => exact ⟨'"', _, toList_quote s, rfl⟩
  | array items =>
    have h := toList_compact_array items []
    rw [List.append_nil] at h
    exact ⟨'[', _, h, rfl⟩
  | object members =>
    have h := toList_compact_object members []
    rw [List.append_nil] at h
    exact ⟨'\x7b', _, h, rfl⟩

theorem kind_eq_of_append {i j : Json} {r r' : List Char}
    (h : i.compact.toList ++ r = j.compact.toList ++ r') : i.kind = j.kind := by
  obtain ⟨c, cs, hi, hc⟩ := exists_first i
  obtain ⟨d, ds, hj, hd⟩ := exists_first j
  rw [hi, hj, List.cons_append, List.cons_append] at h
  obtain ⟨rfl, -⟩ := List.cons.inj h
  exact Option.some.inj (hc.symm.trans hd)

theorem compact_append_ne_bracket (j : Json) (r r' : List Char) :
    j.compact.toList ++ r ≠ ']' :: r' := by
  obtain ⟨c, cs, hj, hc⟩ := exists_first j
  rw [hj, List.cons_append]
  rintro h
  obtain ⟨rfl, -⟩ := List.cons.inj h
  cases hc

theorem tells_memberText {key : String} {j : Json} (h : Tells compact j) :
    Tells memberText (key, j) := by
  rintro ⟨key', j'⟩ r r' hr hr' heq
  simp only [memberText, String.toList_append, List.append_assoc] at heq
  obtain ⟨rfl, hafter⟩ := quote_append_inj heq
  obtain ⟨rfl, rfl⟩ := h j' r r' hr hr' (List.append_cancel_left hafter)
  exact ⟨rfl, rfl⟩

mutual

theorem tells_compact (j : Json) : Tells compact j := by
  intro j' r r' hr hr' h
  have hkind := kind_eq_of_append h
  cases j with
  | null =>
    cases j' with
    | null => exact ⟨rfl, List.append_cancel_left h⟩
    | _ => cases hkind
  | bool b =>
    cases j' with
    | bool b' => cases b <;> cases b' <;> simp_all [compact, boolText]
    | _ => cases hkind
  | natural n =>
    cases j' with
    | natural m =>
      obtain ⟨rfl, rfl⟩ := toString_append_inj hr hr' h
      exact ⟨rfl, rfl⟩
    | _ => cases hkind
  | string s =>
    cases j' with
    | string t =>
      obtain ⟨rfl, rfl⟩ := quote_append_inj h
      exact ⟨rfl, rfl⟩
    | _ => cases hkind
  | array items =>
    have htells := tells_compact_of_mem items
    cases j' with
    | array items' =>
      rw [toList_compact_array, toList_compact_array] at h
      obtain ⟨rfl, rfl⟩ := commaSeparated_append_inj htells (by decide) (by decide)
        compact_append_ne_bracket (List.cons.inj h).2
      exact ⟨rfl, rfl⟩
    | _ => cases hkind
  | object members =>
    have htells := tells_memberText_of_mem members
    cases j' with
    | object members' =>
      rw [toList_compact_object, toList_compact_object] at h
      obtain ⟨rfl, rfl⟩ := commaSeparated_append_inj htells (by decide) (by decide)
        (by simp [memberText, toList_quote]) (List.cons.inj h).2
      exact ⟨rfl, rfl⟩
    | _ => cases hkind

theorem tells_compact_of_mem (js : List Json) : ∀ j ∈ js, Tells compact j := by
  cases js with
  | nil => simp
  | cons j js =>
    have := tells_compact j
    have := tells_compact_of_mem js
    simp_all

theorem tells_memberText_of_mem (ms : List (String × Json)) :
    ∀ m ∈ ms, Tells memberText m := by
  cases ms with
  | nil => simp
  | cons m ms =>
    obtain ⟨key, j⟩ := m
    have : Tells memberText (key, j) := tells_memberText (tells_compact j)
    have := tells_memberText_of_mem ms
    simp_all

end

theorem compact_inj {i j : Json} (h : i.compact = j.compact) : i = j :=
  (tells_compact i j [] [] endsNumber_nil endsNumber_nil (by rw [h])).1

end Json

theorem Comparison.code_eq_iff (op op' : Comparison) : op.code = op'.code ↔ op = op' := by
  cases op <;> cases op' <;> simp [code]

theorem Connective.code_eq_iff (op op' : Connective) : op.code = op'.code ↔ op = op' := by
  cases op <;> cases op' <;> simp [code]

namespace Filter

theorem map_valueJson_eq_iff (ss ts : List String) :
    ss.map valueJson = ts.map valueJson ↔ ss = ts :=
  List.map_inj_right (by simp [valueJson])

mutual

theorem toJson_eq_iff (p q : Filter) : p.toJson = q.toJson ↔ p = q := by
  cases p with
  | name s => cases q <;> simp [toJson, tagged]
  | value s => cases q <;> simp [toJson, tagged, valueJson]
  | values ss => cases q <;> simp [toJson, tagged, map_valueJson_eq_iff]
  | group x =>
    have := toJson_eq_iff x
    cases q <;> simp [toJson, tagged, *]
  | negation x =>
    have := toJson_eq_iff x
    cases q <;> simp [toJson, tagged, *]
  | comparison op x y =>
    have := toJson_eq_iff x
    have := toJson_eq_iff y
    cases q <;> simp [toJson, tagged, Comparison.code_eq_iff, *]
  | membership x xs =>
    have := toJson_eq_iff x
    have := toJsons_eq_iff xs
    cases q <;> simp [toJson, tagged, *]
  | connection op x y =>
    have := toJson_eq_iff x
    have := toJson_eq_iff y
    cases q <;> simp [toJson, tagged, Connective.code_eq_iff, *]

theorem toJsons_eq_iff (ps qs : List Filter) : toJsons ps = toJsons qs ↔ ps = qs := by
  cases ps with
  | nil => cases qs <;> simp [toJsons]
  | cons p ps =>
    have := toJson_eq_iff p
    have := toJsons_eq_iff ps
    cases qs <;> simp [toJsons, *]

end

/-- The compact text of a filter loses nothing: only the same filter has it. -/
theorem compact_toJson_eq_iff (p q : Filter) :
    p.toJson.compact = q.toJson.compact ↔ p = q := by
  constructor
  · exact fun h => (toJson_eq_iff p q).mp (Json.compact_inj h)
  · rintro rfl
    rfl

end Filter

end FilterLang
