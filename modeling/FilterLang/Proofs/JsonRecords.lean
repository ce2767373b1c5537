import FilterLang.Proofs.JsonSkipping

/-! A record is read from an object with its members in any order, and other members among them, as
long as none of its fields comes twice: `Record.reads_object`. It is read from an array of its fields
too, in their order: `Record.reads_array`. -/

namespace FilterLang

namespace Json

/-- A record that is read field by field: the members that an object may have for it, each with its
key and the texts of its value, and what each makes of the record. A member that is no field of the
record makes nothing of it. -/
structure Record (σ μ : Type) where
  fields : List (Field σ)
  key : μ → String
  Text : μ → List Char → List Char → Prop
  set : μ → σ → σ
  reads {m : μ} {field : Field σ} : field ∈ fields → field.key = key m →
    ∀ record, Reads (field.read record) (Text m) (set m record)
  spells {m : μ} : (∀ field ∈ fields, field.key ≠ key m) →
    ∀ {s rest}, Text m s rest → Spells .value s rest
  set_eq {m : μ} : (∀ field ∈ fields, field.key ≠ key m) → ∀ record, set m record = record

namespace Record

variable {σ μ α : Type} {s v rest : List Char}

/-- The record after all the members. -/
def setAll (R : Record σ μ) (ms : List μ) (record : σ) : σ :=
  ms.foldl (fun record m => R.set m record) record

theorem setAll_cons (R : Record σ μ) (m : μ) (ms : List μ) (record : σ) :
    R.setAll (m :: ms) record = R.setAll ms (R.set m record) := rfl

theorem nextKey_close (first : Bool) (h : Blanks s ('}' :: rest)) :
    nextKey first s = .ok (false, rest) := by
  simp [nextKey, h.skipBlanks_cons rfl]

theorem nextKey_key {first : Bool} {k : List Char} (hs : Next first s v)
    (hv : Blanks v ('"' :: k)) : nextKey first s = .ok (true, k) := by
  cases first with
  | true =>
    obtain rfl : s = v := hs
    simp [nextKey, hv.skipBlanks_cons rfl, Blanks.refl.readMark, isBlank, bind, Except.bind, pure,
      Except.pure]
  | false =>
    have hs' : skipBlanks s = ',' :: v := Blanks.skipBlanks_cons hs rfl
    simp [nextKey, hs', hv.readMark rfl, bind, Except.bind, pure, Except.pure]

theorem goesOn_closeMembers (fields : List (Field σ)) (first : Bool) (seen : List String)
    (record : σ) (h : Blanks s ('}' :: rest)) :
    GoesOn (readMembersIn fields · first seen record s) ('}' :: rest)
      (fun _ => .ok (record, rest)) rest := by
  refine .round (fun rounds => ?_) (Nat.lt_succ_self _)
  simp [readMembersIn, nextKey_close first h, bind, Except.bind, pure, Except.pure]

theorem length_lt (R : Record σ μ) (record : σ) {m : μ} (h : R.Text m s rest) :
    rest.length < s.length := by
  by_cases hknown : ∃ field ∈ R.fields, field.key = R.key m
  · obtain ⟨field, hfield, hkey⟩ := hknown
    exact (R.reads hfield hkey record).length_lt h
  · exact (R.spells (by simpa using hknown) h).length_lt

theorem length_lt_of_member (R : Record σ μ) (record : σ) {m : μ}
    (h : MemberText (R.key m) (R.Text m) v rest) : rest.length < v.length := by
  obtain ⟨hv, hkey, hcolon, hvalue⟩ := h
  have := hv.length_le
  have := CharsText.length_lt hkey
  have := hcolon.length_le
  have := hvalue.length_lt (R.length_lt record)
  simp only [List.length_cons] at *
  omega

/-- A member is read into the record, or skipped if the record has no field for it. -/
theorem goesOn_member (R : Record σ μ) {m : μ} {first : Bool} {seen : List String}
    (hs : Next first s v) (hm : MemberText (R.key m) (R.Text m) v rest) (hrest : Ends rest)
    (hseen : ∀ field ∈ R.fields, field.key = R.key m → R.key m ∉ seen) (record : σ) :
    ∃ k seen', Blanks k rest ∧
      (∀ field ∈ R.fields, seen'.count field.key ≤ (R.key m :: seen).count field.key) ∧
      GoesOn (readMembersIn R.fields · first seen record s) v
        (readMembersIn R.fields · false seen' (R.set m record) k) rest := by
  have hlength := R.length_lt_of_member record hm
  obtain ⟨hv, hkey, hcolon, hvalue⟩ := hm
  obtain ⟨hblank, htext, hk⟩ := hvalue
  have hnext := nextKey_key hs hv
  have hquoted := StringText.readQuoted hkey
  have hmark := hcolon.readMark rfl
  cases hfind : R.fields.find? (·.key == R.key m) with
  | none =>
    have hunknown : ∀ field ∈ R.fields, field.key ≠ R.key m := by
      simpa using List.find?_eq_none.mp hfind
    have hskip := Spells.skipValue hblank (R.spells hunknown htext) (hk.ends hrest)
    refine ⟨_, seen, hk, fun _ _ => List.count_le_count_cons, .round (fun rounds => ?_) hlength⟩
    simp [readMembersIn, hnext, hquoted, hfind, hmark, hskip, R.set_eq hunknown, bind, Except.bind]
  | some field =>
    have hmem := List.mem_of_find?_eq_some hfind
    have hfield : field.key = R.key m := by simpa using List.find?_some hfind
    have hread := (R.reads hmem hfield record).read_eq hblank htext (hk.ends hrest)
    refine ⟨_, R.key m :: seen, hk, fun _ _ => Nat.le_refl _, .round (fun rounds => ?_) hlength⟩
    simp [readMembersIn, hnext, hquoted, hfind, hmark, hread, hseen field hmem hfield, bind,
      Except.bind]

/-- No field comes in the members twice, or again after it has been seen. -/
def Once (R : Record σ μ) (ms : List μ) (seen : List String) : Prop :=
  ∀ field ∈ R.fields, (ms.map R.key).count field.key + seen.count field.key ≤ 1

theorem Once.not_mem {R : Record σ μ} {m : μ} {ms : List μ} {seen : List String}
    (h : R.Once (m :: ms) seen) :
    ∀ field ∈ R.fields, field.key = R.key m → R.key m ∉ seen := by
  intro field hfield hkey hmem
  have hcount := h field hfield
  have hpos := List.count_pos_iff.mpr hmem
  rw [List.map_cons, hkey, List.count_cons_self] at hcount
  omega

theorem Once.tail {R : Record σ μ} {m : μ} {ms : List μ} {seen seen' : List String}
    (h : R.Once (m :: ms) seen)
    (hseen : ∀ field ∈ R.fields, seen'.count field.key ≤ (R.key m :: seen).count field.key) :
    R.Once ms seen' := by
  intro field hfield
  have := h field hfield
  have := hseen field hfield
  simp only [List.map_cons, List.count_cons] at *
  omega

theorem goesOn_members (R : Record σ μ) {ms : List μ} {first : Bool} {seen : List String}
    (h : Separated '}' (fun m => MemberText (R.key m) (R.Text m)) ms v rest) (hs : Next first s v)
    (honce : R.Once ms seen) (record : σ) :
    GoesOn (readMembersIn R.fields · first seen record s) v
      (fun _ => .ok (R.setAll ms record, rest)) rest := by
  induction h generalizing s first seen record with
  | last hm =>
    obtain ⟨k, seen', hk, -, hmember⟩ := R.goesOn_member hs hm (ends_cons (by decide) _)
      honce.not_mem record
    exact hmember.trans (goesOn_closeMembers _ _ _ _ hk)
  | cons hm _ ih =>
    obtain ⟨k, seen', hk, hseen', hmember⟩ := R.goesOn_member hs hm (ends_cons (by decide) _)
      honce.not_mem record
    exact hmember.tail.trans (ih hk.next (honce.tail hseen') _)

theorem readMembersIn_enclosed (R : Record σ μ) {ms : List μ}
    (h : Enclosed '}' (fun m => MemberText (R.key m) (R.Text m)) ms s rest)
    (honce : ∀ field ∈ R.fields, (ms.map R.key).count field.key ≤ 1) (record : σ) :
    readMembersIn R.fields (s.length + 1) true [] record s = .ok (R.setAll ms record, rest) := by
  cases h with
  | empty hclose =>
    exact ((GoesOn.same (fun _ => rfl) hclose.length_le).trans
      (goesOn_closeMembers R.fields true [] record hclose)).eq
  | items hmembers =>
    have honce' : R.Once ms [] := honce
    exact (R.goesOn_members hmembers (next_first s) honce' record).eq

/-- Whatever the order of the members, the record is read off the object. -/
theorem reads_object (R : Record σ μ) {blank : σ} {complete : σ → Option α} {ms : List μ} {a : α}
    (honce : ∀ field ∈ R.fields, (ms.map R.key).count field.key ≤ 1)
    (hcomplete : complete (R.setAll ms blank) = some a) :
    Reads (readRecord R.fields blank complete) (ObjectText R.key R.Text ms) a where
  opens h := by
    obtain ⟨_⟩ := h
    exact ⟨'{', _, rfl, rfl, by decide⟩
  length_lt h := by
    obtain ⟨hmembers⟩ := h
    exact Nat.lt_succ_of_lt (hmembers.length_lt fun m _ _ => R.length_lt_of_member blank)
  read_eq {s m rest} hs h _ := by
    obtain ⟨hmembers⟩ := h
    simp [readRecord, hs.skipBlanks_cons rfl, R.readMembersIn_enclosed hmembers honce, hcomplete,
      bind, Except.bind]

theorem readInOrder_field (R : Record σ μ) {m : μ} {field : Field σ} {first : Bool}
    (hs : Next first s v) (hm : Padded (R.Text m) v rest) (hrest : Ends rest)
    (hmem : field ∈ R.fields) (hkey : field.key = R.key m) (fields : List (Field σ)) (record : σ) :
    ∃ k, Blanks k rest ∧ readInOrder (field :: fields) first record s =
      readInOrder fields false (R.set m record) k := by
  obtain ⟨hv, htext, hk⟩ := hm
  have hreads := R.reads hmem hkey record
  have hnext := hs.nextItem hv (hreads.opens htext)
  have hread := hreads.read_eq .refl htext (hk.ends hrest)
  exact ⟨_, hk, by simp [readInOrder, hnext, hread, bind, Except.bind]⟩

theorem readInOrder_items (R : Record σ μ) {ms : List μ} {fields : List (Field σ)} {first : Bool}
    (h : Separated ']' (fun m => Padded (R.Text m)) ms v rest) (hs : Next first s v)
    (hfields : fields ⊆ R.fields) (hkeys : fields.map (·.key) = ms.map R.key) (record : σ) :
    ∃ k, Blanks k (']' :: rest) ∧
      readInOrder fields first record s = .ok (R.setAll ms record, k) := by
  induction h generalizing s fields first record with
  | last hm =>
    obtain ⟨field, fields, rfl, hkey, hnil⟩ := List.map_eq_cons_iff.mp hkeys
    obtain rfl := List.map_eq_nil_iff.mp hnil
    obtain ⟨k, hk, hstep⟩ := R.readInOrder_field hs hm (ends_cons (by decide) _)
      (hfields (List.mem_cons_self)) hkey [] record
    exact ⟨k, hk, hstep⟩
  | cons hm _ ih =>
    obtain ⟨field, fields, rfl, hkey, hkeys⟩ := List.map_eq_cons_iff.mp hkeys
    obtain ⟨k, hk, hstep⟩ := R.readInOrder_field hs hm (ends_cons (by decide) _)
      (hfields (List.mem_cons_self)) hkey fields record
    obtain ⟨k', hk', hitems⟩ := ih hk.next
      (fun field hfield => hfields (List.mem_cons_of_mem _ hfield)) hkeys (R.set _ record)
    exact ⟨k', hk', hstep.trans hitems⟩

/-- The record is read off an array that holds all its fields in order. -/
theorem reads_array (R : Record σ μ) {blank : σ} {complete : σ → Option α} {ms : List μ} {a : α}
    (hkeys : R.fields.map (·.key) = ms.map R.key)
    (hcomplete : complete (R.setAll ms blank) = some a) :
    Reads (readRecord R.fields blank complete) (ArrayText R.Text ms) a where
  opens h := by
    obtain ⟨_⟩ := h
    exact ⟨'[', _, rfl, rfl, by decide⟩
  length_lt h := by
    obtain ⟨hitems⟩ := h
    exact Nat.lt_succ_of_lt
      (hitems.length_lt fun m _ _ hm => hm.length_lt (R.length_lt blank))
  read_eq {s m rest} hs h _ := by
    obtain ⟨hitems⟩ := h
    cases hitems with
    | empty hclose =>
      have hfields : R.fields = [] := List.map_eq_nil_iff.mp hkeys
      have hcomplete' : complete blank = some a := hcomplete
      simp [readRecord, hs.skipBlanks_cons rfl, hfields, readInOrder, hcomplete', endArray,
        hclose.readMark rfl, bind, Except.bind, pure, Except.pure]
    | items hitems =>
      obtain ⟨k, hk, hread⟩ := R.readInOrder_items hitems (next_first _)
        (List.Subset.refl _) hkeys blank
      simp [readRecord, hs.skipBlanks_cons rfl, hread, hcomplete, endArray, hk.readMark rfl, bind,
        Except.bind, pure, Except.pure]

/-- The members with a key are counted by what they hold. -/
theorem count_map_key {β : Type} {key : μ → String} {k : String} {get? : μ → Option β}
    (h : ∀ m, key m = k ↔ (get? m).isSome = true) (ms : List μ) :
    (ms.map key).count k = (ms.filterMap get?).length := by
  induction ms with
  | nil => rfl
  | cons m ms ih =>
    cases hget : get? m with
    | none =>
      have hkey : key m ≠ k := fun hkey => by
        have := (h m).mp hkey
        simp [hget] at this
      rw [List.map_cons, List.count_cons_of_ne hkey, List.filterMap_cons_none hget, ih]
    | some b =>
      have hkey : key m = k := (h m).mpr (by simp [hget])
      rw [List.map_cons, hkey, List.count_cons_self, List.filterMap_cons_some hget,
        List.length_cons, ih]

/-- What is set by members of one kind only is as the last of them says. -/
theorem get_setAll {β : Type} (R : Record σ μ) {get : σ → Option β} {get? : μ → Option β}
    (h : ∀ m record, get (R.set m record) = (get? m).or (get record)) (ms : List μ) (record : σ) :
    get (R.setAll ms record) = (ms.filterMap get?).getLast?.or (get record) := by
  induction ms generalizing record with
  | nil => rfl
  | cons m ms ih =>
    rw [setAll_cons, ih, h]
    cases hget : get? m with
    | none => rw [List.filterMap_cons_none hget, Option.none_or]
    | some b =>
      rw [List.filterMap_cons_some hget, List.getLast?_cons]
      cases (ms.filterMap get?).getLast? <;> rfl

end Record

end Json

end FilterLang
