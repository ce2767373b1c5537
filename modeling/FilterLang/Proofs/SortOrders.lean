import FilterLang.Proofs.JsonRecords
import FilterLang.SortOrder.Json
import Mathlib.Data.List.Induction
import Mathlib.Data.List.Perm.Subperm

/-! A sort order is what is left of its insertions without repetitions, in memory and through JSON:
`ofKeys_firstOccurrences`. The JSON of an order may be any that the grammar has for its list of
keys, in which keys may repeat: objects and arrays, members in any order, other members among them
and every spelling of a name. Which orders have the same keys does not hang on precedence:
`sameKeys_ofKeys_iff_keys_eq`. -/

namespace FilterLang

namespace SortOrder

theorem eq_of_keys {o o' : SortOrder} (h : o.keys = o'.keys) : o = o' := by
  obtain ⟨keys, nodup⟩ := o
  obtain ⟨keys', nodup'⟩ := o'
  cases h
  rfl

theorem eraseDups_of_nodup {ks : List SortKey} (h : ks.Nodup) : ks.eraseDups = ks := by
  induction ks with
  | nil => rfl
  | cons k ks ih =>
    obtain ⟨hk, hks⟩ := List.nodup_cons.mp h
    have hall : ks.filter (fun j => !j == k) = ks :=
      List.filter_eq_self.mpr fun j hj => by simpa using ne_of_mem_of_not_mem hj hk
    rw [List.eraseDups_cons, hall, ih hks]

theorem eraseDups_concat (ks : List SortKey) (k : SortKey) :
    (ks ++ [k]).eraseDups = if k ∈ ks then ks.eraseDups else ks.eraseDups ++ [k] := by
  rw [List.eraseDups_append]
  split_ifs with h
  · have hnone : [k].removeAll ks = [] := by simp [List.removeAll, h]
    rw [hnone, List.eraseDups_nil, List.append_nil]
  · have hone : [k].removeAll ks = [k] := by simp [List.removeAll, h]
    rw [hone]
    rfl

/-- The keys are the first occurrences among the insertions, in their order. -/
theorem keys_ofKeys (ks : List SortKey) : (ofKeys ks).keys = ks.eraseDups := by
  induction ks using List.reverseRecOn with
  | nil => rfl
  | append_singleton ks k ih =>
    have hadd : ofKeys (ks ++ [k]) = (ofKeys ks).add k := by
      simp only [ofKeys, List.foldl_append, List.foldl_cons, List.foldl_nil]
    rw [hadd, keys_add, ih, eraseDups_concat]
    simp only [List.mem_eraseDups]

theorem ofKeys_keys (o : SortOrder) : ofKeys o.keys = o :=
  eq_of_keys (by rw [keys_ofKeys, eraseDups_of_nodup o.nodup])

theorem keys_prefix (ks js : List SortKey) : (ofKeys ks).keys <+: (ofKeys (ks ++ js)).keys := by
  rw [keys_ofKeys, keys_ofKeys, List.eraseDups_append]
  exact List.prefix_append _ _

end SortOrder

namespace SortKey

/-- What may stand in the object of a key: its two parts, and values of any kind under other
names. -/
inductive Member
  | name (s : String)
  | ascending (b : Bool)
  | other (key : String) (h : key ∉ ["name", "asc"])

namespace Member

def key : Member → String
  | name _ => "name"
  | ascending _ => "asc"
  | other key _ => key

def Text : Member → List Char → List Char → Prop
  | name s => Json.QuotedText s
  | ascending b => Json.BoolText b
  | other _ _ => Json.Spells .value

def name? : Member → Option String
  | name s => some s
  | _ => none

def ascending? : Member → Option Bool
  | ascending b => some b
  | _ => none

def set : Member → Parts → Parts
  | name s, p => { p with name := some s }
  | ascending b, p => { p with ascending := some b }
  | other _ _, p => p

theorem key_eq_name_iff (m : Member) : m.key = "name" ↔ m.name?.isSome = true := by
  cases m with
  | name | ascending => simp [key, name?]
  | other key h => simpa [Member.key, name?] using fun hkey => h (by simp [hkey])

theorem key_eq_asc_iff (m : Member) : m.key = "asc" ↔ m.ascending?.isSome = true := by
  cases m with
  | name | ascending => simp [key, ascending?]
  | other key h => simpa [Member.key, ascending?] using fun hkey => h (by simp [hkey])

end Member

/-- An object that has the name and the direction once each, or an array of both. -/
inductive Text (k : SortKey) : List Char → List Char → Prop
  | object {ms s rest} : ms.filterMap Member.name? = [k.name] →
      ms.filterMap Member.ascending? = [k.ascending] →
      Json.ObjectText Member.key Member.Text ms s rest → Text k s rest
  | array {s rest} : Json.ArrayText Member.Text [.name k.name, .ascending k.ascending] s rest →
      Text k s rest

def record : Json.Record Parts Member where
  fields := [⟨"name", Parts.readName⟩, ⟨"asc", Parts.readAscending⟩]
  key := Member.key
  Text := Member.Text
  set := Member.set
  reads {m field} hfield hkey record := by
    simp only [List.mem_cons, List.not_mem_nil, or_false] at hfield
    cases m with
    | name s =>
      obtain rfl | rfl := hfield
      · refine (Json.reads_readString s).of_read fun hread => ?_
        simp [Parts.readName, hread, Member.set, bind, Except.bind, pure, Except.pure]
      · exact absurd hkey (by simp [Member.key])
    | ascending b =>
      obtain rfl | rfl := hfield
      · exact absurd hkey (by simp [Member.key])
      · refine (Json.reads_readBool b).of_read fun hread => ?_
        simp [Parts.readAscending, hread, Member.set, bind, Except.bind, pure, Except.pure]
    | other key h =>
      have hkey' : field.key = key := hkey
      exact absurd (by obtain rfl | rfl := hfield <;> simp [← hkey']) h
  spells {m} hunknown s rest h := by
    cases m with
    | name | ascending => simp [Member.key] at hunknown
    | other => exact h
  set_eq {m} hunknown record := by
    cases m with
    | name | ascending => simp [Member.key] at hunknown
    | other => rfl

theorem name_setAll (ms : List Member) :
    (record.setAll ms ⟨none, none⟩).name = (ms.filterMap Member.name?).getLast? := by
  have hset (m : Member) (p : Parts) : (m.set p).name = m.name?.or p.name := by cases m <;> rfl
  rw [record.get_setAll hset, Option.or_none]

theorem ascending_setAll (ms : List Member) :
    (record.setAll ms ⟨none, none⟩).ascending = (ms.filterMap Member.ascending?).getLast? := by
  have hset (m : Member) (p : Parts) : (m.set p).ascending = m.ascending?.or p.ascending := by
    cases m <;> rfl
  rw [record.get_setAll hset, Option.or_none]

theorem reads_read (k : SortKey) : Json.Reads SortKey.read k.Text k := by
  refine .of_texts fun htext => ?_
  cases htext with
  | @object ms s rest hname hascending hobject =>
    refine ⟨_, record.reads_object (fun field hfield => ?_) ?_, hobject⟩
    · have hcount (f : String) : (ms.map record.key).count f = (ms.map Member.key).count f := rfl
      simp only [record, List.mem_cons, List.not_mem_nil, or_false] at hfield
      obtain rfl | rfl := hfield
      · rw [hcount, Json.Record.count_map_key Member.key_eq_name_iff, hname]
        exact Nat.le_refl _
      · rw [hcount, Json.Record.count_map_key Member.key_eq_asc_iff, hascending]
        exact Nat.le_refl _
    · simp [Parts.complete, name_setAll, ascending_setAll, hname, hascending]
  | array harray => exact ⟨_, record.reads_array rfl rfl, harray⟩

theorem writes_compact (k : SortKey) : Json.Writes k.toJson.compact k.Text := by
  intro rest
  refine @Text.object k [.name k.name, .ascending k.ascending] _ _ rfl rfl
    (Json.writes_object (.cons ?_ (.cons ?_ .nil)) rest)
  · exact ⟨rfl, Json.writes_quote k.name⟩
  · exact ⟨rfl, Json.writes_boolText k.ascending⟩

end SortKey

namespace SortOrder

inductive Member
  | orders (ks : List SortKey)
  | other (key : String) (h : key ≠ "orders")

namespace Member

def key : Member → String
  | orders _ => "orders"
  | other key _ => key

def Text : Member → List Char → List Char → Prop
  | orders ks => Json.ArrayText SortKey.Text ks
  | other _ _ => Json.Spells .value

def orders? : Member → Option (List SortKey)
  | orders ks => some ks
  | _ => none

def set : Member → Option (List SortKey) → Option (List SortKey)
  | orders ks, _ => some ks
  | other _ _, keys => keys

theorem key_eq_orders_iff (m : Member) : m.key = "orders" ↔ m.orders?.isSome = true := by
  cases m with
  | orders => simp [key, orders?]
  | other key h => simpa [Member.key, orders?] using h

end Member

/-- An object that has the list of keys once, or an array of that list. -/
inductive Text (ks : List SortKey) : List Char → List Char → Prop
  | object {ms s rest} : ms.filterMap Member.orders? = [ks] →
      Json.ObjectText Member.key Member.Text ms s rest → Text ks s rest
  | array {s rest} : Json.ArrayText Member.Text [.orders ks] s rest → Text ks s rest

def record : Json.Record (Option (List SortKey)) Member where
  fields := [⟨"orders", readKeys⟩]
  key := Member.key
  Text := Member.Text
  set := Member.set
  reads {m field} hfield hkey keys := by
    obtain rfl := List.mem_singleton.mp hfield
    cases m with
    | orders ks =>
      refine (Json.reads_readArray SortKey.reads_read ks).of_read fun hread => ?_
      simp [readKeys, hread, Member.set, bind, Except.bind, pure, Except.pure]
    | other key h => exact absurd hkey.symm h
  spells {m} hunknown s rest h := by
    cases m with
    | orders => simp [Member.key] at hunknown
    | other => exact h
  set_eq {m} hunknown keys := by
    cases m with
    | orders => simp [Member.key] at hunknown
    | other => rfl

theorem setAll_eq (ms : List Member) :
    record.setAll ms none = (ms.filterMap Member.orders?).getLast? := by
  have hset (m : Member) (keys : Option (List SortKey)) : m.set keys = m.orders?.or keys := by
    cases m <;> rfl
  exact (@Json.Record.get_setAll _ _ _ record id _ hset ms none).trans Option.or_none

theorem reads_text (ks : List SortKey) : Json.Reads
    (Json.readRecord [⟨"orders", readKeys⟩] none fun keys => keys.map ofKeys) (Text ks)
    (ofKeys ks) := by
  refine .of_texts fun htext => ?_
  cases htext with
  | @object ms s rest horders hobject =>
    refine ⟨_, record.reads_object (fun field hfield => ?_) ?_, hobject⟩
    · obtain rfl := List.mem_singleton.mp hfield
      have hcount := Json.Record.count_map_key Member.key_eq_orders_iff ms
      rw [horders] at hcount
      exact hcount.le
    · simp [setAll_eq, horders]
  | array harray => exact ⟨_, record.reads_array rfl rfl, harray⟩

/-- Any JSON of a list of keys is read as the order that they make. -/
theorem ofJson_eq_ofKeys {ks : List SortKey} {text : String} (h : Json.IsText (Text ks) text) :
    ofJson text = .ok (ofKeys ks) := by
  rw [ofJson]
  exact (reads_text ks).readText h

theorem isText_compact (o : SortOrder) : Json.IsText (Text o.keys) o.toJson.compact := by
  have hkeys : Json.Writes (Json.array (o.keys.map SortKey.toJson)).compact
      (Json.ArrayText SortKey.Text o.keys) :=
    Json.writes_array (List.forall₂_map_left_iff.mpr
      (List.forall₂_same.mpr fun k _ => k.writes_compact))
  have hobject : Json.Writes o.toJson.compact
      (Json.ObjectText Member.key Member.Text [.orders o.keys]) :=
    Json.writes_object (.cons ⟨rfl, hkeys⟩ .nil)
  exact Json.Writes.isText fun rest => .object rfl (hobject rest)

/-- Insertions make the order of their first occurrences, whose size and snapshots agree with that.
Any JSON of their list is read as that order, and so is its own text. -/
theorem ofKeys_firstOccurrences (ks : List SortKey) :
    (ofKeys ks).keys = ks.eraseDups ∧ (ofKeys ks).size = ks.eraseDups.length ∧
      (ofKeys ks).isEmpty = ks.eraseDups.isEmpty ∧
      (∀ js, (ofKeys ks).keys <+: (ofKeys (ks ++ js)).keys) ∧
      (∀ text, Json.IsText (Text ks) text → ofJson text = .ok (ofKeys ks)) ∧
      ofJson (ofKeys ks).toJson.compact = .ok (ofKeys ks) := by
  refine ⟨keys_ofKeys ks, ?_, ?_, keys_prefix ks, fun text => ofJson_eq_ofKeys, ?_⟩
  · rw [size, keys_ofKeys]
  · rw [isEmpty, keys_ofKeys]
  · rw [ofJson_eq_ofKeys (isText_compact _), ofKeys_keys]

open Json in
/-- The same key as an object, with an escape in its name and the direction first, and as an array
with a blank. -/
theorem ofKeys_firstOccurrences_spelled :
    let k : SortKey := ⟨"a", true⟩
    let asObject := "\x7b\"asc\":true,\"name\":\"\\u0061\"\x7d"
    let asArray := "[ \"a\",true]"
    let text := "\x7b\"orders\":[" ++ asObject ++ "," ++ asArray ++ "]\x7d"
    IsText (Text [k, k]) text ∧ ofJson text = .ok (ofKeys [k, k]) ∧ (ofKeys [k, k]).keys = [k] := by
  intro k asObject asArray text
  have hescaped (rest : List Char) :
      QuotedText "a" ('"' :: '\\' :: 'u' :: '0' :: '0' :: '6' :: '1' :: '"' :: rest) rest :=
    .mk (.cons (.unit (.mk (hexDigit_digitChar (by decide)) (hexDigit_digitChar (by decide))
      (hexDigit_digitChar (by decide)) (hexDigit_digitChar (by decide)))) .close)
  have hobject : Writes asObject k.Text := by
    intro rest
    simp only [asObject, String.reduceToList, List.cons_append, List.nil_append]
    exact @SortKey.Text.object _ [.ascending true, .name "a"] _ _ rfl rfl (.mk (.items (.cons
      (.mk .refl (charsText_escape ['a', 's', 'c'] _) .refl (.of_text .truth))
      (.last (.mk .refl (charsText_escape ['n', 'a', 'm', 'e'] _) .refl
        (.of_text (hescaped _)))))))
  have harray : Writes asArray k.Text := by
    intro rest
    simp only [asArray, String.reduceToList, List.cons_append, List.nil_append]
    have hname (rest : List Char) : QuotedText "a" ('"' :: 'a' :: '"' :: rest) rest :=
      .mk (charsText_escape ['a'] rest)
    exact .array (.mk (.items (.cons (.mk (.cons rfl .refl) (hname _) .refl)
      (.last (.of_text .truth)))))
  have htext : IsText (Text [k, k]) text := by
    refine Writes.isText fun rest => ?_
    simp only [text, String.toList_append, String.reduceToList, List.append_assoc, List.cons_append,
      List.nil_append]
    have hkeys : ArrayText SortKey.Text [k, k] _ ('}' :: rest) := .mk (.items
      (.cons (.of_text (hobject _)) (.last (.of_text (harray _)))))
    have horders (rest : List Char) : StringText "orders"
        ('o' :: 'r' :: 'd' :: 'e' :: 'r' :: 's' :: '"' :: rest) rest :=
      charsText_escape ['o', 'r', 'd', 'e', 'r', 's'] rest
    exact @Text.object _ [.orders [k, k]] _ _ rfl (.mk (.items (.last
      (.mk .refl (horders _) .refl (.of_text hkeys)))))
  obtain ⟨hkeys, -, -, -, hread, -⟩ := ofKeys_firstOccurrences [k, k]
  exact ⟨htext, hread text htext, hkeys.trans (by decide)⟩

theorem keys_ofKeys_of_nodup {ks : List SortKey} (h : ks.Nodup) : (ofKeys ks).keys = ks := by
  rw [keys_ofKeys, eraseDups_of_nodup h]

/-- No key stands in an order twice, so two orders have the same keys just if one list is a
permutation of the other. -/
theorem sameKeys_iff_perm (a b : SortOrder) : a.sameKeys b = true ↔ a.keys.Perm b.keys := by
  have hall : (a.keys.all fun k => b.keys.contains k) = true ↔ a.keys ⊆ b.keys := by
    simp [List.subset_def]
  simp only [sameKeys, size, Bool.and_eq_true, beq_iff_eq, hall]
  constructor
  · rintro ⟨hsize, hsub⟩
    exact (List.subperm_of_subset a.nodup hsub).perm_of_length_le hsize.ge
  · intro h
    exact ⟨h.length_eq, h.subset⟩

theorem sameKeys_ofKeys_iff (ks js : List SortKey) :
    (ofKeys ks).sameKeys (ofKeys js) = true ↔ ∀ k, k ∈ ks ↔ k ∈ js := by
  rw [sameKeys_iff_perm, List.perm_ext_iff_of_nodup (ofKeys ks).nodup (ofKeys js).nodup]
  simp only [keys_ofKeys, List.mem_eraseDups]

/-- The first two keys of an order can change places. -/
theorem exists_sameKeys_of_one_lt_size {a : SortOrder} (h : 1 < a.size) :
    ∃ js, a.sameKeys (ofKeys js) = true ∧ a.keys ≠ (ofKeys js).keys := by
  obtain ⟨k, j, ks, hkeys⟩ : ∃ k j ks, a.keys = k :: j :: ks := by
    unfold size at h
    match a.keys, h with
    | k :: j :: ks, _ => exact ⟨k, j, ks, rfl⟩
  have hswap : (k :: j :: ks).Perm (j :: k :: ks) := .swap j k ks
  have hnodup : (k :: j :: ks).Nodup := hkeys ▸ a.nodup
  have hne : k ≠ j := fun heq => (List.nodup_cons.mp hnodup).1 (by simp [heq])
  have hkeys' := keys_ofKeys_of_nodup (hswap.nodup hnodup)
  refine ⟨j :: k :: ks, ?_, ?_⟩
  · rw [sameKeys_iff_perm, hkeys, hkeys']
    exact hswap
  · rw [hkeys, hkeys']
    exact fun heq => hne (List.cons.inj heq).1

theorem sameKeys_iff_keys_eq_of_size_le_one {a : SortOrder} (h : a.size ≤ 1) (b : SortOrder) :
    a.sameKeys b = true ↔ a.keys = b.keys := by
  rw [sameKeys_iff_perm]
  unfold size at h
  match a.keys, h with
  | [], _ => exact List.nil_perm.trans eq_comm
  | [k], _ => exact List.singleton_perm

/-- Two orders have the same keys just if the same keys were inserted, in whatever sequence. That
tells the precedence of an order too just if it has at most one key. -/
theorem sameKeys_ofKeys_iff_keys_eq (ks : List SortKey) :
    (∀ js, (ofKeys ks).sameKeys (ofKeys js) = true ↔ ∀ k, k ∈ ks ↔ k ∈ js) ∧
      ((∀ js, (ofKeys ks).sameKeys (ofKeys js) = true ↔ (ofKeys ks).keys = (ofKeys js).keys) ↔
        (ofKeys ks).size ≤ 1) := by
  refine ⟨sameKeys_ofKeys_iff ks, fun h => ?_, fun hsize js => ?_⟩
  · by_contra hsize
    obtain ⟨js, hsame, hne⟩ := exists_sameKeys_of_one_lt_size (Nat.not_le.mp hsize)
    exact hne ((h js).mp hsame)
  · exact sameKeys_iff_keys_eq_of_size_le_one hsize (ofKeys js)

theorem sameKeys_ofKeys_swapped :
    let a := ofKeys [⟨"a", true⟩, ⟨"b", true⟩]
    let b := ofKeys [⟨"b", true⟩, ⟨"a", true⟩]
    a.sameKeys b = true ∧ a.keys ≠ b.keys := by decide

end SortOrder

end FilterLang
