import FilterLang.Config.Json
import FilterLang.Proofs.JsonRecords
import FilterLang.Proofs.Rounding

/-! A configuration is read from any JSON object that has some of its keys: `ofJson_of_keys`. The
keys may stand in any order and be spelled in any way, with others among them whose values are
passed over; what is missing is as in the default. So a configuration is read from its own text. -/

namespace FilterLang

namespace Json

inductive NaturalText (n : Nat) : List Char → List Char → Prop
  | mk {rest} : NaturalText n (Nat.toDigits 10 n ++ rest) rest

theorem writes_natural (n : Nat) : Writes (toString n) (NaturalText n) := by
  intro rest
  rw [Nat.toString_eq_ofList_toDigits, String.toList_ofList]
  exact .mk

variable {n : Nat} {rest : List Char}

theorem isDigit_of_mem_toDigits : ∀ c ∈ Nat.toDigits 10 n, c.isDigit = true :=
  fun _ hc => Nat.isDigit_of_mem_toDigits (by decide) (by decide) hc

theorem exists_toDigits_cons (n : Nat) :
    ∃ c cs, Nat.toDigits 10 n = c :: cs ∧ c.isDigit = true := by
  obtain ⟨c, cs, hcs⟩ := List.exists_cons_of_ne_nil (Nat.toDigits_ne_nil (n := n) (b := 10))
  exact ⟨c, cs, hcs, isDigit_of_mem_toDigits (n := n) c (hcs ▸ List.mem_cons_self ..)⟩

/-- The digits of a number start with a zero just if it is zero. -/
theorem eq_zero_of_head?_toDigits (h : (Nat.toDigits 10 n).head? = some '0') : n = 0 := by
  induction n using Nat.strongRecOn with
  | ind n ih =>
  rcases Nat.lt_or_ge n 10 with hlt | hge
  · have all : ∀ n < 10, Nat.digitChar n = '0' → n = 0 := by decide
    rw [Nat.toDigits_of_lt_base hlt] at h
    exact all n hlt (Option.some.inj h)
  · rw [Nat.toDigits_of_base_le (by decide) hge,
      List.head?_append_of_ne_nil _ Nat.toDigits_ne_nil] at h
    have := ih (n / 10) (by omega) h
    omega

theorem readWhole_toDigits (p : Purpose) (hrest : EndsNumber rest) :
    readWhole p (Nat.toDigits 10 n ++ rest) = .ok (Nat.toDigits 10 n, rest) := by
  by_cases hzero : n = 0
  · subst hzero
    exact readWhole_zero p hrest
  · rw [readWhole_eq_readDigits]
    · exact readDigits_append p Nat.toDigits_ne_nil isDigit_of_mem_toDigits hrest
    · rw [List.head?_append_of_ne_nil _ Nat.toDigits_ne_nil]
      exact fun hhead => hzero (eq_zero_of_head?_toDigits hhead)

/-- A number of 64 bits is far below what is too large for floating point. -/
theorem isFinite_toBinary_natural (hn : n < 2 ^ 64) :
    ((⟨false, n, 0⟩ : Decimal).toBinary .double).isFinite = true := by
  have hbound : (2 : ℚ) ^ (53 + 11 : ℤ) ≤ Binary.Format.double.bound :=
    Binary.Format.double.zpow_le_bound (e := 11) (by decide)
  rw [Decimal.isFinite_toBinary_iff Binary.Format.proper_double, Decimal.abs_value]
  calc (n : ℚ) * 10 ^ (0 : ℤ) = n := by simp
    _ < 2 ^ 64 := by exact_mod_cast hn
    _ = 2 ^ (53 + 11 : ℤ) := by norm_num
    _ ≤ Binary.Format.double.bound := hbound

theorem readUnsigned_toDigits (hn : n < 2 ^ 64) (hrest : Ends rest) :
    readUnsigned .value false (Nat.toDigits 10 n ++ rest) = .ok (.natural n, rest) := by
  have hvalue : Decimal.digitsValue (Nat.toDigits 10 n) = n := Nat.ofDigitChars_ten_toDigits
  have hbits : ¬ Nat.pow 2 64 ≤ n := Nat.not_le.mpr hn
  simp only [readUnsigned, readWhole_toDigits .value hrest.endsNumber,
    readFraction_none .value hrest.head?_ne_point, readExponent_none .value hrest, bind,
    Except.bind, List.append_nil, hvalue]
  simp [isFinite_toBinary_natural hn, hbits]

theorem reads_readNatural (hn : n < 2 ^ 64) : Reads readNatural (NaturalText n) n where
  opens h := by
    obtain ⟨⟩ := h
    obtain ⟨c, cs, hcs, hc⟩ := exists_toDigits_cons n
    rw [hcs]
    exact opens_of_numeral (.inr hc) _
  length_lt h := by
    obtain ⟨⟩ := h
    have := List.length_pos_iff.mpr (Nat.toDigits_ne_nil (n := n) (b := 10))
    rw [List.length_append]
    omega
  read_eq hs h hrest := by
    obtain ⟨⟩ := h
    have hread := readUnsigned_toDigits hn hrest
    obtain ⟨c, cs, hcs, hc⟩ := exists_toDigits_cons n
    rw [hcs, List.cons_append] at hs hread
    rw [readNatural, hs.skipBlanks_cons (not_first_of_numeral (.inr hc)).1]
    simp [hc, readNumeral_of_isDigit .value hc, hread, bind, Except.bind]

theorem reads_readChoice {α : Type} {named : String → Option α} {name : String} {a : α}
    (h : named name = some a) : Reads (readChoice named) (QuotedText name) a where
  opens := (reads_readString name).opens
  length_lt := (reads_readString name).length_lt
  read_eq hs htext _ := by
    obtain ⟨htext⟩ := htext
    simp [readChoice, hs.skipBlanks_cons rfl, htext.readQuoted, h, bind, Except.bind]

end Json

namespace Config

/-- The parts of a configuration. -/
inductive Key
  | lenient
  | maxDepth
  | numbers
  deriving DecidableEq

namespace Key

def name : Key → String
  | lenient => "lenient"
  | maxDepth => "max_depth"
  | numbers => "numeric_literals"

def read : Key → Config → Json.Reader Config
  | lenient => readLenient
  | maxDepth => readMaxDepth
  | numbers => readNumbers

theorem name_eq_iff (j k : Key) : j.name = k.name ↔ j = k := by
  cases j <;> cases k <;> decide

end Key

theorem mem_fields_iff {field : Json.Field Config} :
    field ∈ fields ↔ ∃ k : Key, field = ⟨k.name, k.read⟩ := by
  constructor
  · intro h
    simp only [fields, List.mem_cons, List.not_mem_nil, or_false] at h
    obtain rfl | rfl | rfl := h
    · exact ⟨.lenient, rfl⟩
    · exact ⟨.maxDepth, rfl⟩
    · exact ⟨.numbers, rfl⟩
  · rintro ⟨k, rfl⟩
    cases k <;> simp [fields, Key.name, Key.read]

/-- The configuration where it has these keys, and elsewhere the default. -/
def part (c : Config) (ks : List Key) : Config where
  lenient := if .lenient ∈ ks then c.lenient else ({} : Config).lenient
  maxDepth := if .maxDepth ∈ ks then c.maxDepth else ({} : Config).maxDepth
  numbers := if .numbers ∈ ks then c.numbers else ({} : Config).numbers

/-- What may stand in the object of a configuration: its parts, and values of any kind under other
names. -/
inductive Member
  | part (k : Key)
  | other (name : String) (h : ∀ k : Key, k.name ≠ name)

namespace Member

def name : Member → String
  | part k => k.name
  | other name _ => name

def key? : Member → Option Key
  | part k => some k
  | other _ _ => none

/-- The text of the value; a part has the value that it has in `c`. -/
def Text (c : Config) : Member → List Char → List Char → Prop
  | part .lenient => Json.BoolText c.lenient
  | part .maxDepth => Json.NaturalText c.maxDepth
  | part .numbers => Json.QuotedText c.numbers.code
  | other _ _ => Json.Spells .value

def set (c : Config) : Member → Config → Config
  | part .lenient, d => { d with lenient := c.lenient }
  | part .maxDepth, d => { d with maxDepth := c.maxDepth }
  | part .numbers, d => { d with numbers := c.numbers }
  | other _ _, d => d

theorem set_part (c : Config) (m : Member) (ks : List Key) :
    m.set c (c.part ks) = c.part (ks ++ m.key?.toList) := by
  cases m with
  | part k => cases k <;> simp [set, Config.part, key?]
  | other => simp [set, key?]

theorem count_map_name (ms : List Member) (k : Key) :
    (ms.map name).count k.name = (ms.filterMap key?).count k := by
  rw [List.count, List.countP_map, List.count, List.countP_filterMap]
  refine List.countP_congr fun m _ => ?_
  cases m with
  | part j => simp [Member.name, key?, j.name_eq_iff]
  | other name h => simpa [Member.name, key?] using (h k).symm

end Member

variable {c : Config}

theorem Key.reads_read (hdepth : c.maxDepth < 2 ^ 64) (k : Key) (d : Config) :
    Json.Reads (k.read d) (Member.Text c (.part k)) (Member.set c (.part k) d) := by
  cases k with
  | lenient =>
    refine (Json.reads_readBool c.lenient).of_read fun hread => ?_
    simp [Key.read, readLenient, hread, Member.set, bind, Except.bind, pure, Except.pure]
  | maxDepth =>
    refine (Json.reads_readNatural hdepth).of_read fun hread => ?_
    simp [Key.read, readMaxDepth, hread, Member.set, bind, Except.bind, pure, Except.pure]
  | numbers =>
    refine (Json.reads_readChoice c.numbers.named_code).of_read fun hread => ?_
    simp [Key.read, readNumbers, hread, Member.set, bind, Except.bind, pure, Except.pure]

def record (hdepth : c.maxDepth < 2 ^ 64) : Json.Record Config Member where
  fields := fields
  key := Member.name
  Text := Member.Text c
  set := Member.set c
  reads {m field} hfield hkey d := by
    obtain ⟨k, rfl⟩ := mem_fields_iff.mp hfield
    cases m with
    | part j =>
      obtain rfl := (k.name_eq_iff j).mp hkey
      exact k.reads_read hdepth d
    | other name h => exact absurd hkey (h k)
  spells {m} hunknown s rest h := by
    cases m with
    | part k => exact absurd rfl (hunknown _ (mem_fields_iff.mpr ⟨k, rfl⟩))
    | other => exact h
  set_eq {m} hunknown d := by
    cases m with
    | part k => exact absurd rfl (hunknown _ (mem_fields_iff.mpr ⟨k, rfl⟩))
    | other => rfl

theorem setAll_part (hdepth : c.maxDepth < 2 ^ 64) (ms : List Member) (ks : List Key) :
    (record hdepth).setAll ms (c.part ks) = c.part (ks ++ ms.filterMap Member.key?) := by
  induction ms generalizing ks with
  | nil => simp [Json.Record.setAll]
  | cons m ms ih =>
    have hset : (record hdepth).set m (c.part ks) = c.part (ks ++ m.key?.toList) := m.set_part c ks
    rw [Json.Record.setAll_cons, hset, ih]
    cases hkey : m.key? <;> simp [hkey]

/-- The parts are read in whatever order they come, and what does not come is as in the default. -/
theorem ofJson_eq_part (hdepth : c.maxDepth < 2 ^ 64) {ms : List Member}
    (honce : (ms.filterMap Member.key?).Nodup) {text : String}
    (htext : Json.IsText (Json.ObjectText Member.name (Member.Text c) ms) text) :
    ofJson text = .ok (c.part (ms.filterMap Member.key?)) := by
  refine ((record hdepth).reads_object (fun field hfield => ?_) ?_).readText htext
  · obtain ⟨k, rfl⟩ := mem_fields_iff.mp hfield
    exact (Member.count_map_name ms k).trans_le (List.nodup_iff_count_le_one.mp honce k)
  · have hall := setAll_part hdepth ms []
    rw [List.nil_append] at hall
    exact congrArg some hall

theorem isText_compact (c : Config) : Json.IsText
    (Json.ObjectText Member.name (Member.Text c) [.part .lenient, .part .maxDepth, .part .numbers])
    c.toJson.compact := by
  refine (Json.writes_object (.cons ?_ (.cons ?_ (.cons ?_ .nil)))).isText
  · exact ⟨rfl, Json.writes_boolText c.lenient⟩
  · exact ⟨rfl, Json.writes_natural c.maxDepth⟩
  · exact ⟨rfl, Json.writes_quote c.numbers.code⟩

/-- A JSON object with some of the parts of a configuration, each once, is read as those parts and the
default for the others, and its own text is read as the configuration. The keys of the object are
texts of characters: one with half a surrogate pair is outside this, as no such key can be read. A
value that is skipped may hold such halves. -/
theorem ofJson_of_keys (c : Config) (hdepth : c.maxDepth < 2 ^ 64) :
    (∀ ms text, (ms.filterMap Member.key?).Nodup →
      Json.IsText (Json.ObjectText Member.name (Member.Text c) ms) text →
      ofJson text = .ok (c.part (ms.filterMap Member.key?))) ∧
    ofJson c.toJson.compact = .ok c :=
  ⟨fun _ _ honce htext => ofJson_eq_part hdepth honce htext,
    ofJson_eq_part hdepth (by decide) c.isText_compact⟩

open Json in
/-- The largest depth, after a list that belongs to nothing, and no word on leniency. -/
theorem ofJson_of_keys_partial :
    let c : Config := ⟨true, 18446744073709551615, .normalized⟩
    let ms : List Member :=
      [.part .numbers, .other "more" (fun k => by cases k <;> decide), .part .maxDepth]
    let text := "\x7b \"numeric_literals\":\"normalized\",\"more\":[\x7b\x7d],\"max_depth\":" ++
      "18446744073709551615\x7d"
    c.maxDepth < 2 ^ 64 ∧ (ms.filterMap Member.key?).Nodup ∧
      IsText (ObjectText Member.name (Member.Text c) ms) text ∧
      ofJson text = .ok ⟨false, 18446744073709551615, .normalized⟩ ∧
      ofJson c.toJson.compact = .ok c := by
  intro c ms text
  have hdepth : c.maxDepth < 2 ^ 64 := by decide
  have honce : (ms.filterMap Member.key?).Nodup := by decide
  have htext : IsText (ObjectText Member.name (Member.Text c) ms) text := by
    refine Writes.isText fun rest => ?_
    simp only [text, String.reduceAppend, String.reduceToList, List.cons_append, List.nil_append]
    have hdigits : Nat.toDigits 10 18446744073709551615 = ['1', '8', '4', '4', '6', '7', '4', '4',
        '0', '7', '3', '7', '0', '9', '5', '5', '1', '6', '1', '5'] := by
      simp [Nat.toDigits_of_base_le, Nat.toDigits_of_lt_base]
    have hmaxDepth := @NaturalText.mk 18446744073709551615
    simp only [hdigits, List.cons_append, List.nil_append] at hmaxDepth
    have hnumbers (rest : List Char) : QuotedText "normalized" ('"' :: 'n' :: 'o' :: 'r' :: 'm' ::
        'a' :: 'l' :: 'i' :: 'z' :: 'e' :: 'd' :: '"' :: rest) rest :=
      .mk (charsText_escape ['n', 'o', 'r', 'm', 'a', 'l', 'i', 'z', 'e', 'd'] rest)
    have hnumbersKey := charsText_escape
      ['n', 'u', 'm', 'e', 'r', 'i', 'c', '_', 'l', 'i', 't', 'e', 'r', 'a', 'l', 's']
    have hmaxDepthKey := charsText_escape ['m', 'a', 'x', '_', 'd', 'e', 'p', 't', 'h']
    exact .mk (.items
      (.cons (.mk (.cons rfl .refl) (hnumbersKey _) .refl (.of_text (hnumbers _)))
      (.cons (.mk .refl (charsText_escape ['m', 'o', 'r', 'e'] _) .refl (.of_text
        (.array (.lastElement (.element .refl (.emptyObject .refl) .refl)))))
      (.last (.mk .refl (hmaxDepthKey _) .refl (.of_text hmaxDepth))))))
  obtain ⟨hparts, hwhole⟩ := ofJson_of_keys c hdepth
  exact ⟨hdepth, honce, htext, hparts ms text honce htext, hwhole⟩

end Config

end FilterLang
