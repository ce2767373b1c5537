import FilterLang.Proofs.Rereading

/-! What every node of a tree looks like that a text was read as, whatever numbers are written like:
`nodeForm_of_parse`. Lists stand right of relations only, a relation has one right operand, and the
right operand of a connective is one expression, so its first operand is no expression itself. -/

namespace FilterLang

theorem isWordChar_of_isDigit {c : Char} (h : c.isDigit = true) : isWordChar c = true := by
  simp [isWordChar, Char.isAlphanum, h]

theorem isWordChar_of_mem_toString_nat {n : Nat} {c : Char} (h : c ∈ (toString n).toList) :
    isWordChar c = true := by
  rw [Nat.toString_eq_ofList_toDigits, String.toList_ofList] at h
  exact isWordChar_of_isDigit (Nat.isDigit_of_mem_toDigits (by decide) (by decide) h)

theorem isWordChar_of_mem_toString_int {i : Int} {c : Char} (h : c ∈ (toString i).toList) :
    isWordChar c = true := by
  cases i with
  | ofNat n => exact isWordChar_of_mem_toString_nat h
  | negSucc n =>
    have hneg : (toString (Int.negSucc n)).toList = '-' :: (toString (n + 1)).toList := by
      have hrepr : toString (Int.negSucc n) = "-" ++ toString (n + 1) := rfl
      rw [hrepr, String.toList_append]
      rfl
    rw [hneg] at h
    rcases List.mem_cons.mp h with rfl | h
    · decide
    · exact isWordChar_of_mem_toString_nat h

namespace Decimal

theorem isWordChar_of_mem_digitsAndPoint {d : Decimal} {c : Char}
    (h : c ∈ d.digitsAndPoint.1) : isWordChar c = true := by
  simp only [digitsAndPoint, List.mem_reverse] at h
  have hdigit := (List.dropWhile_sublist _).subset h
  exact isWordChar_of_mem_toString_nat (List.mem_reverse.mp hdigit)

theorem isWordChar_of_mem_zeros {n : Nat} {c : Char} (h : c ∈ List.replicate n '0') :
    isWordChar c = true := by
  rw [List.eq_of_mem_replicate h]
  decide

theorem Layout.isWordChar_of_mem_write {l : Layout} {digits : List Char} {point : Int}
    (hend : ∀ c ∈ l.wholeEnd, isWordChar c = true) (hdigits : ∀ c ∈ digits, isWordChar c = true) :
    ∀ c ∈ l.write digits point, isWordChar c = true := by
  have htake (n : Nat) : ∀ c ∈ digits.take n, isWordChar c = true :=
    fun c hc => hdigits c (List.mem_of_mem_take hc)
  have hdrop (n : Nat) : ∀ c ∈ digits.drop n, isWordChar c = true :=
    fun c hc => hdigits c (List.mem_of_mem_drop hc)
  have hzeros (n : Nat) : ∀ c ∈ List.replicate n '0', isWordChar c = true :=
    fun c hc => isWordChar_of_mem_zeros hc
  have hexponent : ∀ c ∈ (toString (point - 1)).toList, isWordChar c = true :=
    fun c hc => isWordChar_of_mem_toString_int hc
  have hzero : isWordChar '0' = true := by decide
  have hpoint : isWordChar '.' = true := by decide
  have he : isWordChar 'e' = true := by decide
  unfold write
  split
  · split
    · simp only [List.forall_mem_append, List.forall_mem_cons]
      exact ⟨⟨hzero, hpoint, hzeros _⟩, hdigits⟩
    · split
      · simp only [List.forall_mem_append]
        exact ⟨⟨hdigits, hzeros _⟩, hend⟩
      · simp only [List.forall_mem_append, List.forall_mem_cons]
        exact ⟨htake _, hpoint, hdrop _⟩
  · have hfraction : ∀ c ∈ if digits.length ≤ 1 then [] else '.' :: digits.drop 1,
        isWordChar c = true := by
      split
      · simp
      · exact List.forall_mem_cons.mpr ⟨hpoint, hdrop _⟩
    simp only [List.forall_mem_append, List.forall_mem_cons]
    exact ⟨⟨htake _, hfraction⟩, he, hexponent⟩

end Decimal

/-- A number in the canonical layout is written in one word. -/
theorem isWordChar_of_mem_text (x : Binary) :
    ∀ c ∈ (x.text .canonical .double).toList, isWordChar c = true := by
  have hsign (negative : Bool) : ∀ c ∈ (Binary.signText negative).toList, isWordChar c = true := by
    cases negative with
    | false => simp [Binary.signText]
    | true => exact List.all_eq_true.mp (by decide)
  have hend : ∀ c ∈ Decimal.Layout.canonical.wholeEnd, isWordChar c = true :=
    List.all_eq_true.mp (by decide)
  cases x with
  | finite negative significand exponent =>
    simp only [Binary.text, String.toList_append, String.toList_ofList, List.forall_mem_append]
    refine ⟨hsign negative, ?_⟩
    unfold Decimal.Layout.unsigned
    split
    · exact List.forall_mem_cons.mpr ⟨by decide, hend⟩
    · exact Decimal.Layout.isWordChar_of_mem_write hend
        fun c hc => Decimal.isWordChar_of_mem_digitsAndPoint hc
  | infinite negative =>
    simp only [Binary.text, String.toList_append, List.forall_mem_append]
    exact ⟨hsign negative, List.all_eq_true.mp (by decide)⟩
  | nan => exact List.all_eq_true.mp (by decide)

theorem quotable_write {text : String} (h : LexesAsNumber text) (numbers : NumberText)
    (x : Binary) : Quotable (numbers.write text x) := by
  cases numbers with
  | verbatim => exact quotable_of_isWordChar h.isWordChar
  | normalized => exact quotable_of_isWordChar (isWordChar_of_mem_text x)

namespace Filter

def isList : Filter → Bool
  | values _ => true
  | _ => false

/-- Whether the tree may stand right of a relation. -/
def isRightOperand : Filter → Bool
  | value _ | values _ | negation _ => true
  | _ => false

/-- What a node of a tree that was read is made of. A text can be put in quotes, and a right operand
of a connective that has an operator itself starts with an atom, a group or a negation. -/
def NodeForm : Filter → Prop
  | name text | value text => Quotable text
  | values texts => ∀ text ∈ texts, Quotable text
  | group inner => inner.isList = false
  | negation operand => operand.isList = false
  | comparison _ left right => left.isList = false ∧ right.isRightOperand = true
  | membership field among =>
    field.isList = false ∧ ∃ right, among = [right] ∧ right.isRightOperand = true
  | connection _ left right =>
    left.isList = false ∧ right.isList = false ∧ right.isExpression = true

/-- Every node of the tree is made as it should be. -/
def Regular (q : Filter) : Prop := ∀ x, IsNode x q → x.NodeForm

/-- The tree is regular and can stand anywhere but right of a relation. -/
structure Stands (q : Filter) : Prop where
  regular : q.Regular
  isList : q.isList = false

theorem regular_of_operands {q : Filter} (hroot : q.NodeForm) (h : ∀ y ∈ q.operands, y.Regular) :
    q.Regular := by
  intro x hx
  cases hx with
  | root => exact hroot
  | child hx hy => exact h _ hy x hx

theorem Stands.group {q : Filter} (h : q.Stands) : (Filter.group q).Stands :=
  ⟨regular_of_operands h.isList (List.forall_mem_singleton.mpr h.regular), rfl⟩

theorem Stands.negation {q : Filter} (h : q.Stands) : (Filter.negation q).Stands :=
  ⟨regular_of_operands h.isList (List.forall_mem_singleton.mpr h.regular), rfl⟩

theorem Stands.connection {left right : Filter} (op : Connective) (hl : left.Stands)
    (hr : right.Stands) (hexpr : right.isExpression = true) :
    (Filter.connection op left right).Stands := by
  refine ⟨regular_of_operands ⟨hl.isList, hr.isList, hexpr⟩ ?_, rfl⟩
  exact List.forall_mem_cons.mpr ⟨hl.regular, List.forall_mem_singleton.mpr hr.regular⟩

theorem Stands.apply {left right : Filter} (r : Relation) (hl : left.Stands)
    (hr : right.Regular) (hright : right.isRightOperand = true) : (r.apply left right).Stands := by
  have hoperands : ∀ y ∈ [left, right], y.Regular :=
    List.forall_mem_cons.mpr ⟨hl.regular, List.forall_mem_singleton.mpr hr⟩
  cases r with
  | comparison op => exact ⟨regular_of_operands ⟨hl.isList, hright⟩ hoperands, rfl⟩
  | membership => exact ⟨regular_of_operands ⟨hl.isList, right, rfl, hright⟩ hoperands, rfl⟩

theorem regular_name {text : String} (h : Quotable text) : (name text).Regular :=
  regular_of_operands h (by simp [operands])

theorem regular_value {text : String} (h : Quotable text) : (value text).Regular :=
  regular_of_operands h (by simp [operands])

theorem regular_values {texts : List String} (h : ∀ text ∈ texts, Quotable text) :
    (values texts).Regular := regular_of_operands h (by simp [operands])

end Filter

open FilterLang.Filter

variable {numbers : NumberText}

/-- Where a token of a text is a leaf, the leaf can be put in quotes. -/
theorem regular_of_leaf? {make : String → Filter} {k : TokenKind} {q : Filter} (hk : k.Scanned)
    (hmake : ∀ text, Quotable text → (make text).Regular) (h : k.leaf? numbers make = some q) :
    q.Regular := by
  cases k with
  | word text =>
    simp only [TokenKind.leaf?, Option.ite_none_left_eq_some, Option.some.injEq] at h
    exact h.2 ▸ hmake text hk
  | quoted d text =>
    cases h
    exact hmake text hk
  | number text x =>
    cases h
    exact regular_value (quotable_write hk numbers x)
  | openParen | closeParen | comma | symbol | endOfInput => cases h

theorem quotable_element? {k : TokenKind} {text : String} (hk : k.Scanned)
    (h : k.element? numbers = some text) : Quotable text := by
  cases k with
  | word | quoted =>
    cases h
    exact hk
  | number text x =>
    cases h
    exact quotable_write hk numbers x
  | openParen | closeParen | comma | symbol | endOfInput => cases h

/-- What the tree of a phrase is, where the tree before it can stand there. -/
def Phrase.Stands : Phrase → Filter → Prop
  | chain, q => q.Stands
  | tails left, q => left.Stands → q.Stands
  | expression, q => q.Stands ∧ q.isExpression = true
  | primary, q => q.Stands ∧ q.isField = true
  | operand, q => q.Regular ∧ q.isRightOperand = true

theorem isExpression_apply_of_isField (r : Relation) {left : Filter} (right : Filter)
    (h : left.isField = true) : (r.apply left right).isExpression = true := by
  cases r with
  | comparison op => exact h
  | membership => exact h

theorem stands_of_field? {k : TokenKind} {q : Filter} (hk : k.Scanned)
    (h : k.field? numbers = some q) : Phrase.primary.Stands q := by
  have hregular := regular_of_leaf? hk (fun _ => regular_name) h
  rcases TokenKind.eq_of_leaf? h with ⟨text, rfl | rfl⟩
  · exact ⟨⟨hregular, rfl⟩, rfl⟩
  · exact ⟨⟨hregular, rfl⟩, rfl⟩

theorem stands_of_value? {k : TokenKind} {q : Filter} (hk : k.Scanned)
    (h : k.value? numbers = some q) : Phrase.operand.Stands q := by
  have hregular := regular_of_leaf? hk (fun _ => regular_value) h
  rcases TokenKind.eq_of_leaf? h with ⟨text, rfl | rfl⟩
  · exact ⟨hregular, rfl⟩
  · exact ⟨hregular, rfl⟩

/-- The trees of the phrases, by induction on the derivation. A chain that goes on takes any tree
for its left operand, but what an expression starts with is always a primary. -/
theorem Derives.stands {p : Phrase} {n : Nat} {ts rest : List Token} {q : Filter}
    (h : Derives numbers p n ts q rest) (hts : ∀ t ∈ ts, t.kind.Scanned) : p.Stands q := by
  induction h with
  | chain hleft _ ih ih' => exact ih' (scanned_of_suffix hts hleft.suffix) (ih hts).1
  | noTail => exact id
  | connectionTail ho hright _ ih ih' =>
    intro hleft
    have hmid := scanned_of_suffix hts ho.suffix
    obtain ⟨hq, hexpr⟩ := ih hmid
    exact ih' (scanned_of_suffix hmid hright.suffix) (hleft.connection _ hq hexpr)
  | relationTail ho hright _ ih ih' =>
    intro hleft
    have hmid := scanned_of_suffix hts ho.suffix
    obtain ⟨hq, hoperand⟩ := ih hmid
    exact ih' (scanned_of_suffix hmid hright.suffix) (hleft.apply _ hq hoperand)
  | negationTail ho _ ih => exact fun hleft => ih (scanned_of_suffix hts ho.suffix) hleft.negation
  | connection hleft ho _ ih ih' =>
    obtain ⟨hl, hfield⟩ := ih hts
    obtain ⟨hr, hexpr⟩ := ih' (scanned_of_suffix hts (ho.suffix.trans hleft.suffix))
    exact ⟨hl.connection _ hr hexpr, hfield⟩
  | relation hleft ho _ ih ih' =>
    obtain ⟨hl, hfield⟩ := ih hts
    obtain ⟨hr, hoperand⟩ := ih' (scanned_of_suffix hts (ho.suffix.trans hleft.suffix))
    exact ⟨hl.apply _ hr hoperand, isExpression_apply_of_isField _ _ hfield⟩
  | negationAfter _ _ ih => exact ⟨(ih hts).1.negation, rfl⟩
  | alone _ _ ih => exact ⟨(ih hts).1, isExpression_of_isField (ih hts).2⟩
  | group _ _ _ ih => exact ⟨(ih (scanned_of_suffix hts (List.suffix_cons _ _))).group, rfl⟩
  | negation ho _ ih => exact ⟨(ih (scanned_of_suffix hts ho.suffix)).1.negation, rfl⟩
  | field ht => exact stands_of_field? (hts _ (by simp)) ht
  | list _ _ _ =>
    refine ⟨regular_values fun text htext => ?_, rfl⟩
    obtain ⟨e, he, htext⟩ := List.mem_filterMap.mp htext
    exact quotable_element? (hts e (by simp [he])) htext
  | negatedOperand ho _ ih =>
    exact ⟨(ih (scanned_of_suffix hts ho.suffix)).1.negation.regular, rfl⟩
  | value ht => exact stands_of_value? (hts _ (by simp)) ht

/-- A tree that a text is read as is no list, and each of its nodes has one of the forms. -/
theorem nodeForm_of_parse {c : Config} {text : String} {q : Filter}
    (h : Filter.parse c text = .ok (some q)) :
    q.isList = false ∧ ∀ x, IsNode x q → x.NodeForm := by
  obtain ⟨ts, hlex, hq⟩ := parse_eq_ok_some_iff.mp h
  have hstands : q.Stands := hq.stands hlex.scanned
  exact ⟨hstands.isList, hstands.regular⟩

/-- A chain that goes on after a list keeps the whole comparison left; numbers are written anew. -/
theorem nodeForm_of_parse_normalized :
    let c : Config := { numbers := .normalized }
    let q : Filter := .connection .and (.membership (.name "a") [.values ["1.0", "b"]])
      (.connection .or (.name "x") (.negation (.comparison .equal (.name "y") (.value "2.0"))))
    Filter.parse c "a IN (1, b) AND x OR NOT y = 2" = .ok (some q) ∧ q.isList = false ∧
      ∀ x, IsNode x q → x.NodeForm := by
  intro c q
  have hparse : Filter.parse c "a IN (1, b) AND x OR NOT y = 2" = .ok (some q) := by rfl
  exact ⟨hparse, nodeForm_of_parse hparse⟩

end FilterLang
