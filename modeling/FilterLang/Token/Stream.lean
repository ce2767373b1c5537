import FilterLang.Token.Scanner

/-! The tokens of a text on demand: each is read when it is asked for. A stream that has told the
end, or a quote that is never closed, is closed and gives nothing any more. -/

namespace FilterLang

structure TokenStream where
  ahead : List Char
  /-- How many bytes have been read. -/
  position : Nat
  closed : Bool
  deriving DecidableEq

namespace TokenStream

def ofText (text : String) : TokenStream := ⟨text.toList, 0, false⟩

/-- Reads characters as long as they are of a kind. -/
def passWhile (p : Char → Bool) (s : TokenStream) : TokenStream :=
  ⟨s.ahead.dropWhile p, s.position + utf8Length (s.ahead.takeWhile p), s.closed⟩

/-- Reads the rest of a word, whose first character `c` stands at byte `first`. -/
def readWord (s : TokenStream) (first : Nat) (c : Char) : Delivery × TokenStream :=
  let text := String.ofList (c :: s.ahead.takeWhile isWordChar)
  let s := s.passWhile isWordChar
  (.token ⟨.ofWord text, first, s.position⟩, s)

/-- Reads a quoted text up to its delimiter; the one that opens it stands at byte `first`. -/
def readQuoted (s : TokenStream) (first : Nat) (delimiter : Char) : Delivery × TokenStream :=
  let text := String.ofList (s.ahead.takeWhile (· != delimiter))
  let s := s.passWhile (· != delimiter)
  match s.ahead with
  | [] => (.openQuote ⟨delimiter, first, s.position⟩, { s with closed := true })
  | d :: ahead =>
    let s : TokenStream := ⟨ahead, s.position + d.utf8Size, s.closed⟩
    (.token ⟨.quoted delimiter text, first, s.position⟩, s)

def next (s : TokenStream) : Delivery × TokenStream :=
  if s.closed then (.nothing, s)
  else
    let s := s.passWhile isBlank
    match s.ahead with
    | [] => (.nothing, { s with closed := true })
    | c :: ahead =>
      let first := s.position
      let s : TokenStream := ⟨ahead, first + c.utf8Size, s.closed⟩
      if isQuote c then s.readQuoted first c
      else if isWordChar c then s.readWord first c
      else (.token ⟨.ofSingle c, first, s.position⟩, s)

/-- What the request number `n` gives, counted from zero. -/
def delivery (s : TokenStream) : Nat → Delivery
  | 0 => s.next.1
  | n + 1 => s.next.2.delivery n

/-- The stream gives these in order, and nothing from then on. -/
def Yields (s : TokenStream) (ds : List Delivery) : Prop :=
  ∀ n, s.delivery n = ds.getD n .nothing

theorem next_of_closed {s : TokenStream} (h : s.closed = true) : s.next = (.nothing, s) := by
  simp [next, h]

theorem yields_nil_of_closed {s : TokenStream} (h : s.closed = true) : s.Yields [] := by
  intro n
  induction n with
  | zero => simp [delivery, next_of_closed h]
  | succ n ih => rw [delivery, next_of_closed h, ih]; rfl

theorem Yields.of_next_nothing {s s' : TokenStream} (hnext : s.next = (.nothing, s'))
    (h : s'.closed = true) : s.Yields [] := by
  intro n
  cases n with
  | zero => rw [delivery, hnext]; rfl
  | succ n => rw [delivery, hnext, yields_nil_of_closed h n]; rfl

theorem Yields.cons {s s' : TokenStream} {d : Delivery} {ds : List Delivery}
    (hnext : s.next = (d, s')) (h : s'.Yields ds) : s.Yields (d :: ds) := by
  intro n
  cases n with
  | zero => rw [delivery, hnext, List.getD_cons_zero]
  | succ n => rw [delivery, hnext, List.getD_cons_succ, h n]

theorem Yields.of_next_eq {s s' : TokenStream} {ds : List Delivery} (hnext : s.next = s'.next)
    (h : s'.Yields ds) : s.Yields ds := by
  intro n
  rw [← h n]
  cases n with
  | zero => rw [delivery, delivery, hnext]
  | succ n => rw [delivery, delivery, hnext]

end TokenStream

end FilterLang
