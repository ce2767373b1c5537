/-! A stretch of a text, given by the byte offsets of its two ends in the UTF-8 form, and the line of
carets that marks it. -/

namespace FilterLang

structure Span where
  start : Nat
  stop : Nat
  deriving DecidableEq

/-- How many bytes some characters take. -/
def utf8Length : List Char → Nat
  | [] => 0
  | c :: cs => c.utf8Size + utf8Length cs

theorem utf8Length_append (a b : List Char) :
    utf8Length (a ++ b) = utf8Length a + utf8Length b := by
  induction a with
  | nil => simp [utf8Length]
  | cons c a ih => simp only [List.cons_append, utf8Length, ih, Nat.add_assoc]

theorem utf8Length_reverse (cs : List Char) : utf8Length cs.reverse = utf8Length cs := by
  induction cs with
  | nil => rfl
  | cons c cs ih =>
    simp only [List.reverse_cons, utf8Length_append, ih, utf8Length, Nat.add_zero]
    exact Nat.add_comm _ _

/-- How many characters the first `n` bytes are, if a character ends there. -/
def charsIn? (n : Nat) : List Char → Option Nat
  | [] => if n = 0 then some 0 else none
  | c :: cs =>
    if n = 0 then some 0
    else if n < c.utf8Size then none
    else (charsIn? (n - c.utf8Size) cs).map (· + 1)

theorem charsIn?_zero (cs : List Char) : charsIn? 0 cs = some 0 := by
  cases cs <;> rfl

theorem charsIn?_append (a b : List Char) :
    charsIn? (utf8Length a) (a ++ b) = some a.length := by
  induction a with
  | nil => exact charsIn?_zero b
  | cons c a ih =>
    have hc := c.utf8Size_pos
    simp only [utf8Length, List.cons_append, charsIn?, List.length_cons]
    rw [if_neg (by omega), if_neg (by omega), Nat.add_sub_cancel_left, ih]
    rfl

namespace Span

def text (s : Span) : String := toString s.start ++ ".." ++ toString s.stop

/-- How many characters of a text the span covers, if its ends are ends of characters in order. -/
def width? (s : Span) (cs : List Char) : Option Nat :=
  match charsIn? s.start cs, charsIn? s.stop cs with
  | some first, some last => if s.start ≤ s.stop then some (last - first) else none
  | _, _ => none

/-- Carets that stand under the characters of the span, at least one. -/
def caretLine (s : Span) (text : String) : String :=
  let column := (charsIn? s.start text.toList).getD 0
  let width := (s.width? text.toList).elim 1 (max 1)
  String.ofList (List.replicate column ' ' ++ List.replicate width '^')

end Span

end FilterLang
