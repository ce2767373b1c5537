import FilterLang.Grapheme.Break

/-! Texts cut into extended grapheme clusters, each of which a reader takes for one character. Main
statement: a text is its clusters, one after the other. -/

namespace FilterLang.Grapheme

/-- What the last characters have begun and a character that is none of its marks can go on with. -/
inductive Begun
  | nothing
  /-- One half of a flag. -/
  | flag
  /-- A pictograph with its marks; `joined` if the joiner follows them. -/
  | emoji (joined : Bool)
  /-- A consonant with its marks; `linked` if a linker is among them. -/
  | conjunct (linked : Bool)
  deriving DecidableEq

namespace Begun

def goesOn : Begun → Break → Bool
  | flag, .regionalIndicator => true
  | emoji true, .pictograph => true
  | conjunct true, .consonant => true
  | _, _ => false

def next : Begun → Break → Begun
  | flag, .regionalIndicator => nothing
  | _, .regionalIndicator => flag
  | _, .pictograph => emoji false
  | _, .consonant => conjunct false
  | emoji false, .joiner => emoji true
  | emoji false, .extender | emoji false, .linker | emoji false, .nonJoiner => emoji false
  | conjunct _, .linker => conjunct true
  | conjunct linked, .extender | conjunct linked, .joiner => conjunct linked
  | _, _ => nothing

end Begun

/-- What decides whether a character joins the one before it. -/
structure Context where
  last : Break
  begun : Begun

namespace Context

def start : Context := ⟨.control, .nothing⟩

def next (x : Context) (b : Break) : Context := ⟨b, x.begun.next b⟩

def joins (x : Context) (b : Break) : Bool :=
  if x.last.isControl || b.isControl then x.last = .carriageReturn && b = .lineFeed
  else b.attaches || x.last = .prepended || x.last.withinSyllable b || x.begun.goesOn b

end Context

/-- The characters up to the first border, and the clusters after it. -/
def cut (x : Context) : List Char → List Char × List (List Char)
  | [] => ([], [])
  | c :: cs =>
    let b := Break.ofChar c
    let after := cut (x.next b) cs
    if x.joins b then (c :: after.1, after.2) else ([], (c :: after.1) :: after.2)

def clusters (cs : List Char) : List (List Char) := (cut .start cs).2

theorem cut_append_flatten (x : Context) (cs : List Char) :
    (cut x cs).1 ++ (cut x cs).2.flatten = cs := by
  induction cs generalizing x with
  | nil => rfl
  | cons c cs ih =>
    simp only [cut]
    split <;> simp [ih]

theorem not_joins_start (b : Break) : Context.start.joins b = false := by
  cases b <;> rfl

theorem cut_start_fst (cs : List Char) : (cut .start cs).1 = [] := by
  cases cs with
  | nil => rfl
  | cons c cs => simp [cut, not_joins_start]

/-- A text is its clusters, one after the other. -/
theorem flatten_clusters (cs : List Char) : (clusters cs).flatten = cs := by
  have h := cut_append_flatten .start cs
  rwa [cut_start_fst, List.nil_append] at h

end FilterLang.Grapheme
