import FilterLang.Grapheme
import FilterLang.Span

/-! Lines as they are typed: a backspace takes back the grapheme cluster before it. -/

namespace FilterLang

structure TypedLine where
  /-- The characters that stand, the last one first. -/
  text : List Char := []
  /-- How many bytes each backspace to come takes back. -/
  sizes : List Nat := []

namespace TypedLine

/-- The size of a cluster is kept in one byte, so of a longer one only a part is taken back. -/
def add (line : TypedLine) (cluster : List Char) : TypedLine :=
  ⟨cluster.reverse ++ line.text, utf8Length cluster % 256 :: line.sizes⟩

/-- A backspace, which fails if the bytes to take back begin inside a character. -/
def takeBack? (line : TypedLine) : Option TypedLine :=
  match line.sizes with
  | [] => some line
  | size :: sizes => (charsIn? size line.text).map fun n => ⟨line.text.drop n, sizes⟩

def step? (line : TypedLine) (cluster : List Char) : Option TypedLine :=
  if cluster = ['\x08'] then line.takeBack? else some (line.add cluster)

def read? (cs : List Char) : Option (List Char) :=
  ((Grapheme.clusters cs).foldlM step? {}).map (·.text.reverse)

/-- A backspace undoes the cluster before it, but for one that is too long. -/
theorem takeBack?_add (line : TypedLine) {cluster : List Char} (h : utf8Length cluster < 256) :
    (line.add cluster).takeBack? = some line := by
  have hsize : charsIn? (utf8Length cluster) (cluster.reverse ++ line.text) =
      some cluster.length := by
    rw [← utf8Length_reverse, charsIn?_append, List.length_reverse]
  simp [takeBack?, add, Nat.mod_eq_of_lt h, hsize]

theorem foldlM_step? (line : TypedLine) {clusters : List (List Char)}
    (h : ∀ cluster ∈ clusters, cluster ≠ ['\x08']) :
    (clusters.foldlM step? line).map (·.text) = some (clusters.flatten.reverse ++ line.text) := by
  induction clusters generalizing line with
  | nil => rfl
  | cons cluster rest ih =>
    have hstep : step? line cluster = some (line.add cluster) := if_neg (h cluster (by simp))
    have hrest := ih (line.add cluster) fun g hg => h g (List.mem_cons_of_mem _ hg)
    simp only [List.foldlM_cons, hstep, Option.bind_eq_bind, Option.bind_some, hrest]
    simp [add]

theorem read?_eq_some {cs : List Char} (h : '\x08' ∉ cs) : read? cs = some cs := by
  have hclusters : ∀ cluster ∈ Grapheme.clusters cs, cluster ≠ ['\x08'] := by
    rintro _ hmem rfl
    apply h
    rw [← Grapheme.flatten_clusters cs]
    exact List.mem_flatten_of_mem hmem (by simp)
  have hfold := foldlM_step? {} hclusters
  rw [Grapheme.flatten_clusters, List.append_nil] at hfold
  simpa [read?] using congrArg (Option.map List.reverse) hfold

end TypedLine

end FilterLang
