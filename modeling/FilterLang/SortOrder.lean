/-! Sort keys in order of precedence, each at most once. The same field may stand there in both
directions. -/

namespace FilterLang

structure SortKey where
  name : String
  ascending : Bool
  deriving DecidableEq

structure SortOrder where
  keys : List SortKey
  nodup : keys.Nodup

namespace SortOrder

def empty : SortOrder := ⟨[], List.nodup_nil⟩

/-- The keys with one more behind them, unless it is there already. -/
def add (o : SortOrder) (k : SortKey) : SortOrder :=
  if h : k ∈ o.keys then o
  else ⟨o.keys ++ [k], by
    rw [List.nodup_append]
    exact ⟨o.nodup, by simp, fun a ha b hb => by simp at hb; exact fun hab => h (hb ▸ hab ▸ ha)⟩⟩

theorem keys_add (o : SortOrder) (k : SortKey) :
    (o.add k).keys = if k ∈ o.keys then o.keys else o.keys ++ [k] := by
  unfold add
  split <;> rfl

def ofKeys (ks : List SortKey) : SortOrder := ks.foldl add empty

def size (o : SortOrder) : Nat := o.keys.length

def isEmpty (o : SortOrder) : Bool := o.keys.isEmpty

/-- Whether two orders hold the same keys, in whatever precedence. -/
def sameKeys (a b : SortOrder) : Bool :=
  a.size == b.size && a.keys.all fun k => b.keys.contains k

end SortOrder

end FilterLang
