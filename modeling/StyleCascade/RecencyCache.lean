/-!
# A cache with bounded size

A cache keeps the entries that were used last and gives up the one that was not used for the
longest time when it holds too many.  Setting an entry uses it, and so does getting it.

* `RecencyCache` — the entries, from the least to the most recently used one.
* `get`, `set`, `clear` — the operations.

A cache whose size is zero or negative keeps nothing.
-/

namespace StyleCascade

/-- A cache that keeps the most recently used entries. -/
structure RecencyCache (κ α : Type) where
  /-- How many entries it may hold. -/
  maxSize : Int
  /-- The entries, the least recently used one first. -/
  entries : List (κ × α) := []
  deriving Repr, DecidableEq

namespace RecencyCache

variable {κ α : Type} [BEq κ]

/-- The cache without entries. -/
def empty (maxSize : Int) : RecencyCache κ α := { maxSize }

/-- The keys, the least recently used one first. -/
def keys (cache : RecencyCache κ α) : List κ := cache.entries.map Prod.fst

/-- The number of entries. -/
def size (cache : RecencyCache κ α) : Nat := cache.entries.length

/-- The value of a key. -/
def peek? (cache : RecencyCache κ α) (key : κ) : Option α := cache.entries.lookup key

/-- Entries with one set and used last. -/
def use (key : κ) (value : α) (entries : List (κ × α)) : List (κ × α) :=
  entries.filter (·.1 != key) ++ [(key, value)]

/-- The value of a key, and the cache after the entry was used. -/
def get (cache : RecencyCache κ α) (key : κ) : Option α × RecencyCache κ α :=
  match cache.peek? key with
  | some value => (some value, { cache with entries := use key value cache.entries })
  | none => (none, cache)

/-- The cache with the value of a key set; the entries least recently used go where it holds too
many. -/
def set (cache : RecencyCache κ α) (key : κ) (value : α) : RecencyCache κ α :=
  if cache.maxSize ≤ 0 then cache
  else
    let entries := use key value cache.entries
    { cache with entries := entries.drop (entries.length - cache.maxSize.toNat) }

/-- The cache without entries. -/
def clear (cache : RecencyCache κ α) : RecencyCache κ α := { cache with entries := [] }

/-! ## Small facts -/

@[simp] theorem maxSize_get (cache : RecencyCache κ α) (key : κ) :
    (cache.get key).2.maxSize = cache.maxSize := by
  unfold get
  split <;> rfl

@[simp] theorem maxSize_set (cache : RecencyCache κ α) (key : κ) (value : α) :
    (cache.set key value).maxSize = cache.maxSize := by
  unfold set
  split <;> rfl

theorem get_of_peek?_eq_none {cache : RecencyCache κ α} {key : κ} (h : cache.peek? key = none) :
    cache.get key = (none, cache) := by
  simp [get, h]

/-- A cache never holds more than its size allows after an entry is set. -/
theorem size_set_le {cache : RecencyCache κ α} (h : 0 < cache.maxSize) (key : κ) (value : α) :
    (cache.set key value).size ≤ cache.maxSize.toNat := by
  have hle : ¬ cache.maxSize ≤ 0 := by omega
  simp only [set, hle, if_false, size, List.length_drop]
  omega

example :
    ((((empty 2 : RecencyCache String Nat).set "a" 1).set "b" 2).get "a").2.set "c" 3 =
      ⟨2, [("a", 1), ("c", 3)]⟩ := by decide

end RecencyCache

end StyleCascade
