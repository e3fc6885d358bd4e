import Mathlib.Data.List.Dedup
import Mathlib.Data.List.DropRight
import StyleCascade.Proofs.Answers

/-!
# What a cache remembers

Entries are set and asked for, and all of them are forgotten now and then, in any order.  What a
cache holds in the end is told by what happened to it, without a look into the cache: the keys that
were used last, as many as it may hold, each with the value last set for it.

* `Operation`, `Event` — what a cache is told to do, and what it gave.
* `usedKeys`, `recentKeys`, `lastSet?` — what a history tells.
* `rtake_filter_concat` — when a key is used, only the recent keys count for the recent keys.
* `Remembers` — a cache holds what its history tells; one operation keeps it (`Remembers.after`).
* `run_remembers` — after every run of operations a cache holds what its history tells, and gives
  it.
-/

namespace StyleCascade.RecencyCache

/-! ## Recent items of a list -/

section
variable {α : Type}

theorem rtake_append_of_le {l l' : List α} {n : Nat} (h : n ≤ l'.length) :
    (l ++ l').rtake n = l'.rtake n := by
  have hlen : (l ++ l').length - n = l.length + (l'.length - n) := by
    rw [List.length_append]
    omega
  rw [List.rtake, hlen, List.drop_length_add_append, List.rtake]

theorem rtake_of_length_le {l : List α} {n : Nat} (h : l.length ≤ n) : l.rtake n = l := by
  rw [List.rtake, Nat.sub_eq_zero_of_le h, List.drop_zero]

variable [DecidableEq α]

theorem dedup_concat (l : List α) (a : α) :
    (l ++ [a]).dedup = l.dedup.filter (· != a) ++ [a] := by
  induction l with
  | nil => rfl
  | cons b rest ih =>
    rw [List.cons_append, List.dedup_cons, List.dedup_cons, ih]
    by_cases hb : b ∈ rest
    · rw [if_pos hb, if_pos (List.mem_append_left [a] hb)]
    · by_cases hba : b = a
      · subst hba
        rw [if_pos (by simp), if_neg hb, List.filter_cons_of_neg (by simp)]
      · rw [if_neg (by simp [hb, hba]), if_neg hb, List.filter_cons_of_pos (by simpa using hba),
          List.cons_append]

/-- **Only the recent items count.**  Whether an item is moved to the end of a list without
repetitions, or to the end of the last items of the list, the last items are then the same. -/
theorem rtake_filter_concat {l : List α} (h : l.Nodup) (n : Nat) (a : α) :
    ((l.rtake n).filter (· != a) ++ [a]).rtake n = (l.filter (· != a) ++ [a]).rtake n := by
  by_cases hn : l.length ≤ n
  · rw [rtake_of_length_le hn]
  · have hsplit : l = l.take (l.length - n) ++ l.rtake n := (List.take_append_drop _ l).symm
    have hlast : (l.rtake n).length = n := by
      rw [List.rtake, List.length_drop]
      omega
    have hnodup : (l.rtake n).Nodup := h.sublist (List.drop_sublist _ l)
    -- at most one of the last items makes room, so the older ones stay out of sight
    have hroom : n ≤ ((l.rtake n).filter (· != a) ++ [a]).length := by
      have herase := List.le_length_erase (l := l.rtake n) (a := a)
      rw [hnodup.erase_eq_filter, hlast] at herase
      rw [List.length_append, List.length_singleton]
      omega
    conv_rhs => rw [hsplit, List.filter_append, List.append_assoc]
    rw [rtake_append_of_le hroom]

end

/-! ## Histories -/

/-- What a cache is told to do. -/
inductive Operation (κ α : Type) where
  /-- To set the value of a key. -/
  | set (key : κ) (value : α)
  /-- To give the value of a key. -/
  | get (key : κ)
  /-- To forget all entries. -/
  | clear
  deriving Repr, DecidableEq

/-- One operation of a history. -/
structure Event (κ α : Type) where
  operation : Operation κ α
  /-- The value that the cache gave, if it gave one. -/
  given : Option α
  deriving Repr, DecidableEq

variable {κ α : Type}

/-- The key that an operation used: one that was set, or one for which a value was given. -/
def Event.used? : Event κ α → Option κ
  | ⟨.set key _, _⟩ => some key
  | ⟨.get key, given⟩ => given.map fun _ => key
  | ⟨.clear, _⟩ => none

/-- Whether an operation forgot all entries. -/
def Event.isClear : Event κ α → Bool
  | ⟨.clear, _⟩ => true
  | _ => false

/-- The operations since all entries were last forgotten. -/
def sinceClear (events : List (Event κ α)) : List (Event κ α) :=
  events.rtakeWhile (! ·.isClear)

theorem sinceClear_concat (events : List (Event κ α)) (event : Event κ α) :
    sinceClear (events ++ [event]) =
      if event.isClear then [] else sinceClear events ++ [event] := by
  rw [sinceClear, List.rtakeWhile_concat]
  cases event.isClear <;> rfl

variable [DecidableEq κ]

/-- The value that an operation set for a key. -/
def Event.valueFor? (key : κ) : Event κ α → Option α
  | ⟨.set k value, _⟩ => if k = key then some value else none
  | _ => none

/-- The keys used since all entries were last forgotten, each once, in the order of their last
use. -/
def usedKeys (events : List (Event κ α)) : List κ :=
  ((sinceClear events).filterMap Event.used?).dedup

/-- The `count` keys that were used last, or all of them where there are fewer, the least recently
used one first. -/
def recentKeys (count : Nat) (events : List (Event κ α)) : List κ := (usedKeys events).rtake count

/-- The value last set for a key. -/
def lastSet? (events : List (Event κ α)) (key : κ) : Option α :=
  (events.filterMap (Event.valueFor? key)).getLast?

/-! ## Runs of a cache -/

/-- The cache after an operation. -/
def after (cache : RecencyCache κ α) : Operation κ α → RecencyCache κ α
  | .set key value => cache.set key value
  | .get key => (cache.get key).2
  | .clear => cache.clear

/-- The value that a cache gives on an operation. -/
def reply (cache : RecencyCache κ α) : Operation κ α → Option α
  | .get key => (cache.get key).1
  | _ => none

/-- The cache after a list of operations. -/
def run (cache : RecencyCache κ α) (operations : List (Operation κ α)) : RecencyCache κ α :=
  operations.foldl after cache

/-- What happens to a cache on the way. -/
def history (cache : RecencyCache κ α) : List (Operation κ α) → List (Event κ α)
  | [] => []
  | operation :: rest => ⟨operation, cache.reply operation⟩ :: (cache.after operation).history rest

/-! ## One more operation -/

theorem usedKeys_concat_of_used {event : Event κ α} {key : κ} (h : event.used? = some key)
    (events : List (Event κ α)) :
    usedKeys (events ++ [event]) = (usedKeys events).filter (· != key) ++ [key] := by
  have hclear : event.isClear = false := by
    obtain ⟨operation, given⟩ := event
    cases operation with
    | clear => cases h
    | _ => rfl
  rw [usedKeys, sinceClear_concat, hclear, if_neg Bool.false_ne_true, List.filterMap_append,
    List.filterMap_cons_some h, List.filterMap_nil, dedup_concat, usedKeys]

theorem usedKeys_concat_of_unused {event : Event κ α} (h : event.used? = none)
    (hclear : event.isClear = false) (events : List (Event κ α)) :
    usedKeys (events ++ [event]) = usedKeys events := by
  rw [usedKeys, sinceClear_concat, hclear, if_neg Bool.false_ne_true, List.filterMap_append,
    List.filterMap_cons_none h, List.filterMap_nil, List.append_nil, usedKeys]

theorem usedKeys_concat_of_clear {event : Event κ α} (h : event.isClear = true)
    (events : List (Event κ α)) : usedKeys (events ++ [event]) = [] := by
  rw [usedKeys, sinceClear_concat, if_pos h]
  rfl

theorem nodup_usedKeys (events : List (Event κ α)) : (usedKeys events).Nodup := List.nodup_dedup _

theorem lastSet?_concat (events : List (Event κ α)) (event : Event κ α) (key : κ) :
    lastSet? (events ++ [event]) key = (event.valueFor? key).or (lastSet? events key) := by
  rw [lastSet?, List.filterMap_append]
  cases hvalue : event.valueFor? key with
  | none => simp [hvalue, lastSet?]
  | some value => simp [hvalue]

/-! ## The entries of a cache -/

omit [DecidableEq κ] in
theorem keys_eq (cache : RecencyCache κ α) : cache.keys = cache.entries.map Prod.fst := rfl

theorem keys_use (key : κ) (value : α) (entries : List (κ × α)) :
    (use key value entries).map Prod.fst = (entries.map Prod.fst).filter (· != key) ++ [key] := by
  rw [use, List.map_append, List.filter_map]
  rfl

theorem mem_use_iff {key : κ} {value : α} {entries : List (κ × α)} {e : κ × α} :
    e ∈ use key value entries ↔ e ∈ entries ∧ e.1 ≠ key ∨ e = (key, value) := by
  rw [use, List.mem_append, List.mem_filter, List.mem_singleton, bne_iff_ne]

theorem keys_set {cache : RecencyCache κ α} (h : 0 < cache.maxSize) (key : κ) (value : α) :
    (cache.set key value).keys =
      (cache.keys.filter (· != key) ++ [key]).rtake cache.maxSize.toNat := by
  have hkeys := keys_use key value cache.entries
  have hlength := congrArg List.length hkeys
  rw [List.length_map] at hlength
  rw [set, if_neg (by omega)]
  show (List.drop (_ - cache.maxSize.toNat) (use key value cache.entries)).map Prod.fst = _
  rw [List.map_drop, hlength, hkeys, List.rtake, keys_eq]

/-- A key that is held has a value. -/
theorem mem_keys_iff {cache : RecencyCache κ α} {key : κ} :
    key ∈ cache.keys ↔ ∃ value, cache.peek? key = some value := by
  constructor
  · intro h
    obtain ⟨entry, hentry, rfl⟩ := List.mem_map.1 h
    exact Option.isSome_iff_exists.1
      (List.lookup_isSome_iff.2 ⟨entry, hentry, beq_self_eq_true entry.1⟩)
  · rintro ⟨value, hvalue⟩
    exact List.mem_map.2 ⟨(key, value), mem_of_peek? hvalue, rfl⟩

/-! ## The invariant -/

/-- **The invariant.**  The keys of a cache are the recent ones of its history, each with the value
last set for it. -/
structure Remembers (events : List (Event κ α)) (cache : RecencyCache κ α) : Prop where
  keys : cache.keys = recentKeys cache.maxSize.toNat events
  values : ∀ entry ∈ cache.entries, lastSet? events entry.1 = some entry.2

namespace Remembers

variable {events : List (Event κ α)} {cache : RecencyCache κ α}

theorem empty (maxSize : Int) : Remembers [] (RecencyCache.empty maxSize : RecencyCache κ α) where
  keys := (List.rtake_nil maxSize.toNat).symm
  values _ h := absurd h List.not_mem_nil

theorem length_keys_le (h : Remembers events cache) :
    cache.keys.length ≤ cache.maxSize.toNat := by
  rw [h.keys, recentKeys, List.rtake, List.length_drop]
  omega

/-- The recent keys after one more use. -/
theorem recentKeys_concat (h : Remembers events cache) {event : Event κ α} {key : κ}
    (hused : event.used? = some key) :
    recentKeys cache.maxSize.toNat (events ++ [event]) =
      (cache.keys.filter (· != key) ++ [key]).rtake cache.maxSize.toNat := by
  rw [recentKeys, usedKeys_concat_of_used hused, ← rtake_filter_concat (nodup_usedKeys events),
    h.keys, recentKeys]

theorem set (h : Remembers events cache) (key : κ) (value : α) :
    Remembers (events ++ [⟨.set key value, none⟩]) (cache.set key value) := by
  by_cases hsize : 0 < cache.maxSize
  · refine ⟨?_, ?_⟩
    · rw [maxSize_set, keys_set hsize, h.recentKeys_concat rfl]
    · intro entry hentry
      rw [RecencyCache.set, if_neg (by omega)] at hentry
      rw [lastSet?_concat]
      rcases mem_use_iff.1 (List.mem_of_mem_drop hentry) with ⟨hold, hne⟩ | rfl
      · rw [Event.valueFor?, if_neg (Ne.symm hne), Option.none_or, h.values entry hold]
      · rw [Event.valueFor?, if_pos rfl, Option.some_or]
  · -- a cache that may hold nothing ignores what is set
    have hzero : cache.maxSize.toNat = 0 := by omega
    have hkeys : cache.keys = [] := by rw [h.keys, hzero, recentKeys, List.rtake_zero]
    have hentries : cache.entries = [] := List.map_eq_nil_iff.1 hkeys
    rw [RecencyCache.set, if_pos (by omega)]
    refine ⟨?_, ?_⟩
    · rw [hkeys, hzero, recentKeys, List.rtake_zero]
    · rw [hentries]
      intro entry hentry
      cases hentry

theorem get (h : Remembers events cache) (key : κ) :
    Remembers (events ++ [⟨.get key, (cache.get key).1⟩]) (cache.get key).2 := by
  have hvalues : ∀ k, lastSet? (events ++ [⟨.get key, (cache.get key).1⟩]) k =
      lastSet? events k := by
    intro k
    rw [lastSet?_concat]
    rfl
  cases hpeek : cache.peek? key with
  | none =>
    rw [get_of_peek?_eq_none hpeek] at hvalues ⊢
    refine ⟨?_, ?_⟩
    · rw [recentKeys, usedKeys_concat_of_unused rfl rfl, h.keys, recentKeys]
    · intro entry hentry
      rw [hvalues, h.values entry hentry]
  | some value =>
    have hget : cache.get key =
        (some value, { cache with entries := use key value cache.entries }) := by
      rw [RecencyCache.get, hpeek]
    have hkeep : (cache.keys.filter (· != key) ++ [key]).length ≤ cache.maxSize.toNat := by
      have hmem : key ∈ cache.keys := mem_keys_iff.2 ⟨value, hpeek⟩
      have hless : (cache.keys.filter (· != key)).length < cache.keys.length :=
        List.length_filter_lt_length_iff_exists.2 ⟨key, hmem, by simp⟩
      have hroom := h.length_keys_le
      rw [List.length_append, List.length_singleton]
      omega
    rw [hget] at hvalues ⊢
    refine ⟨?_, ?_⟩
    · rw [h.recentKeys_concat rfl, rtake_of_length_le hkeep]
      exact keys_use key value cache.entries
    · intro entry hentry
      rw [hvalues]
      rcases mem_use_iff.1 hentry with ⟨hold, -⟩ | rfl
      · exact h.values entry hold
      · exact h.values _ (mem_of_peek? hpeek)

theorem clear (events : List (Event κ α)) (cache : RecencyCache κ α) :
    Remembers (events ++ [⟨.clear, none⟩]) cache.clear where
  keys := by
    rw [recentKeys, usedKeys_concat_of_clear rfl, List.rtake_nil]
    rfl
  values _ h := absurd h List.not_mem_nil

/-- **One operation.**  A cache goes on holding what its history tells. -/
theorem after (h : Remembers events cache) (operation : Operation κ α) :
    Remembers (events ++ [⟨operation, cache.reply operation⟩]) (cache.after operation) := by
  cases operation with
  | set key value => exact h.set key value
  | get key => exact h.get key
  | clear => exact clear events cache

/-- **A run of operations.** -/
theorem run (h : Remembers events cache) (operations : List (Operation κ α)) :
    Remembers (events ++ cache.history operations) (cache.run operations) := by
  induction operations generalizing events cache with
  | nil =>
    rw [history, List.append_nil]
    exact h
  | cons operation rest ih =>
    have hrest := ih (h.after operation)
    rw [List.append_assoc] at hrest
    exact hrest

/-- The entries, told from the history. -/
theorem entries_eq (h : Remembers events cache) :
    cache.entries.map (fun entry => (entry.1, some entry.2)) =
      (recentKeys cache.maxSize.toNat events).map fun key => (key, lastSet? events key) := by
  rw [← h.keys, keys_eq, List.map_map]
  refine List.map_congr_left fun entry hentry => ?_
  show (entry.1, some entry.2) = (entry.1, lastSet? events entry.1)
  rw [h.values entry hentry]

/-- What the cache gives, told from the history. -/
theorem get_eq (h : Remembers events cache) (key : κ) :
    (cache.get key).1 =
      if key ∈ recentKeys cache.maxSize.toNat events then lastSet? events key else none := by
  rw [← h.keys]
  cases hpeek : cache.peek? key with
  | none =>
    have hmem : key ∉ cache.keys := by
      rw [mem_keys_iff, hpeek]
      simp
    rw [get_of_peek?_eq_none hpeek, if_neg hmem]
  | some value =>
    rw [if_pos (mem_keys_iff.2 ⟨value, hpeek⟩), h.values _ (mem_of_peek? hpeek), RecencyCache.get,
      hpeek]

end Remembers

theorem maxSize_after (cache : RecencyCache κ α) (operation : Operation κ α) :
    (cache.after operation).maxSize = cache.maxSize := by
  cases operation with
  | set key value => exact maxSize_set cache key value
  | get key => exact maxSize_get cache key
  | clear => rfl

theorem maxSize_run (cache : RecencyCache κ α) (operations : List (Operation κ α)) :
    (cache.run operations).maxSize = cache.maxSize := by
  induction operations generalizing cache with
  | nil => rfl
  | cons operation rest ih =>
    exact (ih (cache.after operation)).trans (maxSize_after cache operation)

/-- **A cache holds and gives what its history tells.**  Whatever an empty cache is told to do, it
holds afterwards the keys used last since all entries were last forgotten, as many as its size
allows and none where the size is negative, in the order of their last use and each with the value
last set for it.  It gives this value for a key that it holds, and none for any other key. -/
theorem run_remembers (maxSize : Int) (operations : List (Operation κ α)) :
    let events := (empty maxSize : RecencyCache κ α).history operations
    let cache := (empty maxSize : RecencyCache κ α).run operations
    let recent := recentKeys (max maxSize 0).toNat events
    cache.entries.map (fun entry => (entry.1, some entry.2)) =
        recent.map (fun key => (key, lastSet? events key)) ∧
      ∀ key, (cache.get key).1 = if key ∈ recent then lastSet? events key else none := by
  intro events cache recent
  have hremembers : Remembers events cache := (Remembers.empty maxSize).run operations
  have hsize : cache.maxSize.toNat = (max maxSize 0).toNat := by
    have hmax : cache.maxSize = maxSize := maxSize_run (empty maxSize) operations
    omega
  have hentries := hremembers.entries_eq
  have hget := hremembers.get_eq
  rw [hsize] at hentries hget
  exact ⟨hentries, hget⟩

end StyleCascade.RecencyCache
