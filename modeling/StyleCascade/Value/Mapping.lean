/-!
# Mappings

Finite mappings from names to values that remember the order in which their names first came.

* `Entries.set` — set one name in a list of entries, in place where the name is there.
* `Mapping` — a list of entries with no name twice; `get?`, `insert`, `erase`, `update`.
* `Mapping.ofList` — from a list of entries: a name that comes again keeps its first place and
  takes its last value.
* `Mapping.group` — items in groups, each under its name.
-/

namespace StyleCascade

/-! ## Entries -/

namespace Entries

variable {α : Type}

/-- Set the value of a name: in the place of the name, or at the end where it is new. -/
def set (name : String) (value : α) : List (String × α) → List (String × α)
  | [] => [(name, value)]
  | (n, v) :: rest => if n == name then (n, value) :: rest else (n, v) :: set name value rest

theorem mem_names_set {name n : String} {value : α} {entries : List (String × α)} :
    n ∈ (set name value entries).map Prod.fst ↔ n = name ∨ n ∈ entries.map Prod.fst := by
  induction entries with
  | nil => simp [set]
  | cons e rest ih =>
    obtain ⟨m, v⟩ := e
    by_cases h : m = name
    · subst h
      simp [set]
    · simp only [set, beq_iff_eq, h, if_false, List.map_cons, List.mem_cons, ih]
      exact or_left_comm

theorem nodup_names_set {name : String} {value : α} {entries : List (String × α)}
    (h : (entries.map Prod.fst).Nodup) : ((set name value entries).map Prod.fst).Nodup := by
  induction entries with
  | nil => simp [set]
  | cons e rest ih =>
    obtain ⟨m, v⟩ := e
    simp only [List.map_cons, List.nodup_cons] at h
    by_cases hm : m = name
    · subst hm
      simpa [set] using h
    · simp only [set, beq_iff_eq, hm, if_false, List.map_cons, List.nodup_cons]
      refine ⟨fun hmem => ?_, ih h.2⟩
      rcases mem_names_set.1 hmem with h' | h'
      · exact hm h'
      · exact h.1 h'

theorem lookup_cons (n : String) (e : String × α) (rest : List (String × α)) :
    (e :: rest).lookup n = if n = e.1 then some e.2 else rest.lookup n := by
  obtain ⟨m, value⟩ := e
  rw [List.lookup_cons]
  by_cases h : n = m
  · simp [h]
  · simp [h, beq_false_of_ne h]

theorem lookup_set (name n : String) (value : α) (entries : List (String × α)) :
    (set name value entries).lookup n = if n = name then some value else entries.lookup n := by
  induction entries with
  | nil => simp [set, lookup_cons]
  | cons e rest ih =>
    obtain ⟨m, v⟩ := e
    by_cases hm : m = name
    · subst hm
      by_cases h : n = m <;> simp [set, lookup_cons, h]
    · by_cases h : n = m
      · subst h
        simp [set, hm]
      · simp [set, lookup_cons, hm, h, ih]

end Entries

/-! ## Mappings -/

/-- A finite mapping from names to values, in the order in which the names first came. -/
structure Mapping (α : Type) where
  /-- The names with their values. -/
  entries : List (String × α)
  /-- No name comes twice. -/
  nodup : (entries.map Prod.fst).Nodup

namespace Mapping

variable {α : Type}

/-- The mapping without names. -/
def empty : Mapping α := ⟨[], by simp⟩

instance : EmptyCollection (Mapping α) := ⟨empty⟩

instance : Inhabited (Mapping α) := ⟨empty⟩

/-- The names of a mapping. -/
def names (m : Mapping α) : List String := m.entries.map Prod.fst

/-- The values of a mapping. -/
def values (m : Mapping α) : List α := m.entries.map Prod.snd

/-- Whether a mapping has no names. -/
def isEmpty (m : Mapping α) : Bool := m.entries.isEmpty

/-- The value of a name. -/
def get? (m : Mapping α) (name : String) : Option α := m.entries.lookup name

/-- Whether a name has a value. -/
def contains (m : Mapping α) (name : String) : Bool := (m.get? name).isSome

/-- The mapping with the value of one name set. -/
def insert (m : Mapping α) (name : String) (value : α) : Mapping α :=
  ⟨Entries.set name value m.entries, Entries.nodup_names_set m.nodup⟩

/-- The mapping without one name. -/
def erase (m : Mapping α) (name : String) : Mapping α :=
  ⟨m.entries.filter (·.1 != name), m.nodup.sublist (List.filter_sublist.map _)⟩

/-- The mapping with the values of a list of names set one after the other. -/
def insertAll (m : Mapping α) (entries : List (String × α)) : Mapping α :=
  entries.foldl (fun m e => m.insert e.1 e.2) m

/-- The mapping overlaid by another one. -/
def update (m other : Mapping α) : Mapping α := m.insertAll other.entries

/-- The mapping of a list of entries, of which a later one replaces an earlier one of its
name. -/
def ofList (entries : List (String × α)) : Mapping α := empty.insertAll entries

/-- The mapping with the value of a name set, if the name has none. -/
def insertIfNew (m : Mapping α) (name : String) (value : α) : Mapping α :=
  if m.contains name then m else m.insert name value

/-- The mapping of lists with one more item at the end of the list of a name. -/
def push (m : Mapping (List α)) (name : String) (item : α) : Mapping (List α) :=
  m.insert name ((m.get? name).getD [] ++ [item])

/-- Items in groups of those with one name, each group in the order of the items. -/
def group (items : List (String × α)) : Mapping (List α) :=
  items.foldl (fun groups (name, item) => groups.push name item) ∅

/-! ### Small facts -/

@[simp] theorem get?_empty (n : String) : (empty : Mapping α).get? n = none := rfl

@[simp] theorem get?_insert (m : Mapping α) (name n : String) (value : α) :
    (m.insert name value).get? n = if n = name then some value else m.get? n :=
  Entries.lookup_set name n value m.entries

theorem lookup_filter_ne (entries : List (String × α)) (name n : String) :
    (entries.filter (·.1 != name)).lookup n = if n = name then none else entries.lookup n := by
  induction entries with
  | nil => simp
  | cons e rest ih =>
    obtain ⟨m, v⟩ := e
    by_cases hm : m = name
    · simp only [List.filter_cons, bne_iff_ne, ne_eq, hm, not_true, if_false, ih]
      by_cases h : n = name <;> simp [h, Entries.lookup_cons]
    · simp only [List.filter_cons, bne_iff_ne, ne_eq, hm, not_false_eq_true, if_true,
        Entries.lookup_cons, ih]
      by_cases h : n = m
      · simp [h, hm]
      · simp [h]

@[simp] theorem get?_erase (m : Mapping α) (name n : String) :
    (m.erase name).get? n = if n = name then none else m.get? n :=
  lookup_filter_ne m.entries name n

@[simp] theorem insertAll_nil (m : Mapping α) : m.insertAll [] = m := rfl

@[simp] theorem insertAll_cons (m : Mapping α) (e : String × α) (rest : List (String × α)) :
    m.insertAll (e :: rest) = (m.insert e.1 e.2).insertAll rest := rfl

theorem getD_get?_push (m : Mapping (List α)) (name n : String) (item : α) :
    ((m.push name item).get? n).getD [] =
      (m.get? n).getD [] ++ if n = name then [item] else [] := by
  rw [push, get?_insert]
  by_cases h : n = name
  · simp [h]
  · simp [h]

/-- Items that are pushed one after the other come behind those of their names that were there. -/
theorem getD_get?_foldl_push (items : List (String × α)) (m : Mapping (List α)) (name : String) :
    ((items.foldl (fun groups (n, item) => groups.push n item) m).get? name).getD [] =
      (m.get? name).getD [] ++ (items.filter (·.1 == name)).map Prod.snd := by
  induction items generalizing m with
  | nil => simp
  | cons entry rest ih =>
    obtain ⟨n, item⟩ := entry
    rw [List.foldl_cons, ih, getD_get?_push, List.filter_cons]
    by_cases h : n = name
    · simp [h]
    · simp [h, Ne.symm h]

/-- The group of a name holds the items with this name, in their order. -/
theorem getD_get?_group (items : List (String × α)) (name : String) :
    ((group items).get? name).getD [] = (items.filter (·.1 == name)).map Prod.snd := by
  rw [group, getD_get?_foldl_push]
  exact List.nil_append _

example : (ofList [("b", 1), ("a", 2), ("b", 3)]).entries = [("b", 3), ("a", 2)] := by decide

end Mapping

end StyleCascade
