import StyleCascade.Value.Basic

/-!
# Mappings and their entries

A mapping is known from its entries: what it gives for a name is the one entry of that name, and
setting the entries of a mapping one after the other gives the mapping back.

* `Mapping.get?_eq_some_iff`, `Mapping.mem_names_iff` — names and values among the entries.
* `Mapping.ofList_entries` — a mapping is the one of its list of entries.
* `Mapping.get?_update` — a mapping laid over another one, name by name.
* `Mapping.erase_eq_self`, `Mapping.erase_comm`, `Mapping.erase_insertIfNew` — what erasing a name
  leaves.
* `Value.asMapping?_ofMapping` — a mapping that is held by a value is read back.
-/

namespace StyleCascade

variable {α : Type}

/-- Setting a name that is new adds it at the end. -/
theorem Entries.set_of_not_mem {name : String} {value : α} {entries : List (String × α)}
    (h : name ∉ entries.map Prod.fst) :
    Entries.set name value entries = entries ++ [(name, value)] := by
  induction entries with
  | nil => rfl
  | cons e rest ih =>
    obtain ⟨n, v⟩ := e
    rw [List.map_cons, List.mem_cons, not_or] at h
    have hn : (n == name) = false := by simpa using Ne.symm h.1
    rw [Entries.set, hn, if_neg Bool.false_ne_true, ih h.2, List.cons_append]

theorem Entries.lookup_of_not_mem {name : String} {entries : List (String × α)}
    (h : name ∉ entries.map Prod.fst) : entries.lookup name = none := by
  rw [List.lookup_eq_none_iff]
  intro e he
  rw [bne_iff_ne]
  rintro rfl
  exact h (List.mem_map_of_mem he)

/-- Where no name comes twice, the value of a name is the one of its entry. -/
theorem Entries.lookup_eq_some_iff {entries : List (String × α)}
    (hnodup : (entries.map Prod.fst).Nodup) {name : String} {value : α} :
    entries.lookup name = some value ↔ (name, value) ∈ entries := by
  induction entries with
  | nil => simp
  | cons e rest ih =>
    obtain ⟨n, v⟩ := e
    rw [List.map_cons, List.nodup_cons] at hnodup
    rw [Entries.lookup_cons, List.mem_cons, Prod.mk.injEq]
    by_cases hn : name = n
    · subst hn
      have hrest : (name, value) ∉ rest :=
        fun hmem => hnodup.1 (List.mem_map.2 ⟨(name, value), hmem, rfl⟩)
      simp [hrest, eq_comm]
    · rw [if_neg hn, ih hnodup.2]
      simp [hn]

namespace Mapping

theorem ext_entries {m m' : Mapping α} (h : m.entries = m'.entries) : m = m' := by
  cases m
  cases m'
  cases h
  rfl

theorem get?_eq_some_iff {m : Mapping α} {name : String} {value : α} :
    m.get? name = some value ↔ (name, value) ∈ m.entries :=
  Entries.lookup_eq_some_iff m.nodup

theorem mem_names_iff {m : Mapping α} {name : String} :
    name ∈ m.names ↔ ∃ value, m.get? name = some value := by
  simp only [names, get?_eq_some_iff, List.mem_map, Prod.exists]
  constructor
  · rintro ⟨_, value, hmem, rfl⟩
    exact ⟨value, hmem⟩
  · rintro ⟨value, hmem⟩
    exact ⟨name, value, hmem, rfl⟩

/-- Setting entries with new names adds them at the end. -/
theorem entries_insertAll {m : Mapping α} {entries : List (String × α)}
    (h : ((m.entries ++ entries).map Prod.fst).Nodup) :
    (m.insertAll entries).entries = m.entries ++ entries := by
  induction entries generalizing m with
  | nil => simp
  | cons e rest ih =>
    obtain ⟨name, value⟩ := e
    have hnew : name ∉ m.entries.map Prod.fst := by
      rw [List.map_append, List.nodup_append] at h
      intro hmem
      exact h.2.2 name hmem name List.mem_cons_self rfl
    have hinsert : (m.insert name value).entries = m.entries ++ [(name, value)] :=
      Entries.set_of_not_mem hnew
    have happend : m.entries ++ (name, value) :: rest = (m.insert name value).entries ++ rest := by
      rw [hinsert, List.append_assoc]
      rfl
    rw [insertAll_cons, happend]
    rw [happend] at h
    exact ih h

theorem ofList_entries (m : Mapping α) : ofList m.entries = m := by
  refine ext_entries (entries_insertAll ?_)
  exact m.nodup

theorem get?_eq_none_iff {m : Mapping α} {name : String} : m.get? name = none ↔ name ∉ m.names := by
  rw [mem_names_iff, not_exists]
  exact Option.eq_none_iff_forall_ne_some

/-- A value that is given only where there is none leaves the one that is there. -/
theorem get?_insertIfNew (m : Mapping α) (name n : String) (value : α) :
    (m.insertIfNew name value).get? n =
      if n = name then some ((m.get? name).getD value) else m.get? n := by
  rw [insertIfNew, contains]
  cases hvalue : m.get? name with
  | none => exact get?_insert m name n value
  | some old =>
    by_cases hn : n = name
    · rw [if_pos hn, hn]
      exact hvalue
    · rw [if_neg hn]
      rfl

/-! ### Mappings over each other -/

/-- Setting entries one after the other gives each of their names its value and leaves the others
alone. -/
theorem get?_insertAll {entries : List (String × α)} (hnodup : (entries.map Prod.fst).Nodup)
    (m : Mapping α) (name : String) :
    (m.insertAll entries).get? name = (entries.lookup name).or (m.get? name) := by
  induction entries generalizing m with
  | nil => rfl
  | cons e rest ih =>
    rw [List.map_cons, List.nodup_cons] at hnodup
    rw [insertAll_cons, ih hnodup.2, get?_insert, Entries.lookup_cons]
    by_cases hname : name = e.1
    · have hrest : rest.lookup name = none := by
        apply Entries.lookup_of_not_mem
        rw [hname]
        exact hnodup.1
      rw [if_pos hname, if_pos hname, hrest]
      rfl
    · rw [if_neg hname, if_neg hname]

/-- **One mapping over another.**  A name has the value of the upper mapping, or if this one does
not have the name that of the lower one. -/
theorem get?_update (m other : Mapping α) (name : String) :
    (m.update other).get? name = (other.get? name).or (m.get? name) :=
  get?_insertAll other.nodup m name

/-! ### Erased names -/

/-- Erasing a name that is not there changes nothing. -/
theorem erase_eq_self {m : Mapping α} {name : String} (h : m.get? name = none) :
    m.erase name = m := by
  refine ext_entries (List.filter_eq_self.2 ?_)
  intro e he
  rw [bne_iff_ne]
  rintro rfl
  have hvalue : m.get? e.1 = some e.2 := get?_eq_some_iff.2 he
  rw [h] at hvalue
  cases hvalue

theorem erase_comm (m : Mapping α) (name other : String) :
    (m.erase name).erase other = (m.erase other).erase name := by
  refine ext_entries ?_
  show (m.entries.filter (·.1 != name)).filter (·.1 != other) =
    (m.entries.filter (·.1 != other)).filter (·.1 != name)
  simp only [List.filter_filter, Bool.and_comm]

theorem filter_set (name : String) (value : α) (entries : List (String × α)) :
    (Entries.set name value entries).filter (·.1 != name) = entries.filter (·.1 != name) := by
  induction entries with
  | nil => simp [Entries.set]
  | cons e rest ih =>
    obtain ⟨n, v⟩ := e
    by_cases hn : n = name
    · subst hn
      simp [Entries.set]
    · have hset : Entries.set name value ((n, v) :: rest) =
          (n, v) :: Entries.set name value rest := by
        rw [Entries.set, if_neg (by simpa using hn)]
      rw [hset, List.filter_cons, List.filter_cons, ih]

/-- A name that is given only where it has no value leaves no trace behind when it is erased. -/
theorem erase_insertIfNew (m : Mapping α) (name : String) (value : α) :
    (m.insertIfNew name value).erase name = m.erase name := by
  rw [insertIfNew]
  split
  · rfl
  · exact ext_entries (filter_set name value m.entries)

end Mapping

@[simp] theorem Value.asMapping?_ofMapping (m : Mapping Value) :
    (Value.ofMapping m).asMapping? = some m :=
  congrArg some m.ofList_entries

end StyleCascade
