import StyleCascade.Proofs.CascadeValues

/-!
# Properties in plain form

An instance that does not understand the theme's own properties is given class names in their
place.  Nothing else is lost on the way: `ui` goes, each of `variant`, `size` and `color` goes
exactly where its value stands for a class, and all the rest stays.  Properties in plain form have
nothing left to turn into class names.

* `ClassTables.named`, `classIn?`, `mappedClasses` — the three properties with their tables, the
  class that a table gives for a value, and the classes that properties stand for.
* `get?_foldl_takeClass`, `classes_foldl_takeClass` — what taking classes out leaves and what it
  finds.
* `IsPlainForm` — what becomes of each property.
* `resolve_isPlainForm` — the answer for an instance of the one kind, told from the answer for one
  of the other kind.
-/

namespace StyleCascade

/-! ## Values that stand for classes -/

/-- The three properties with their tables, in the order in which their classes are written. -/
def ClassTables.named (tables : ClassTables) : List (String × Mapping String) :=
  [("variant", tables.variant), ("size", tables.size), ("color", tables.color)]

/-- The class that a table gives for a value: the value is a text, and the table has this text
with a class that is not empty. -/
def classIn? (table : Mapping String) : Option Value → Option String
  | some (.text text) => (table.get? text).filter (· != "")
  | _ => none

/-- The classes that properties stand for, each by its own table. -/
def mappedClasses (tables : ClassTables) (props : Props) : List String :=
  tables.named.filterMap fun (name, table) => classIn? table (props.get? name)

theorem classIn?_eq_some_iff {table : Mapping String} {value : Option Value} {found : String} :
    classIn? table value = some found ↔
      ∃ text, value = some (.text text) ∧ table.get? text = some found ∧ found ≠ "" := by
  unfold classIn?
  split
  · rename_i text
    simp [Option.filter_eq_some_iff]
  · rename_i hnone
    simp only [reduceCtorEq, false_iff]
    rintro ⟨text, rfl, -⟩
    exact hnone text rfl

/-- The class that the value of a property is taken out for, if it is taken out. -/
def mappedClass? (tables : ClassTables) (props : Props) (name : String) : Option String :=
  (props.get? name).bind (tables.lookup name)

section
variable {tables : ClassTables} {props props' : Props} {name found : String}

theorem map_fst_named (tables : ClassTables) :
    tables.named.map Prod.fst = ClassTables.mappedNames := rfl

/-- **Each property has the table of its name.** -/
theorem table?_of_mem_named {table : Mapping String} (h : (name, table) ∈ tables.named) :
    tables.table? name = some table := by
  simp only [ClassTables.named, List.mem_cons, List.not_mem_nil, or_false, Prod.mk.injEq] at h
  rcases h with ⟨rfl, rfl⟩ | ⟨rfl, rfl⟩ | ⟨rfl, rfl⟩
  · rfl
  · rfl
  · rfl

/-- A value is taken out exactly where the table of its property gives a class for it. -/
theorem mappedClass?_of_mem_named {table : Mapping String} (h : (name, table) ∈ tables.named) :
    mappedClass? tables props name = classIn? table (props.get? name) := by
  rw [mappedClass?]
  cases props.get? name with
  | none => rfl
  | some value =>
    rw [Option.bind_some, ClassTables.lookup, table?_of_mem_named h]
    cases value with
    | text s => simp [classIn?, Value.asText?]
    | _ => rfl

theorem mem_mappedNames_of_mem_named {table : Mapping String} (h : (name, table) ∈ tables.named) :
    name ∈ ClassTables.mappedNames := by
  rw [← map_fst_named tables]
  exact List.mem_map.2 ⟨(name, table), h, rfl⟩

theorem mappedClasses_eq (tables : ClassTables) (props : Props) :
    mappedClasses tables props = ClassTables.mappedNames.filterMap (mappedClass? tables props) := by
  rw [← map_fst_named tables, List.filterMap_map]
  refine List.filterMap_congr fun ⟨name, table⟩ hmem => ?_
  exact (mappedClass?_of_mem_named hmem).symm

theorem mappedClass?_congr (h : props.get? name = props'.get? name) :
    mappedClass? tables props name = mappedClass? tables props' name := by
  rw [mappedClass?, mappedClass?, h]

theorem mappedClass?_erase_of_ne {other : String} (h : other ≠ name) :
    mappedClass? tables (props.erase name) other = mappedClass? tables props other :=
  mappedClass?_congr (by rw [Mapping.get?_erase, if_neg h])

/-- Nothing stands for an empty class. -/
theorem ne_empty_of_mem_mappedClasses (h : found ∈ mappedClasses tables props) : found ≠ "" := by
  obtain ⟨⟨name, table⟩, -, hclass⟩ := List.mem_filterMap.1 h
  obtain ⟨text, -, -, hne⟩ := classIn?_eq_some_iff.1 hclass
  exact hne

end

/-! ## Taking classes out -/

section
variable {tables : ClassTables} {names : List String}

theorem takeClass_of_some {props : Props} {name found : String}
    (h : mappedClass? tables props name = some found) (classes : List String) :
    takeClass tables (props, classes) name = (props.erase name, classes ++ [found]) := by
  rw [mappedClass?] at h
  simp only [takeClass, h]

theorem takeClass_of_none {props : Props} {name : String}
    (h : mappedClass? tables props name = none) (classes : List String) :
    takeClass tables (props, classes) name = (props, classes) := by
  rw [mappedClass?] at h
  simp only [takeClass, h]

/-- The properties that stand for a class are taken out, and no others. -/
theorem get?_foldl_takeClass (hnodup : names.Nodup) (props : Props) (classes : List String)
    (other : String) :
    (names.foldl (takeClass tables) (props, classes)).1.get? other =
      if other ∈ names ∧ (mappedClass? tables props other).isSome then none
      else props.get? other := by
  induction names generalizing props classes with
  | nil => simp
  | cons name rest ih =>
    rw [List.nodup_cons] at hnodup
    rw [List.foldl_cons]
    cases hclass : mappedClass? tables props name with
    | none =>
      rw [takeClass_of_none hclass, ih hnodup.2]
      by_cases hother : other = name
      · subst hother
        simp [hclass]
      · simp [hother]
    | some found =>
      rw [takeClass_of_some hclass, ih hnodup.2, Mapping.get?_erase]
      by_cases hother : other = name
      · subst hother
        simp [hclass]
      · simp [hother, mappedClass?_erase_of_ne hother]

/-- The classes are found in the order of the names. -/
theorem classes_foldl_takeClass (hnodup : names.Nodup) (props : Props) (classes : List String) :
    (names.foldl (takeClass tables) (props, classes)).2 =
      classes ++ names.filterMap (mappedClass? tables props) := by
  induction names generalizing props classes with
  | nil => simp
  | cons name rest ih =>
    rw [List.nodup_cons] at hnodup
    rw [List.foldl_cons]
    cases hclass : mappedClass? tables props name with
    | none => rw [takeClass_of_none hclass, ih hnodup.2, List.filterMap_cons_none hclass]
    | some found =>
      have hrest : rest.filterMap (mappedClass? tables (props.erase name)) =
          rest.filterMap (mappedClass? tables props) := by
        refine List.filterMap_congr fun other hother => mappedClass?_erase_of_ne ?_
        rintro rfl
        exact hnodup.1 hother
      rw [takeClass_of_some hclass, ih hnodup.2, hrest, List.filterMap_cons_some hclass,
        List.append_assoc, List.singleton_append]

/-- Where nothing stands for a class, nothing is taken out. -/
theorem foldl_takeClass_of_none {props : Props}
    (h : ∀ name ∈ names, mappedClass? tables props name = none) (classes : List String) :
    names.foldl (takeClass tables) (props, classes) = (props, classes) := by
  induction names with
  | nil => rfl
  | cons name rest ih =>
    rw [List.forall_mem_cons] at h
    rw [List.foldl_cons, takeClass_of_none h.1, ih h.2]

end

/-! ## Class names behind each other -/

/-- Classes that are found come in front of the class names that are there, if there are any. -/
theorem classText_found {found : List String} (hfound : ∀ name ∈ found, name ≠ "")
    {own : String} {value : Option Value} (hown : value.getD (.text "") = .text own) :
    classText (found.map .text ++ [value.getD .null]) =
      " ".intercalate (found ++ [own].filter (· ≠ "")) := by
  have hgiven : (found.map Value.text).filter Value.truthy = found.map Value.text := by
    rw [List.filter_eq_self]
    intro v hv
    obtain ⟨name, hname, rfl⟩ := List.mem_map.1 hv
    simpa [Value.truthy] using hfound name hname
  have hdisplay : (found.map Value.text).map Value.display = found := by
    rw [List.map_map]
    exact List.map_id found
  have hrest : ([value.getD .null].filter Value.truthy).map Value.display =
      [own].filter (· ≠ "") := by
    cases value with
    | none =>
      cases hown
      rfl
    | some v =>
      obtain rfl : v = .text own := hown
      by_cases hempty : own = ""
      · subst hempty
        rfl
      · have hgiven : (Value.text own).truthy = true := by simpa [Value.truthy] using hempty
        rw [Option.getD_some, List.filter_cons_of_pos hgiven, List.filter_cons_of_pos (by simpa)]
        rfl
  rw [classText, List.filter_append, List.map_append, hgiven, hdisplay, hrest]

/-- The class names that rules give together are one text, if there are any. -/
theorem exists_class_cascade (rules : List Rule) :
    ∃ own, ((cascade rules).get? "class").getD (.text "") = .text own := by
  rw [get?_cascade, combineAll_class]
  split
  · exact ⟨"", rfl⟩
  · exact ⟨_, rfl⟩

/-! ## Plain form -/

/-- What becomes of properties in plain form. -/
structure IsPlainForm (tables : ClassTables) (props plain : Props) : Prop where
  /-- `ui` is dropped. -/
  ui : plain.get? "ui" = none
  /-- Each of `variant`, `size` and `color` is missing exactly where it was missing or its value is
  a text for which its table has a class that is not empty. -/
  taken : ∀ name table, (name, table) ∈
      [("variant", tables.variant), ("size", tables.size), ("color", tables.color)] →
    (plain.get? name = none ↔ props.get? name = none ∨
      ∃ text found, props.get? name = some (.text text) ∧ table.get? text = some found ∧
        found ≠ "")
  /-- Where it is not missing it is unchanged. -/
  left : ∀ name ∈ ["variant", "size", "color"], ∀ value ∈ plain.get? name,
    props.get? name = some value
  /-- The classes come in front of the class names that were there, if there were any. -/
  classes : mappedClasses tables props ≠ [] → ∃ own,
    (props.get? "class").getD (.text "") = .text own ∧
    plain.get? "class" =
      some (.text (" ".intercalate (mappedClasses tables props ++ [own].filter (· ≠ ""))))
  /-- Without classes the class names are unchanged. -/
  noClasses : mappedClasses tables props = [] → plain.get? "class" = props.get? "class"
  /-- Every other property is unchanged. -/
  others : ∀ name, name ∉ ["ui", "class", "variant", "size", "color"] →
    plain.get? name = props.get? name

section
variable {tables : ClassTables} {props : Props}

theorem nodup_mappedNames : ClassTables.mappedNames.Nodup := by decide

/-- The properties that are left when the classes are taken out. -/
def leftProps (tables : ClassTables) (props : Props) : Props :=
  (ClassTables.mappedNames.foldl (takeClass tables) (props.erase "ui", [])).1

theorem plainProps_eq (tables : ClassTables) (props : Props) :
    plainProps tables props =
      if mappedClasses tables props = [] then leftProps tables props
      else (leftProps tables props).insert "class"
        (.text (classText ((mappedClasses tables props).map .text ++
          [((leftProps tables props).get? "class").getD .null]))) := by
  have hclasses : (ClassTables.mappedNames.foldl (takeClass tables) (props.erase "ui", [])).2 =
      mappedClasses tables props := by
    rw [classes_foldl_takeClass nodup_mappedNames, List.nil_append, mappedClasses_eq]
    refine List.filterMap_congr fun name hname => mappedClass?_erase_of_ne ?_
    rintro rfl
    exact absurd hname (by decide)
  simp only [plainProps, hclasses, List.isEmpty_iff]
  rfl

theorem get?_leftProps (name : String) :
    (leftProps tables props).get? name =
      if name = "ui" ∨ name ∈ ClassTables.mappedNames ∧ (mappedClass? tables props name).isSome
      then none else props.get? name := by
  rw [leftProps, get?_foldl_takeClass nodup_mappedNames, Mapping.get?_erase]
  by_cases hui : name = "ui"
  · subst hui
    simp
  · simp [hui, mappedClass?_erase_of_ne hui]

theorem get?_plainProps_of_ne {name : String} (h : name ≠ "class") :
    (plainProps tables props).get? name = (leftProps tables props).get? name := by
  rw [plainProps_eq]
  split
  · rfl
  · rw [Mapping.get?_insert, if_neg h]

theorem get?_leftProps_class : (leftProps tables props).get? "class" = props.get? "class" := by
  rw [get?_leftProps, if_neg (by simp [ClassTables.mappedNames])]

/-- The properties with a table in plain form. -/
theorem get?_plainProps_of_mem {name : String} (h : name ∈ ClassTables.mappedNames) :
    (plainProps tables props).get? name =
      if (mappedClass? tables props name).isSome then none else props.get? name := by
  have hclass : name ≠ "class" := by
    rintro rfl
    exact absurd h (by decide)
  have hui : name ≠ "ui" := by
    rintro rfl
    exact absurd h (by decide)
  rw [get?_plainProps_of_ne hclass, get?_leftProps]
  simp [hui, h]

theorem get?_plainProps_ui : (plainProps tables props).get? "ui" = none := by
  rw [get?_plainProps_of_ne (by decide), get?_leftProps, if_pos (.inl rfl)]

/-- **Plain form.**  What becomes of properties whose class names, if there are any, are a text. -/
theorem isPlainForm_plainProps
    (h : ∃ own, (props.get? "class").getD (.text "") = .text own) :
    IsPlainForm tables props (plainProps tables props) where
  ui := get?_plainProps_ui
  taken name table hmem := by
    have hmapped : (∃ text found, props.get? name = some (.text text) ∧
        table.get? text = some found ∧ found ≠ "") ↔
        ∃ found, mappedClass? tables props name = some found := by
      rw [mappedClass?_of_mem_named hmem, exists_comm]
      simp only [classIn?_eq_some_iff]
    rw [get?_plainProps_of_mem (mem_mappedNames_of_mem_named hmem), hmapped]
    cases hclass : mappedClass? tables props name with
    | none => simp
    | some found => simp
  left name hname value hvalue := by
    rw [get?_plainProps_of_mem hname] at hvalue
    split at hvalue
    · cases hvalue
    · exact hvalue
  classes hfound := by
    obtain ⟨own, hown⟩ := h
    refine ⟨own, hown, ?_⟩
    rw [plainProps_eq, if_neg hfound, Mapping.get?_insert, if_pos rfl, get?_leftProps_class,
      classText_found (fun _ => ne_empty_of_mem_mappedClasses) hown]
  noClasses hnone := by
    rw [plainProps_eq, if_pos hnone, get?_leftProps_class]
  others name hother := by
    simp only [List.mem_cons, not_or] at hother
    obtain ⟨hui, hclass, hname⟩ := hother
    rw [get?_plainProps_of_ne hclass, get?_leftProps]
    simp [hui, hname, ClassTables.mappedNames]

/-- **Plain form is final.**  Properties in plain form have nothing left to turn into class
names. -/
theorem plainProps_plainProps (tables : ClassTables) (props : Props) :
    plainProps tables (plainProps tables props) = plainProps tables props := by
  have hnone : ∀ name ∈ ClassTables.mappedNames,
      mappedClass? tables (plainProps tables props) name = none := by
    intro name hname
    have hvalue : (plainProps tables props).get? name =
        if (mappedClass? tables props name).isSome then none else props.get? name :=
      get?_plainProps_of_mem hname
    cases hclass : mappedClass? tables props name with
    | none =>
      rw [hclass] at hvalue
      rw [mappedClass?_congr hvalue, hclass]
    | some found =>
      rw [hclass] at hvalue
      rw [mappedClass?, hvalue]
      rfl
  have hclasses : mappedClasses tables (plainProps tables props) = [] := by
    rw [mappedClasses_eq]
    exact List.filterMap_eq_nil_iff.2 hnone
  rw [plainProps_eq tables (plainProps tables props), if_pos hclasses, leftProps,
    Mapping.erase_eq_self get?_plainProps_ui, foldl_takeClass_of_none hnone]

end

/-! ## The answers for the two kinds of instances -/

theorem Query.NeverFails.resolve_managed {q : Query} (h : q.NeverFails) (tables : ClassTables)
    (rules : List Rule) (managed : Bool) :
    resolve tables rules { q with managed } =
      .ok (if managed then cascade (rules.filter (Rule.selects q))
        else plainProps tables (cascade (rules.filter (Rule.selects q)))) := by
  have hanswers : ({ q with managed } : Query).NeverFails := h
  rw [resolve, hanswers.matching_eq]
  rfl

/-- **Nothing but `ui` is lost.**  The answer for an instance that does not understand the theme's
own properties is the plain form of the answer that the same query gets for an instance that does,
and the plain form is final. -/
theorem resolve_isPlainForm {q : Query} (hanswers : q.NeverFails) (tables : ClassTables)
    (rules : List Rule) :
    ∃ props plain,
      resolve tables rules { q with managed := true } = .ok props ∧
      resolve tables rules { q with managed := false } = .ok plain ∧
      IsPlainForm tables props plain ∧ plainProps tables plain = plain := by
  refine ⟨_, _, hanswers.resolve_managed tables rules true,
    hanswers.resolve_managed tables rules false, ?_, plainProps_plainProps tables _⟩
  exact isPlainForm_plainProps (exists_class_cascade _)

/-- A button whose variant and color stand for classes, and whose size has an empty class in its
table: the two classes come in front of the class names, and the size stays. -/
theorem resolve_isPlainForm_button :
    let q : Query :=
      { component := "button"
        element := some (.ofAttributes (.ofList [("type", "submit")])) }
    let tables : ClassTables :=
      { variant := .ofList [("solid", "filled"), ("1", "first")]
        size := .ofList [("1", ""), ("solid", "massive")]
        color := .ofList [("red", "tinted")] }
    let rules : List Rule := [
      { selector := "button[type]"
        target := { component := "button", attributes := [⟨"type", .present, none⟩] }
        props := .ofList [("size", .text "1"), ("class", .text "round"), ("variant", .text "solid")]
        specificity := 11 },
      { selector := "button"
        target := { component := "button" }
        props := .ofList [("color", .text "red"), ("variant", .text "ghost"), ("ui", .text "flat"),
          ("class", .text "base"), ("icon", .bool true)] }]
    q.NeverFails ∧
      ∃ props plain,
        resolve tables rules { q with managed := true } = .ok props ∧
        resolve tables rules { q with managed := false } = .ok plain ∧
        IsPlainForm tables props plain ∧ plainProps tables plain = plain ∧
        props = .ofList [("color", .text "red"), ("variant", .text "solid"), ("ui", .text "flat"),
          ("class", .text "round base"), ("icon", .bool true), ("size", .text "1")] ∧
        plain = .ofList [("class", .text "filled tinted round base"), ("icon", .bool true),
          ("size", .text "1")] := by
  intro q tables rules
  have hanswers : q.NeverFails := by
    rintro e ⟨⟩
    exact Element.neverFails_ofAttributes _
  have hkept : rules.filter (Rule.selects q) = rules := rfl
  have hlayers : byRisingSpecificity rules = [rules[1], rules[0]] := by
    rw [byRisingSpecificity_eq_sortBy, sortBy_cons_of_forall_lt (by decide +kernel),
      sortBy_eq_self (List.pairwise_singleton _ _)]
    rfl
  have hcascade : cascade (rules.filter (Rule.selects q)) =
      .ofList [("color", .text "red"), ("variant", .text "solid"), ("ui", .text "flat"),
        ("class", .text "round base"), ("icon", .bool true), ("size", .text "1")] := by
    rw [hkept, cascade, hlayers]
    rfl
  have hprops := hanswers.resolve_managed tables rules true
  have hplain := hanswers.resolve_managed tables rules false
  rw [hcascade] at hprops hplain
  obtain ⟨props, plain, hmanaged, hunmanaged, hform, hfinal⟩ :=
    resolve_isPlainForm hanswers tables rules
  refine ⟨hanswers, props, plain, hmanaged, hunmanaged, hform, hfinal, ?_, ?_⟩
  · rw [hmanaged] at hprops
    exact Except.ok.inj hprops
  · rw [hunmanaged] at hplain
    rw [Except.ok.inj hplain]
    rfl

end StyleCascade
