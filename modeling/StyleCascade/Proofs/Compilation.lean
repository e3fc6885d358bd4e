import StyleCascade.Proofs.Mappings
import StyleCascade.Theme.Compile

/-!
# What keeps a definition from becoming a theme

Every check is strict or advisory: it finds errors only, or none.  So the errors in a definition
are what the three strict checks find, and a definition without errors is one of sound form.
Class tables are only advised on, yet a definition of sound form is compiled if and only if they
can be read.

* `Check.IsStrict`, `Check.IsAdvisory` — the two kinds of checks.
* `Definition.errors_eq`, `Definition.warnings_eq` — the errors and the warnings, check by check.
* `Definition.IsSound` — the form that the strict checks ask for; `Definition.errors_eq_nil_iff`.
* `Definition.compile_eq_error_iff` — when a definition is not compiled, and with which error.
* `Definition.compile_ofMapping_iff` — when a definition from data is compiled as its findings say.
-/

namespace StyleCascade

/-! ## Strict and advisory checks -/

namespace Check

/-- A check that finds nothing but errors. -/
def IsStrict (check : Check) : Prop :=
  ∀ definition config, ∀ f ∈ check definition config, f.isError = true

/-- A check that finds no errors. -/
def IsAdvisory (check : Check) : Prop :=
  ∀ definition config, ∀ f ∈ check definition config, f.isError = false

theorem name_isStrict : Check.name.IsStrict := by
  intro definition config f hf
  unfold Check.name at hf
  split at hf
  · rw [List.mem_singleton.1 hf]
    rfl
  · split at hf
    · rw [List.mem_singleton.1 hf]
      rfl
    · cases hf

theorem blankSelectors_isStrict : Check.blankSelectors.IsStrict := by
  intro definition config f hf
  obtain ⟨selector, -, rfl⟩ := List.mem_map.1 hf
  rfl

theorem propsForm_isStrict : Check.propsForm.IsStrict := by
  intro definition config f hf
  obtain ⟨entry, -, rfl⟩ := List.mem_map.1 hf
  rfl

theorem combinators_isAdvisory : Check.combinators.IsAdvisory := by
  intro definition config f hf
  obtain ⟨selector, -, rfl⟩ := List.mem_map.1 hf
  rfl

theorem grammar_isAdvisory : Check.grammar.IsAdvisory := by
  intro definition config f hf
  obtain ⟨selector, -, hfinding⟩ := List.mem_filterMap.1 hf
  split at hfinding
  · cases hfinding
  · cases hfinding
    rfl

theorem tags_isAdvisory : Check.tags.IsAdvisory := by
  intro definition config f hf
  obtain ⟨selector, -, rfl⟩ := List.mem_map.1 hf
  rfl

theorem contexts_isAdvisory : Check.contexts.IsAdvisory := by
  intro definition config f hf
  obtain ⟨selector, -, hfinding⟩ := List.mem_flatMap.1 hf
  obtain ⟨name, -, rfl⟩ := List.mem_map.1 hfinding
  rfl

theorem duplicates_isAdvisory : Check.duplicates.IsAdvisory := by
  intro definition config f hf
  obtain ⟨⟨key, selectors⟩, -, hfinding⟩ := List.mem_filterMap.1 hf
  dsimp only at hfinding
  split at hfinding
  · cases hfinding
    rfl
  · cases hfinding

theorem uiForm_isAdvisory : Check.uiForm.IsAdvisory := by
  intro definition config f hf
  obtain ⟨entry, -, rfl⟩ := List.mem_map.1 hf
  rfl

theorem isError_tableFinding {name : String} {table : Value} {f : Finding}
    (h : tableFinding? name table = some f) : f.isError = false := by
  unfold tableFinding? at h
  split at h
  · cases h
    rfl
  · split at h
    · cases h
      rfl
    · cases h

theorem classTables_isAdvisory : Check.classTables.IsAdvisory := by
  intro definition config f hf
  unfold Check.classTables at hf
  split at hf
  · cases hf
  · split at hf
    · rw [List.mem_singleton.1 hf]
      rfl
    · obtain ⟨entry, -, hfinding⟩ := List.mem_filterMap.1 hf
      exact isError_tableFinding hfinding

/-- The strict checks, in their order. -/
def strict : List Check := [Check.name, Check.blankSelectors, Check.propsForm]

/-- The advisory checks, in their order. -/
def advisory : List Check :=
  [Check.combinators, Check.grammar, Check.tags, Check.contexts, Check.duplicates, Check.uiForm,
    Check.classTables]

theorem isStrict_of_mem {check : Check} (h : check ∈ strict) : check.IsStrict := by
  simp only [strict, List.mem_cons, List.not_mem_nil, or_false] at h
  rcases h with rfl | rfl | rfl
  · exact name_isStrict
  · exact blankSelectors_isStrict
  · exact propsForm_isStrict

theorem isAdvisory_of_mem {check : Check} (h : check ∈ advisory) : check.IsAdvisory := by
  simp only [advisory, List.mem_cons, List.not_mem_nil, or_false] at h
  rcases h with rfl | rfl | rfl | rfl | rfl | rfl | rfl
  · exact combinators_isAdvisory
  · exact grammar_isAdvisory
  · exact tags_isAdvisory
  · exact contexts_isAdvisory
  · exact duplicates_isAdvisory
  · exact uiForm_isAdvisory
  · exact classTables_isAdvisory

end Check

namespace Definition

/-! ## Errors and warnings -/

/-- What some checks find in a definition, one check after the other. -/
def foundBy (checks : List Check) (definition : Definition) (config : Config) : List Finding :=
  checks.flatMap fun check => check definition config

theorem findings_eq (definition : Definition) (config : Config) :
    definition.findings config =
      foundBy Check.strict definition config ++ foundBy Check.advisory definition config := by
  rw [foundBy, foundBy, ← List.flatMap_append]
  rfl

theorem isError_of_mem_strict {definition : Definition} {config : Config} {f : Finding}
    (h : f ∈ foundBy Check.strict definition config) : f.isError = true := by
  obtain ⟨check, hcheck, hf⟩ := List.mem_flatMap.1 h
  exact Check.isStrict_of_mem hcheck definition config f hf

theorem isError_of_mem_advisory {definition : Definition} {config : Config} {f : Finding}
    (h : f ∈ foundBy Check.advisory definition config) : f.isError = false := by
  obtain ⟨check, hcheck, hf⟩ := List.mem_flatMap.1 h
  exact Check.isAdvisory_of_mem hcheck definition config f hf

/-- The errors are what the strict checks find. -/
theorem errors_eq (definition : Definition) (config : Config) :
    definition.errors config = foundBy Check.strict definition config := by
  have hstrict : (foundBy Check.strict definition config).filter Finding.isError =
      foundBy Check.strict definition config :=
    List.filter_eq_self.2 fun f hf => isError_of_mem_strict hf
  have hadvisory : (foundBy Check.advisory definition config).filter Finding.isError = [] :=
    List.filter_eq_nil_iff.2 fun f hf => by simp [isError_of_mem_advisory hf]
  rw [errors, findings_eq, List.filter_append, hstrict, hadvisory, List.append_nil]

/-- The warnings are what the advisory checks find. -/
theorem warnings_eq (definition : Definition) (config : Config) :
    definition.warnings config = foundBy Check.advisory definition config := by
  have hstrict : (foundBy Check.strict definition config).filter (!·.isError) = [] :=
    List.filter_eq_nil_iff.2 fun f hf => by simp [isError_of_mem_strict hf]
  have hadvisory : (foundBy Check.advisory definition config).filter (!·.isError) =
      foundBy Check.advisory definition config :=
    List.filter_eq_self.2 fun f hf => by simp [isError_of_mem_advisory hf]
  rw [warnings, findings_eq, List.filter_append, hstrict, hadvisory, List.nil_append]

/-! ## Sound form -/

/-- The form that a definition needs: a name in kebab case, no blank selector, and a mapping for
the properties of every selector. -/
structure IsSound (definition : Definition) : Prop where
  name : isKebabName definition.name = true
  selectors : ∀ selector ∈ definition.overrides.names, Text.allBlank selector.toList = false
  props : ∀ entry ∈ definition.overrides.entries, entry.2.asMapping?.isSome = true

theorem name_eq_nil_iff (definition : Definition) (config : Config) :
    Check.name definition config = [] ↔ isKebabName definition.name = true := by
  unfold Check.name
  split
  · rename_i h
    have hname : definition.name = "" := by simpa using h
    simp [hname, isKebabName]
  · split
    · rename_i h
      simpa using h
    · rename_i h
      simpa using h

theorem blankSelectors_eq_nil_iff (definition : Definition) (config : Config) :
    Check.blankSelectors definition config = [] ↔
      ∀ selector ∈ definition.overrides.names, Text.allBlank selector.toList = false := by
  simp [Check.blankSelectors, List.filter_eq_nil_iff]

theorem propsForm_eq_nil_iff (definition : Definition) (config : Config) :
    Check.propsForm definition config = [] ↔
      ∀ entry ∈ definition.overrides.entries, entry.2.asMapping?.isSome = true := by
  simp [Check.propsForm, List.filter_eq_nil_iff, Option.isSome_iff_ne_none]

/-- **Definitions without errors are those of sound form.** -/
theorem errors_eq_nil_iff (definition : Definition) (config : Config) :
    definition.errors config = [] ↔ definition.IsSound := by
  rw [errors_eq]
  simp only [foundBy, Check.strict, List.flatMap_cons, List.flatMap_nil, List.append_nil,
    List.append_eq_nil_iff, name_eq_nil_iff, blankSelectors_eq_nil_iff, propsForm_eq_nil_iff]
  constructor
  · rintro ⟨hname, hselectors, hprops⟩
    exact ⟨hname, hselectors, hprops⟩
  · rintro ⟨hname, hselectors, hprops⟩
    exact ⟨hname, hselectors, hprops⟩

theorem exists_isError_iff (definition : Definition) (config : Config) :
    (∃ f ∈ definition.findings config, f.isError = true) ↔ ¬definition.IsSound := by
  rw [← errors_eq_nil_iff definition config, errors, List.filter_eq_nil_iff]
  simp

end Definition

/-! ## Class tables that cannot be read -/

/-- Class tables that cannot be read: they count as given, and are no mapping. -/
def Value.IsNoTables (tables : Value) : Prop :=
  tables.truthy = true ∧ tables.asMapping? = none

theorem ClassTables.ofValue_eq_error_iff (value : Value) (e : NotAMapping) :
    ofValue value = .error e ↔ value.IsNoTables ∧ e = ⟨value.kind⟩ := by
  unfold ofValue Value.IsNoTables
  cases htruthy : value.truthy with
  | false => simp
  | true =>
    cases hmapping : value.asMapping? with
    | none => simp [eq_comm]
    | some data => simp

namespace Definition

/-! ## Compilation -/

theorem compile_of_not_isSound {definition : Definition} (config : Config)
    (h : ¬definition.IsSound) :
    definition.compile config = .ok
      { name := definition.reportName
        theme := none
        errors := definition.errors config
        warnings := definition.warnings config } := by
  have herrors : (definition.errors config).isEmpty = false := by
    rw [← errors_eq_nil_iff definition config] at h
    simpa using h
  simp only [compile, herrors]
  rfl

theorem compile_of_isSound {definition : Definition} (config : Config) (h : definition.IsSound) :
    definition.compile config = (ClassTables.ofValue definition.propMaps).map fun tables =>
      { name := definition.reportName
        theme := some (definition.themeWith config tables)
        warnings := definition.warnings config } := by
  have herrors := (errors_eq_nil_iff definition config).2 h
  simp only [compile, herrors]
  rfl

/-- **When a definition is not compiled**: it has no errors, but its class tables cannot be read. -/
theorem compile_eq_error_iff (definition : Definition) (config : Config) (e : NotAMapping) :
    definition.compile config = .error e ↔
      definition.IsSound ∧ definition.propMaps.IsNoTables ∧ e = ⟨definition.propMaps.kind⟩ := by
  by_cases hsound : definition.IsSound
  · rw [compile_of_isSound config hsound, ← ClassTables.ofValue_eq_error_iff]
    cases ClassTables.ofValue definition.propMaps with
    | error e' => simp [hsound, Except.map]
    | ok tables => simp [Except.map]
  · simp [compile_of_not_isSound config hsound, hsound]

/-- **What a compilation gives**: the errors and the warnings, in the order in which they were
found, and a theme if and only if there are no errors. -/
theorem compile_eq_ok {definition : Definition} {config : Config} {result : Compilation}
    (h : definition.compile config = .ok result) :
    result.errors = definition.errors config ∧ result.warnings = definition.warnings config ∧
      (result.theme = none ↔ ∃ f ∈ definition.findings config, f.isError = true) := by
  rw [exists_isError_iff]
  by_cases hsound : definition.IsSound
  · rw [compile_of_isSound config hsound] at h
    cases htables : ClassTables.ofValue definition.propMaps with
    | error e =>
      rw [htables] at h
      cases h
    | ok tables =>
      rw [htables] at h
      cases h
      simp [hsound, (errors_eq_nil_iff definition config).2 hsound]
  · rw [compile_of_not_isSound config hsound] at h
    cases h
    simp [hsound]

/-- **Compilation of data.**  The definition that decoded data gives is compiled — with its errors
and warnings in order, and with a theme if and only if there are no errors — exactly when it has
errors or its class tables, where they are given, can be read. -/
theorem compile_ofMapping_iff (data : Mapping Value) (config : Config) :
    (∃ result : Compilation, (ofMapping data).compile config = .ok result ∧
      result.errors = ((ofMapping data).findings config).filter Finding.isError ∧
      result.warnings = ((ofMapping data).findings config).filter (!·.isError) ∧
      (result.theme = none ↔ ∃ f ∈ (ofMapping data).findings config, f.isError = true)) ↔
    ((ofMapping data).IsSound →
      ∀ tables, either data "propMaps" "prop_maps" = some tables → ¬tables.IsNoTables) := by
  have hpropMaps : (ofMapping data).propMaps.IsNoTables ↔
      ∃ tables, either data "propMaps" "prop_maps" = some tables ∧ tables.IsNoTables := by
    show ((either data "propMaps" "prop_maps").getD .null).IsNoTables ↔ _
    cases either data "propMaps" "prop_maps" with
    | none => simp [Value.IsNoTables, Value.truthy]
    | some tables => simp
  constructor
  · rintro ⟨result, hok, -⟩ hsound tables heither hnone
    have herror : (ofMapping data).compile config = .error ⟨(ofMapping data).propMaps.kind⟩ :=
      (compile_eq_error_iff _ config _).2 ⟨hsound, hpropMaps.2 ⟨tables, heither, hnone⟩, rfl⟩
    rw [hok] at herror
    cases herror
  · intro h
    cases hcompile : (ofMapping data).compile config with
    | ok result => exact ⟨result, rfl, compile_eq_ok hcompile⟩
    | error e =>
      obtain ⟨hsound, hnone, -⟩ := (compile_eq_error_iff _ config e).1 hcompile
      obtain ⟨tables, heither, htables⟩ := hpropMaps.1 hnone
      exact absurd htables (h hsound tables heither)

/-- Class tables in a list are only advised on, and yet they keep a theme from being compiled. -/
theorem compile_tables_in_list :
    (∀ f ∈ (ofMapping (.ofList [("name", .text "n"), ("propMaps", .list [.int 1])])).findings {},
      f.isError = false) ∧
    (ofMapping (.ofList [("name", .text "n"), ("propMaps", .list [.int 1])])).compile {} =
      .error ⟨"list"⟩ := by
  have hsound : (ofMapping (.ofList [("name", .text "n"), ("propMaps", .list [.int 1])])).IsSound :=
    ⟨by decide, by decide, by decide⟩
  constructor
  · intro f hf
    cases herror : f.isError with
    | false => rfl
    | true => exact absurd hsound ((exists_isError_iff _ {}).1 ⟨f, hf, herror⟩)
  · exact (compile_eq_error_iff _ {} _).2 ⟨hsound, ⟨rfl, rfl⟩, rfl⟩

end Definition

end StyleCascade
