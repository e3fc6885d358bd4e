import StyleCascade.Proofs.Answers
import StyleCascade.Proofs.Mappings
import Mathlib.Data.List.DropRight

/-!
# What a cascade gives

Rules laid over each other are many small cascades side by side, one for each property: what
becomes of a property is told by the values that the rules give it, in order, and by nothing
else.  For each way of combining values the outcome has a closed form.

* `valuesOf` — the values that rules give a property.
* `get?_cascade` — properties do not interfere.
* `combineAll_of_replace`, `combineAll_class`, `combineAll_ui` — the closed forms: the last value,
  the class names of all of them, and the entries behind the last value that is no mapping.
* `get?_overlaid` — mappings laid over each other, name by name.
* `RisingOrder`, `IsCascade` — rules in the order in which they are laid over each other, and what
  they give together.
* `resolve_isCascade` — a query of an instance that understands the theme's own properties is
  answered with the cascade of the rules that apply to it.
-/

namespace StyleCascade

/-! ## Texts that are not empty -/

theorem Double.exponentText_ne_empty (e : Int) : Double.exponentText e ≠ "" := by
  rw [Double.exponentText]
  split <;> simp

theorem Double.magnitudeText_ne_empty (d : DecimalDigits) : Double.magnitudeText d ≠ "" := by
  simp only [Double.magnitudeText]
  split
  · split
    · simp
    · split
      · simp
      · simp
  · simp [Double.exponentText_ne_empty]

theorem Double.text_ne_empty (x : Double) : x.text ≠ "" := by
  cases x with
  | finite negative m e =>
    have hmagnitude : (if m == 0 then "0.0" else magnitudeText (shortest m e)) ≠ "" := by
      split
      · simp
      · exact Double.magnitudeText_ne_empty _
    rw [Double.text]
    intro hempty
    exact hmagnitude (String.append_eq_empty_iff.1 hempty).2
  | infinite negative => cases negative <;> simp [Double.text]
  | nan => simp [Double.text]

theorem toString_int_ne_empty (n : Int) : toString n ≠ "" := by
  show n.repr ≠ ""
  cases n with
  | ofNat m => exact Nat.repr_ne_empty
  | negSucc m => simp [Int.repr]

/-- The text of a value that counts as given is not empty. -/
theorem Value.display_ne_empty {v : Value} (h : v.truthy = true) : v.display ≠ "" := by
  cases v with
  | null => cases h
  | bool b =>
    cases h
    decide
  | int n => exact toString_int_ne_empty n
  | float x => exact Double.text_ne_empty x
  | text s => simpa [truthy] using h
  | list items => simp [display, literal]
  | mapping entries => simp [display, literal]

/-! ## One property of many rules -/

/-- The values that rules give a property, in the order of the rules. -/
def valuesOf (name : String) (rules : List Rule) : List Value :=
  rules.filterMap (·.props.get? name)

/-- The value of a property after further values, each combined with the one so far. -/
def combineAll (name : String) (current : Option Value) (values : List Value) : Option Value :=
  values.foldl (fun current v => some (combine (.ofName name) current v)) current

@[simp] theorem combineAll_nil (name : String) (current : Option Value) :
    combineAll name current [] = current := rfl

@[simp] theorem combineAll_singleton (name : String) (current : Option Value) (v : Value) :
    combineAll name current [v] = some (combine (.ofName name) current v) := rfl

theorem combineAll_append (name : String) (current : Option Value) (values more : List Value) :
    combineAll name current (values ++ more) =
      combineAll name (combineAll name current values) more :=
  List.foldl_append

theorem valuesOf_cons (name : String) (rule : Rule) (rules : List Rule) :
    valuesOf name (rule :: rules) = (rule.props.get? name).toList ++ valuesOf name rules := by
  rw [valuesOf, List.filterMap_cons]
  cases rule.props.get? name <;> rfl

theorem valuesOf_eq_nil_iff {name : String} {rules : List Rule} :
    valuesOf name rules = [] ↔ ∀ rule ∈ rules, rule.props.get? name = none :=
  List.filterMap_eq_nil_iff

/-- Entries with different names do not interfere. -/
theorem get?_foldl_addProp {entries : List (String × Value)}
    (hnodup : (entries.map Prod.fst).Nodup) (props : Props) (name : String) :
    (entries.foldl addProp props).get? name =
      combineAll name (props.get? name) (entries.lookup name).toList := by
  induction entries generalizing props with
  | nil => rfl
  | cons e rest ih =>
    obtain ⟨n, v⟩ := e
    rw [List.map_cons, List.nodup_cons] at hnodup
    rw [List.foldl_cons, ih hnodup.2, get?_addProp, Entries.lookup_cons]
    by_cases hn : name = n
    · subst hn
      have hrest : rest.lookup name = none := Entries.lookup_of_not_mem hnodup.1
      rw [if_pos rfl, if_pos rfl, hrest]
      rfl
    · rw [if_neg hn, if_neg hn]

/-- **One rule.**  A rule combines the value that it gives a property with the one so far, and
leaves the properties alone that it does not give. -/
theorem get?_addRule (props : Props) (rule : Rule) (name : String) :
    (addRule props rule).get? name =
      combineAll name (props.get? name) (rule.props.get? name).toList :=
  get?_foldl_addProp rule.props.nodup props name

/-- **Many rules.**  What becomes of a property is told by the values that the rules give it. -/
theorem get?_foldl_addRule (rules : List Rule) (props : Props) (name : String) :
    (rules.foldl addRule props).get? name =
      combineAll name (props.get? name) (valuesOf name rules) := by
  induction rules generalizing props with
  | nil => rfl
  | cons rule rest ih =>
    rw [List.foldl_cons, ih, get?_addRule, valuesOf_cons, combineAll_append]

theorem get?_cascade (rules : List Rule) (name : String) :
    (cascade rules).get? name = combineAll name none (valuesOf name (byRisingSpecificity rules)) :=
  get?_foldl_addRule _ ∅ name

/-! ## Closed forms -/

/-- Where values replace each other the last one is left. -/
theorem combineAll_of_replace {name : String} (h : MergeMode.ofName name = .replace)
    (values : List Value) : combineAll name none values = values.getLast? := by
  rcases values.eq_nil_or_concat with rfl | ⟨init, v, rfl⟩
  · rfl
  · rw [List.concat_eq_append, combineAll_append, combineAll_singleton, h,
      List.getLast?_concat]
    rfl

theorem mergeMode_ofName {name : String} (hclass : name ≠ "class") (hui : name ≠ "ui") :
    MergeMode.ofName name = .replace := by
  rw [MergeMode.ofName, if_neg hclass, if_neg hui]

/-! ### Class names -/

theorem classText_eq_empty_iff {parts : List Value} :
    classText parts = "" ↔ parts.filter Value.truthy = [] := by
  rw [classText]
  cases hgiven : parts.filter Value.truthy with
  | nil => simp
  | cons v vs =>
    have hv : v.truthy = true :=
      (List.mem_filter.1 (hgiven ▸ List.mem_cons_self : v ∈ parts.filter Value.truthy)).2
    have hdisplay := Value.display_ne_empty hv
    cases vs with
    | nil => simpa using hdisplay
    | cons w ws => simp [String.intercalate_cons_cons, hdisplay]

theorem classText_text (s : String) : classText [.text s] = s := by
  by_cases hs : s = ""
  · subst hs
    rfl
  · have hgiven : (Value.text s).truthy = true := by simpa [Value.truthy] using hs
    rw [classText, List.filter_cons_of_pos hgiven]
    exact String.intercalate_singleton

theorem classText_cons_of_false {v : Value} (h : v.truthy = false) (parts : List Value) :
    classText (v :: parts) = classText parts := by
  rw [classText, List.filter_cons_of_neg (by simp [h]), classText]

theorem classText_cons_of_true {v : Value} (h : v.truthy = true) (parts : List Value) :
    classText (v :: parts) =
      if classText parts = "" then v.display else v.display ++ " " ++ classText parts := by
  rw [classText, List.filter_cons_of_pos h]
  by_cases hempty : classText parts = ""
  · rw [if_pos hempty, classText_eq_empty_iff.1 hempty]
    exact String.intercalate_singleton
  · rw [if_neg hempty, classText]
    cases hgiven : parts.filter Value.truthy with
    | nil => exact absurd (classText_eq_empty_iff.2 hgiven) hempty
    | cons w ws => exact String.intercalate_cons_cons

/-- Class names may be joined in portions, from the last one on. -/
theorem classText_text_classText (v : Value) (parts : List Value) :
    classText [v, .text (classText parts)] = classText (v :: parts) := by
  cases hv : v.truthy with
  | false => rw [classText_cons_of_false hv, classText_cons_of_false hv, classText_text]
  | true => rw [classText_cons_of_true hv, classText_cons_of_true hv, classText_text]

theorem classesSoFar_combineAll (values : List Value) :
    classesSoFar (combineAll "class" none values) = .text (classText values.reverse) := by
  induction values using List.reverseRecOn with
  | nil => rfl
  | append_singleton init v ih =>
    rw [combineAll_append, combineAll_singleton]
    show Value.text (classText [v, classesSoFar (combineAll "class" none init)]) = _
    rw [ih, classText_text_classText, List.reverse_append]
    rfl

/-- The class names of all values, those of the last one first. -/
theorem combineAll_class (values : List Value) :
    combineAll "class" none values =
      if values = [] then none else some (.text (classText values.reverse)) := by
  rcases values.eq_nil_or_concat with rfl | ⟨init, v, rfl⟩
  · rfl
  · rw [List.concat_eq_append, if_neg (by simp), ← classesSoFar_combineAll, combineAll_append,
      combineAll_singleton]
    rfl

/-! ### Entries -/

/-- The mappings at the end of a list of values, behind the last value that is none. -/
def lastMappings (values : List Value) : List (Mapping Value) :=
  (values.rtakeWhile (·.asMapping?.isSome)).filterMap Value.asMapping?

/-- Mappings laid over each other, one level deep. -/
def overlaid (mappings : List (Mapping Value)) : Mapping Value :=
  mappings.foldl Mapping.update ∅

/-- **Mappings over each other.**  A name has the value that the last mapping with the name
gives. -/
theorem get?_overlaid (mappings : List (Mapping Value)) (name : String) :
    (overlaid mappings).get? name = (mappings.filterMap (·.get? name)).getLast? := by
  induction mappings using List.reverseRecOn with
  | nil => rfl
  | append_singleton init m ih =>
    rw [overlaid, List.foldl_concat, Mapping.get?_update, ← overlaid, ih, List.filterMap_append,
      List.filterMap_cons]
    cases m.get? name with
    | none => simp
    | some value => simp

theorem lastMappings_concat_of_some {values : List Value} {v : Value} {entries : Mapping Value}
    (h : v.asMapping? = some entries) :
    lastMappings (values ++ [v]) = lastMappings values ++ [entries] := by
  rw [lastMappings, List.rtakeWhile_concat_pos _ _ _ (by rw [h]; rfl), List.filterMap_append]
  simp [h, lastMappings]

theorem lastMappings_concat_of_none {values : List Value} {v : Value}
    (h : v.asMapping? = none) : lastMappings (values ++ [v]) = [] := by
  rw [lastMappings, List.rtakeWhile_concat, h]
  rfl

theorem combine_ui_of_some {v : Value} {entries : Mapping Value} (h : v.asMapping? = some entries)
    (current : Option Value) :
    combine (.ofName "ui") current v =
      .ofMapping (((current.bind Value.asMapping?).getD ∅).update entries) := by
  show mergeEntries current v = _
  rw [mergeEntries, h]

theorem combine_ui_of_none {v : Value} (h : v.asMapping? = none) (current : Option Value) :
    combine (.ofName "ui") current v = v := by
  show mergeEntries current v = _
  rw [mergeEntries, h]

/-- The entries that the next mapping is laid over. -/
theorem entriesSoFar_combineAll (values : List Value) :
    ((combineAll "ui" none values).bind Value.asMapping?).getD ∅ =
      overlaid (lastMappings values) := by
  induction values using List.reverseRecOn with
  | nil => rfl
  | append_singleton init v ih =>
    rw [combineAll_append, combineAll_singleton]
    cases hv : v.asMapping? with
    | none =>
      rw [combine_ui_of_none hv, lastMappings_concat_of_none hv, Option.bind_some, hv]
      rfl
    | some entries =>
      rw [combine_ui_of_some hv, lastMappings_concat_of_some hv, ih, Option.bind_some,
        Value.asMapping?_ofMapping, overlaid, overlaid, List.foldl_concat]
      rfl

/-- The last value, if it is no mapping, or else the mappings at the end laid over each other. -/
theorem combineAll_ui (values : List Value) :
    combineAll "ui" none values = values.getLast?.map fun last =>
      if last.asMapping? = none then last else .ofMapping (overlaid (lastMappings values)) := by
  rcases values.eq_nil_or_concat with rfl | ⟨init, v, rfl⟩
  · rfl
  · rw [List.concat_eq_append, combineAll_append, combineAll_singleton, List.getLast?_concat,
      Option.map_some]
    cases hv : v.asMapping? with
    | none => rw [combine_ui_of_none hv, if_pos rfl]
    | some entries =>
      rw [combine_ui_of_some hv, entriesSoFar_combineAll, lastMappings_concat_of_some hv,
        if_neg (by simp), overlaid, overlaid, List.foldl_concat]

/-! ## Rules over each other -/

/-- The rules of a list in the order in which they are laid over each other: by rising
specificity, and those of one specificity as they come in the list.  No list has two such
orders. -/
structure RisingOrder (rules layers : List Rule) : Prop where
  rising : layers.Pairwise (·.specificity ≤ ·.specificity)
  ties : ∀ k, layers.filter (·.specificity == k) = rules.filter (·.specificity == k)

theorem risingOrder_byRisingSpecificity (rules : List Rule) :
    RisingOrder rules (byRisingSpecificity rules) where
  rising := pairwise_sortBy Rule.specificity rules
  ties k := tier_sortBy Rule.specificity k rules

/-- What rules, the first of them at the bottom, give together. -/
structure IsCascade (layers : List Rule) (props : Props) : Prop where
  /-- The properties are those that some rule gives. -/
  names : ∀ name, name ∈ props.names ↔ ∃ rule ∈ layers, name ∈ rule.props.names
  /-- A property has the value that the topmost rule with the property gives. -/
  replaced : ∀ name, name ≠ "class" → name ≠ "ui" →
    props.get? name = (valuesOf name layers).getLast?
  /-- The class names are those of all rules, from the topmost one down. -/
  classes : "class" ∈ props.names → props.get? "class" = some (.text (" ".intercalate
    (((valuesOf "class" layers).reverse.filter Value.truthy).map Value.display)))
  /-- A value of `ui` that is no mapping covers all below it. -/
  flat : ∀ top ∈ (valuesOf "ui" layers).getLast?, top.asMapping? = none →
    props.get? "ui" = some top
  /-- Mappings of `ui` are laid over each other, down to the first value that is no mapping: a name
  in it has the value that the topmost of these mappings with the name gives. -/
  merged : ∀ top ∈ (valuesOf "ui" layers).getLast?, top.asMapping? ≠ none →
    ∃ entries : Mapping Value, props.get? "ui" = some (.ofMapping entries) ∧
      entries = overlaid (lastMappings (valuesOf "ui" layers)) ∧
      ∀ name, entries.get? name =
        ((lastMappings (valuesOf "ui" layers)).filterMap (·.get? name)).getLast?

theorem combineAll_eq_none_iff {name : String} {values : List Value} :
    combineAll name none values = none ↔ values = [] := by
  rcases values.eq_nil_or_concat with rfl | ⟨init, v, rfl⟩
  · simp
  · rw [List.concat_eq_append, combineAll_append, combineAll_singleton]
    simp

theorem mem_names_cascade {rules : List Rule} {name : String} :
    name ∈ (cascade rules).names ↔
      ∃ rule ∈ byRisingSpecificity rules, name ∈ rule.props.names := by
  have hnone : (cascade rules).get? name = none ↔
      ∀ rule ∈ byRisingSpecificity rules, rule.props.get? name = none := by
    rw [get?_cascade, combineAll_eq_none_iff, valuesOf_eq_nil_iff]
  simp only [Mapping.mem_names_iff, ← Option.isSome_iff_exists, ← Option.ne_none_iff_isSome]
  rw [ne_eq, hnone]
  simp

/-- **What rules give together.** -/
theorem isCascade_cascade (rules : List Rule) :
    IsCascade (byRisingSpecificity rules) (cascade rules) where
  names _ := mem_names_cascade
  replaced name hclass hui := by
    rw [get?_cascade, combineAll_of_replace (mergeMode_ofName hclass hui)]
  classes hmem := by
    obtain ⟨value, hvalue⟩ := Mapping.mem_names_iff.1 hmem
    have hne : valuesOf "class" (byRisingSpecificity rules) ≠ [] := by
      intro hnil
      rw [get?_cascade, hnil] at hvalue
      cases hvalue
    rw [get?_cascade, combineAll_class, if_neg hne, classText]
  flat top htop hflat := by
    rw [get?_cascade, combineAll_ui, htop, Option.map_some, if_pos hflat]
  merged top htop hmapping := by
    refine ⟨_, ?_, rfl, get?_overlaid _⟩
    rw [get?_cascade, combineAll_ui, htop, Option.map_some, if_neg hmapping]

/-! ## Queries whose elements answer -/

theorem Element.NeverFails.satisfies_isOk {e : Element} (h : e.NeverFails)
    (clauses : List AttributeClause) : (e.satisfies clauses).isOk = true := by
  induction clauses with
  | nil => rfl
  | cons clause rest ih =>
    obtain ⟨value, hvalue⟩ := h clause.name
    rw [Element.satisfies, hvalue]
    show (if clause.accepts value then e.satisfies rest else .ok false).isOk = true
    split
    · exact ih
    · rfl

theorem Query.NeverFails.appliesTo_isOk {q : Query} (h : q.NeverFails) (rule : Rule) :
    (rule.appliesTo q).isOk = true := by
  rw [Rule.appliesTo]
  split
  · split
    · rfl
    · rfl
    · rename_i e helement _
      exact (h e helement).satisfies_isOk _
  · rfl

theorem Query.NeverFails.matching_eq {q : Query} (h : q.NeverFails) (rules : List Rule) :
    matching q rules = .ok (rules.filter (Rule.selects q)) :=
  matching_eq_ok_iff.2 ⟨fun rule _ => h.appliesTo_isOk rule, rfl⟩

/-- **The answer to a query.**  An instance that understands the theme's own properties, and whose
element answers, is given the cascade of the rules that apply to it. -/
theorem resolve_isCascade {q : Query} (hmanaged : q.managed = true) (hanswers : q.NeverFails)
    (tables : ClassTables) (rules : List Rule) :
    ∃ layers props, RisingOrder (rules.filter (Rule.selects q)) layers ∧
      resolve tables rules q = .ok props ∧ IsCascade layers props := by
  refine ⟨_, cascade (rules.filter (Rule.selects q)), risingOrder_byRisingSpecificity _, ?_,
    isCascade_cascade _⟩
  rw [resolve, hanswers.matching_eq]
  show Except.ok (finish tables q _) = _
  rw [finish, hmanaged]
  rfl

/-- A button whose element has a type.  The most specific rule comes first in the list; its `ui`
lies over another mapping and takes one of its names, and below both a text for `ui` is covered.
Its list for `class` is written in front of the other class names. -/
theorem resolve_isCascade_button :
    let q : Query :=
      { component := "button"
        element := some (.ofAttributes (.ofList [("type", "submit")]))
        managed := true }
    let rules : List Rule := [
      { selector := "button[type]"
        target := { component := "button", attributes := [⟨"type", .present, none⟩] }
        props := .ofList [("class", .list [.text "a"]), ("ui", .mapping [("ring", .int 2)])]
        specificity := 11 },
      { selector := "input", target := { component := "input" } },
      { selector := "button"
        target := { component := "button" }
        props := .ofList [("class", .text "b"), ("ui", .text "flat"), ("color", .text "red")] },
      { selector := "button"
        target := { component := "button" }
        props := .ofList [("ui", .mapping [("gap", .int 4), ("ring", .int 1)])] }]
    q.managed = true ∧ q.NeverFails ∧
      (rules.filter (Rule.selects q)).map Rule.selector = ["button[type]", "button", "button"] ∧
      ∃ layers props, RisingOrder (rules.filter (Rule.selects q)) layers ∧
        resolve standardTables rules q = .ok props ∧ IsCascade layers props ∧
        props = .ofList [("class", .text "['a'] b"),
          ("ui", .mapping [("gap", .int 4), ("ring", .int 2)]), ("color", .text "red")] := by
  intro q rules
  have hanswers : q.NeverFails := by
    rintro e ⟨⟩
    exact Element.neverFails_ofAttributes _
  have hprops : resolve standardTables rules q = .ok (.ofList [("class", .text "['a'] b"),
      ("ui", .mapping [("gap", .int 4), ("ring", .int 2)]), ("color", .text "red")]) := by
    have hkept : rules.filter (Rule.selects q) = [rules[0], rules[2], rules[3]] := rfl
    have hlayers : byRisingSpecificity [rules[0], rules[2], rules[3]] =
        [rules[2], rules[3], rules[0]] := by
      rw [byRisingSpecificity_eq_sortBy, sortBy_cons_of_forall_lt (by decide +kernel),
        sortBy_eq_self (by decide +kernel)]
      rfl
    rw [resolve, hanswers.matching_eq, hkept]
    show Except.ok (cascade [rules[0], rules[2], rules[3]]) = _
    rw [cascade, hlayers]
    rfl
  obtain ⟨layers, props, horder, hresolve, hcascade⟩ :=
    resolve_isCascade rfl hanswers standardTables rules
  refine ⟨rfl, hanswers, by decide +kernel, layers, props, horder, hresolve, hcascade, ?_⟩
  rw [hresolve] at hprops
  exact Except.ok.inj hprops

end StyleCascade
