import StyleCascade.Check.Selectors
import StyleCascade.Proofs.CascadeValues
import StyleCascade.Proofs.Weights

/-!
# Selectors with one target

Selectors that aim at one target are reported together, with the advice that the later declaration
wins.  Yet a cascade goes by weight first, and a selector can weigh more than its target asks for:
of several contexts, identifiers or states only the first counts for the target.

* `Definition.duplicateGroups` — the groups of selectors that are reported; `duplicates_eq`.
* `LaterWins` — entries of which a later one wins over an earlier one.
* `laterWins_iff_layers` — so it is if and only if the cascade keeps the order of declaration.
* `weightOf_eq_of_target_eq` — selectors that name no context and no identifier twice weigh the same
  if they have one target.
* `laterWins_iff_weight_le` — among the selectors of a group the later declaration wins, whatever
  properties they have, if and only if the weights do not fall.
-/

namespace StyleCascade

open StyleCascade.Selector

/-! ## Groups -/

/-- Items that are kept with their keys are some of all, in their order. -/
theorem map_snd_filterMap_sublist {α β : Type} (p : α → Bool) (key : α → β) (l : List α) :
    ((l.filterMap fun a => if p a then some (key a, a) else none).map Prod.snd).Sublist l := by
  induction l with
  | nil => exact .slnil
  | cons a rest ih =>
    rw [List.filterMap_cons]
    cases p a with
    | false => exact ih.cons a
    | true => exact ih.cons_cons a

theorem map_snd_keyedSelectors_sublist (config : Config) (selectors : List String) :
    ((keyedSelectors config selectors).map Prod.snd).Sublist selectors :=
  map_snd_filterMap_sublist
    (fun s => (lenientTarget config.knownContexts config.defaultComponent s).attributes.isEmpty)
    (fun s => (lenientTarget config.knownContexts config.defaultComponent s).key) selectors

/-- The groups of selectors with one target, each with the key of the target. -/
def Definition.duplicateGroups (definition : Definition) (config : Config) :
    List (String × List String) :=
  (Mapping.group (keyedSelectors config definition.selectors)).entries.filter
    fun (_, selectors) => 1 < selectors.length

/-- What is reported about a group. -/
def duplicateFinding : String × List String → Finding := fun (key, selectors) =>
  { check := "check_duplicate_targets"
    severity := .warning
    message := "Multiple overrides target " ++ inQuotes key ++ ": " ++
      ", ".intercalate selectors ++ "."
    selector := selectors.getLast?
    fix := some "Consolidate them; the later declaration wins." }

/-- Each group is reported, in one finding. -/
theorem duplicates_eq (definition : Definition) (config : Config) :
    Check.duplicates definition config =
      (definition.duplicateGroups config).map duplicateFinding := by
  rw [Definition.duplicateGroups, ← List.filterMap_eq_map, List.filterMap_filter]
  simp only [Check.duplicates, decide_eq_true_eq]
  rfl

/-- The selectors of a group stand in the order in which they were declared. -/
theorem sublist_names_of_mem_duplicateGroups {definition : Definition} {config : Config}
    {key : String} {group : List String} (h : (key, group) ∈ definition.duplicateGroups config) :
    group.Sublist definition.overrides.names := by
  have hget := Mapping.get?_eq_some_iff.2 (List.mem_filter.1 h).1
  have hgroup := Mapping.getD_get?_group (keyedSelectors config definition.selectors) key
  rw [hget, Option.getD_some] at hgroup
  rw [hgroup]
  exact ((List.filter_sublist.map Prod.snd).trans
    (map_snd_keyedSelectors_sublist config definition.selectors)).trans List.filter_sublist

/-! ## Entries -/

/-- A list without repetitions holds a part of it in one place only. -/
theorem filter_contains_of_sublist {part whole : List String} (h : part.Sublist whole)
    (hnodup : whole.Nodup) : whole.filter (part.contains ·) = part := by
  have hself : part.filter (part.contains ·) = part :=
    List.filter_eq_self.2 fun s hs => List.contains_iff_mem.2 hs
  have hsublist := h.filter (part.contains ·)
  rw [hself] at hsublist
  have hperm : (whole.filter (part.contains ·)).Perm part := by
    refine (List.perm_ext_iff_of_nodup (hnodup.filter _) (hnodup.sublist h)).2 fun s => ?_
    rw [List.mem_filter, List.contains_iff_mem]
    exact and_iff_right_of_imp fun hs => h.subset hs
  exact (hsublist.eq_of_length hperm.length_eq.symm).symm

/-- The entries of some selectors, in the order in which they were declared. -/
def entriesOf (overrides : Mapping Value) (group : List String) : List (String × Value) :=
  overrides.entries.filter (group.contains ·.1)

theorem fst_mem_of_mem_entriesOf {overrides : Mapping Value} {group : List String}
    {e : String × Value} (h : e ∈ entriesOf overrides group) : e.1 ∈ group :=
  List.contains_iff_mem.1 (List.mem_filter.1 h).2

theorem map_fst_entriesOf {overrides : Mapping Value} {group : List String}
    (h : group.Sublist overrides.names) : (entriesOf overrides group).map Prod.fst = group := by
  have hfilter : (entriesOf overrides group).map Prod.fst =
      overrides.names.filter (group.contains ·) := by
    rw [Mapping.names, List.filter_map]
    rfl
  rw [hfilter, filter_contains_of_sublist h overrides.nodup]

/-- The rule of a selector with its properties. -/
def ruleOf (config : Config) (e : String × Value) : Rule :=
  Rule.compile config.knownContexts config.defaultComponent e.1 e.2

/-- The weight of a selector, with its shorthands expanded. -/
def weightOf (config : Config) (selector : String) : Nat :=
  specificity (normalize config.knownContexts selector)

/-- The value that an entry gives a property. -/
def valueOf? (name : String) (e : String × Value) : Option Value :=
  e.2.asMapping?.bind (·.get? name)

theorem get?_props_ruleOf (config : Config) (name : String) (e : String × Value) :
    (ruleOf config e).props.get? name = valueOf? name e := by
  rw [valueOf?]
  show (e.2.asMapping?.getD ∅).get? name = _
  cases e.2.asMapping? with
  | none => rfl
  | some props => rfl

theorem valuesOf_map_ruleOf (config : Config) (name : String) (entries : List (String × Value)) :
    valuesOf name (entries.map (ruleOf config)) = entries.filterMap (valueOf? name) := by
  rw [valuesOf, List.filterMap_map]
  congr 1
  funext e
  exact get?_props_ruleOf config name e

/-! ## Later declarations -/

/-- Entries of which a later one wins over an earlier one: the answer that they give to a query has
for each property, but for class names and `ui`, the value of the last entry with the property. -/
def LaterWins (config : Config) (tables : ClassTables) (q : Query)
    (entries : List (String × Value)) : Prop :=
  ∃ props, resolve tables (compileAll config.knownContexts config.defaultComponent entries) q =
      .ok props ∧
    ∀ name, name ≠ "class" → name ≠ "ui" →
      props.get? name = (entries.filterMap (valueOf? name)).getLast?

/-- Whether a query is matched by a selector. -/
def MatchedBy (config : Config) (q : Query) (selector : String) : Prop :=
  (ruleOf config (selector, .null)).appliesTo q = .ok true

instance (config : Config) (q : Query) (selector : String) :
    Decidable (MatchedBy config q selector) :=
  inferInstanceAs (Decidable (_ = _))

/-- Which queries a rule applies to does not depend on its properties. -/
theorem Rule.appliesTo_of_target_eq {rule rule' : Rule} (h : rule.target = rule'.target)
    (q : Query) : rule.appliesTo q = rule'.appliesTo q := by
  rw [Rule.appliesTo, Rule.appliesTo, h]

theorem MatchedBy.appliesTo {config : Config} {q : Query} {e : String × Value}
    (h : MatchedBy config q e.1) : (ruleOf config e).appliesTo q = .ok true := by
  have htarget : (ruleOf config e).target = (ruleOf config (e.1, .null)).target := rfl
  rw [Rule.appliesTo_of_target_eq htarget]
  exact h

section Matched

variable {config : Config} {q : Query} {entries : List (String × Value)}

/-- Where all entries match, the answer is the cascade of their rules. -/
theorem resolve_compileAll (hmanaged : q.managed = true)
    (hmatched : ∀ e ∈ entries, MatchedBy config q e.1) (tables : ClassTables) :
    resolve tables (compileAll config.knownContexts config.defaultComponent entries) q =
      .ok (cascade (entries.map (ruleOf config))) := by
  have happlies : ∀ rule ∈ entries.map (ruleOf config), rule.appliesTo q = .ok true := by
    intro rule hrule
    obtain ⟨e, he, rfl⟩ := List.mem_map.1 hrule
    exact (hmatched e he).appliesTo
  have hselects : (entries.map (ruleOf config)).filter (Rule.selects q) =
      entries.map (ruleOf config) := by
    refine List.filter_eq_self.2 fun rule hrule => ?_
    rw [Rule.selects, happlies rule hrule]
  have hmatching :
      matching q (entries.map (ruleOf config)) = .ok (entries.map (ruleOf config)) := by
    refine matching_eq_ok_iff.2 ⟨fun rule hrule => ?_, hselects.symm⟩
    rw [happlies rule hrule]
    rfl
  show resolve tables (bySpecificity (entries.map (ruleOf config))) q = _
  rw [resolve, matching_bySpecificity_of_ok hmatching]
  show Except.ok (finish tables q _) = _
  rw [finish, hmanaged, cascade_filter_bySpecificity, hselects]
  rfl

/-- The later entry wins if and only if laying the rules over each other by weight leaves the last
value of each property the last one. -/
theorem laterWins_iff_layers (hmanaged : q.managed = true)
    (hmatched : ∀ e ∈ entries, MatchedBy config q e.1) (tables : ClassTables) :
    LaterWins config tables q entries ↔ ∀ name, name ≠ "class" → name ≠ "ui" →
      (valuesOf name (byRisingSpecificity (entries.map (ruleOf config)))).getLast? =
        (entries.filterMap (valueOf? name)).getLast? := by
  have hcascade := isCascade_cascade (entries.map (ruleOf config))
  rw [LaterWins, resolve_compileAll hmanaged hmatched]
  constructor
  · rintro ⟨props, hprops, hlater⟩ name hclass hui
    cases hprops
    rw [← hcascade.replaced name hclass hui]
    exact hlater name hclass hui
  · intro hlayers
    refine ⟨_, rfl, fun name hclass hui => ?_⟩
    rw [hcascade.replaced name hclass hui]
    exact hlayers name hclass hui

/-- Where the weights do not fall, the order of declaration is the one of the cascade. -/
theorem laterWins_of_weight_le (hmanaged : q.managed = true)
    (hmatched : ∀ e ∈ entries, MatchedBy config q e.1) (tables : ClassTables)
    (hweights : (entries.map Prod.fst).Pairwise (weightOf config · ≤ weightOf config ·)) :
    LaterWins config tables q entries := by
  have hsorted : (entries.map (ruleOf config)).Pairwise (·.specificity ≤ ·.specificity) := by
    rw [List.pairwise_map] at hweights ⊢
    refine hweights.imp fun {e e'} h => ?_
    show ((weightOf config e.1 : Nat) : Int) ≤ ((weightOf config e'.1 : Nat) : Int)
    omega
  have hlayers : byRisingSpecificity (entries.map (ruleOf config)) = entries.map (ruleOf config) :=
    sortBy_eq_self hsorted
  rw [laterWins_iff_layers hmanaged hmatched]
  intro name _ _
  rw [hlayers, valuesOf_map_ruleOf]

end Matched

/-! ## Weights of selectors with one target -/

/-- **One target, one weight.**  Of selectors of the grammar that name no context and no identifier
twice, those with one target weigh the same. -/
theorem weightOf_eq_of_target_eq {config : Config} {s s' : String} {c c' : Compound}
    (hs : parseCompound s = .ok c) (honce : c.NamesOnce config.knownContexts)
    (hs' : parseCompound s' = .ok c') (honce' : c'.NamesOnce config.knownContexts)
    (htarget : (ruleOf config (s, .null)).target = (ruleOf config (s', .null)).target) :
    weightOf config s = weightOf config s' := by
  have hsame : lenientTarget config.knownContexts config.defaultComponent s =
      lenientTarget config.knownContexts config.defaultComponent s' := htarget
  rw [weightOf, weightOf, specificity_of_namesOnce hs honce,
    specificity_of_namesOnce hs' honce', hsame]

/-! ## Selectors that can be told apart -/

/-- A selector with its own text as a property, if it is a chosen one, and without properties
else. -/
def tagged (chosen : List String) (selector : String) : String × Value :=
  (selector, if chosen.contains selector then .mapping [("x", .text selector)] else .mapping [])

theorem valueOf?_tagged (chosen : List String) (selector : String) :
    valueOf? "x" (tagged chosen selector) =
      if chosen.contains selector then some (.text selector) else none := by
  rw [tagged]
  split
  · rfl
  · rfl

/-- Overrides of the same selectors that tell the chosen ones apart. -/
def taggedOverrides (overrides : Mapping Value) (chosen : List String) : Mapping Value where
  entries := overrides.names.map (tagged chosen)
  nodup := by
    rw [List.map_map]
    exact (List.map_id overrides.names).symm ▸ overrides.nodup

theorem names_taggedOverrides (overrides : Mapping Value) (chosen : List String) :
    (taggedOverrides overrides chosen).names = overrides.names := by
  rw [Mapping.names, taggedOverrides, List.map_map]
  exact List.map_id overrides.names

theorem entriesOf_taggedOverrides {overrides : Mapping Value} {group : List String}
    (h : group.Sublist overrides.names) (chosen : List String) :
    entriesOf (taggedOverrides overrides chosen) group = group.map (tagged chosen) := by
  rw [entriesOf, taggedOverrides, List.filter_map]
  show (overrides.names.filter (group.contains ·)).map _ = _
  rw [filter_contains_of_sublist h overrides.nodup]

theorem filterMap_valueOf?_tagged (chosen selectors : List String) :
    (selectors.map (tagged chosen)).filterMap (valueOf? "x") =
      (selectors.filter (chosen.contains ·)).map Value.text := by
  induction selectors with
  | nil => rfl
  | cons selector rest ih =>
    rw [List.map_cons, List.filterMap_cons, valueOf?_tagged, List.filter_cons]
    cases chosen.contains selector with
    | false => exact ih
    | true => exact congrArg (Value.text selector :: ·) ih

theorem byRisingSpecificity_map_tagged (config : Config) (chosen selectors : List String) :
    byRisingSpecificity ((selectors.map (tagged chosen)).map (ruleOf config)) =
      ((sortBy (fun s => (weightOf config s : Int)) selectors).map (tagged chosen)).map
        (ruleOf config) := by
  rw [List.map_map, List.map_map]
  exact (List.map_mergeSort (f := ruleOf config ∘ tagged chosen)
    (s := fun a b => decide (a.specificity ≤ b.specificity)) fun _ _ _ _ => rfl).symm

/-- The chosen selectors are laid over each other by their weights. -/
theorem valuesOf_byRisingSpecificity_tagged (config : Config) {chosen group : List String}
    (h : chosen.Sublist group) (hnodup : group.Nodup) :
    valuesOf "x" (byRisingSpecificity ((group.map (tagged chosen)).map (ruleOf config))) =
      (sortBy (fun s => (weightOf config s : Int)) chosen).map Value.text := by
  rw [byRisingSpecificity_map_tagged, valuesOf_map_ruleOf, filterMap_valueOf?_tagged,
    filter_sortBy, filter_contains_of_sublist h hnodup]

/-- Among the selectors of a group the later declaration wins, whatever properties they are given,
if and only if none of them weighs less than one that was declared before it. -/
theorem laterWins_iff_pairwise_weight_le {definition : Definition} {config : Config} {key : String}
    {group : List String} (hgroup : (key, group) ∈ definition.duplicateGroups config) {q : Query}
    (hmanaged : q.managed = true) (hmatched : ∀ selector ∈ group, MatchedBy config q selector)
    (tables : ClassTables) :
    (∀ overrides : Mapping Value, overrides.names = definition.overrides.names →
      LaterWins config tables q (entriesOf overrides group)) ↔
    group.Pairwise (weightOf config · ≤ weightOf config ·) := by
  have hsublist := sublist_names_of_mem_duplicateGroups hgroup
  have hnodup : group.Nodup := definition.overrides.nodup.sublist hsublist
  have hentries : ∀ overrides : Mapping Value, ∀ e ∈ entriesOf overrides group,
      MatchedBy config q e.1 := by
    intro overrides e he
    exact hmatched e.1 (fst_mem_of_mem_entriesOf he)
  constructor
  · intro hlater
    refine List.pairwise_iff_forall_sublist.2 fun {a b} hab => ?_
    -- only `a` and `b` are given a property, so `b` has to be the last one after the sort
    have htagged := hlater (taggedOverrides definition.overrides [a, b])
      (names_taggedOverrides _ _)
    rw [laterWins_iff_layers hmanaged (hentries _), entriesOf_taggedOverrides hsublist] at htagged
    have hx := htagged "x" (by decide) (by decide)
    rw [valuesOf_byRisingSpecificity_tagged config hab hnodup, filterMap_valueOf?_tagged,
      filter_contains_of_sublist hab hnodup, List.getLast?_map] at hx
    have hlast : (sortBy (fun s => (weightOf config s : Int)) [a, b]).getLast? = some b := by
      obtain ⟨s, hs, htext⟩ := Option.map_eq_some_iff.1 hx
      cases htext
      exact hs
    have hle := le_weight_of_getLast?_sortBy (List.mem_cons_self : a ∈ [a, b]) hlast
    omega
  · intro hweights overrides hnames
    refine laterWins_of_weight_le hmanaged (hentries overrides) tables ?_
    rw [map_fst_entriesOf (hnames ▸ hsublist)]
    exact hweights

/-- **Among the selectors of a group the later declaration wins**, whatever properties they are
given, if and only if none of them weighs less than one that was declared before it.  So it does
among selectors of the grammar with one target that name no context and no identifier twice. -/
theorem laterWins_iff_weight_le {definition : Definition} {config : Config} {key : String}
    {group : List String} (hgroup : (key, group) ∈ definition.duplicateGroups config) {q : Query}
    (hmanaged : q.managed = true) (hmatched : ∀ selector ∈ group, MatchedBy config q selector)
    (tables : ClassTables) :
    ((∀ overrides : Mapping Value, overrides.names = definition.overrides.names →
      LaterWins config tables q (entriesOf overrides group)) ↔
    group.Pairwise (weightOf config · ≤ weightOf config ·)) ∧
    ((∀ selector ∈ group, ∃ c, parseCompound selector = .ok c ∧
        c.NamesOnce config.knownContexts) →
      (∀ s ∈ group, ∀ s' ∈ group,
        (ruleOf config (s, .null)).target = (ruleOf config (s', .null)).target) →
      ∀ overrides : Mapping Value, overrides.names = definition.overrides.names →
        LaterWins config tables q (entriesOf overrides group)) := by
  have hiff := laterWins_iff_pairwise_weight_le hgroup hmanaged hmatched tables
  refine ⟨hiff, fun honce htarget => hiff.2 ?_⟩
  refine List.pairwise_of_forall_mem_list fun s hs s' hs' => ?_
  obtain ⟨c, hparse, hnames⟩ := honce s hs
  obtain ⟨c', hparse', hnames'⟩ := honce s' hs'
  exact (weightOf_eq_of_target_eq hparse hnames hparse' hnames' (htarget s hs s' hs')).le

/-- The same context as a shorthand and as a clause: the weights are equal, and the later
declaration wins. -/
theorem laterWins_iff_weight_le_chat :
    let definition : Definition :=
      { name := "n"
        overrides := .ofList [("button.chat", .mapping [("a", .int 1)]), ("button", .null),
          ("button[data-context=\"chat\"]", .mapping [("a", .int 2)])] }
    let group := ["button.chat", "button[data-context=\"chat\"]"]
    let q : Query := { component := "button", context := some "chat", managed := true }
    ("button:chat::", group) ∈ definition.duplicateGroups {} ∧ q.managed = true ∧
      (∀ selector ∈ group, MatchedBy {} q selector) ∧
      (∀ selector ∈ group, ∃ c, parseCompound selector = .ok c ∧
        c.NamesOnce ({} : Config).knownContexts) ∧
      (∀ s ∈ group, ∀ s' ∈ group,
        (ruleOf {} (s, .null)).target = (ruleOf {} (s', .null)).target) ∧
      (∀ overrides : Mapping Value, overrides.names = definition.overrides.names →
        LaterWins {} standardTables q (entriesOf overrides group)) ∧
      group.Pairwise (weightOf {} · ≤ weightOf {} ·) := by
  intro definition group q
  have hgroup : ("button:chat::", group) ∈ definition.duplicateGroups {} := by decide +kernel
  have hmatched : ∀ selector ∈ group, MatchedBy {} q selector := by decide +kernel
  have honce : ∀ selector ∈ group, ∃ c, parseCompound selector = .ok c ∧
      c.NamesOnce ({} : Config).knownContexts := by
    refine List.forall_mem_cons.2 ⟨?_, List.forall_mem_singleton.2 ?_⟩
    · exact ⟨⟨"button", [.context "chat"], [], none⟩, eq_ok_of_toOption (by decide +kernel),
        by decide +kernel, by decide +kernel, by decide⟩
    · exact ⟨⟨"button", [], [⟨"data-context", .equals, some "chat"⟩], none⟩,
        eq_ok_of_toOption (by decide +kernel), by decide +kernel, by decide +kernel, by decide⟩
  have htarget : ∀ s ∈ group, ∀ s' ∈ group,
      (ruleOf {} (s, .null)).target = (ruleOf {} (s', .null)).target := by decide +kernel
  obtain ⟨hiff, hwins⟩ := laterWins_iff_weight_le hgroup rfl hmatched standardTables
  have hlater := hwins honce htarget
  exact ⟨hgroup, rfl, hmatched, honce, htarget, hlater, hiff.1 hlater⟩

/-- A second context adds to the weight and not to the target, so the later declaration loses. -/
theorem not_laterWins_sidebar :
    let definition : Definition :=
      { name := "n"
        overrides := .ofList [("button.chat.sidebar", .mapping [("a", .int 1)]),
          ("button.chat", .mapping [("a", .int 2)])] }
    let group := ["button.chat.sidebar", "button.chat"]
    let q : Query := { component := "button", context := some "chat", managed := true }
    ("button:chat::", group) ∈ definition.duplicateGroups {} ∧ q.managed = true ∧
      (∀ selector ∈ group, MatchedBy {} q selector) ∧
      ¬LaterWins {} standardTables q (entriesOf definition.overrides group) := by
  intro definition group q
  have hgroup : ("button:chat::", group) ∈ definition.duplicateGroups {} := by decide +kernel
  have hmatched : ∀ selector ∈ group, MatchedBy {} q selector := by decide +kernel
  have hentries : ∀ e ∈ entriesOf definition.overrides group, MatchedBy {} q e.1 :=
    fun e he => hmatched e.1 (fst_mem_of_mem_entriesOf he)
  refine ⟨hgroup, rfl, hmatched, fun hlater => ?_⟩
  rw [laterWins_iff_layers rfl hentries] at hlater
  have hrules : (entriesOf definition.overrides group).map (ruleOf {}) =
      [ruleOf {} ("button.chat.sidebar", .mapping [("a", .int 1)]),
        ruleOf {} ("button.chat", .mapping [("a", .int 2)])] := rfl
  have ha := congrArg (Option.map Value.display) (hlater "a" (by decide) (by decide))
  rw [hrules, byRisingSpecificity_eq_sortBy, sortBy_cons_of_forall_lt (by decide +kernel),
    sortBy_eq_self (List.pairwise_singleton _ _)] at ha
  revert ha
  decide +kernel

end StyleCascade
