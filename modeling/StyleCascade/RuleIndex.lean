import StyleCascade.Rule
import StyleCascade.Value.Mapping

/-!
# Rules by component

A query is put to the rules of its component only, so these are looked up and not searched for.

* `rulesByComponent` — the rules of each component, in their order.
* `componentsWithClauses` — the components of which some rule has attribute clauses.
* `getD_get?_rulesByComponent`, `mem_componentsWithClauses` — what is found there is what a search
  through all rules would find.
-/

namespace StyleCascade

/-- Rules by the component that they aim at; those of one component stay in their order. -/
def rulesByComponent (rules : List Rule) : Mapping (List Rule) :=
  .group (rules.map fun rule => (rule.target.component, rule))

/-- The components of which some rule has attribute clauses. -/
def componentsWithClauses (rules : List Rule) : List String :=
  rules.foldl
    (fun found rule =>
      if rule.target.attributes.isEmpty then found else found.insert rule.target.component) []

/-! ## Small facts -/

/-- The rules filed under a component are those among all rules that aim at it. -/
theorem getD_get?_rulesByComponent (rules : List Rule) (component : String) :
    ((rulesByComponent rules).get? component).getD [] =
      rules.filter (·.target.component == component) := by
  rw [rulesByComponent, Mapping.getD_get?_group, List.filter_map, List.map_map]
  exact List.map_id _

/-- A component is found if it was there or one of the rules has clauses for it. -/
theorem mem_foldl_insert_component {rules : List Rule} {found : List String} {component : String} :
    component ∈ rules.foldl
        (fun found rule =>
          if rule.target.attributes.isEmpty then found else found.insert rule.target.component)
        found ↔
      component ∈ found ∨
        ∃ rule ∈ rules, rule.target.component = component ∧ rule.target.attributes ≠ [] := by
  induction rules generalizing found with
  | nil => simp
  | cons rule rest ih =>
    rw [List.foldl_cons, ih]
    cases hattr : rule.target.attributes with
    | nil => simp [hattr]
    | cons clause clauses =>
      simp only [List.isEmpty_cons, Bool.false_eq_true, if_false, List.mem_insert_iff,
        List.mem_cons, exists_eq_or_imp, hattr, ne_eq, reduceCtorEq, not_false_eq_true, and_true,
        eq_comm (a := component)]
      rw [or_assoc, or_left_comm]

theorem mem_componentsWithClauses {rules : List Rule} {component : String} :
    component ∈ componentsWithClauses rules ↔
      ∃ rule ∈ rules, rule.target.component = component ∧ rule.target.attributes ≠ [] := by
  rw [componentsWithClauses, mem_foldl_insert_component]
  exact or_iff_right List.not_mem_nil

end StyleCascade
