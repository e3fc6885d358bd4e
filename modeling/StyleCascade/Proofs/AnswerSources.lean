import StyleCascade.Proofs.CompiledOrder
import StyleCascade.Proofs.Mappings
import StyleCascade.Proofs.ResolverRun

/-!
# Answers that tell where they come from

A resolver may be set to tell with every answer which selectors it comes from.  That adds two
properties and does nothing else.  An answer that tells its selectors is kept under a key that
forgets parts of the query, and it is given to other queries of that key.  They have the same
selectors, so along every run each answer tells those of its own query.

* `withoutSources` — what is left of an answer once the two properties are taken away.
* `Query.standIns`, `SourcesOf` — the selectors that an answer has to tell.
* `TellsSources` — what an answer that tells them has to do with one that does not.
* `Resolver.answers_telling` — two runs that differ only in what is told.
-/

namespace StyleCascade

/-! ## The properties that tell -/

/-- Properties without those that tell where they come from. -/
def withoutSources (props : Props) : Props := (props.erase targetProp).erase matchesProp

theorem withoutSources_withSources (q : Query) (rules : List Rule) (props : Props) :
    withoutSources (withSources q rules props) = withoutSources props := by
  rw [withoutSources, withSources, Mapping.erase_comm, Mapping.erase_insertIfNew,
    Mapping.erase_comm, Mapping.erase_insertIfNew, withoutSources]

theorem get?_withSources_targetProp {props : Props} (h : targetProp ∉ props.names) (q : Query)
    (rules : List Rule) : (withSources q rules props).get? targetProp =
      some (.text ((sourceSelectors q rules).headD "")) := by
  have hne : targetProp ≠ matchesProp := by decide
  rw [withSources, Mapping.get?_insertIfNew, if_neg hne, Mapping.get?_insertIfNew, if_pos rfl,
    Mapping.get?_eq_none_iff.2 h, Option.getD_none]

theorem get?_withSources_matchesProp {props : Props} (h : matchesProp ∉ props.names) (q : Query)
    (rules : List Rule) : (withSources q rules props).get? matchesProp =
      some (.text (",".intercalate (sourceSelectors q rules))) := by
  have hne : matchesProp ≠ targetProp := by decide
  rw [withSources, Mapping.get?_insertIfNew, if_pos rfl, Mapping.get?_insertIfNew, if_neg hne,
    Mapping.get?_eq_none_iff.2 h, Option.getD_none]

/-! ## The selectors that are told -/

/-- The selectors that stand for the rules where none applies: the component with its identifier
and the component with its context, each if the query has one that is not empty, and then the
component by itself. -/
def Query.standIns (q : Query) : List String :=
  let parts := [("#", q.identifier.getD ""), (".", q.context.getD "")]
  (parts.filter (·.2 ≠ "")).map (fun part => q.component ++ part.1 ++ part.2) ++ [q.component]

/-- The selectors that the answer to a query comes from. -/
inductive SourcesOf (theme : Theme) (q : Query) : List String → Prop
  /-- Those of the rules that apply, in their canonical order. -/
  | rules {ordered : List Rule} (hne : ordered ≠ [])
      (horder : CanonicalOrder (theme.rules.filter (Rule.selects q)) ordered) :
      SourcesOf theme q (ordered.map Rule.selector)
  /-- Those that stand for them where there are none. -/
  | standIns (hnone : ∀ rule ∈ theme.rules, rule.selects q = false) :
      SourcesOf theme q q.standIns

theorem fallbackSelectors_eq_standIns (q : Query) : fallbackSelectors q = q.standIns := by
  obtain ⟨component, context, identifier, state, element, managed⟩ := q
  have hparts : [("#", identifier.getD ""), (".", context.getD "")] =
      [("#", identifier.getD "")] ++ [(".", context.getD "")] := rfl
  simp only [fallbackSelectors, Query.standIns, hparts, List.filter_append, List.map_append]
  congr 2
  · cases identifier with
    | none => rfl
    | some name => by_cases hname : name = "" <;> simp [hname]
  · cases context with
    | none => rfl
    | some name => by_cases hname : name = "" <;> simp [hname]

example :
    let q : Query := { component := "button", context := some "chat", identifier := some "send" }
    q.standIns = ["button#send", "button.chat", "button"] := by decide

theorem sourceSelectors_ne_nil (q : Query) (rules : List Rule) : sourceSelectors q rules ≠ [] := by
  rw [sourceSelectors]
  split
  · exact List.append_ne_nil_of_right_ne_nil _ (List.cons_ne_nil _ _)
  · rename_i hrules
    simpa using hrules

theorem sourcesOf_sourceSelectors (theme : Theme) (q : Query) :
    SourcesOf theme q
      (sourceSelectors q (bySpecificity (theme.rules.filter (Rule.selects q)))) := by
  have horder := canonicalOrder_bySpecificity (theme.rules.filter (Rule.selects q))
  rw [sourceSelectors]
  split
  · rename_i hnone
    rw [fallbackSelectors_eq_standIns]
    refine .standIns ?_
    rw [List.isEmpty_iff] at hnone
    rw [hnone] at horder
    simpa using horder.perm.symm.eq_nil
  · rename_i hsome
    refine .rules ?_ horder
    simpa using hsome

/-! ## Two answers to one query -/

/-- What an answer that tells where it comes from has to do with one that does not. -/
structure TellsSources (theme : Theme) (q : Query) (plain telling : Props) : Prop where
  /-- Where the rules fail, there are no properties in either. -/
  failed : ∀ reason, resolve theme.tables theme.rules q = .error reason → plain = ∅ ∧ telling = ∅
  /-- Where they do not, and the names of the two properties are free, the one names the first
  selector and the other all of them. -/
  told : ∀ props, resolve theme.tables theme.rules q = .ok props →
    targetProp ∉ plain.names → matchesProp ∉ plain.names →
      ∃ first rest, SourcesOf theme q (first :: rest) ∧
        telling.get? targetProp = some (.text first) ∧
        telling.get? matchesProp = some (.text (",".intercalate (first :: rest)))

namespace Resolver

section
variable (theme : Theme) (config : Config)

theorem computed_telling (request : Request) :
    ((ofTheme theme { config with debug := true }).computed request).map withoutSources =
      ((ofTheme theme { config with debug := false }).computed request).map withoutSources := by
  cases request with
  | clear => rfl
  | ask q =>
    rw [computed, computed, Option.map_some, Option.map_some]
    cases hresolve : StyleCascade.resolve theme.tables theme.rules q with
    | ok props =>
      rw [compute_ofTheme _ hresolve, compute_ofTheme _ hresolve, if_pos rfl,
        if_neg Bool.false_ne_true, propsOf, propsOf, withoutSources_withSources]
    | error reason =>
      obtain ⟨reason', htelling⟩ := compute_ofTheme_of_error { config with debug := true } hresolve
      obtain ⟨reason'', hplain⟩ := compute_ofTheme_of_error { config with debug := false } hresolve
      rw [htelling, hplain, propsOf, propsOf]

theorem tellsSources_compute (q : Query) :
    TellsSources theme q
      (propsOf ((ofTheme theme { config with debug := false }).compute q))
      (propsOf ((ofTheme theme { config with debug := true }).compute q)) where
  failed reason hresolve := by
    obtain ⟨_, hplain⟩ := compute_ofTheme_of_error { config with debug := false } hresolve
    obtain ⟨_, htelling⟩ := compute_ofTheme_of_error { config with debug := true } hresolve
    rw [hplain, htelling]
    exact ⟨rfl, rfl⟩
  told props hresolve := by
    rw [compute_ofTheme _ hresolve, compute_ofTheme _ hresolve, if_pos rfl,
      if_neg Bool.false_ne_true, propsOf, propsOf]
    intro htarget hmatches
    have hsources := sourcesOf_sourceSelectors theme q
    obtain ⟨first, rest, hcons⟩ := List.exists_cons_of_ne_nil
      (sourceSelectors_ne_nil q (bySpecificity (theme.rules.filter (Rule.selects q))))
    rw [get?_withSources_targetProp htarget, get?_withSources_matchesProp hmatches, hcons]
    rw [hcons] at hsources
    exact ⟨first, rest, hsources, rfl, rfl⟩

/-- **To tell where answers come from only adds to them.**  Of two new resolvers for a theme, one
that tells and one that does not, each is asked the same.  Answer by answer they give the same
properties up to the two that tell.  At any point of the run these tell the selectors of the query
that is asked, though the answer may be one that was kept for another. -/
theorem answers_telling (requests : List Request) :
    let plain := ofTheme theme { config with debug := false }
    let telling := ofTheme theme { config with debug := true }
    (telling.answers requests).map (Option.map withoutSources) =
        (plain.answers requests).map (Option.map withoutSources) ∧
      ∀ before q, TellsSources theme q
        ((plain.run before).resolve q).props ((telling.run before).resolve q).props := by
  intro plain telling
  constructor
  · rw [answers_eq_map_computed (keepsTruth_ofTheme theme _),
      answers_eq_map_computed (keepsTruth_ofTheme theme _), List.map_map, List.map_map]
    exact List.map_congr_left fun request _ => computed_telling theme config request
  · intro before q
    rw [props_resolve_run, props_resolve_run]
    exact tellsSources_compute theme config q

end

end Resolver

end StyleCascade
