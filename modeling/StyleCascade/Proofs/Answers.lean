import StyleCascade.Proofs.RuleOrder
import StyleCascade.Resolver

/-!
# Answers kept and answers computed

A resolver keeps answers under a key that forgets the element and does not tell an empty part
from a missing one.  Keeping them is safe: whatever a resolver is asked, and in whatever order,
it answers as the rules alone would.

* `Rule.appliesTo_congr` — a rule whose clauses are not put to an element sees of a query only
  its key.
* `Rule.appliesTo_eq_true_iff` — when a rule applies.
* `matching_eq_ok_iff` — the rules that apply are a filter of all rules.
* `Resolver.compute_eq`, `Resolver.mayKeep_iff` — what is looked up by component is what a search
  through all rules finds.
* `Resolver.compute_congr` — queries that may be kept and share a key share their answer.
* `Resolver.KeepsTruth` — the invariant: every answer kept is the one computed for its key.
* `Resolver.props_resolve` — under the invariant an answer is the one computed;
  `Resolver.resolver_resolve_of_error` — and a query that fails leaves no trace.
-/

namespace StyleCascade

/-! ## What a rule sees of a query -/

/-- A part of a target that is given and not empty tells no missing part of a query from an empty
one. -/
theorem partAgrees_congr {part a b : Option String} (h : a.getD "" = b.getD "") :
    partAgrees part a = partAgrees part b := by
  cases part with
  | none => rfl
  | some name =>
    by_cases hname : name = ""
    · simp [partAgrees, hname]
    · have key (x : Option String) : (x == some name) = (x.getD "" == name) := by
        cases x with
        | none => simpa using Ne.symm hname
        | some y => simp
      simp only [partAgrees, key, h]

/-- A rule without clauses, and any rule where neither query has an element, sees of a query only
its key. -/
theorem Rule.appliesTo_congr {rule : Rule} {q q' : Query} (hkey : q.key = q'.key)
    (h : rule.target.component = q.component →
      rule.target.attributes = [] ∨ q.element = none ∧ q'.element = none) :
    rule.appliesTo q = rule.appliesTo q' := by
  simp only [Query.key, AnswerKey.mk.injEq] at hkey
  obtain ⟨hcomp, hctx, hid, hstate, -⟩ := hkey
  unfold Rule.appliesTo
  rw [hcomp, partAgrees_congr hctx, partAgrees_congr hid, partAgrees_congr hstate]
  split
  · rename_i hagrees
    simp only [Bool.and_eq_true, beq_iff_eq] at hagrees
    rcases h (hagrees.1.1.1.trans hcomp.symm) with hnil | ⟨hnone, hnone'⟩
    · rw [hnil]
    · rw [hnone, hnone']
  · rfl

/-- A rule applies to a query of its component that has the parts it gives, and whose element
satisfies its clauses, if it has any. -/
theorem Rule.appliesTo_eq_true_iff {rule : Rule} {q : Query} :
    rule.appliesTo q = .ok true ↔
      (rule.target.component = q.component ∧ partAgrees rule.target.context q.context = true ∧
        partAgrees rule.target.identifier q.identifier = true ∧
        partAgrees rule.target.state q.state = true) ∧
      (rule.target.attributes = [] ∨
        ∃ e, q.element = some e ∧ e.satisfies rule.target.attributes = .ok true) := by
  rw [Rule.appliesTo]
  split
  · rename_i hagrees
    simp only [Bool.and_eq_true, beq_iff_eq, and_assoc] at hagrees
    rw [and_iff_right hagrees]
    split
    · rename_i hnil
      simp [hnil]
    · rename_i hcons helement
      simp [hcons, helement]
    · rename_i e helement hcons
      have hne : rule.target.attributes ≠ [] := fun hnil => hcons hnil
      simp [hne, helement]
  · rename_i hagrees
    simp only [Bool.and_eq_true, beq_iff_eq, and_assoc] at hagrees
    simp [hagrees]

/-- Whether a rule is found to apply to a query. -/
def Rule.selects (q : Query) (rule : Rule) : Bool :=
  match rule.appliesTo q with
  | .ok applies => applies
  | .error _ => false

/-- **The rules that apply are a filter of all rules**, and they are found if and only if no rule
fails on the way.  Which rules fail does not depend on their order. -/
theorem matching_eq_ok_iff {q : Query} {rules found : List Rule} :
    matching q rules = .ok found ↔
      (∀ rule ∈ rules, (rule.appliesTo q).isOk = true) ∧ found = rules.filter (Rule.selects q) := by
  induction rules generalizing found with
  | nil =>
    simp only [matching, Except.ok.injEq, List.not_mem_nil, false_implies,
      implies_true, true_and, List.filter_nil]
    exact eq_comm
  | cons rule rest ih =>
    cases happlies : rule.appliesTo q with
    | error reason => simp [matching, happlies, bind, Except.bind, Except.isOk, Except.toBool]
    | ok applies =>
      have hselects : rule.selects q = applies := by simp [Rule.selects, happlies]
      cases hrest : matching q rest with
      | error reason =>
        have hnot : ¬ ∀ rule ∈ rest, (rule.appliesTo q).isOk = true := by
          intro hall
          have := ih.2 ⟨hall, rfl⟩
          simp [hrest] at this
        simp [matching, happlies, hrest, bind, Except.bind, hnot]
      | ok restFound =>
        obtain ⟨hall, rfl⟩ := ih.1 hrest
        have hok : (Except.ok applies : Except String Bool).isOk = true := rfl
        simp only [matching, happlies, hrest, bind, Except.bind, pure, Except.pure,
          List.forall_mem_cons, hok, true_and, Except.ok.injEq, List.filter_cons, hselects]
        exact ⟨fun h => ⟨hall, h.symm⟩, fun h => h.2.symm⟩

theorem matching_congr {q q' : Query} {rules : List Rule}
    (h : ∀ rule ∈ rules, rule.appliesTo q = rule.appliesTo q') :
    matching q rules = matching q' rules := by
  induction rules with
  | nil => rfl
  | cons rule rest ih =>
    rw [List.forall_mem_cons] at h
    simp only [matching, h.1, ih h.2]

/-- A rule for another component asks nothing of a query and does not apply. -/
theorem Rule.appliesTo_of_component_ne {rule : Rule} {q : Query}
    (h : rule.target.component ≠ q.component) : rule.appliesTo q = .ok false := by
  rw [Rule.appliesTo, if_neg]
  simp [h]

/-- **The rules of other components may be left out.**  Neither the rules that apply nor the first
failure on the way are among them. -/
theorem matching_filter_component (q : Query) (rules : List Rule) :
    matching q (rules.filter (·.target.component == q.component)) = matching q rules := by
  induction rules with
  | nil => rfl
  | cons rule rest ih =>
    by_cases hcomp : rule.target.component = q.component
    · rw [List.filter_cons_of_pos (by simpa using hcomp), matching, matching, ih]
    · rw [List.filter_cons_of_neg (by simpa using hcomp), ih, matching,
        Rule.appliesTo_of_component_ne hcomp]
      cases matching q rest with
      | error reason => rfl
      | ok found => rfl

/-- Rules that are kept in the order of falling specificity find the same rules, in that order. -/
theorem matching_bySpecificity_of_ok {q : Query} {rules found : List Rule}
    (h : matching q rules = .ok found) :
    matching q (bySpecificity rules) = .ok ((bySpecificity rules).filter (Rule.selects q)) := by
  refine matching_eq_ok_iff.2 ⟨fun rule hrule => ?_, rfl⟩
  exact (matching_eq_ok_iff.1 h).1 rule ((bySpecificity_perm rules).mem_iff.1 hrule)

/-- Rules that fail do so in any order, though another one may be the first to fail. -/
theorem matching_bySpecificity_of_error {q : Query} {rules : List Rule} {reason : String}
    (h : matching q rules = .error reason) :
    ∃ reason', matching q (bySpecificity rules) = .error reason' := by
  cases hsorted : matching q (bySpecificity rules) with
  | error reason' => exact ⟨reason', rfl⟩
  | ok found =>
    have hok : matching q rules = .ok (rules.filter (Rule.selects q)) := by
      refine matching_eq_ok_iff.2 ⟨fun rule hrule => ?_, rfl⟩
      exact (matching_eq_ok_iff.1 hsorted).1 rule ((bySpecificity_perm rules).mem_iff.2 hrule)
    rw [h] at hok
    cases hok

/-! ## What an answer sees of a query -/

/-- The properties that stand for the outcome of the rules: none where they failed. -/
def propsOf : Except String Props → Props
  | .ok props => props
  | .error _ => ∅

theorem finish_congr {q q' : Query} (hkey : q.key = q'.key) (tables : ClassTables)
    (rules : List Rule) : finish tables q rules = finish tables q' rules := by
  have hmanaged : q.managed = q'.managed := congrArg AnswerKey.managed hkey
  simp only [finish, hmanaged]

theorem fallbackSelectors_congr {q q' : Query} (hkey : q.key = q'.key) :
    fallbackSelectors q = fallbackSelectors q' := by
  simp only [Query.key, AnswerKey.mk.injEq] at hkey
  obtain ⟨hcomp, hctx, hid, -, -⟩ := hkey
  simp only [fallbackSelectors, hcomp]
  congr 2
  · cases hq : q.identifier <;> cases hq' : q'.identifier <;> simp_all
  · cases hq : q.context <;> cases hq' : q'.context <;> simp_all

theorem withSources_congr {q q' : Query} (hkey : q.key = q'.key) (rules : List Rule)
    (props : Props) : withSources q rules props = withSources q' rules props := by
  simp only [withSources, sourceSelectors, fallbackSelectors_congr hkey]

namespace Resolver

/-- **The index leaves nothing out.**  The rules filed under the component of a query give the
answer that all rules give. -/
theorem compute_eq (r : Resolver) (q : Query) :
    r.compute q = (matching q r.rules).map fun rules =>
      if r.debug then withSources q rules (finish r.tables q rules)
      else finish r.tables q rules := by
  rw [compute, candidates, r.getD_get?_index, matching_filter_component]

/-- A query may be kept if it has no element, or no rule of its component has clauses. -/
theorem mayKeep_iff {r : Resolver} {q : Query} :
    r.mayKeep q = true ↔ q.element = none ∨
      ∀ rule ∈ r.rules, rule.target.component = q.component → rule.target.attributes = [] := by
  rw [mayKeep, Bool.or_eq_true, Option.isNone_iff_eq_none, Bool.not_eq_true', ← Bool.not_eq_true,
    List.contains_iff_mem, r.mem_attributeComponents]
  simp only [not_exists, not_and, ne_eq, Classical.not_not]

/-- **Queries that may be kept and share a key share their answer.** -/
theorem compute_congr {r : Resolver} {q q' : Query} (h : r.mayKeep q = true)
    (h' : r.mayKeep q' = true) (hkey : q.key = q'.key) : r.compute q = r.compute q' := by
  have hcomp : q.component = q'.component := congrArg AnswerKey.component hkey
  have hmatching : matching q r.rules = matching q' r.rules := by
    refine matching_congr fun rule hrule => Rule.appliesTo_congr hkey fun hrc => ?_
    rcases mayKeep_iff.1 h with hnone | hnil
    · rcases mayKeep_iff.1 h' with hnone' | hnil
      · exact .inr ⟨hnone, hnone'⟩
      · exact .inl (hnil rule hrule (hrc.trans hcomp))
    · exact .inl (hnil rule hrule hrc)
  simp only [compute_eq, hmatching, finish_congr hkey, withSources_congr hkey]

end Resolver

/-! ## What a cache holds -/

namespace RecencyCache

variable {κ α : Type} [BEq κ] [LawfulBEq κ]

omit [LawfulBEq κ] in
theorem mem_use {key : κ} {value : α} {entries : List (κ × α)} {e : κ × α}
    (h : e ∈ use key value entries) : e = (key, value) ∨ e ∈ entries := by
  rcases List.mem_append.1 h with h | h
  · exact .inr (List.mem_filter.1 h).1
  · exact .inl (List.mem_singleton.1 h)

theorem mem_of_peek? {cache : RecencyCache κ α} {key : κ} {value : α}
    (h : cache.peek? key = some value) : (key, value) ∈ cache.entries := by
  obtain ⟨before, behind, heq, -⟩ := List.lookup_eq_some_iff.1 h
  rw [heq]
  exact List.mem_append_right _ List.mem_cons_self

/-- Getting an entry adds none. -/
theorem mem_of_mem_get {cache : RecencyCache κ α} {key : κ} {e : κ × α}
    (h : e ∈ (cache.get key).2.entries) : e ∈ cache.entries := by
  unfold get at h
  split at h
  · rename_i value hpeek
    rcases mem_use h with rfl | h
    · exact mem_of_peek? hpeek
    · exact h
  · exact h

omit [LawfulBEq κ] in
/-- Setting an entry adds no other one. -/
theorem mem_of_mem_set {cache : RecencyCache κ α} {key : κ} {value : α} {e : κ × α}
    (h : e ∈ (cache.set key value).entries) : e = (key, value) ∨ e ∈ cache.entries := by
  unfold set at h
  split at h
  · exact .inr h
  · exact mem_use (List.mem_of_mem_drop h)

theorem get_eq_some {cache after : RecencyCache κ α} {key : κ} {value : α}
    (h : cache.get key = (some value, after)) : (key, value) ∈ cache.entries := by
  unfold get at h
  split at h
  · rename_i found hpeek
    obtain ⟨hvalue, -⟩ := Prod.mk.inj h
    exact mem_of_peek? (hpeek.trans hvalue)
  · simp at h

end RecencyCache

/-! ## The invariant of a resolver -/

namespace Resolver

/-- **The invariant.**  Every answer kept is the one that the rules give to each query of its key
that may be kept. -/
def KeepsTruth (r : Resolver) : Prop :=
  ∀ entry ∈ r.cache.entries, ∀ q, r.mayKeep q = true → q.key = entry.1 →
    r.compute q = .ok entry.2

/-- Another resolver of the same theme: at most the answers kept are others. -/
def SameTheme (r r' : Resolver) : Prop := ∃ cache, r' = { r with cache }

theorem SameTheme.refl (r : Resolver) : r.SameTheme r := ⟨r.cache, rfl⟩

theorem SameTheme.trans {r₁ r₂ r₃ : Resolver} (h₁₂ : r₁.SameTheme r₂) (h₂₃ : r₂.SameTheme r₃) :
    r₁.SameTheme r₃ := by
  obtain ⟨_, rfl⟩ := h₁₂
  obtain ⟨cache, rfl⟩ := h₂₃
  exact ⟨cache, rfl⟩

theorem SameTheme.compute_eq {r r' : Resolver} (h : r.SameTheme r') (q : Query) :
    r'.compute q = r.compute q := by
  obtain ⟨_, rfl⟩ := h
  rfl

theorem SameTheme.themeName_eq {r r' : Resolver} (h : r.SameTheme r') :
    r'.themeName = r.themeName := by
  obtain ⟨_, rfl⟩ := h
  rfl

/-- A resolver for a theme keeps no answers at first. -/
theorem keepsTruth_ofTheme (theme : Theme) (config : Config) : (ofTheme theme config).KeepsTruth :=
  fun _ hentry => absurd hentry List.not_mem_nil

theorem keepsTruth_clear (r : Resolver) : r.clear.KeepsTruth :=
  fun _ hentry => absurd hentry List.not_mem_nil

theorem sameTheme_clear (r : Resolver) : r.SameTheme r.clear := ⟨r.cache.clear, rfl⟩

/-! ### One query -/

theorem props_answer (r : Resolver) (q : Query) : (r.answer q).props = propsOf (r.compute q) := by
  unfold answer
  split
  · rename_i reason hcompute
    rw [hcompute, propsOf]
  · rename_i props hcompute
    rw [hcompute, propsOf]
    split <;> rfl

/-- **An answer is the one computed**, whether it was kept or not. -/
theorem props_resolve {r : Resolver} (h : r.KeepsTruth) (q : Query) :
    (r.resolve q).props = propsOf (r.compute q) := by
  unfold resolve
  split
  · rename_i hkeep
    split
    · rename_i props cache hget
      rw [h _ (RecencyCache.get_eq_some hget) q hkeep rfl, propsOf]
    · exact props_answer r q
  · exact props_answer r q

theorem sameTheme_answer (r : Resolver) (q : Query) : r.SameTheme (r.answer q).resolver := by
  unfold answer
  split
  · exact .refl r
  · split
    · exact ⟨_, rfl⟩
    · exact .refl r

theorem sameTheme_resolve (r : Resolver) (q : Query) : r.SameTheme (r.resolve q).resolver := by
  unfold resolve
  split
  · split
    · exact ⟨_, rfl⟩
    · exact sameTheme_answer r q
  · exact sameTheme_answer r q

/-- An answer that is kept now is the one computed, for the query answered and for every other
one that could find it. -/
theorem keepsTruth_answer {r : Resolver} (h : r.KeepsTruth) (q : Query) :
    (r.answer q).resolver.KeepsTruth := by
  unfold answer
  split
  · exact h
  · rename_i props hcompute
    split
    · rename_i hkeep
      intro entry hentry q' hkeep' hkey
      rcases RecencyCache.mem_of_mem_set hentry with rfl | hold
      · exact (compute_congr (r := r) hkeep' hkeep hkey).trans hcompute
      · exact h entry hold q' hkeep' hkey
    · exact h

theorem keepsTruth_resolve {r : Resolver} (h : r.KeepsTruth) (q : Query) :
    (r.resolve q).resolver.KeepsTruth := by
  unfold resolve
  split
  · split
    · rename_i props cache hget
      intro entry hentry
      have hmem : entry ∈ (r.cache.get q.key).2.entries := by rwa [hget]
      exact h entry (RecencyCache.mem_of_mem_get hmem)
    · exact keepsTruth_answer h q
  · exact keepsTruth_answer h q

/-- **A query that cannot be answered leaves no trace.** -/
theorem resolver_resolve_of_error {r : Resolver} (h : r.KeepsTruth) {q : Query} {reason : String}
    (herror : r.compute q = .error reason) : (r.resolve q).resolver = r := by
  have hanswer : (r.answer q).resolver = r := by simp only [answer, herror]
  unfold resolve
  split
  · rename_i hkeep
    split
    · rename_i props cache hget
      have hok := h _ (RecencyCache.get_eq_some hget) q hkeep rfl
      rw [herror] at hok
      cases hok
    · exact hanswer
  · exact hanswer

end Resolver

end StyleCascade
