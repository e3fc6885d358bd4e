import StyleCascade.Proofs.RuleOrder
import StyleCascade.Resolver

/-!
# The order of compiled rules

The rules of a list of declarations have one canonical order: the more specific ones first, and
those of one specificity as they were declared.  Compilation gives it, so how declarations of
different specificity are mixed does not matter, and a resolver that sorts the rules of a theme
once more finds them in order.

* `CanonicalOrder` — rules in the canonical order of their declarations.
* `canonicalOrder_iff` — there is exactly one, and sorting by falling specificity gives it.
* `compileAll_eq_of_tiers` — declarations that are mixed otherwise compile alike.
* `canonicalOrder_compileAll` — the order of compiled rules.
-/

namespace StyleCascade

open StyleCascade.Selector

/-! ## Tiers -/

section
variable {α β : Type}

theorem tier_neg (weight : α → Int) (k : Int) (l : List α) :
    tier (fun a => -weight a) k l = tier weight (-k) l := by
  have hkey : ∀ a, (-weight a == k) = (weight a == -k) := by
    intro a
    rw [Bool.eq_iff_iff, beq_iff_eq, beq_iff_eq]
    omega
  simp only [tier, hkey]

theorem tier_map (weight : β → Int) (f : α → β) (k : Int) (l : List α) :
    tier weight k (l.map f) = (tier (fun a => weight (f a)) k l).map f := by
  simp only [tier, List.filter_map]
  rfl

end

/-! ## The canonical order -/

/-- Rules in the canonical order of their declarations. -/
structure CanonicalOrder (declared ordered : List Rule) : Prop where
  /-- No rule is dropped, and none is there more often than it was declared. -/
  perm : ordered.Perm declared
  /-- No rule is more specific than one in front of it. -/
  falling : ordered.Pairwise fun a b => b.specificity ≤ a.specificity
  /-- The rules of one specificity stand as they were declared. -/
  stable : ∀ k, tier Rule.specificity k ordered = tier Rule.specificity k declared

theorem falling_bySpecificity (rules : List Rule) :
    (bySpecificity rules).Pairwise fun a b => b.specificity ≤ a.specificity := by
  have hsorted := pairwise_sortBy (fun rule : Rule => -rule.specificity) rules
  rw [← bySpecificity_eq_sortBy] at hsorted
  simpa only [Int.neg_le_neg_iff] using hsorted

theorem canonicalOrder_bySpecificity (rules : List Rule) :
    CanonicalOrder rules (bySpecificity rules) where
  perm := bySpecificity_perm rules
  falling := falling_bySpecificity rules
  stable k := tier_bySpecificity k rules

/-- **One canonical order.**  It is the one that sorting by falling specificity gives. -/
theorem canonicalOrder_iff {declared ordered : List Rule} :
    CanonicalOrder declared ordered ↔ ordered = bySpecificity declared := by
  constructor
  · intro h
    have hfalling : ordered.Pairwise fun a b => -a.specificity ≤ -b.specificity := by
      simpa only [Int.neg_le_neg_iff] using h.falling
    rw [bySpecificity_eq_sortBy]
    refine eq_of_tiers hfalling (pairwise_sortBy _ declared) fun k => ?_
    rw [tier_sortBy, tier_neg, tier_neg, h.stable]
  · rintro rfl
    exact canonicalOrder_bySpecificity declared

/-- Rules in order are their own canonical order. -/
theorem CanonicalOrder.bySpecificity_eq_self {declared ordered : List Rule}
    (h : CanonicalOrder declared ordered) : bySpecificity ordered = ordered := by
  have hself : CanonicalOrder ordered ordered := ⟨.refl ordered, h.falling, fun _ => rfl⟩
  exact (canonicalOrder_iff.1 hself).symm

/-! ## Compiled rules -/

section
variable {known : List String} {fallback : String} {entries entries' : List (String × Value)}

/-- Declarations that differ only in how those of different specificity are mixed compile
alike. -/
theorem compileAll_eq_of_tiers
    (h : ∀ k, tier (fun e => (Rule.compile known fallback e.1 e.2).specificity) k entries' =
      tier (fun e => (Rule.compile known fallback e.1 e.2).specificity) k entries) :
    compileAll known fallback entries' = compileAll known fallback entries := by
  rw [compileAll, compileAll, bySpecificity_eq_sortBy, bySpecificity_eq_sortBy]
  refine sortBy_eq_of_tiers fun k => ?_
  rw [tier_neg, tier_neg, tier_map, tier_map, h]

/-- **The compiled order is canonical.**  The compiled rules are the canonical order of the rules
of the declarations, and nothing else is.  So declarations may be put into any order in which those
of one specificity stay as they were, and a resolver leaves the rules of a compiled theme as they
are. -/
theorem canonicalOrder_compileAll (known : List String) (fallback : String)
    (entries : List (String × Value)) :
    (∀ ordered, CanonicalOrder (entries.map fun e => Rule.compile known fallback e.1 e.2) ordered ↔
        ordered = compileAll known fallback entries) ∧
      (∀ entries', (∀ k,
          tier (fun e => (Rule.compile known fallback e.1 e.2).specificity) k entries' =
            tier (fun e => (Rule.compile known fallback e.1 e.2).specificity) k entries) →
        compileAll known fallback entries' = compileAll known fallback entries) ∧
      ∀ (theme : Theme) (config : Config), theme.rules = compileAll known fallback entries →
        (Resolver.ofTheme theme config).rules = theme.rules := by
  refine ⟨fun ordered => canonicalOrder_iff, fun entries' h => compileAll_eq_of_tiers h, ?_⟩
  intro theme config hrules
  have horder : CanonicalOrder (entries.map fun e => Rule.compile known fallback e.1 e.2)
      theme.rules := canonicalOrder_iff.2 hrules
  exact horder.bySpecificity_eq_self

end

/-- Four declarations, of which one is malformed, one is repeated and two give no mapping: the only
one of its specificity may stand in any place among the others. -/
theorem canonicalOrder_compileAll_mixed :
    let entries : List (String × Value) := [("button", .mapping [("a", .int 1)]),
      ("[[[", .null), ("button.chat", .text "solid"), ("button", .mapping [("a", .int 2)])]
    let entries' : List (String × Value) := [("button.chat", .text "solid"),
      ("button", .mapping [("a", .int 1)]), ("[[[", .null),
      ("button", .mapping [("a", .int 2)])]
    let theme : Theme :=
      { name := "n", rules := compileAll standardContexts standardComponent entries }
    (∀ k, tier (fun e => (Rule.compile standardContexts standardComponent e.1 e.2).specificity) k
        entries' =
      tier (fun e => (Rule.compile standardContexts standardComponent e.1 e.2).specificity) k
        entries) ∧
      compileAll standardContexts standardComponent entries' =
        compileAll standardContexts standardComponent entries ∧
      (Resolver.ofTheme theme {}).rules = theme.rules := by
  intro entries entries' theme
  have hbutton : specificity (normalize standardContexts "button") = 1 := by decide +kernel
  have hweight : ∀ props, (Rule.compile standardContexts standardComponent "button"
      props).specificity = 1 := by
    intro props
    rw [Rule.compile, hbutton]
    rfl
  have hweight' :
      (Rule.compile standardContexts standardComponent "[[[" .null).specificity = 1 := by
    decide +kernel
  have hweight'' : (Rule.compile standardContexts standardComponent "button.chat"
      (.text "solid")).specificity = 11 := by decide +kernel
  have htiers : ∀ k, tier (fun e : String × Value =>
      (Rule.compile standardContexts standardComponent e.1 e.2).specificity) k entries' =
        tier (fun e => (Rule.compile standardContexts standardComponent e.1 e.2).specificity) k
          entries := by
    intro k
    simp only [tier, entries, entries', List.filter_cons, List.filter_nil, hweight, hweight',
      hweight'']
    by_cases hk : (1 : Int) = k
    · have hk' : ((11 : Int) == k) = false := by
        rw [← hk]
        rfl
      simp [hk']
    · simp [hk]
  obtain ⟨_, hmixed, hresolver⟩ :=
    canonicalOrder_compileAll standardContexts standardComponent entries
  exact ⟨htiers, hmixed entries' htiers, hresolver theme {} rfl⟩

end StyleCascade
