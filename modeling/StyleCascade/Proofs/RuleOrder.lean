import StyleCascade.Cascade.Merge

/-!
# The order of rules

Rules are sorted twice: by falling specificity when a theme is compiled or put to use, and by
rising specificity when they are laid over each other.  Both sorts are stable.  A stable sort is
known from the *tiers* of a list, the items of one weight in their order, so the first sort
leaves no trace in the second.

* `sortBy` — the stable sort by a weight; both sorts of rules are of this form.
* `tier_sortBy` — sorting keeps every tier.
* `sortBy_eq_of_tiers` — lists with the same tiers are sorted alike.
* `byRisingSpecificity_filter_bySpecificity` — the order in which rules were kept before does not
  matter to the cascade.
-/

namespace StyleCascade

variable {α : Type}

/-! ## Sorting by a weight -/

/-- A list in the order of rising weight; items of one weight keep their order. -/
def sortBy (weight : α → Int) (l : List α) : List α :=
  l.mergeSort fun a b => decide (weight a ≤ weight b)

/-- The items of one weight, in their order. -/
def tier (weight : α → Int) (k : Int) (l : List α) : List α := l.filter (weight · == k)

theorem weight_le_trans (weight : α → Int) (a b c : α) :
    decide (weight a ≤ weight b) = true → decide (weight b ≤ weight c) = true →
      decide (weight a ≤ weight c) = true := by
  simp only [decide_eq_true_eq]
  exact Int.le_trans

theorem weight_le_total (weight : α → Int) (a b : α) :
    (decide (weight a ≤ weight b) || decide (weight b ≤ weight a)) = true := by
  simp only [Bool.or_eq_true, decide_eq_true_eq]
  exact Int.le_total _ _

theorem sortBy_perm (weight : α → Int) (l : List α) : (sortBy weight l).Perm l :=
  List.mergeSort_perm l _

theorem pairwise_sortBy (weight : α → Int) (l : List α) :
    (sortBy weight l).Pairwise (weight · ≤ weight ·) := by
  have h : (sortBy weight l).Pairwise fun a b => decide (weight a ≤ weight b) = true :=
    List.pairwise_mergeSort (weight_le_trans weight) (weight_le_total weight) l
  simpa using h

theorem mem_tier {weight : α → Int} {k : Int} {l : List α} {a : α} :
    a ∈ tier weight k l ↔ a ∈ l ∧ weight a = k := by
  simp [tier]

/-- **A stable sort keeps every tier.** -/
theorem tier_sortBy (weight : α → Int) (k : Int) (l : List α) :
    tier weight k (sortBy weight l) = tier weight k l := by
  have hsorted : (tier weight k l).Pairwise fun a b => decide (weight a ≤ weight b) = true := by
    refine List.Pairwise.imp_of_mem ?_ (List.pairwise_of_forall fun _ _ => trivial)
    intro a b ha hb _
    have ha' := (mem_tier.1 ha).2
    have hb' := (mem_tier.1 hb).2
    simp only [decide_eq_true_eq]
    omega
  have hsub : (tier weight k l).Sublist (sortBy weight l) :=
    List.sublist_mergeSort (weight_le_trans weight) (weight_le_total weight) hsorted
      List.filter_sublist
  have hsub' : (tier weight k l).Sublist (tier weight k (sortBy weight l)) := by
    have h := hsub.filter (weight · == k)
    rwa [show (tier weight k l).filter (weight · == k) = tier weight k l by simp [tier]] at h
  have hlen : (tier weight k (sortBy weight l)).length = (tier weight k l).length :=
    ((sortBy_perm weight l).filter _).length_eq
  exact (hsub'.eq_of_length hlen.symm).symm

/-- A sorted list is known from its tiers. -/
theorem eq_of_tiers {weight : α → Int} {l l' : List α}
    (hl : l.Pairwise (weight · ≤ weight ·)) (hl' : l'.Pairwise (weight · ≤ weight ·))
    (h : ∀ k, tier weight k l = tier weight k l') : l = l' := by
  induction l generalizing l' with
  | nil =>
    cases l' with
    | nil => rfl
    | cons b t' =>
      have hb : b ∈ tier weight (weight b) [] := by
        rw [h]
        exact mem_tier.2 ⟨List.mem_cons_self, rfl⟩
      simp [tier] at hb
  | cons a t ih =>
    have ha : a ∈ l' := (mem_tier.1 (h (weight a) ▸ mem_tier.2 ⟨List.mem_cons_self, rfl⟩)).1
    cases l' with
    | nil => simp at ha
    | cons b t' =>
      have hb : b ∈ a :: t :=
        (mem_tier.1 ((h (weight b)).symm ▸ mem_tier.2 ⟨List.mem_cons_self, rfl⟩)).1
      rw [List.pairwise_cons] at hl hl'
      -- both heads are the lightest of their lists, and each of them is in the other list
      have hab : weight a = weight b := by
        rcases List.mem_cons.1 ha with rfl | ha
        · rfl
        rcases List.mem_cons.1 hb with rfl | hb
        · rfl
        have := hl.1 b hb
        have := hl'.1 a ha
        omega
      have hhead := h (weight a)
      simp only [tier, List.filter_cons, hab, beq_self_eq_true, if_true,
        List.cons.injEq] at hhead
      obtain ⟨rfl, hrest⟩ := hhead
      rw [ih hl.2 hl'.2 fun k => ?_]
      have hk := h k
      simp only [tier, List.filter_cons] at hk
      split at hk
      · exact (List.cons.inj hk).2
      · exact hk

/-- Lists with the same tiers are sorted alike. -/
theorem sortBy_eq_of_tiers {weight : α → Int} {l l' : List α}
    (h : ∀ k, tier weight k l = tier weight k l') : sortBy weight l = sortBy weight l' := by
  refine eq_of_tiers (pairwise_sortBy weight l) (pairwise_sortBy weight l') fun k => ?_
  rw [tier_sortBy, tier_sortBy, h]

/-- Dropping items before the sort or after it comes to the same. -/
theorem filter_sortBy (weight : α → Int) (p : α → Bool) (l : List α) :
    (sortBy weight l).filter p = sortBy weight (l.filter p) := by
  refine eq_of_tiers ((pairwise_sortBy weight l).filter p) (pairwise_sortBy _ _) fun k => ?_
  have hcomm (m : List α) : tier weight k (m.filter p) = (tier weight k m).filter p := by
    simp only [tier, List.filter_filter, Bool.and_comm]
  rw [tier_sortBy, hcomm, hcomm, tier_sortBy]

theorem sortBy_eq_self {weight : α → Int} {l : List α} (h : l.Pairwise (weight · ≤ weight ·)) :
    sortBy weight l = l :=
  eq_of_tiers (pairwise_sortBy weight l) h fun k => tier_sortBy weight k l

/-- What stands last after a sort is the heaviest. -/
theorem le_weight_of_getLast?_sortBy {weight : α → Int} {l : List α} {a last : α}
    (ha : a ∈ l) (hlast : (sortBy weight l).getLast? = some last) : weight a ≤ weight last := by
  have hsorted := pairwise_sortBy weight l
  have hmem : a ∈ sortBy weight l := (sortBy_perm weight l).mem_iff.2 ha
  obtain ⟨init, hinit⟩ := List.getLast?_eq_some_iff.1 hlast
  rw [hinit] at hsorted hmem
  rcases List.mem_append.1 hmem with hmem | hmem
  · exact (List.pairwise_append.1 hsorted).2.2 a hmem last List.mem_cons_self
  · obtain rfl := List.mem_singleton.1 hmem
    exact Int.le_refl _

/-- What is heavier than all the rest goes to the end. -/
theorem sortBy_cons_of_forall_lt {weight : α → Int} {a : α} {l : List α}
    (h : ∀ b ∈ l, weight b < weight a) : sortBy weight (a :: l) = sortBy weight l ++ [a] := by
  obtain ⟨lighter, heavier, hcons, hl, -⟩ :=
    List.mergeSort_cons (weight_le_trans weight) (weight_le_total weight) a l
  change sortBy weight (a :: l) = lighter ++ a :: heavier at hcons
  change sortBy weight l = lighter ++ heavier at hl
  -- nothing can stand behind `a`
  have hheavier : heavier = [] := by
    refine List.eq_nil_iff_forall_not_mem.2 fun b hb => ?_
    have hsorted := pairwise_sortBy weight (a :: l)
    rw [hcons] at hsorted
    have hab : weight a ≤ weight b :=
      (List.pairwise_cons.1 (List.pairwise_append.1 hsorted).2.1).1 b hb
    have hba : weight b < weight a := by
      refine h b ((sortBy_perm weight l).mem_iff.1 ?_)
      rw [hl]
      exact List.mem_append_right _ hb
    omega
  rw [hcons, hl, hheavier, List.append_nil]

/-! ## The two sorts of rules -/

theorem byRisingSpecificity_eq_sortBy (rules : List Rule) :
    byRisingSpecificity rules = sortBy Rule.specificity rules := rfl

theorem bySpecificity_eq_sortBy (rules : List Rule) :
    bySpecificity rules = sortBy (fun rule => -rule.specificity) rules := by
  simp only [bySpecificity, sortBy, Int.neg_le_neg_iff]

/-- Sorting rules by falling specificity keeps the rules of each specificity in their order. -/
theorem tier_bySpecificity (k : Int) (rules : List Rule) :
    tier Rule.specificity k (bySpecificity rules) = tier Rule.specificity k rules := by
  have h := tier_sortBy (fun rule : Rule => -rule.specificity) (-k) rules
  have hkey (rule : Rule) : (-rule.specificity == -k) = (rule.specificity == k) := by
    rw [Bool.eq_iff_iff, beq_iff_eq, beq_iff_eq, Int.neg_inj]
  simpa only [bySpecificity_eq_sortBy, tier, hkey] using h

theorem filter_bySpecificity (p : Rule → Bool) (rules : List Rule) :
    (bySpecificity rules).filter p = bySpecificity (rules.filter p) := by
  rw [bySpecificity_eq_sortBy, bySpecificity_eq_sortBy, filter_sortBy]

/-- **The order in which rules were kept before leaves no trace.**  Rules sorted by falling
specificity, of which some are left out, lie over each other as they would have done without the
first sort. -/
theorem byRisingSpecificity_filter_bySpecificity (p : Rule → Bool) (rules : List Rule) :
    byRisingSpecificity ((bySpecificity rules).filter p) =
      byRisingSpecificity (rules.filter p) := by
  rw [byRisingSpecificity_eq_sortBy, byRisingSpecificity_eq_sortBy, ← filter_sortBy,
    ← filter_sortBy, sortBy_eq_of_tiers fun k => tier_bySpecificity k rules]

theorem cascade_filter_bySpecificity (p : Rule → Bool) (rules : List Rule) :
    cascade ((bySpecificity rules).filter p) = cascade (rules.filter p) := by
  rw [cascade, byRisingSpecificity_filter_bySpecificity, cascade]

end StyleCascade
