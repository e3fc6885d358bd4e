import Mathlib.Logic.Relation
import StyleCascade.Proofs.Words
import StyleCascade.Selector.Attribute

/-!
# The order of the operators

One operator implies another if whatever satisfies the first satisfies the second, with the same
value of the attribute and the same expected one.  Equality implies that the value begins or ends
with the expected one, and every sign implies that the value contains it.

* `ClauseOperator.NextWeaker` — the pairs of neighbours in this order.
* `ClauseOperator.holds_of_nextWeaker` — a step along the order, one case a pair.
* `ClauseOperator.implies_iff` — these steps lead to all that a sign implies: for each sign
  `separating` has values at which no other sign holds.
* `AttributeClause.accepts_order` — the order told of clauses, and what `~=` looks for.
-/

namespace StyleCascade

open StyleCascade.Text

/-! ## Parts of a text -/

theorem occursIn_eq_true_iff {part s : List Char} : occursIn part s = true ↔ part <:+: s := by
  induction s with
  | nil => simp [occursIn]
  | cons c cs ih =>
    rw [occursIn, Bool.or_eq_true, ih, List.isPrefixOf_iff_prefix, List.infix_cons_iff]

namespace ClauseOperator

/-! ## Steps along the order -/

/-- The second operator is the next weaker one: what satisfies the first satisfies it too. -/
inductive NextWeaker : ClauseOperator → ClauseOperator → Prop
  | equals_dashMatch : NextWeaker equals dashMatch
  | equals_endsWith : NextWeaker equals endsWith
  | dashMatch_startsWith : NextWeaker dashMatch startsWith
  | startsWith_contains : NextWeaker startsWith contains
  | endsWith_contains : NextWeaker endsWith contains
  | hasWord_contains : NextWeaker hasWord contains

/-- What `~=` looks for is a part of the value without blanks, between blanks or ends. -/
theorem holds_hasWord_iff {actual expected : List Char} :
    hasWord.holds actual expected = true ↔
      expected ≠ [] ∧ (∀ c ∈ expected, isBlank c = false) ∧
        ∃ a b, actual = a ++ expected ++ b ∧ EndsInGap isBlank a ∧ StartsWithGap isBlank b := by
  rw [← mem_runs_iff]
  exact List.contains_iff_mem

theorem holds_dashMatch_iff {actual expected : List Char} :
    dashMatch.holds actual expected = true ↔
      actual = expected ∨ expected ++ ['-'] <+: actual := by
  simp [holds]

/-- **A step along the order.** -/
theorem holds_of_nextWeaker {op weaker : ClauseOperator} (h : NextWeaker op weaker)
    {actual expected : List Char} (hop : op.holds actual expected = true) :
    weaker.holds actual expected = true := by
  cases h with
  | equals_dashMatch =>
    have heq : actual = expected := by simpa [holds] using hop
    exact holds_dashMatch_iff.2 (.inl heq)
  | equals_endsWith =>
    have heq : actual = expected := by simpa [holds] using hop
    simp [holds, heq]
  | dashMatch_startsWith =>
    rw [holds, List.isPrefixOf_iff_prefix]
    rcases holds_dashMatch_iff.1 hop with rfl | hprefix
    · exact List.prefix_rfl
    · exact (List.prefix_append expected ['-']).trans hprefix
  | startsWith_contains =>
    rw [holds, List.isPrefixOf_iff_prefix] at hop
    exact occursIn_eq_true_iff.2 hop.isInfix
  | endsWith_contains =>
    rw [holds, List.isSuffixOf_iff_suffix] at hop
    exact occursIn_eq_true_iff.2 hop.isInfix
  | hasWord_contains =>
    obtain ⟨_, _, a, b, heq, _⟩ := holds_hasWord_iff.1 hop
    exact occursIn_eq_true_iff.2 ⟨a, b, heq.symm⟩

/-! ## No further steps -/

/-- The signs that a sign implies, itself among them. -/
def implied : ClauseOperator → List ClauseOperator
  | present => []
  | equals => [equals, dashMatch, startsWith, endsWith, contains]
  | hasWord => [hasWord, contains]
  | dashMatch => [dashMatch, startsWith, contains]
  | startsWith => [startsWith, contains]
  | endsWith => [endsWith, contains]
  | contains => [contains]

/-- A value and an expected one that tell a sign from those that it does not imply. -/
def separating : ClauseOperator → String × String
  | present => ("b", "a")
  | equals => ("a b", "a b")
  | hasWord => ("b a b", "a")
  | dashMatch => ("a-b", "a")
  | startsWith => ("ab", "a")
  | endsWith => ("ba", "a")
  | contains => ("bab", "a")

theorem mem_all (op : ClauseOperator) : op ∈ all := by
  cases op <;> decide

/-- At its separating values a sign holds, and no sign that it does not imply. -/
theorem holds_separating_iff {op other : ClauseOperator} (h : other ≠ present) :
    other.holds (separating op).1.toList (separating op).2.toList = true ↔ other ∈ implied op := by
  have hall : ∀ op ∈ all, ∀ other ∈ all, other ≠ present →
      (other.holds (separating op).1.toList (separating op).2.toList = true ↔
        other ∈ implied op) := by decide +kernel
  exact hall op (mem_all op) other (mem_all other) h

/-- What is implied is reached step by step. -/
theorem reflTransGen_implied (op : ClauseOperator) :
    ∀ other ∈ implied op, Relation.ReflTransGen NextWeaker op other := by
  have hstarts : Relation.ReflTransGen NextWeaker startsWith contains :=
    .single .startsWith_contains
  have hdash : Relation.ReflTransGen NextWeaker dashMatch startsWith :=
    .single .dashMatch_startsWith
  cases op with
    simp only [implied, List.forall_mem_cons, List.not_mem_nil, false_imp_iff, implies_true,
      and_true]
  | equals =>
    exact ⟨.refl, .single .equals_dashMatch, .head .equals_dashMatch hdash,
      .single .equals_endsWith, .head .equals_dashMatch (hdash.trans hstarts)⟩
  | dashMatch => exact ⟨.refl, hdash, hdash.trans hstarts⟩
  | hasWord => exact ⟨.refl, .single .hasWord_contains⟩
  | startsWith => exact ⟨.refl, hstarts⟩
  | endsWith => exact ⟨.refl, .single .endsWith_contains⟩
  | contains => exact .refl

theorem mem_implied_self {op : ClauseOperator} (h : op ≠ present) : op ∈ implied op := by
  cases op with
  | present => exact absurd rfl h
  | _ => exact List.mem_cons_self

/-- **The order of the signs.**  One sign implies another, for all values of the attribute and all
expected ones that are not empty, exactly if steps along the order lead from one to the other. -/
theorem implies_iff {op other : ClauseOperator} (hop : op ≠ present) (hother : other ≠ present) :
    (∀ actual expected : String, expected ≠ "" → op.holds actual.toList expected.toList = true →
      other.holds actual.toList expected.toList = true) ↔
      Relation.ReflTransGen NextWeaker op other := by
  constructor
  · intro h
    have hne : (separating op).2 ≠ "" := by cases op <;> decide
    have hself := (holds_separating_iff hop).2 (mem_implied_self hop)
    exact reflTransGen_implied op other ((holds_separating_iff hother).1 (h _ _ hne hself))
  · clear hother
    intro h actual expected _ hop
    induction h with
    | refl => exact hop
    | tail _ hstep ih => exact holds_of_nextWeaker hstep ih

end ClauseOperator

/-! ## The order of clauses -/

namespace AttributeClause

/-- A clause with a sign is satisfied if its value is not empty and the sign holds. -/
theorem accepts_some_iff {op : ClauseOperator} (h : op ≠ .present) (name value expected : String) :
    (AttributeClause.mk name op (some expected)).accepts (some value) = true ↔
      expected ≠ "" ∧ op.holds value.toList expected.toList = true := by
  cases op with
  | present => exact absurd rfl h
  | _ => simp [accepts]

/-- **The order of the operators**, told of clauses for one attribute that expect the same value.
One implies the other exactly if steps along the order lead from its sign to that of the other; and
`~=` is satisfied exactly if the expected value is not empty, holds no blank, and stands in the
value of the attribute between blanks or ends. -/
theorem accepts_order (name : String) :
    (∀ op other : ClauseOperator, op ≠ .present → other ≠ .present →
      ((∀ value expected : String,
        (AttributeClause.mk name op (some expected)).accepts (some value) = true →
          (AttributeClause.mk name other (some expected)).accepts (some value) = true) ↔
        Relation.ReflTransGen ClauseOperator.NextWeaker op other)) ∧
    ∀ value expected : String,
      (AttributeClause.mk name .hasWord (some expected)).accepts (some value) = true ↔
        expected ≠ "" ∧ (∀ c ∈ expected.toList, isBlank c = false) ∧
          ∃ a b : String, value = a ++ expected ++ b ∧ EndsInGap isBlank a.toList ∧
            StartsWithGap isBlank b.toList := by
  constructor
  · intro op other hop hother
    rw [← ClauseOperator.implies_iff hop hother]
    simp only [accepts_some_iff hop, accepts_some_iff hother]
    constructor
    · intro h value expected hne hholds
      exact (h value expected ⟨hne, hholds⟩).2
    · rintro h value expected ⟨hne, hholds⟩
      exact ⟨hne, h value expected hne hholds⟩
  · intro value expected
    rw [accepts_some_iff (by decide), ClauseOperator.holds_hasWord_iff]
    constructor
    · rintro ⟨hne, _, hblank, a, b, heq, ha, hb⟩
      refine ⟨hne, hblank, String.ofList a, String.ofList b, ?_, ?_, ?_⟩
      · rw [← String.toList_inj]
        simpa using heq
      · rwa [String.toList_ofList]
      · rwa [String.toList_ofList]
    · rintro ⟨hne, hblank, a, b, rfl, ha, hb⟩
      refine ⟨hne, by simpa using hne, hblank, a.toList, b.toList, ?_, ha, hb⟩
      rw [String.toList_append, String.toList_append]

/-- The word has blanks of several kinds around it. -/
example : (AttributeClause.mk "class" .hasWord (some "b")).accepts (some "a\u3000b\nc") = true := by
  decide +kernel

end AttributeClause

end StyleCascade
