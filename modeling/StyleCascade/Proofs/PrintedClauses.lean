import StyleCascade.Proofs.Agreement
import StyleCascade.Proofs.Weights

/-!
# Clauses are read back

Clauses that are written one behind the other, behind a tag, are a selector of the grammar, and
both readers give them back: all of them, each as often as it was written and in order, whatever
their values hold.  Only the clauses that name the context or the identifier are no attribute
clauses to them.

* `printedClauses` — a tag with clauses behind it, as it is written.
* `parseCompound_printedClauses` — the parts that the strict reader finds in it.
* `attributes_printedClauses` — the attribute clauses that the lenient reader gives.
* `read_printedClauses` — clauses that name neither the context nor the identifier come back as
  they are.
-/

namespace StyleCascade

open StyleCascade.Text StyleCascade.Selector

/-- A tag with clauses behind it, as it is written. -/
def printedClauses (tag : String) (clauses : List AttributeClause) : String :=
  tag ++ String.join (clauses.map AttributeClause.text)

theorem text_eq_printedClauses (tag : String) (clauses : List AttributeClause) :
    (Compound.mk tag [] clauses none).text = printedClauses tag clauses := by
  simp [Compound.text, printedClauses, String.join]

section
variable {tag : String} {clauses : List AttributeClause}

/-- The strict reader finds the tag and the clauses, and nothing else. -/
theorem parseCompound_printedClauses (htag : IsTag tag)
    (hvalid : ∀ clause ∈ clauses, clause.IsValid) :
    parseCompound (printedClauses tag clauses) = .ok ⟨tag, [], clauses, none⟩ := by
  have hcompound : (Compound.mk tag [] clauses none).IsValid :=
    { tag := htag
      shorthands := by simp
      separated := trivial
      clauses := hvalid
      state := by simp }
  rw [← text_eq_printedClauses, parseCompound_eq_ok_iff]
  exact Compound.isReadingOf_text hcompound

/-- Of clauses that are read back the lenient reader leaves to the element those that name neither
the context nor the identifier. -/
theorem attributes_printedClauses (known : List String) (fallback : String) (htag : IsTag tag)
    (hvalid : ∀ clause ∈ clauses, clause.IsValid) :
    (lenientTarget known fallback (printedClauses tag clauses)).attributes =
      clauses.filter (! ·.isConsumed) := by
  rw [lenientTarget_of_parseCompound (parseCompound_printedClauses htag hvalid)]
  rfl

/-- A clause that does not name the context or the identifier asks for no value of their
attributes. -/
theorem valueOf?_eq_none_of_isConsumed {clause : AttributeClause} (h : clause.isConsumed = false) :
    clause.valueOf? contextAttribute = none ∧ clause.valueOf? identifierAttribute = none := by
  simpa [AttributeClause.isConsumed] using h

/-- **Clauses are read back.**  A tag with clauses behind it, none of which names the context or
the identifier, is a selector of the grammar that aims at the tag and leaves exactly these clauses
to the element; and the lenient reader gives exactly these attribute clauses too. -/
theorem read_printedClauses (known : List String) (fallback : String) (htag : IsTag tag)
    (hvalid : ∀ clause ∈ clauses, clause.IsValid)
    (hplain : ∀ clause ∈ clauses, clause.isConsumed = false) :
    strictTarget known (printedClauses tag clauses) =
        .ok { component := tag, attributes := clauses } ∧
      (lenientTarget known fallback (printedClauses tag clauses)).attributes = clauses := by
  have hkept : clauses.filter (! ·.isConsumed) = clauses := by
    rw [List.filter_eq_self]
    intro clause hclause
    rw [hplain clause hclause]
    rfl
  have hcontext : clauses.findSome? (AttributeClause.valueOf? contextAttribute) = none := by
    rw [List.findSome?_eq_none_iff]
    exact fun clause hclause => (valueOf?_eq_none_of_isConsumed (hplain clause hclause)).1
  have hidentifier : clauses.findSome? (AttributeClause.valueOf? identifierAttribute) = none := by
    rw [List.findSome?_eq_none_iff]
    exact fun clause hclause => (valueOf?_eq_none_of_isConsumed (hplain clause hclause)).2
  constructor
  · rw [strictTarget, parseCompound_printedClauses htag hvalid]
    show Except.ok (Compound.target known _) = _
    simp only [Compound.target, hkept, hcontext, hidentifier]
    rfl
  · rw [attributes_printedClauses known fallback htag hvalid, hkept]

end

/-- Clauses of several kinds, one of them twice, with values that look like clauses, like
shorthands and like the ends of clauses. -/
theorem read_printedClauses_nested :
    let clauses : List AttributeClause := [⟨"disabled", .present, none⟩,
      ⟨"title", .equals, some "[data-id="⟩, ⟨"alt", .contains, some "]\n.chat#x:hover"⟩,
      ⟨"data-id", .startsWith, some "a"⟩, ⟨"data-context", .equals, some ""⟩,
      ⟨"title", .equals, some "[data-id="⟩]
    IsTag "button" ∧ (∀ clause ∈ clauses, clause.IsValid) ∧
      (∀ clause ∈ clauses, clause.isConsumed = false) ∧
      printedClauses "button" clauses = "button[disabled][title=\"[data-id=\"]" ++
        "[alt*=\"]\n.chat#x:hover\"][data-id^=\"a\"][data-context=\"\"][title=\"[data-id=\"]" ∧
      strictTarget standardContexts (printedClauses "button" clauses) =
        .ok { component := "button", attributes := clauses } ∧
      (lenientTarget standardContexts standardComponent
        (printedClauses "button" clauses)).attributes = clauses := by
  intro clauses
  have hparse : parseCompound (printedClauses "button" clauses) =
      .ok ⟨"button", [], clauses, none⟩ := eq_ok_of_toOption (by decide +kernel)
  have hreading := (parseCompound_eq_ok_iff.1 hparse).valid
  have hplain : ∀ clause ∈ clauses, clause.isConsumed = false := by decide +kernel
  exact ⟨hreading.tag, hreading.clauses, hplain, by decide +kernel,
    read_printedClauses standardContexts standardComponent hreading.tag hreading.clauses hplain⟩

end StyleCascade
