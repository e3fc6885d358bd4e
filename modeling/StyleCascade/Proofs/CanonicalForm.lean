import StyleCascade.Proofs.Weights

/-!
# The canonical form of a selector

In the canonical form of a selector the clauses of its shorthands stand in the place of the
shorthands, and everything else is as it was written.  Normalization gives it where every
shorthand is attached: the first pass has turned each identifier into a clause before the second
one looks at the contexts, and a bracket may stand behind a context as well as in front of one.

* `Shorthand.canonicalText`, `Compound.canonicalText` — the canonical form.
* `normalize_text_eq_canonicalText` — a selector of attached shorthands is normalized to its
  canonical form.
-/

namespace StyleCascade

open StyleCascade.Text StyleCascade.Selector

/-- The clause that a shorthand stands for; a context that is not known stands for itself. -/
def Shorthand.canonicalText (known : List String) : Shorthand → String
  | .context name =>
    if known.contains name then "[data-context=\"" ++ name ++ "\"]" else "." ++ name
  | .identifier name => "[data-id=\"" ++ name ++ "\"]"

/-- A selector with its shorthands, one by one, in canonical form. -/
def Compound.canonicalText (known : List String) (c : Compound) : String :=
  c.tag ++ String.join (c.shorthands.map (Shorthand.canonicalText known)) ++
    String.join (c.clauses.map AttributeClause.text) ++ (c.state.map (":" ++ ·)).getD ""

theorem Shorthand.text_expandedSegment (known : List String) (item : Shorthand) :
    (item.expandedSegment known).text = (item.canonicalText known).toList := by
  cases item with
  | context name =>
    rw [Shorthand.expandedSegment, Shorthand.canonicalText]
    split
    · simp [Segment.text, equalsClause, contextAttribute]
    · simp [Segment.text]
  | identifier name =>
    simp [Shorthand.expandedSegment, Shorthand.canonicalText, Segment.text, equalsClause,
      identifierAttribute]

/-- The canonical form is made of the segments of attached shorthands. -/
theorem Compound.toList_canonicalText (known : List String) (c : Compound) :
    (c.canonicalText known).toList =
      c.tag.toList ++ (segmentsText (c.shorthands.map (Shorthand.expandedSegment known)) ++
        (clausesText c.clauses ++ stateText c.state)) := by
  have hstate : ((c.state.map (":" ++ ·)).getD "").toList = stateText c.state := by
    cases c.state <;> simp [stateText]
  simp only [Compound.canonicalText, String.toList_append, String.toList_join, hstate,
    segmentsText, clausesText, List.flatMap_map, Shorthand.text_expandedSegment,
    List.append_assoc]

/-- **The canonical form.**  A selector of the grammar in which every name with a shorthand behind
it ends in a word character is normalized to its canonical form: each identifier and each known
context gives way to its clause, and the tag, the other contexts, the clauses and the state stay. -/
theorem normalize_text_eq_canonicalText (known : List String) {c : Compound} (hvalid : c.IsValid)
    (hattached : ∀ item ∈ c.shorthands.dropLast, endsInWord item.name.toList = true) :
    normalize known c.text = c.canonicalText known := by
  have hloose : normalizeChars known c.text.toList = c.looseText known :=
    normalizeChars_eq hvalid (Compound.isReadingOf_text hvalid).text
  rw [← String.toList_inj, toList_normalize, hloose, Compound.toList_canonicalText,
    Compound.looseText, Compound.looseSegments_of_attached known hattached]

/-- The statement at a selector with shorthands of every kind, one of them inside a value. -/
theorem normalize_text_eq_canonicalText_hover :
    let c : Compound := ⟨"button", [.context "x-1", .context "chat", .identifier "a-.b",
      .identifier "c"], [⟨"href", .endsWith, some "].chat"⟩], some "hover-"⟩
    c.text = "button.x-1.chat#a-.b#c[href$=\"].chat\"]:hover-" ∧ c.IsValid ∧
      (∀ item ∈ c.shorthands.dropLast, endsInWord item.name.toList = true) ∧
      c.canonicalText standardContexts = "button.x-1[data-context=\"chat\"][data-id=\"a-.b\"]" ++
        "[data-id=\"c\"][href$=\"].chat\"]:hover-" ∧
      normalize standardContexts c.text = c.canonicalText standardContexts := by
  intro c
  have htext : c.text = "button.x-1.chat#a-.b#c[href$=\"].chat\"]:hover-" := by decide +kernel
  have hparse : parseCompound c.text = .ok c := by
    rw [htext]
    exact eq_ok_of_toOption (by decide +kernel)
  have hvalid : c.IsValid := (parseCompound_eq_ok_iff.1 hparse).valid
  have hattached : ∀ item ∈ c.shorthands.dropLast, endsInWord item.name.toList = true := by
    decide +kernel
  have hcanonical : c.canonicalText standardContexts = "button.x-1[data-context=\"chat\"]" ++
      "[data-id=\"a-.b\"]" ++ "[data-id=\"c\"][href$=\"].chat\"]:hover-" := by decide +kernel
  exact ⟨htext, hvalid, hattached, hcanonical,
    normalize_text_eq_canonicalText standardContexts hvalid hattached⟩

end StyleCascade
