import StyleCascade.Check.Selectors
import StyleCascade.Proofs.Agreement
import StyleCascade.Proofs.StrictGrammar
import StyleCascade.Proofs.Words
import StyleCascade.Rule

/-!
# Warnings about selectors

Two checks look at the text of a selector where other parts of the library read it, and they
come to the same end.  Outside its clauses a selector of the grammar has neither blanks nor signs
between elements, whatever its values hold, so the warning of combinators tells of selectors that
the grammar refuses.  And expanding a selector leaves the word at its head as it is, so the
warning of a missing tag tells of selectors that aim at the default component.

* `Reports` — a check has a finding about a selector.
* `isCompoundChar_of_mem_replaceClauses` — the characters of a selector outside its clauses.
* `strictTarget_of_reports_combinators` — combinators are found in no selector of the grammar.
* `Expands.takeWhile_isWord`, `component_compile` — the word at the head of a selector is the
  component of its rule.
* `reports_tags_iff_component` — a tag is missed exactly where the component is the default one.
-/

namespace StyleCascade

open StyleCascade.Text StyleCascade.Selector

/-! ## Reports -/

/-- A check has a finding about a selector. -/
def Reports (check : Check) (definition : Definition) (config : Config) (selector : String) :
    Prop :=
  ∃ finding ∈ check definition config, finding.selector = some selector

section
variable {definition : Definition} {config : Config} {selector : String}

/-- A check that picks some of the selectors reports those that it picks. -/
theorem reports_iff_of_filter {check : Check} (picks : String → Bool) {report : String → Finding}
    (hreport : ∀ s, (report s).selector = some s)
    (hcheck : check definition config = (definition.selectors.filter picks).map report) :
    Reports check definition config selector ↔
      selector ∈ definition.selectors ∧ picks selector = true := by
  rw [Reports, hcheck, ← List.mem_filter]
  constructor
  · rintro ⟨finding, hmem, hselector⟩
    obtain ⟨s, hs, rfl⟩ := List.mem_map.1 hmem
    rw [hreport, Option.some.injEq] at hselector
    rwa [← hselector]
  · intro hmem
    exact ⟨report selector, List.mem_map_of_mem hmem, hreport selector⟩

theorem reports_combinators_iff :
    Reports Check.combinators definition config selector ↔
      selector ∈ definition.selectors ∧ hasCombinator selector = true :=
  reports_iff_of_filter hasCombinator (fun _ => rfl) rfl

theorem reports_grammar_iff :
    Reports Check.grammar definition config selector ↔
      selector ∈ definition.selectors ∧ ∃ column, parseCompound selector = .error column := by
  constructor
  · rintro ⟨finding, hmem, hselector⟩
    obtain ⟨s, hs, hfinding⟩ := List.mem_filterMap.1 hmem
    cases hparse : parseCompound s with
    | ok c => simp [hparse] at hfinding
    | error column =>
      simp only [hparse, Option.some.injEq] at hfinding
      subst hfinding
      cases hselector
      exact ⟨hs, column, hparse⟩
  · rintro ⟨hs, column, hparse⟩
    refine ⟨_, List.mem_filterMap.2 ⟨selector, hs, by rw [hparse]⟩, rfl⟩

theorem reports_tags_iff :
    Reports Check.tags definition config selector ↔
      selector ∈ definition.selectors ∧ startsWithTag selector = false := by
  have hpicks : Reports Check.tags definition config selector ↔
      selector ∈ definition.selectors ∧ (!startsWithTag selector) = true :=
    reports_iff_of_filter (!startsWithTag ·) (fun _ => rfl) rfl
  rwa [Bool.not_eq_true'] at hpicks

end

/-! ## Combinators -/

/-- The characters of a selector of the grammar outside its clauses: those of names, and the marks
of shorthands and states. -/
def isCompoundChar (c : Char) : Bool := isName c || c == '.' || c == '#' || c == ':'

theorem isCompoundChar_of_isName {c : Char} (h : isName c = true) : isCompoundChar c = true := by
  simp [isCompoundChar, h]

theorem isCompoundChar_iff {c : Char} :
    isCompoundChar c = true ↔ isName c = true ∨ c = '.' ∨ c = '#' ∨ c = ':' := by
  simp [isCompoundChar, or_assoc]

theorem isCompoundChar_of_mem_shorthandsText {items : List Shorthand}
    (h : ∀ item ∈ items, item.IsValid) : ∀ c ∈ shorthandsText items, isCompoundChar c = true := by
  intro c hc
  obtain ⟨item, hitem, hc⟩ := List.mem_flatMap.1 hc
  have hname := Shorthand.shorthandName (h item hitem)
  rw [isCompoundChar_iff]
  cases item with
  | context name =>
    rw [toList_text_context, List.mem_cons] at hc
    rcases hc with rfl | hc
    · exact .inr (.inl rfl)
    · exact (hname.1 c hc).imp_right .inl
  | identifier name =>
    rw [toList_text_identifier, List.mem_cons] at hc
    rcases hc with rfl | hc
    · exact .inr (.inr (.inl rfl))
    · exact (hname.1 c hc).imp_right .inl

theorem isCompoundChar_of_mem_stateText {state : Option String}
    (h : ∀ name ∈ state, IsNameWord name) : ∀ c ∈ stateText state, isCompoundChar c = true := by
  intro c hc
  cases state with
  | none => cases hc
  | some name =>
    rw [stateText, List.mem_cons] at hc
    rcases hc with rfl | hc
    · decide
    · exact isCompoundChar_of_isName ((isNameWord_iff.1 (h name rfl)).2 c hc)

/-- A selector of the grammar with an underscore for each of its clauses. -/
theorem replaceClauses_text {c : Compound} (h : c.IsValid) :
    replaceClauses ['_'] c.text.toList =
      c.tag.toList ++ (shorthandsText c.shorthands ++
        (List.replicate c.clauses.length '_' ++ stateText c.state)) := by
  have htag : '[' ∉ c.tag.toList :=
    not_mem_of_isName (isName_of_mem_tag h.tag) (by decide)
  have hshorthands : '[' ∉ shorthandsText c.shorthands := by
    intro hmem
    have hchar := isCompoundChar_of_mem_shorthandsText h.shorthands _ hmem
    revert hchar
    decide
  rw [replaceClauses, replaceAll_eq_replaceFrom, Compound.toList_text,
    replaceFrom_clause_append htag, replaceFrom_clause_append hshorthands,
    replaceFrom_clausesText h.clauses h.state]

theorem isCompoundChar_of_mem_replaceClauses {c : Compound} (h : c.IsValid) :
    ∀ d ∈ replaceClauses ['_'] c.text.toList, isCompoundChar d = true := by
  intro d hd
  rw [replaceClauses_text h] at hd
  simp only [List.mem_append] at hd
  rcases hd with hd | hd | hd | hd
  · exact isCompoundChar_of_isName (isName_of_mem_tag h.tag d hd)
  · exact isCompoundChar_of_mem_shorthandsText h.shorthands d hd
  · rw [List.eq_of_mem_replicate hd]
    decide
  · exact isCompoundChar_of_mem_stateText h.state d hd

theorem isBlank_of_isCompoundChar {c : Char} (h : isCompoundChar c = true) :
    isBlank c = false := by
  rcases isCompoundChar_iff.1 h with h | rfl | rfl | rfl
  · exact isBlank_of_isName h
  · decide
  · decide
  · decide

/-- **A selector of the grammar relates no elements**, whatever its clauses contain. -/
theorem hasCombinator_eq_false {selector : String} {c : Compound}
    (h : parseCompound selector = .ok c) : hasCombinator selector = false := by
  obtain ⟨htext, hvalid⟩ := parseCompound_ok h
  have hchars := isCompoundChar_of_mem_replaceClauses hvalid
  have hne : replaceClauses ['_'] c.text.toList ≠ [] := by
    rw [replaceClauses_text hvalid]
    exact List.append_ne_nil_of_left_ne_nil hvalid.tag.ne_nil _
  have hsigns : (replaceClauses ['_'] c.text.toList).any
      (fun d => d == '>' || d == '+' || d == '~') = false := by
    rw [List.any_eq_false]
    intro d hd hsign
    have hchar := hchars d hd
    simp only [Bool.or_eq_true, beq_iff_eq] at hsign
    rcases hsign with (rfl | rfl) | rfl <;> exact absurd hchar (by decide)
  have hwords := words_of_forall hne fun d hd => isBlank_of_isCompoundChar (hchars d hd)
  rw [hasCombinator]
  simp only [htext, hsigns, hwords]
  rfl

/-- **Combinators are found in no selector of the grammar.**  A selector that the check of
combinators reports has no strict target, and the check of the grammar reports it as well. -/
theorem strictTarget_of_reports_combinators {definition : Definition} {config : Config}
    {selector : String} (h : Reports Check.combinators definition config selector) :
    (∀ known, ∃ column, strictTarget known selector = .error column) ∧
      Reports Check.grammar definition config selector := by
  obtain ⟨hmem, hcombinator⟩ := reports_combinators_iff.1 h
  cases hparse : parseCompound selector with
  | ok c =>
    rw [hasCombinator_eq_false hparse] at hcombinator
    cases hcombinator
  | error column =>
    refine ⟨fun known => ⟨column, ?_⟩, reports_grammar_iff.2 ⟨hmem, column, hparse⟩⟩
    rw [strictTarget, hparse]
    rfl

/-- The statement at a selector with a child, and with brackets and signs in its values. -/
theorem strictTarget_of_reports_combinators_child :
    let selector := " a[title=\"] + [\"] > b[class~=\">\"] "
    let definition : Definition :=
      { name := "n", overrides := .ofList [("", .null), (selector, .mapping [])] }
    let config : Config := {}
    Reports Check.combinators definition config selector ∧
      (∀ known, ∃ column, strictTarget known selector = .error column) ∧
      Reports Check.grammar definition config selector := by
  intro selector definition config
  have hreports : Reports Check.combinators definition config selector :=
    reports_combinators_iff.2 ⟨by decide +kernel, by decide +kernel⟩
  exact ⟨hreports, strictTarget_of_reports_combinators hreports⟩

/-- Signs and brackets inside a clause are no combinators. -/
example : hasCombinator "a[title=\"] + [\"][class~=\">\"]:hover" = false := by decide +kernel

/-! ## Tags -/

namespace Selector

/-- An expansion has the word of its text at the head. -/
theorem Expands.takeWhile_isWord {mark : Char} {shorthand : Recognizer (List Char)} {attr : String}
    (h : Abbreviates mark shorthand attr) {before : Option Char} {s out : List Char}
    (hs : Expands shorthand attr before s out) : out.takeWhile isWord = s.takeWhile isWord := by
  induction hs with
  | nil => rfl
  | clause hpiece _ _ =>
    obtain ⟨tail, rfl⟩ := hpiece.exists_cons
    rfl
  | @shorthand _ mark' name rest out hshort _ _ =>
    have hstops : StopsAt isWord (mark' :: (name ++ rest)) := by
      obtain ⟨rfl, -⟩ := List.cons.inj (h.shape hshort).1
      exact StopsAt.isWord (stopsAt_cons.2 h.mark_ne.2.2.2)
    rw [takeWhile_of_stopsAt hstops]
    rfl
  | char _ _ _ ih => rw [List.takeWhile_cons, List.takeWhile_cons, ih]

/-- Expanding the shorthands leaves the tag as it is. -/
theorem leadingTag?_normalizeChars (known : List String) (s : List Char) :
    leadingTag? (normalizeChars known s) = leadingTag? (trim s) := by
  have hids := expands_expandIdentifiers (trim s)
  have hctx := expands_expandContexts known (expandIdentifiers (trim s))
  rw [leadingTag?, leadingTag?, normalizeChars,
    hctx.takeWhile_isWord (abbreviates_knownContext known),
    hids.takeWhile_isWord abbreviates_identifier]

theorem leadingTag?_eq_none_iff {s : List Char} :
    leadingTag? s = none ↔ s.head?.any isWord = false := by
  rw [leadingTag?]
  cases s with
  | nil => simp
  | cons c cs =>
    cases hc : isWord c <;> simp [hc]

/-- Trimming the end of a text leaves its beginning. -/
theorem head?_trim (s : List Char) : (trim s).head? = (trimStart s).head? := by
  have hstops : StopsAt isBlank (trimStart s) := stopsAt_dropWhile isBlank s
  rw [trim]
  cases hstart : trimStart s with
  | nil => rfl
  | cons c cs =>
    have hc : isBlank c = false := by simpa [hstart] using hstops
    rw [trimEnd, List.head?_reverse, List.reverse_cons, List.dropWhile_append]
    split <;> simp [hc]

end Selector

/-- **The component of a rule** is the word at the head of its selector, blanks aside, and the
default component where there is none. -/
theorem component_compile (known : List String) (fallback selector : String) (props : Value) :
    (Rule.compile known fallback selector props).target.component =
      (leadingTag? (trim selector.toList)).getD fallback := by
  rw [← leadingTag?_normalizeChars known]
  simp only [Rule.compile, targetOf, targetOfChars, toList_normalize, trim_normalizeChars]

theorem startsWithTag_eq_false_iff {selector : String} :
    startsWithTag selector = false ↔ leadingTag? (trim selector.toList) = none := by
  rw [startsWithTag, ← head?_trim, leadingTag?_eq_none_iff]

/-- **A tag is missed exactly where the component is the default one.**  Of a selector that is not
blank the check of tags has a finding if and only if the component of its rule is the default
component, whatever this is; that is, if and only if the component depends on it. -/
theorem reports_tags_iff_component {definition : Definition} {config : Config} {selector : String}
    (hmem : selector ∈ definition.overrides.names) (hblank : allBlank selector.toList = false)
    (props : Value) :
    let component := fun fallback =>
      (Rule.compile config.knownContexts fallback selector props).target.component
    (Reports Check.tags definition config selector ↔ ∀ fallback, component fallback = fallback) ∧
      (Reports Check.tags definition config selector ↔
        ∃ fallback fallback', component fallback ≠ component fallback') := by
  have hselector : selector ∈ definition.selectors := by
    rw [Definition.selectors, List.mem_filter, hblank]
    exact ⟨hmem, rfl⟩
  have hreports : Reports Check.tags definition config selector ↔
      leadingTag? (trim selector.toList) = none := by
    rw [reports_tags_iff, startsWithTag_eq_false_iff]
    exact and_iff_right hselector
  simp only [hreports, component_compile]
  cases leadingTag? (trim selector.toList) with
  | none =>
    refine ⟨by simp, iff_of_true rfl ⟨"", "a", by simp⟩⟩
  | some tag =>
    refine ⟨iff_of_false (by simp) ?_, by simp⟩
    intro h
    have hempty := h ""
    have hother := h "a"
    simp only [Option.getD_some] at hempty hother
    rw [hempty] at hother
    exact absurd hother (by decide)

/-- The statement at a selector that begins with a blank and a shorthand. -/
theorem reports_tags_iff_component_shorthand :
    let selector := "\u3000.chat#send[title=\"a\"] "
    let definition : Definition := { name := "n", overrides := .ofList [(selector, .mapping [])] }
    let config : Config := {}
    selector ∈ definition.overrides.names ∧ allBlank selector.toList = false ∧
      Reports Check.tags definition config selector ∧
      ∀ fallback, (Rule.compile config.knownContexts fallback selector .null).target.component =
        fallback := by
  intro selector definition config
  have hmem : selector ∈ definition.overrides.names := by decide +kernel
  have hblank : allBlank selector.toList = false := by decide +kernel
  have hreports : Reports Check.tags definition config selector :=
    reports_tags_iff.2 ⟨by decide +kernel, by decide +kernel⟩
  exact ⟨hmem, hblank, hreports, (reports_tags_iff_component hmem hblank .null).1.1 hreports⟩

end StyleCascade
