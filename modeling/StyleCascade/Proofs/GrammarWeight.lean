import StyleCascade.Proofs.UnknownContexts
import StyleCascade.Proofs.Weights
import StyleCascade.Rule

/-!
# The weight that the grammar gives

By the grammar a selector weighs one, and ten for every known context, every identifier, every
clause and the state.  Its specificity is taken from the expanded text, so it falls short of this
by every shorthand that expansion leaves as it is written, and it exceeds it by every word that
expansion tears off an identifier that it leaves.

* `Compound.grammarWeight` — the weight by the grammar.
* `leftShorthands`, `tornContexts` — the shorthands that are left, and the words that are torn off.
* `specificity_add_left` — the two weights of a selector, balanced.
* `specificity_of_left_eq_nil`, `leftShorthands_of_attached` — where none is left they are the same,
  and where all shorthands are attached none is left.
* `specificity_eq_grammarWeight_iff` — they are the same exactly if as many shorthands are left as
  words are torn off.
-/

namespace StyleCascade

open StyleCascade.Text StyleCascade.Selector

/-! ## What expansion leaves -/

/-- Whether an identifier that is not attached stands behind a name. -/
def precedesHash (name : List Char) (rest : List Shorthand) : Bool :=
  !endsInWord name && rest.head?.any (·.identifier?.isSome)

/-- Whether a shorthand with `rest` behind it becomes a clause: an identifier that is attached, or
a context that is known, attached and in front of no identifier that is not. -/
def Shorthand.isExpanded (known : List String) (attached : Bool) (rest : List Shorthand) :
    Shorthand → Bool
  | .context name => known.contains name && attached && !precedesHash name.toList rest
  | .identifier _ => attached

/-- The shorthands that weigh something, and that expansion leaves as they are written. -/
def leftShorthands (known : List String) : (attached : Bool) → List Shorthand → List Shorthand
  | _, [] => []
  | attached, item :: rest =>
    (if item.isUnknown known || item.isExpanded known attached rest then [] else [item]) ++
      leftShorthands known (endsInWord item.name.toList) rest

/-- Of words behind dots those that become clauses of contexts: they are known and attached, and
the last one does not stand in front of an identifier that is not. -/
def expandedWords (known : List String) (beforeHash : Bool) :
    (attached : Bool) → List (List Char) → List (List Char)
  | _, [] => []
  | attached, w :: ws =>
    (if known.contains (String.ofList w) && attached && !(ws.isEmpty && beforeHash) then [w]
      else []) ++ expandedWords known beforeHash (endsInWord w) ws

/-- The words of a shorthand that become clauses of contexts although the shorthand is left: those
behind the dots of an identifier. -/
def Shorthand.tornWords (known : List String) (attached : Bool) (rest : List Shorthand) :
    Shorthand → List (List Char)
  | .context _ => []
  | .identifier name =>
    match attached, name.toList.splitOn '.' with
    | false, w :: ws => expandedWords known (precedesHash name.toList rest) (endsInWord w) ws
    | _, _ => []

/-- The words that expansion tears off identifiers that it leaves. -/
def tornContexts (known : List String) : (attached : Bool) → List Shorthand → List (List Char)
  | _, [] => []
  | attached, item :: rest =>
    item.tornWords known attached rest ++
      tornContexts known (endsInWord item.name.toList) rest

/-! ## Clauses among segments -/

/-- The number of clauses in a row of segments. -/
def clauseCount (segments : List Segment) : Nat := (segments.filterMap Segment.clause?).length

section
variable {known : List String}

theorem clauseCount_clause (attr : String) (name : List Char) (rest : List Segment) :
    clauseCount (.clause attr name :: rest) = clauseCount rest + 1 := rfl

theorem clauseCount_word (mark : Char) (name : List Char) (rest : List Segment) :
    clauseCount (.word mark name :: rest) = clauseCount rest := rfl

theorem startsWithHash_dots (words : List (List Char)) (rest : List Segment) :
    startsWithHash (words.map (.word '.') ++ rest) = (words.isEmpty && startsWithHash rest) := by
  cases words <;> rfl

/-- Of words behind dots the second pass makes clauses of those that are expanded. -/
theorem clauseCount_contextSegments_dots (attached : Bool) (words : List (List Char))
    (rest : List Segment) :
    clauseCount (contextSegments known attached (words.map (.word '.') ++ rest)) =
      (expandedWords known (startsWithHash rest) attached words).length +
        clauseCount (contextSegments known (lastInWord attached words) rest) := by
  induction words generalizing attached with
  | nil => exact (Nat.zero_add _).symm
  | cons w ws ih =>
    have hcond : (('.' : Char) == '.' && attached && !startsWithHash (ws.map (.word '.') ++ rest) &&
        known.contains (String.ofList w)) = (known.contains (String.ofList w) && attached &&
          !(ws.isEmpty && startsWithHash rest)) := by
      rw [startsWithHash_dots, beq_self_eq_true, Bool.true_and, Bool.and_comm, Bool.and_assoc]
    rw [List.map_cons, List.cons_append, contextSegments, hcond, expandedWords, lastInWord_cons,
      List.length_append]
    split
    · rw [clauseCount_clause, ih, List.length_singleton]
      omega
    · rw [clauseCount_word, ih, List.length_nil]
      omega

/-- Where an identifier comes first, it does not matter to the second pass whether it is
attached. -/
theorem contextSegments_of_identifier {items : List Shorthand}
    (hvalid : ∀ item ∈ items, item.IsValid)
    (hitems : ∀ item ∈ items, item.identifier?.isSome = true) (attached attached' again : Bool) :
    contextSegments known attached' (shorthandSegments attached items) =
      contextSegments known again (shorthandSegments attached items) := by
  cases items with
  | nil => rfl
  | cons item rest =>
    cases item with
    | context name => cases hitems _ List.mem_cons_self
    | identifier name =>
      obtain ⟨words, hne, hwords, hname⟩ :=
        isValid_identifier_iff.1 (hvalid _ List.mem_cons_self)
      cases attached with
      | true => rfl
      | false =>
        cases words with
        | nil => exact absurd rfl hne
        | cons w ws =>
          rw [shorthandSegments, hname, if_neg Bool.false_ne_true, refusedSegments_dotted hwords]
          rfl

theorem precedesHash_eq (name : List Char) {rest : List Shorthand}
    (hvalid : ∀ item ∈ rest, item.IsValid) :
    startsWithHash (shorthandSegments (endsInWord name) rest) = precedesHash name rest := by
  rw [startsWithHash_shorthandSegments _ _ hvalid, precedesHash, Bool.not_or]
  cases rest with
  | nil => simp
  | cons item others => simp

/-! ## The balance of a row -/

theorem clauseCount_context {name : String} {rest : List Shorthand} (attached : Bool)
    (hrest : ∀ item ∈ rest, item.IsValid) :
    clauseCount (contextSegments known attached
        (shorthandSegments attached (.context name :: rest))) =
      (if (Shorthand.context name).isExpanded known attached rest then 1 else 0) +
        clauseCount (contextSegments known (endsInWord name.toList)
          (shorthandSegments (endsInWord name.toList) rest)) := by
  have hcond : (('.' : Char) == '.' && attached &&
      !startsWithHash (shorthandSegments (endsInWord name.toList) rest) &&
      known.contains (String.ofList name.toList)) =
        (Shorthand.context name).isExpanded known attached rest := by
    rw [precedesHash_eq _ hrest, String.ofList_toList, beq_self_eq_true, Bool.true_and,
      Bool.and_comm, Shorthand.isExpanded, Bool.and_assoc]
  rw [shorthandSegments, contextSegments, hcond]
  split
  · rw [clauseCount_clause, Nat.add_comm]
  · rw [clauseCount_word, Nat.zero_add]

theorem clauseCount_identifier {name : String} {rest : List Shorthand} (attached : Bool)
    (hname : (Shorthand.identifier name).IsValid) (hrest : ∀ item ∈ rest, item.IsValid)
    (hsep : Separated (.identifier name :: rest)) :
    clauseCount (contextSegments known attached
        (shorthandSegments attached (.identifier name :: rest))) =
      (if (Shorthand.identifier name).isExpanded known attached rest then 1 else 0) +
        ((Shorthand.identifier name).tornWords known attached rest).length +
          clauseCount (contextSegments known (endsInWord name.toList)
            (shorthandSegments (endsInWord name.toList) rest)) := by
  obtain ⟨words, hne, hwords, hdotted⟩ := isValid_identifier_iff.1 hname
  cases attached with
  | true =>
    rw [shorthandSegments, if_pos rfl, List.singleton_append, contextSegments, clauseCount_clause,
      contextSegments_of_identifier hrest (isSome_identifier?_of_separated hsep) _ true
        (endsInWord name.toList)]
    simp [Shorthand.isExpanded, Shorthand.tornWords, Nat.add_comm]
  | false =>
    cases words with
    | nil => exact absurd rfl hne
    | cons w ws =>
      have hsplit : name.toList.splitOn '.' = w :: ws := by
        rw [hdotted]
        exact List.splitOn_intercalate '.' (fun x hx => (hwords x hx).dot_not_mem) hne
      have hsegments : contextSegments known false
          (shorthandSegments false (.identifier name :: rest)) =
            .word '#' w :: contextSegments known (endsInWord w)
              (ws.map (.word '.') ++ shorthandSegments (endsInWord name.toList) rest) := by
        rw [shorthandSegments, hdotted, refusedSegments_dotted hwords]
        rfl
      rw [hsegments, clauseCount_word, clauseCount_contextSegments_dots, precedesHash_eq _ hrest,
        ← endsInWord_dotted hwords, ← hdotted]
      simp [Shorthand.isExpanded, Shorthand.tornWords, hsplit]

/-- **One shorthand.**  It adds a clause to the row if it is expanded, and one for each word that is
torn off it. -/
theorem clauseCount_shorthand {item : Shorthand} {rest : List Shorthand} (attached : Bool)
    (hvalid : ∀ i ∈ item :: rest, i.IsValid) (hsep : Separated (item :: rest)) :
    clauseCount (contextSegments known attached (shorthandSegments attached (item :: rest))) =
      (if item.isExpanded known attached rest then 1 else 0) +
        (item.tornWords known attached rest).length +
          clauseCount (contextSegments known (endsInWord item.name.toList)
            (shorthandSegments (endsInWord item.name.toList) rest)) := by
  rw [List.forall_mem_cons] at hvalid
  cases item with
  | context name => exact clauseCount_context attached hvalid.2
  | identifier name => exact clauseCount_identifier attached hvalid.1 hvalid.2 hsep

/-- Only what weighs something is expanded. -/
theorem isUnknown_of_isExpanded {item : Shorthand} {attached : Bool} {rest : List Shorthand}
    (h : item.isExpanded known attached rest = true) : item.isUnknown known = false := by
  cases item with
  | context name =>
    rw [Shorthand.isExpanded, Bool.and_eq_true, Bool.and_eq_true] at h
    rw [isUnknown_context, h.1.1]
    rfl
  | identifier name => rfl

/-- **A row in balance.**  The clauses that expansion makes of shorthands, and the shorthands that
are left, are as many as the shorthands that weigh something and the words that are torn off. -/
theorem clauseCount_add_left (known : List String) (attached : Bool) {items : List Shorthand}
    (hvalid : ∀ item ∈ items, item.IsValid) (hsep : Separated items) :
    clauseCount (contextSegments known attached (shorthandSegments attached items)) +
        (leftShorthands known attached items).length =
      items.countP (! ·.isUnknown known) + (tornContexts known attached items).length := by
  induction items generalizing attached with
  | nil => rfl
  | cons item rest ih =>
    have hrest := ih (endsInWord item.name.toList) (List.forall_mem_cons.1 hvalid).2
      (separated_tail hsep)
    rw [clauseCount_shorthand attached hvalid hsep, leftShorthands, tornContexts, List.countP_cons,
      List.length_append, List.length_append]
    cases hexpanded : item.isExpanded known attached rest with
    | true =>
      simp only [isUnknown_of_isExpanded hexpanded, Bool.or_true, if_true, List.length_nil,
        Bool.not_false]
      omega
    | false =>
      cases item.isUnknown known with
      | true =>
        simp only [Bool.true_or, if_true, List.length_nil, Bool.not_true, Bool.false_eq_true,
          if_false]
        omega
      | false =>
        simp only [Bool.or_self, Bool.false_eq_true, if_false, List.length_singleton,
          Bool.not_false, if_true]
        omega

theorem countP_not_isUnknown (items : List Shorthand) :
    items.countP (! ·.isUnknown known) =
      items.countP (fun item => (item.context? known).isSome) + identifierCount items := by
  induction items with
  | nil => rfl
  | cons item rest ih =>
    rw [identifierCount] at ih ⊢
    simp only [List.countP_cons, ih]
    cases item with
    | context name =>
      have hsame : ((Shorthand.context name).context? known).isSome =
          !(Shorthand.context name).isUnknown known := by
        rw [isUnknown_context, Shorthand.context?]
        cases known.contains name <;> rfl
      simp only [hsame, Shorthand.identifier?, Option.isSome_none, Bool.false_eq_true, if_false]
      omega
    | identifier name =>
      simp only [Shorthand.isUnknown, Shorthand.context?, Shorthand.identifier?, Option.isSome_none,
        Option.isSome_some, Bool.not_false, Bool.false_eq_true, if_true, if_false]
      omega

end

/-! ## The weight of a selector -/

/-- The weight that the grammar gives to a selector: one, and ten for every known context, every
identifier, every clause and the state. -/
def Compound.grammarWeight (known : List String) (c : Compound) : Nat :=
  1 + 10 * (c.shorthands.countP (fun item => (item.context? known).isSome) +
    identifierCount c.shorthands + c.clauses.length + if c.state.isSome then 1 else 0)

/-- The shorthands of a selector that weigh something and are left. -/
def Compound.leftShorthands (known : List String) (c : Compound) : List Shorthand :=
  StyleCascade.leftShorthands known true c.shorthands

/-- The words of a selector that are torn off identifiers. -/
def Compound.tornContexts (known : List String) (c : Compound) : List (List Char) :=
  StyleCascade.tornContexts known true c.shorthands

section
variable {known : List String} {fallback selector : String} {c : Compound}

/-- **The two weights, balanced.** -/
theorem weight_add_left (known : List String) (hvalid : c.IsValid) :
    c.weight known + 10 * (c.leftShorthands known).length =
      c.grammarWeight known + 10 * (c.tornContexts known).length := by
  have hrow := clauseCount_add_left known true hvalid.shorthands hvalid.separated
  have hclauses : (c.looseClauses known).length =
      clauseCount (c.looseSegments known) + c.clauses.length := by
    rw [Compound.looseClauses, List.length_append]
    rfl
  have hstate : c.state.toList.length = if c.state.isSome then 1 else 0 := by
    cases c.state <;> rfl
  rw [countP_not_isUnknown, ← Compound.looseSegments] at hrow
  rw [Compound.weight, hclauses, hstate, Compound.grammarWeight, componentWeight, clauseWeight,
    stateWeight, Compound.leftShorthands, Compound.tornContexts]
  omega

theorem specificity_add_left (known : List String) (fallback : String)
    (h : parseCompound selector = .ok c) (props : Value) :
    (Rule.compile known fallback selector props).specificity +
        10 * (c.leftShorthands known).length =
      c.grammarWeight known + 10 * (c.tornContexts known).length := by
  obtain ⟨htext, hvalid⟩ := parseCompound_ok h
  have hbalance := weight_add_left known hvalid
  rw [Rule.compile, specificity_of_isValid hvalid htext]
  show ((c.weight known : Nat) : Int) + _ = _
  omega

/-- Words are torn off only where an identifier is left. -/
theorem tornContexts_of_left_eq_nil {attached : Bool} {items : List Shorthand}
    (h : leftShorthands known attached items = []) : tornContexts known attached items = [] := by
  induction items generalizing attached with
  | nil => rfl
  | cons item rest ih =>
    rw [leftShorthands, List.append_eq_nil_iff] at h
    have htorn : item.tornWords known attached rest = [] := by
      cases item with
      | context name => rfl
      | identifier name =>
        cases attached with
        | true => rfl
        | false => cases h.1
    rw [tornContexts, htorn, ih h.2]
    rfl

/-- Where no shorthand that weighs something is left, the two weights are the same. -/
theorem specificity_of_left_eq_nil (h : parseCompound selector = .ok c)
    (hleft : c.leftShorthands known = []) (props : Value) :
    (Rule.compile known fallback selector props).specificity = c.grammarWeight known := by
  have hbalance := specificity_add_left known fallback h props
  have htorn : c.tornContexts known = [] := tornContexts_of_left_eq_nil hleft
  rw [hleft, htorn] at hbalance
  simpa using hbalance

/-- Where every name with a shorthand behind it ends in a word character, no shorthand that weighs
something is left. -/
theorem leftShorthands_of_attached {items : List Shorthand}
    (hattached : ∀ item ∈ items.dropLast, endsInWord item.name.toList = true) :
    leftShorthands known true items = [] := by
  induction items with
  | nil => rfl
  | cons item rest ih =>
    have hexpanded : (item.isUnknown known || item.isExpanded known true rest) = true := by
      cases item with
      | context name =>
        have hhash : precedesHash name.toList rest = false := by
          cases rest with
          | nil => simp [precedesHash]
          | cons next others =>
            have hname := (endsInWord_tail hattached).1
            rw [Shorthand.name] at hname
            rw [precedesHash, hname]
            rfl
        rw [isUnknown_context, Shorthand.isExpanded, hhash]
        cases known.contains name <;> rfl
      | identifier name => rfl
    rw [leftShorthands, if_pos hexpanded, List.nil_append]
    cases rest with
    | nil => rfl
    | cons next others =>
      obtain ⟨hname, hrest⟩ := endsInWord_tail hattached
      rw [hname]
      exact ih hrest

/-- **The weight by the grammar.**  The specificity of a selector of the grammar is the weight that
the grammar gives to it if and only if as many of its shorthands are left as words are torn off
its identifiers.  So it is where none of them is left, and none is where every name with a
shorthand behind it ends in a word character. -/
theorem specificity_eq_grammarWeight_iff (h : parseCompound selector = .ok c) (props : Value) :
    ((Rule.compile known fallback selector props).specificity = c.grammarWeight known ↔
      (c.leftShorthands known).length = (c.tornContexts known).length) ∧
    (c.leftShorthands known = [] →
      (Rule.compile known fallback selector props).specificity = c.grammarWeight known) ∧
    ((∀ item ∈ c.shorthands.dropLast, endsInWord item.name.toList = true) →
      c.leftShorthands known = []) := by
  have hbalance := specificity_add_left known fallback h props
  refine ⟨by omega, fun hleft => specificity_of_left_eq_nil h hleft props, ?_⟩
  exact leftShorthands_of_attached

end

/-- The statement at a selector in which one identifier is left and one word is torn off it. -/
theorem specificity_eq_grammarWeight_iff_torn :
    let selector := "button.chat#a-#b.sidebar[title=\":x\"]:hover"
    let c : Compound := ⟨"button", [.context "chat", .identifier "a-", .identifier "b.sidebar"],
      [⟨"title", .equals, some ":x"⟩], some "hover"⟩
    parseCompound selector = .ok c ∧
      c.leftShorthands standardContexts = [.identifier "b.sidebar"] ∧
      c.tornContexts standardContexts = ["sidebar".toList] ∧
      c.grammarWeight standardContexts = 51 ∧
      (Rule.compile standardContexts standardComponent selector .null).specificity =
        c.grammarWeight standardContexts := by
  intro selector c
  have hparse : parseCompound selector = .ok c := eq_ok_of_toOption (by decide +kernel)
  have hleft : c.leftShorthands standardContexts = [.identifier "b.sidebar"] := by decide +kernel
  have htorn : c.tornContexts standardContexts = ["sidebar".toList] := by decide +kernel
  refine ⟨hparse, hleft, htorn, by decide +kernel, ?_⟩
  refine (specificity_eq_grammarWeight_iff hparse .null).1.2 ?_
  rw [hleft, htorn]
  rfl

/-- Behind a word that ends in a hyphen a known context is left, and weighs nothing. -/
theorem not_specificity_eq_grammarWeight :
    ∃ c : Compound, parseCompound "button.foo-.chat" = .ok c ∧
      c.grammarWeight standardContexts = 11 ∧
      (Rule.compile standardContexts standardComponent "button.foo-.chat" .null).specificity = 1 ∧
      (Rule.compile standardContexts standardComponent "button.foo-.chat" .null).specificity ≠
        c.grammarWeight standardContexts := by
  have hparse : parseCompound "button.foo-.chat" =
      .ok ⟨"button", [.context "foo-", .context "chat"], [], none⟩ :=
    eq_ok_of_toOption (by decide +kernel)
  exact ⟨_, hparse, by decide +kernel, by decide +kernel, by decide +kernel⟩

end StyleCascade
