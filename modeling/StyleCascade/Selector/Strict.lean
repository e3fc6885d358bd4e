import StyleCascade.Selector.Compound
import StyleCascade.Selector.Lexeme

/-!
# Strict reading

The grammar of compound selectors as a reader.  Tokens are read from left to right, each as long
as it can be; reading stops at the first place where no token of the grammar fits.

* `readTag`, `readShorthands`, `readClauses`, `readState` — the four parts, in order.
* `readCompound` — a whole selector.
* `strictTarget` — the target of a selector, or the column where reading stopped.

A reader that stops gives the text from the place that it blames: the place where no token fits,
or, where the text ends too early, the start of the last token.
-/

namespace StyleCascade.Selector

open StyleCascade.Text

/-- What was read and the text behind it, or the text from the place to blame. -/
abbrev Reading (α : Type) := Except (List Char) (α × List Char)

/-- The tag at the head of a text. -/
def readTag : List Char → Reading String
  | [] => .error []
  | c :: cs =>
    if isNameStart c then .ok (String.ofList (c :: cs.takeWhile isWord), cs.dropWhile isWord)
    else .error (c :: cs)

/-- A shorthand at the head of a text; `none` where neither a dot nor `#` stands there. -/
def readShorthand : List Char → Option (Reading Shorthand)
  | '.' :: cs =>
    let (name, rest) := nameSpan cs
    if name.isEmpty then some (.error ('.' :: cs))
    else some (.ok (.context (String.ofList name), rest))
  | '#' :: cs =>
    let (name, rest) := dottedSpan cs
    if cs.head?.any isName then some (.ok (.identifier (String.ofList name), rest))
    else some (.error ('#' :: cs))
  | _ => none

/-- The rest of a clause behind its name: the closing bracket, or an operator and a value and
then the bracket.  `name` is the text from the start of the name on. -/
def readTest (name rest : List Char) : Reading (ClauseOperator × Option String) :=
  match rest with
  | [] => .error name
  | ']' :: rest => .ok ((.present, none), rest)
  | _ =>
    match operator? rest with
    | none => .error rest
    | some (_, []) => .error rest
    | some (op, value) =>
      match quotedValue? value with
      | none => .error value
      | some (_, []) => .error value
      | some (text, ']' :: rest) => .ok ((op, some (String.ofList text)), rest)
      | some (_, rest) => .error rest

/-- A clause at the head of a text; `none` where no bracket stands there. -/
def readClause : List Char → Option (Reading AttributeClause)
  | '[' :: [] => some (.error ['['])
  | '[' :: cs =>
    match attributeName? cs with
    | none => some (.error cs)
    | some (name, rest) =>
      match readTest cs rest with
      | .error blamed => some (.error blamed)
      | .ok ((op, value), rest) => some (.ok (⟨name, op, value⟩, rest))
  | _ => none

/-- The state at the end of a text, or nothing where the text has ended. -/
def readState : List Char → Except (List Char) (Option String)
  | [] => .ok none
  | ':' :: [] => .error [':']
  | ':' :: cs =>
    match nameSpan cs with
    | ([], _) => .error cs
    | (name, []) => .ok (some (String.ofList name))
    | (_, rest) => .error rest
  | s => .error s

/-! ## Readers leave less text -/

theorem length_nameSpan_le (s : List Char) : (nameSpan s).2.length ≤ s.length :=
  (List.dropWhile_suffix isName).length_le

theorem length_dottedSpan_le (s : List Char) : (dottedSpan s).2.length ≤ s.length := by
  have h := congrArg List.length (dottedSpan_append s)
  rw [List.length_append] at h
  omega

theorem length_lt_of_readShorthand {s rest : List Char} {item : Shorthand}
    (h : readShorthand s = some (.ok (item, rest))) : rest.length < s.length := by
  unfold readShorthand at h
  split at h
  · rename_i cs
    have := length_nameSpan_le cs
    simp only at h
    split at h
    · simp at h
    · obtain ⟨_, rfl⟩ := by simpa using h
      simp only [List.length_cons]
      omega
  · rename_i cs
    have := length_dottedSpan_le cs
    simp only at h
    split at h
    · obtain ⟨_, rfl⟩ := by simpa using h
      simp only [List.length_cons]
      omega
    · simp at h
  · simp at h

theorem length_le_of_attributeName? {s rest : List Char} {name : String}
    (h : attributeName? s = some (name, rest)) : rest.length ≤ s.length := by
  cases s with
  | nil => simp [attributeName?] at h
  | cons c cs =>
    have := length_nameSpan_le cs
    simp only [attributeName?] at h
    split at h
    · obtain ⟨_, rfl⟩ := by simpa using h
      simp only [List.length_cons]
      omega
    · simp at h

theorem length_le_of_operator? {s rest : List Char} {op : ClauseOperator}
    (h : operator? s = some (op, rest)) : rest.length ≤ s.length := by
  unfold operator? at h
  split at h <;> simp only [Option.some.injEq, Prod.mk.injEq, reduceCtorEq] at h
  all_goals
    obtain ⟨_, rfl⟩ := h
    simp only [List.length_cons]
    omega

theorem length_le_of_quotedValue? {s value rest : List Char}
    (h : quotedValue? s = some (value, rest)) : rest.length ≤ s.length := by
  unfold quotedValue? at h
  split at h
  · rename_i cs
    have hle := (List.dropWhile_suffix (l := cs) (· != '"')).length_le
    split at h
    · rename_i heq
      obtain ⟨_, rfl⟩ := by simpa using h
      rw [heq] at hle
      simp only [List.length_cons] at hle ⊢
      omega
    · simp at h
  · simp at h

theorem length_le_of_readTest {name s rest : List Char} {test : ClauseOperator × Option String}
    (h : readTest name s = .ok (test, rest)) : rest.length ≤ s.length := by
  unfold readTest at h
  split at h
  · simp at h
  · obtain ⟨_, rfl⟩ := by simpa using h
    simp
  · split at h
    · simp at h
    · simp at h
    · rename_i op value _ hop
      have hv := length_le_of_operator? hop
      split at h
      · simp at h
      · simp at h
      · rename_i text r hq
        have hr := length_le_of_quotedValue? hq
        obtain ⟨_, rfl⟩ := by simpa using h
        simp only [List.length_cons] at hr
        omega
      · simp at h

theorem length_lt_of_readClause {s rest : List Char} {item : AttributeClause}
    (h : readClause s = some (.ok (item, rest))) : rest.length < s.length := by
  unfold readClause at h
  split at h
  · simp at h
  · rename_i cs _
    split at h
    · simp at h
    · rename_i name r hn
      have := length_le_of_attributeName? hn
      split at h
      · simp at h
      · rename_i ht
        have := length_le_of_readTest ht
        obtain ⟨_, rfl⟩ := by simpa using h
        simp only [List.length_cons]
        omega
  · simp at h

/-! ## Whole selectors -/

/-- The shorthands at the head of a text. -/
def readShorthands (s : List Char) : Reading (List Shorthand) :=
  match h : readShorthand s with
  | none => .ok ([], s)
  | some (.error blamed) => .error blamed
  | some (.ok (item, rest)) =>
    have := length_lt_of_readShorthand h
    match readShorthands rest with
    | .error blamed => .error blamed
    | .ok (items, rest) => .ok (item :: items, rest)
termination_by s.length

/-- The bracketed clauses at the head of a text. -/
def readClauses (s : List Char) : Reading (List AttributeClause) :=
  match h : readClause s with
  | none => .ok ([], s)
  | some (.error blamed) => .error blamed
  | some (.ok (item, rest)) =>
    have := length_lt_of_readClause h
    match readClauses rest with
    | .error blamed => .error blamed
    | .ok (items, rest) => .ok (item :: items, rest)
termination_by s.length

/-- A whole selector. -/
def readCompound (s : List Char) : Except (List Char) Compound := do
  let (tag, rest) ← readTag s
  let (shorthands, rest) ← readShorthands rest
  let (clauses, rest) ← readClauses rest
  let state ← readState rest
  return { tag, shorthands, clauses, state }

/-- The column of the place where `rest`, the end of the text `s`, begins: one more than the
number of characters between the last line feed before it, or the start, and the place. -/
def columnOf (s rest : List Char) : Nat :=
  ((s.take (s.length - rest.length)).reverse.takeWhile (· != '\n')).length + 1

/-- The parts of a selector, or the column where reading stopped. -/
def parseCompound (selector : String) : Except Nat Compound :=
  let s := trim selector.toList
  (readCompound s).mapError (columnOf s)

/-- What a selector of the grammar aims at, or the column where reading it stopped. -/
def strictTarget (known : List String) (selector : String) : Except Nat Target :=
  (parseCompound selector).map (Compound.target known)

/-- Whether a selector keeps to the grammar. -/
def isCompound (selector : String) : Bool := (parseCompound selector).isOk

example : strictTarget ["chat"] " a.chat[b]:c " =
    .ok ⟨"a", some "chat", none, some "c", [⟨"b", .present, none⟩]⟩ := by cbv

example : strictTarget [] "a[b" = .error 3 := by cbv

end StyleCascade.Selector
