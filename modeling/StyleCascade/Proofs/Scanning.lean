import StyleCascade.Text.Scan

/-!
# Laws of scanning

A scan reports a piece and goes on behind it, and passes characters where no piece starts.  The
leftmost piece of a text is the one at its head, if there is one, and else the leftmost one
behind its first character.

* `scanFrom_found`, `scanFrom_append_of_none` — one piece, and a run of characters between
  pieces; `scan_induction` — a text is scanned piece by piece.
* `findAllFrom`, `replaceFrom` — the pieces found and the text with them replaced, behind any
  character.
* `findFrom`, `findFrom_cons` — the leftmost piece, by recursion on the text.
-/

namespace StyleCascade.Text

variable {α : Type} {recognize : Recognizer α}

/-- The last character of a text, given the one in front of the text. -/
theorem getLast?_cons_or (c : Char) (cs : List Char) (before : Option Char) :
    (c :: cs).getLast?.or before = cs.getLast?.or (some c) := by
  rw [List.getLast?_cons]
  cases cs.getLast? <;> rfl

/-- Behind a piece the scan goes on, with the last character of the piece in front. -/
theorem scanFrom_found {before : Option Char} {matched rest : List Char} {piece : α}
    (hne : matched ≠ []) (h : recognize before (matched ++ rest) = some (piece, rest)) :
    scanFrom recognize 0 before (matched ++ rest) =
      .found piece :: scanFrom recognize 0 matched.getLast? rest := by
  cases matched with
  | nil => exact absurd rfl hne
  | cons c cs =>
    have hskip : (cs ++ rest).length - rest.length = cs.length := by
      rw [List.length_append]
      omega
    rw [List.cons_append] at h ⊢
    rw [scanFrom_of_some h, hskip, scanFrom_length_append, List.getLast?_cons]
    cases cs.getLast? <;> rfl

/-- Characters at which no piece starts are passed one by one. -/
theorem scanFrom_append_of_none {u : List Char}
    (h : ∀ before, ∀ c ∈ u, ∀ cs, recognize before (c :: cs) = none) (before : Option Char)
    (s : List Char) :
    scanFrom recognize 0 before (u ++ s) =
      u.map .between ++ scanFrom recognize 0 (u.getLast?.or before) s := by
  induction u generalizing before with
  | nil => rfl
  | cons c cs ih =>
    have hrest := ih (fun before d hd => h before d (List.mem_cons_of_mem c hd)) (some c)
    rw [List.cons_append, scanFrom_of_none (h before c List.mem_cons_self _), hrest,
      getLast?_cons_or, List.map_cons, List.cons_append]

/-- The scan does not look at the character in front where the recognizer does not. -/
theorem scanFrom_before (h : ∀ before before' s, recognize before s = recognize before' s)
    (before before' : Option Char) (s : List Char) :
    scanFrom recognize 0 before s = scanFrom recognize 0 before' s := by
  cases s with
  | nil => simp
  | cons c cs => rw [scanFrom, scanFrom, h before before']

/-- Where all pieces start with one character, a text without it starts none. -/
theorem eq_none_of_not_mem {mark : Char}
    (hmark : ∀ before c cs, c ≠ mark → recognize before (c :: cs) = none) {u : List Char}
    (h : mark ∉ u) : ∀ before, ∀ c ∈ u, ∀ cs, recognize before (c :: cs) = none := by
  intro before c hc cs
  refine hmark before c cs ?_
  rintro rfl
  exact h hc

/-! ## Piece by piece -/

/-- A recognizer whose pieces are not empty and stand in the text. -/
def Consumes (recognize : Recognizer α) : Prop :=
  ∀ before s piece rest, recognize before s = some (piece, rest) →
    ∃ matched, matched ≠ [] ∧ s = matched ++ rest

/-- **A scan, piece by piece.**  What holds at the end of a text, and in front of a piece or of a
character that starts none as soon as it holds behind it, holds of every text. -/
theorem scan_induction (hconsumes : Consumes recognize) {motive : Option Char → List Char → Prop}
    (nil : ∀ before, motive before [])
    (found : ∀ before matched rest piece, matched ≠ [] →
      recognize before (matched ++ rest) = some (piece, rest) → motive matched.getLast? rest →
        motive before (matched ++ rest))
    (between : ∀ before c cs, recognize before (c :: cs) = none → motive (some c) cs →
      motive before (c :: cs))
    (before : Option Char) (s : List Char) : motive before s := by
  induction hlen : s.length using Nat.strongRecOn generalizing before s with
  | ind n ih =>
    cases s with
    | nil => exact nil before
    | cons c cs =>
      cases hhere : recognize before (c :: cs) with
      | none =>
        have hlt : cs.length < n := by
          rw [← hlen, List.length_cons]
          omega
        exact between before c cs hhere (ih cs.length hlt (some c) cs rfl)
      | some p =>
        obtain ⟨piece, rest⟩ := p
        obtain ⟨matched, hne, heq⟩ := hconsumes before (c :: cs) piece rest hhere
        have hlt : rest.length < n := by
          rw [← hlen, heq, List.length_append]
          have := List.length_pos_iff.2 hne
          omega
        rw [heq] at hhere ⊢
        exact found before matched rest piece hne hhere (ih rest.length hlt _ rest rfl)

/-! ## All pieces -/

/-- The pieces found in a text that stands behind the character `before`. -/
def findAllFrom (recognize : Recognizer α) (before : Option Char) (s : List Char) : List α :=
  (scanFrom recognize 0 before s).filterMap Piece.found?

theorem findAll_eq_findAllFrom (s : List Char) :
    findAll recognize s = findAllFrom recognize none s := rfl

@[simp] theorem findAllFrom_nil (before : Option Char) :
    findAllFrom recognize before [] = [] := by
  simp [findAllFrom]

theorem findAllFrom_found {before : Option Char} {matched rest : List Char} {piece : α}
    (hne : matched ≠ []) (h : recognize before (matched ++ rest) = some (piece, rest)) :
    findAllFrom recognize before (matched ++ rest) =
      piece :: findAllFrom recognize matched.getLast? rest := by
  rw [findAllFrom, scanFrom_found hne h]
  rfl

theorem findAllFrom_of_none {before : Option Char} {c : Char} {cs : List Char}
    (h : recognize before (c :: cs) = none) :
    findAllFrom recognize before (c :: cs) = findAllFrom recognize (some c) cs := by
  rw [findAllFrom, scanFrom_of_none h]
  rfl

theorem findAllFrom_before (h : ∀ before before' s, recognize before s = recognize before' s)
    (before before' : Option Char) (s : List Char) :
    findAllFrom recognize before s = findAllFrom recognize before' s := by
  rw [findAllFrom, findAllFrom, scanFrom_before h before before']

/-- A run of characters at which no piece starts holds no piece. -/
theorem findAllFrom_append_of_none {u : List Char}
    (h : ∀ before, ∀ c ∈ u, ∀ cs, recognize before (c :: cs) = none) (before : Option Char)
    (s : List Char) :
    findAllFrom recognize before (u ++ s) = findAllFrom recognize (u.getLast?.or before) s := by
  have hbetween : (u.map (Piece.between : Char → Piece α)).filterMap Piece.found? = [] := by
    rw [List.filterMap_map, List.filterMap_eq_nil_iff]
    exact fun _ _ => rfl
  rw [findAllFrom, scanFrom_append_of_none h, List.filterMap_append, hbetween]
  rfl

/-- Whatever is found is recognized somewhere. -/
theorem exists_of_found_mem_scanFrom {skip : Nat} {before : Option Char} {s : List Char}
    {piece : α} (h : .found piece ∈ scanFrom recognize skip before s) :
    ∃ before' s' rest, recognize before' s' = some (piece, rest) := by
  induction s generalizing skip before with
  | nil => simp at h
  | cons c cs ih =>
    cases skip with
    | succ skip => exact ih h
    | zero =>
      cases hhere : recognize before (c :: cs) with
      | none =>
        rw [scanFrom_of_none hhere, List.mem_cons] at h
        exact ih (h.resolve_left nofun)
      | some p =>
        obtain ⟨found, rest⟩ := p
        rw [scanFrom_of_some hhere, List.mem_cons] at h
        rcases h with heq | h
        · cases heq
          exact ⟨before, c :: cs, rest, hhere⟩
        · exact ih h

theorem exists_of_mem_findAllFrom {before : Option Char} {s : List Char} {piece : α}
    (h : piece ∈ findAllFrom recognize before s) :
    ∃ before' s' rest, recognize before' s' = some (piece, rest) := by
  obtain ⟨item, hitem, heq⟩ := List.mem_filterMap.1 h
  cases item with
  | found found =>
    cases heq
    exact exists_of_found_mem_scanFrom hitem
  | between c => cases heq

/-! ## The leftmost piece -/

/-- The leftmost piece of a text that stands behind the character `before`. -/
def findFrom (recognize : Recognizer α) (before : Option Char) (s : List Char) : Option α :=
  (findAllFrom recognize before s).head?

theorem find?_eq_findFrom (s : List Char) : find? recognize s = findFrom recognize none s := rfl

@[simp] theorem findFrom_nil (before : Option Char) : findFrom recognize before [] = none := by
  simp [findFrom]

theorem findFrom_cons (before : Option Char) (c : Char) (cs : List Char) :
    findFrom recognize before (c :: cs) =
      ((recognize before (c :: cs)).map Prod.fst).or (findFrom recognize (some c) cs) := by
  cases h : recognize before (c :: cs) with
  | none =>
    rw [findFrom, findAllFrom, scanFrom_of_none h]
    rfl
  | some p =>
    obtain ⟨piece, rest⟩ := p
    rw [findFrom, findAllFrom, scanFrom_of_some h]
    rfl

theorem findFrom_append_of_none {u : List Char}
    (h : ∀ before, ∀ c ∈ u, ∀ cs, recognize before (c :: cs) = none) (before : Option Char)
    (s : List Char) :
    findFrom recognize before (u ++ s) = findFrom recognize (u.getLast?.or before) s := by
  rw [findFrom, findAllFrom_append_of_none h]
  rfl

/-- The search does not look at the character in front where the recognizer does not. -/
theorem findFrom_before (h : ∀ before before' s, recognize before s = recognize before' s)
    (before before' : Option Char) (s : List Char) :
    findFrom recognize before s = findFrom recognize before' s := by
  rw [findFrom, findFrom, findAllFrom_before h before before']

/-- What is found leftmost is recognized somewhere. -/
theorem exists_of_findFrom {before : Option Char} {s : List Char} {piece : α}
    (h : findFrom recognize before s = some piece) :
    ∃ before' s' rest, recognize before' s' = some (piece, rest) :=
  exists_of_mem_findAllFrom (List.mem_of_mem_head? h)

/-! ## Replaced pieces -/

/-- A text that stands behind the character `before`, with the pieces found in it replaced. -/
def replaceFrom (recognize : Recognizer α) (text : α → List Char) (before : Option Char)
    (s : List Char) : List Char :=
  (scanFrom recognize 0 before s).flatMap (Piece.render text)

theorem replaceAll_eq_replaceFrom (text : α → List Char) (s : List Char) :
    replaceAll recognize text s = replaceFrom recognize text none s := rfl

@[simp] theorem replaceFrom_nil (text : α → List Char) (before : Option Char) :
    replaceFrom recognize text before [] = [] := by
  simp [replaceFrom]

theorem replaceFrom_found {text : α → List Char} {before : Option Char}
    {matched rest : List Char} {piece : α} (hne : matched ≠ [])
    (h : recognize before (matched ++ rest) = some (piece, rest)) :
    replaceFrom recognize text before (matched ++ rest) =
      text piece ++ replaceFrom recognize text matched.getLast? rest := by
  rw [replaceFrom, scanFrom_found hne h, List.flatMap_cons]
  rfl

theorem replaceFrom_of_none {text : α → List Char} {before : Option Char} {c : Char}
    {cs : List Char} (h : recognize before (c :: cs) = none) :
    replaceFrom recognize text before (c :: cs) = c :: replaceFrom recognize text (some c) cs := by
  rw [replaceFrom, scanFrom_of_none h, List.flatMap_cons]
  rfl

theorem replaceFrom_before (h : ∀ before before' s, recognize before s = recognize before' s)
    (text : α → List Char) (before before' : Option Char) (s : List Char) :
    replaceFrom recognize text before s = replaceFrom recognize text before' s := by
  rw [replaceFrom, replaceFrom, scanFrom_before h before before']

theorem replaceFrom_append_of_none {text : α → List Char} {u : List Char}
    (h : ∀ before, ∀ c ∈ u, ∀ cs, recognize before (c :: cs) = none) (before : Option Char)
    (s : List Char) :
    replaceFrom recognize text before (u ++ s) =
      u ++ replaceFrom recognize text (u.getLast?.or before) s := by
  rw [replaceFrom, scanFrom_append_of_none h, List.flatMap_append, List.flatMap_map]
  congr 1
  simp [Piece.render]

end StyleCascade.Text
