import StyleCascade.Text.Word

/-!
# Names at the head of a text

The spans of names, told from the text that they end at rather than from the text that they are
read from.

* `StopsAt` — a text that a class of characters does not reach into; a span of the class in
  front of it ends there (`takeWhile_append_of_stopsAt`).
* `NameWord` — the characters of one word; `dotted` — words joined by dots.
* `dottedSpan_dotted_append` — words joined by dots are read back up to a text that does not
  continue them.
* `exists_words_of_dottedSpan` — whatever is read there is words joined by dots.
-/

namespace StyleCascade.Text

/-! ## Spans of a class -/

/-- A text that does not start with a character of a class. -/
def StopsAt (p : Char → Bool) (s : List Char) : Prop := ∀ c ∈ s.head?, p c = false

@[simp] theorem stopsAt_nil (p : Char → Bool) : StopsAt p [] := by simp [StopsAt]

@[simp] theorem stopsAt_cons {p : Char → Bool} {c : Char} {cs : List Char} :
    StopsAt p (c :: cs) ↔ p c = false := by
  simp [StopsAt]

theorem stopsAt_iff {p : Char → Bool} {s : List Char} : StopsAt p s ↔ s.head?.any p = false := by
  cases s <;> simp

theorem takeWhile_of_stopsAt {p : Char → Bool} {s : List Char} (h : StopsAt p s) :
    s.takeWhile p = [] := by
  cases s with
  | nil => rfl
  | cons c cs => rw [List.takeWhile_cons_of_neg (by simpa using h)]

theorem dropWhile_of_stopsAt {p : Char → Bool} {s : List Char} (h : StopsAt p s) :
    s.dropWhile p = s := by
  cases s with
  | nil => rfl
  | cons c cs => rw [List.dropWhile_cons_of_neg (by simpa using h)]

theorem takeWhile_append_of_stopsAt {p : Char → Bool} {u s : List Char}
    (hu : ∀ c ∈ u, p c = true) (hs : StopsAt p s) : (u ++ s).takeWhile p = u := by
  rw [List.takeWhile_append_of_pos hu, takeWhile_of_stopsAt hs, List.append_nil]

theorem dropWhile_append_of_stopsAt {p : Char → Bool} {u s : List Char}
    (hu : ∀ c ∈ u, p c = true) (hs : StopsAt p s) : (u ++ s).dropWhile p = s := by
  rw [List.dropWhile_append_of_pos hu, dropWhile_of_stopsAt hs]

theorem stopsAt_dropWhile (p : Char → Bool) (s : List Char) : StopsAt p (s.dropWhile p) := by
  induction s with
  | nil => simp
  | cons c cs ih =>
    rw [List.dropWhile_cons]
    split
    · exact ih
    · rename_i hc
      simpa using hc

theorem mem_takeWhile {p : Char → Bool} {s : List Char} {c : Char} (h : c ∈ s.takeWhile p) :
    p c = true := by
  induction s with
  | nil => simp at h
  | cons d ds ih =>
    rw [List.takeWhile_cons] at h
    split at h
    · rename_i hd
      rcases List.mem_cons.1 h with rfl | h
      · exact hd
      · exact ih h
    · simp at h

/-- A property of all characters of a text, as a check. -/
theorem forall_mem_of_all {p : Char → Bool} {P : Char → Prop} {s : List Char}
    (hp : ∀ c, p c = true → P c) (h : s.all p = true) : ∀ c ∈ s, P c :=
  fun c hc => hp c (List.all_eq_true.1 h c hc)

/-! ## Words -/

/-- The characters of a word: name characters, at least one. -/
def NameWord (w : List Char) : Prop := w ≠ [] ∧ ∀ c ∈ w, isName c = true

theorem NameWord.head_isName {w : List Char} (h : NameWord w) (s : List Char) :
    (w ++ s).head?.any isName = true := by
  obtain ⟨hne, hall⟩ := h
  cases w with
  | nil => exact absurd rfl hne
  | cons c cs => simpa using hall c List.mem_cons_self

theorem ne_of_isName {c d : Char} (hc : isName c = true) (hd : isName d = false) : c ≠ d := by
  rintro rfl
  rw [hc] at hd
  cases hd

/-- Whatever is no name character does not stand in a name. -/
theorem not_mem_of_isName {name : List Char} (hname : ∀ d ∈ name, isName d = true) {c : Char}
    (hc : isName c = false) : c ∉ name :=
  fun hmem => ne_of_isName (hname c hmem) hc rfl

theorem not_mem_mark_cons {mark : Char} {name : List Char} (hname : ∀ d ∈ name, isName d = true)
    {c : Char} (hc : isName c = false) (hne : c ≠ mark) : c ∉ mark :: name := by
  rw [List.mem_cons, not_or]
  exact ⟨hne, not_mem_of_isName hname hc⟩

/-- What goes on no name goes on no word. -/
theorem StopsAt.isWord {s : List Char} (h : StopsAt isName s) : StopsAt isWord s := by
  intro c hc
  refine Bool.eq_false_iff.2 fun hword => ?_
  exact ne_of_isName (isName_of_isWord hword) (h c hc) rfl

theorem NameWord.dot_not_mem {w : List Char} (h : NameWord w) : '.' ∉ w :=
  not_mem_of_isName h.2 (by decide)

theorem nameSpan_append_of_stopsAt {w s : List Char} (hw : ∀ c ∈ w, isName c = true)
    (hs : StopsAt isName s) : nameSpan (w ++ s) = (w, s) := by
  rw [nameSpan, takeWhile_append_of_stopsAt hw hs, dropWhile_append_of_stopsAt hw hs]

theorem nameSpan_of_stopsAt {s : List Char} (h : StopsAt isName s) : nameSpan s = ([], s) := by
  rw [nameSpan, takeWhile_of_stopsAt h, dropWhile_of_stopsAt h]

theorem nameSpan_cons_of_isName {c : Char} (h : isName c = true) (cs : List Char) :
    nameSpan (c :: cs) = (c :: (nameSpan cs).1, (nameSpan cs).2) := by
  rw [nameSpan, List.takeWhile_cons_of_pos h, List.dropWhile_cons_of_pos h]
  rfl

/-- The name at the head of a text does not reach into what goes on no name. -/
theorem StopsAt.nameSpan_append {t : List Char} (h : StopsAt isName t) (s : List Char) :
    nameSpan (s ++ t) = ((nameSpan s).1, (nameSpan s).2 ++ t) := by
  induction s with
  | nil => exact nameSpan_of_stopsAt h
  | cons c cs ih =>
    by_cases hc : isName c = true
    · rw [List.cons_append, nameSpan_cons_of_isName hc, nameSpan_cons_of_isName hc, ih]
    · have hstops : ∀ ds, StopsAt isName (c :: ds) := fun _ => stopsAt_cons.2 (by simpa using hc)
      rw [List.cons_append, nameSpan_of_stopsAt (hstops _), nameSpan_of_stopsAt (hstops _)]
      rfl

theorem nameSpan_fst_isName (s : List Char) : ∀ c ∈ (nameSpan s).1, isName c = true :=
  fun _ h => mem_takeWhile h

/-- The span of a name, once it is known. -/
theorem eq_append_of_nameSpan {s name rest : List Char} (h : nameSpan s = (name, rest)) :
    s = name ++ rest ∧ ∀ c ∈ name, isName c = true := by
  have happend := nameSpan_append s
  have hname := nameSpan_fst_isName s
  rw [h] at happend hname
  exact ⟨happend.symm, hname⟩

theorem stopsAt_nameSpan_snd (s : List Char) : StopsAt isName (nameSpan s).2 :=
  stopsAt_dropWhile isName s

/-! ## Words joined by dots -/

/-- Words joined by dots. -/
def dotted (words : List (List Char)) : List Char := ['.'].intercalate words

@[simp] theorem dotted_singleton (w : List Char) : dotted [w] = w := List.intercalate_singleton

theorem dotted_cons_cons (w w' : List Char) (ws : List (List Char)) :
    dotted (w :: w' :: ws) = w ++ '.' :: dotted (w' :: ws) := by
  rw [dotted, List.intercalate_cons_cons, List.append_assoc]
  rfl

theorem dotted_cons_left (c : Char) (w : List Char) (ws : List (List Char)) :
    dotted ((c :: w) :: ws) = c :: dotted (w :: ws) := List.intercalate_cons_cons_left

theorem head_isName_dotted {words : List (List Char)} (hne : words ≠ [])
    (h : ∀ w ∈ words, NameWord w) (s : List Char) :
    (dotted words ++ s).head?.any isName = true := by
  cases words with
  | nil => exact absurd rfl hne
  | cons w ws =>
    have hw := h w List.mem_cons_self
    cases ws with
    | nil =>
      rw [dotted_singleton]
      exact hw.head_isName s
    | cons w' ws =>
      rw [dotted_cons_cons, List.append_assoc]
      exact hw.head_isName _

theorem dottedSpan_cons_of_isName {c : Char} (h : isName c = true) (cs : List Char) :
    dottedSpan (c :: cs) = (c :: (dottedSpan cs).1, (dottedSpan cs).2) := by
  rw [dottedSpan, if_pos (by simp [h])]

theorem dottedSpan_append_of_isName {w : List Char} (hw : ∀ c ∈ w, isName c = true)
    (s : List Char) : dottedSpan (w ++ s) = (w ++ (dottedSpan s).1, (dottedSpan s).2) := by
  induction w with
  | nil => rfl
  | cons c cs ih =>
    rw [List.forall_mem_cons] at hw
    rw [List.cons_append, dottedSpan_cons_of_isName hw.1, ih hw.2, List.cons_append]

theorem dottedSpan_dot {s : List Char} (h : s.head?.any isName = true) :
    dottedSpan ('.' :: s) = ('.' :: (dottedSpan s).1, (dottedSpan s).2) := by
  rw [dottedSpan, if_pos (by simp [h])]

/-- A text that does not continue words joined by dots: it starts neither with a name character
nor with a dot in front of one. -/
def EndsDotted (s : List Char) : Prop := dottedSpan s = ([], s)

theorem endsDotted_iff {s : List Char} :
    EndsDotted s ↔ StopsAt isName s ∧ ∀ rest, s = '.' :: rest → StopsAt isName rest := by
  cases s with
  | nil => simp [EndsDotted, dottedSpan]
  | cons c cs =>
    have hiff : EndsDotted (c :: cs) ↔
        ¬ ((isName c || (c == '.' && cs.head?.any isName)) = true) := by
      rw [EndsDotted, dottedSpan]
      split
      · rename_i hc
        simp [hc]
      · rename_i hc
        simp [hc]
    rw [hiff]
    cases cs <;> simp [StopsAt]

theorem endsDotted_of_ne {c : Char} (hname : isName c = false) (hdot : c ≠ '.') (cs : List Char) :
    EndsDotted (c :: cs) := by
  rw [EndsDotted, dottedSpan, if_neg (by simp [hname, hdot])]

/-- The span reads through words joined by dots. -/
theorem dottedSpan_through {words : List (List Char)} (h : ∀ w ∈ words, NameWord w)
    (s : List Char) :
    dottedSpan (dotted words ++ s) = (dotted words ++ (dottedSpan s).1, (dottedSpan s).2) := by
  induction words with
  | nil => rfl
  | cons w ws ih =>
    rw [List.forall_mem_cons] at h
    cases ws with
    | nil => rw [dotted_singleton, dottedSpan_append_of_isName h.1.2]
    | cons w' ws =>
      have hhead := head_isName_dotted (List.cons_ne_nil w' ws) h.2 s
      rw [dotted_cons_cons, List.append_assoc, List.append_assoc, List.cons_append,
        dottedSpan_append_of_isName h.1.2, dottedSpan_dot hhead, ih h.2, List.cons_append]

theorem dottedSpan_dotted_append {words : List (List Char)} (h : ∀ w ∈ words, NameWord w)
    {s : List Char} (hs : EndsDotted s) : dottedSpan (dotted words ++ s) = (dotted words, s) := by
  rw [dottedSpan_through h, hs, List.append_nil]

/-- Behind a span of dotted words stands nothing that would continue it. -/
theorem endsDotted_dottedSpan_snd (s : List Char) : EndsDotted (dottedSpan s).2 := by
  induction s with
  | nil => rfl
  | cons c cs ih =>
    rw [dottedSpan]
    split
    · exact ih
    · rename_i hc
      rw [EndsDotted, dottedSpan, if_neg hc]

/-- What is read at a name character is words joined by dots; at a dot in front of one, a dot and
such words. -/
theorem dottedSpan_fst_eq (s : List Char) :
    (s.head?.any isName = true →
      ∃ w ws, (∀ x ∈ w :: ws, NameWord x) ∧ (dottedSpan s).1 = dotted (w :: ws)) ∧
    ∀ rest, s = '.' :: rest → rest.head?.any isName = true →
      ∃ w ws, (∀ x ∈ w :: ws, NameWord x) ∧ (dottedSpan s).1 = '.' :: dotted (w :: ws) := by
  induction s with
  | nil => simp
  | cons c cs ih =>
    constructor
    · intro hc
      replace hc : isName c = true := by simpa using hc
      have hword : NameWord [c] := ⟨by simp, by simpa using hc⟩
      rw [dottedSpan_cons_of_isName hc]
      by_cases hname : cs.head?.any isName = true
      · obtain ⟨w, ws, hall, heq⟩ := ih.1 hname
        rw [List.forall_mem_cons] at hall
        refine ⟨c :: w, ws, ?_, by rw [heq, dotted_cons_left]⟩
        rw [List.forall_mem_cons]
        exact ⟨⟨by simp, List.forall_mem_cons.2 ⟨hc, hall.1.2⟩⟩, hall.2⟩
      · by_cases hdot : ∃ rest, cs = '.' :: rest ∧ rest.head?.any isName = true
        · obtain ⟨rest, hcs, hrest⟩ := hdot
          obtain ⟨w, ws, hall, heq⟩ := ih.2 rest hcs hrest
          refine ⟨[c], w :: ws, List.forall_mem_cons.2 ⟨hword, hall⟩, ?_⟩
          rw [heq, dotted_cons_cons]
          rfl
        · -- neither a name nor a dot continues the word
          have hends : EndsDotted cs := by
            rw [endsDotted_iff]
            refine ⟨?_, ?_⟩
            · intro d hd
              simpa [Option.any_eq_true, Option.mem_def.1 hd] using hname
            · intro rest hcs d hd
              refine Bool.eq_false_iff.2 fun hd' => hdot ⟨rest, hcs, ?_⟩
              simpa [Option.mem_def.1 hd] using hd'
          refine ⟨[c], [], by simpa using hword, ?_⟩
          rw [hends, dotted_singleton]
    · intro rest heq hrest
      obtain ⟨rfl, rfl⟩ := List.cons.inj heq
      obtain ⟨w, ws, hall, hspan⟩ := ih.1 hrest
      exact ⟨w, ws, hall, by rw [dottedSpan_dot hrest, hspan]⟩

theorem exists_words_of_dottedSpan {s : List Char} (h : s.head?.any isName = true) :
    ∃ words, words ≠ [] ∧ (∀ w ∈ words, NameWord w) ∧ (dottedSpan s).1 = dotted words := by
  obtain ⟨w, ws, hall, heq⟩ := (dottedSpan_fst_eq s).1 h
  exact ⟨w :: ws, List.cons_ne_nil w ws, hall, heq⟩

end StyleCascade.Text
