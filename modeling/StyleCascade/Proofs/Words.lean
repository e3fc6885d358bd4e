import StyleCascade.Text.Blank

/-!
# Words of a text

The runs of a text between gaps, told without reading it from left to right: a run is a part of
the text without gaps, not empty, and at either side of it stands a gap or an end of the text.

* `run_induction` — every text is built from gaps and runs.
* `runs_append_of_isGap`, `runs_append_of_endsInGap` — a run in front of a gap, and a text that
  ends in one.
* `mem_runs_iff` — which texts are runs.
* `words_of_forall` — a text without blanks is one word.
-/

namespace StyleCascade.Text

variable {isGap : Char → Bool}

/-! ## Gaps and runs -/

/-- Every text begins with a gap, or with a run that a gap or the end stands behind. -/
theorem exists_run {c : Char} (h : isGap c = false) (cs : List Char) :
    ∃ w s, c :: cs = w ++ s ∧ w ≠ [] ∧ (∀ d ∈ w, isGap d = false) ∧
      s.head?.all isGap = true := by
  induction cs generalizing c with
  | nil => exact ⟨[c], [], rfl, by simp, by simpa using h, rfl⟩
  | cons d ds ih =>
    by_cases hd : isGap d = true
    · exact ⟨[c], d :: ds, rfl, by simp, by simpa using h, by simpa using hd⟩
    · obtain ⟨w, s, heq, _, hw, hs⟩ := ih (Bool.eq_false_iff.2 hd)
      refine ⟨c :: w, s, by rw [heq, List.cons_append], by simp, ?_, hs⟩
      rw [List.forall_mem_cons]
      exact ⟨h, hw⟩

/-- **Every text is built from gaps and runs.**  What holds of the empty text, and with a gap or a
whole run in front as soon as it holds behind it, holds of every text. -/
@[elab_as_elim]
theorem run_induction (isGap : Char → Bool) {motive : List Char → Prop} (nil : motive [])
    (gap : ∀ c cs, isGap c = true → motive cs → motive (c :: cs))
    (run : ∀ w s, w ≠ [] → (∀ d ∈ w, isGap d = false) → s.head?.all isGap = true → motive s →
      motive (w ++ s))
    (s : List Char) : motive s := by
  induction hlen : s.length using Nat.strongRecOn generalizing s with
  | ind n ih =>
    cases s with
    | nil => exact nil
    | cons c cs =>
      by_cases hc : isGap c = true
      · have hlt : cs.length < n := by
          rw [← hlen, List.length_cons]
          omega
        exact gap c cs hc (ih cs.length hlt cs rfl)
      · obtain ⟨w, s, heq, hne, hw, hs⟩ := exists_run (Bool.eq_false_iff.2 hc) cs
        have hlt : s.length < n := by
          have hpos := List.length_pos_iff.2 hne
          rw [← hlen, heq, List.length_append]
          omega
        rw [heq]
        exact run w s hne hw hs (ih s.length hlt s rfl)

theorem runs_cons_of_isGap {c : Char} (h : isGap c = true) (cs : List Char) :
    runs isGap (c :: cs) = runs isGap cs := by
  rw [runs, if_pos h]

/-- A run in front of a gap, or of the end, is the first run. -/
theorem runs_append_of_isGap {w s : List Char} (hne : w ≠ []) (hw : ∀ c ∈ w, isGap c = false)
    (hs : s.head?.all isGap = true) : runs isGap (w ++ s) = w :: runs isGap s := by
  induction w with
  | nil => exact absurd rfl hne
  | cons c cs ih =>
    rw [List.forall_mem_cons] at hw
    rw [List.cons_append, runs, if_neg (by rw [hw.1]; exact Bool.false_ne_true)]
    cases cs with
    | nil => rw [List.nil_append, if_pos hs]
    | cons d ds =>
      have hd : isGap d = false := hw.2 d List.mem_cons_self
      have hhead : (d :: ds ++ s).head?.all isGap = false := by simpa using hd
      rw [hhead, if_neg Bool.false_ne_true, ih (List.cons_ne_nil d ds) hw.2]
      rfl

/-! ## Parts between gaps -/

/-- The text is empty or ends in a gap. -/
def EndsInGap (isGap : Char → Bool) (s : List Char) : Prop := ∀ c ∈ s.getLast?, isGap c = true

/-- The text is empty or starts with a gap. -/
def StartsWithGap (isGap : Char → Bool) (s : List Char) : Prop := ∀ c ∈ s.head?, isGap c = true

theorem startsWithGap_iff {s : List Char} :
    StartsWithGap isGap s ↔ s.head?.all isGap = true := by
  cases s <;> simp [StartsWithGap]

theorem endsInGap_cons_iff {c : Char} (h : isGap c = true) {cs : List Char} :
    EndsInGap isGap (c :: cs) ↔ EndsInGap isGap cs := by
  cases cs with
  | nil => simpa [EndsInGap] using h
  | cons d ds => rw [EndsInGap, List.getLast?_cons_cons, EndsInGap]

/-- Behind a run the text still ends in a gap, and it is not at its end. -/
theorem endsInGap_append_iff {w : List Char} (hne : w ≠ []) (hw : ∀ c ∈ w, isGap c = false)
    {s : List Char} : EndsInGap isGap (w ++ s) ↔ s ≠ [] ∧ EndsInGap isGap s := by
  cases s with
  | nil =>
    have hmem : w.getLast hne ∈ w := List.getLast_mem hne
    simp [EndsInGap, List.getLast?_eq_some_getLast hne, hw _ hmem]
  | cons d ds => simp [EndsInGap, List.getLast?_append, List.getLast?_cons]

/-- No run reaches across the end of a text that ends in a gap. -/
theorem runs_append_of_endsInGap {a : List Char} (ha : EndsInGap isGap a) (s : List Char) :
    runs isGap (a ++ s) = runs isGap a ++ runs isGap s := by
  induction a using run_induction isGap with
  | nil => rfl
  | gap c cs hc ih =>
    rw [List.cons_append, runs_cons_of_isGap hc, runs_cons_of_isGap hc,
      ih ((endsInGap_cons_iff hc).1 ha)]
  | run w t hne hw ht ih =>
    obtain ⟨htne, hends⟩ := (endsInGap_append_iff hne hw).1 ha
    have hts : (t ++ s).head?.all isGap = true := by
      obtain ⟨d, ds, rfl⟩ := List.exists_cons_of_ne_nil htne
      exact ht
    rw [List.append_assoc, runs_append_of_isGap hne hw hts, runs_append_of_isGap hne hw ht,
      ih hends, List.cons_append]

/-- **The runs of a text** are its parts without gaps, not empty, between gaps or ends. -/
theorem mem_runs_iff {w s : List Char} :
    w ∈ runs isGap s ↔ w ≠ [] ∧ (∀ c ∈ w, isGap c = false) ∧
      ∃ a b, s = a ++ w ++ b ∧ EndsInGap isGap a ∧ StartsWithGap isGap b := by
  constructor
  · intro h
    induction s using run_induction isGap with
    | nil => cases h
    | gap c cs hc ih =>
      rw [runs_cons_of_isGap hc] at h
      obtain ⟨hne, hw, a, b, rfl, ha, hb⟩ := ih h
      exact ⟨hne, hw, c :: a, b, rfl, (endsInGap_cons_iff hc).2 ha, hb⟩
    | run v t hne hv ht ih =>
      rw [runs_append_of_isGap hne hv ht, List.mem_cons] at h
      rcases h with rfl | h
      · exact ⟨hne, hv, [], t, rfl, by simp [EndsInGap], startsWithGap_iff.2 ht⟩
      · obtain ⟨hwne, hw, a, b, rfl, ha, hb⟩ := ih h
        refine ⟨hwne, hw, v ++ a, b, by simp, (endsInGap_append_iff hne hv).2 ⟨?_, ha⟩, hb⟩
        -- what stands behind the run `v` begins with a gap, so not with the run `w`
        rintro rfl
        obtain ⟨c, cs, rfl⟩ := List.exists_cons_of_ne_nil hwne
        have hgap : isGap c = true := by simpa using ht
        rw [hw c List.mem_cons_self] at hgap
        cases hgap
  · rintro ⟨hne, hw, a, b, rfl, ha, hb⟩
    rw [List.append_assoc, runs_append_of_endsInGap ha,
      runs_append_of_isGap hne hw (startsWithGap_iff.1 hb)]
    exact List.mem_append_right _ List.mem_cons_self

/-- A text without blanks, if not empty, is one word. -/
theorem words_of_forall {s : List Char} (hne : s ≠ []) (h : ∀ c ∈ s, isBlank c = false) :
    words s = [s] := by
  have hrun := runs_append_of_isGap hne h (s := []) rfl
  rwa [List.append_nil] at hrun

end StyleCascade.Text
