import StyleCascade.Text.Scan

/-!
# Control sequences

Characters that steer a terminal rather than being shown by it: an escape, an opening bracket,
parameters, and one character that ends the sequence and says what to do.

* `controlSequence` — the recognizer of these sequences.
* `withoutControls` — a text without them.
-/

namespace StyleCascade.Text

/-- The rest of a text behind the parameters and the last character of a control sequence at its
head, if there is a complete one. -/
def controlEnd? (s : List Char) : Option (List Char) :=
  let parameters := s.dropWhile fun c => '0' ≤ c && c ≤ '?'
  match parameters.dropWhile fun c => ' ' ≤ c && c ≤ '/' with
  | c :: rest => if '@' ≤ c && c ≤ '~' then some rest else none
  | [] => none

/-- The control sequence at the head of a text.  One that is cut off is none. -/
def controlSequence : Recognizer Unit
  | _, '\x1b' :: '[' :: rest => (controlEnd? rest).map fun rest => ((), rest)
  | _, _ => none

/-- A text without its control sequences. -/
def withoutControls (s : String) : String :=
  String.ofList (replaceAll controlSequence (fun _ => []) s.toList)

/-! ## Small facts -/

theorem controlSequence_of_ne {before : Option Char} {c : Char} (h : c ≠ '\x1b') (cs : List Char) :
    controlSequence before (c :: cs) = none := by
  unfold controlSequence
  split
  · simp_all
  · rfl

/-- A text without an escape holds no control sequence. -/
theorem replaceAll_controlSequence {s : List Char} (h : '\x1b' ∉ s) :
    replaceAll controlSequence (fun _ => []) s = s := by
  have (before : Option Char) :
      (scanFrom controlSequence 0 before s).flatMap (Piece.render fun _ => []) = s := by
    induction s generalizing before with
    | nil => simp
    | cons c cs ih =>
      have hc : c ≠ '\x1b' := fun hc => h (by simp [hc])
      rw [scanFrom_of_none (controlSequence_of_ne hc cs)]
      simp [Piece.render, ih fun hm => h (List.mem_cons_of_mem c hm)]
  exact this none

theorem withoutControls_of_not_mem {s : String} (h : '\x1b' ∉ s.toList) :
    withoutControls s = s := by
  simp [withoutControls, replaceAll_controlSequence h]

example : replaceAll controlSequence (fun _ => []) "\x1b[1;31mred\x1b[m \x1b[".toList =
    "red \x1b[".toList := by decide

end StyleCascade.Text
