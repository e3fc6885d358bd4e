import StyleCascade.Text.Letters

/-!
# Word characters

The characters that names are made of.  A word character is an underscore, a letter or a
number of any script; a name character is a word character or a hyphen; and names of tags and
attributes start with an ASCII letter or an underscore.

* `isWord`, `isName`, `isNameStart` — the three classes.
* `nameSpan` — the name at the head of a text and the rest.
* `dottedSpan` — names joined by single dots at the head of a text, and the rest.
-/

namespace StyleCascade.Text

/-- ASCII letters and digits, and beyond ASCII the letters, decimal digits and numerals of every
script. -/
def isLetterOrNumber (c : Char) : Bool :=
  if c.toNat < 128 then c.isAlphanum else inRanges letterRanges c

/-- A letter, a number or an underscore. -/
def isWord (c : Char) : Bool := c == '_' || isLetterOrNumber c

/-- A word character or a hyphen. -/
def isName (c : Char) : Bool := c == '-' || isWord c

/-- An ASCII letter or an underscore. -/
def isNameStart (c : Char) : Bool := c == '_' || c.isAlpha

/-- The longest run of name characters at the head of a text, and the rest. -/
def nameSpan (s : List Char) : List Char × List Char := (s.takeWhile isName, s.dropWhile isName)

/-- The longest run of name characters and of dots that stand before a name character, at the
head of a text, and the rest.  Where the text starts with a name character this is a sequence
of names joined by single dots. -/
def dottedSpan : List Char → List Char × List Char
  | [] => ([], [])
  | c :: cs =>
    if isName c || (c == '.' && cs.head?.any isName) then
      let (run, rest) := dottedSpan cs
      (c :: run, rest)
    else ([], c :: cs)

/-! ## Small facts -/

theorem isName_of_isWord {c : Char} (h : isWord c = true) : isName c = true := by
  simp [isName, h]

theorem isWord_of_isNameStart {c : Char} (h : isNameStart c = true) : isWord c = true := by
  simp only [isNameStart, Bool.or_eq_true, beq_iff_eq] at h
  rcases h with rfl | h
  · rfl
  · have hle : c.val ≤ 'Z'.val ∨ c.val ≤ 'z'.val := by
      rcases Bool.or_eq_true_iff.1 (show (c.isUpper || c.isLower) = true from h) with hup | hlow
      · exact .inl (of_decide_eq_true hup).2
      · exact .inr (of_decide_eq_true (Bool.and_eq_true_iff.1 hlow).2)
    have hlt : c.toNat < 128 := by
      rcases hle with hle | hle
      · exact Nat.lt_of_le_of_lt (UInt32.le_iff_toNat_le.1 hle) (by decide)
      · exact Nat.lt_of_le_of_lt (UInt32.le_iff_toNat_le.1 hle) (by decide)
    simp [isWord, isLetterOrNumber, hlt, Char.isAlphanum, h]

theorem nameSpan_append (s : List Char) : (nameSpan s).1 ++ (nameSpan s).2 = s :=
  List.takeWhile_append_dropWhile

theorem dottedSpan_append (s : List Char) : (dottedSpan s).1 ++ (dottedSpan s).2 = s := by
  induction s with
  | nil => rfl
  | cons c cs ih =>
    rw [dottedSpan]
    split
    · simp [ih]
    · rfl

example : dottedSpan "a.b..c".toList = ("a.b".toList, "..c".toList) := by decide

end StyleCascade.Text
