import StyleCascade.Proofs.ReadingPlaces
import StyleCascade.Proofs.Utf8
import StyleCascade.Theme.Load

/-!
# Loading a theme file

A file that gives no definition should be reported as a faulty file.  Two faults are not: bytes that
are no UTF-8, and a whole number with too many digits.

* `IsReported` — loading gives a definition, or an error about the file.
* `IsReadable` — the bytes of a file encode a text without a number that is too long.
* `isReadable_of_length_le` — the encoding of a text with few digits in a row is readable.
* `ofFile_isReported_iff` — a file is reported exactly if its path can be asked for and its bytes,
  where they can be read, are readable.
-/

namespace StyleCascade

open StyleCascade.Text StyleCascade.Json

/-- Whether loading gave a definition, or an error about the file at a path. -/
def IsReported (path : Path) (result : Except LoadError Definition) : Prop :=
  (∃ definition, result = .ok definition) ∨ ∃ fault, result = .error (.file path fault)

theorem isReported_error_iff {path : Path} {e : LoadError} :
    IsReported path (.error e) ↔ ∃ fault, e = .file path fault := by
  simp [IsReported]

/-- Whether the bytes of a file encode a text in which the reader of JSON comes to no number with
too many digits. -/
def IsReadable (bytes : List UInt8) : Prop :=
  ∃ chars, bytes = chars.flatMap String.utf8EncodeChar ∧ ¬HoldsLongNumber (unifyLineEnds chars)

/-- What a text that is no UTF-8 gives. -/
theorem ofBytes_of_decode_error {path : Path} {bytes : List UInt8} {fault : Utf8Fault}
    (h : Text.decode bytes = .error fault) :
    Definition.ofBytes path bytes = .error (.undecodable fault) := by
  rw [Definition.ofBytes, h]
  rfl

/-- What a text that is UTF-8 gives. -/
theorem ofBytes_of_decode_ok {path : Path} {bytes : List UInt8} {chars : List Char}
    (h : Text.decode bytes = .ok chars) :
    Definition.ofBytes path bytes =
      match Json.read (unifyLineEnds chars) with
      | .error ⟨.tooManyDigits count, _⟩ => .error (.tooManyDigits count)
      | .error fault => .error (.file path (.malformed (fault.message (unifyLineEnds chars))))
      | .ok value =>
        match value.asMapping? with
        | some data => .ok (.ofMapping data)
        | none => .error (.file path .notAnObject) := by
  rw [Definition.ofBytes, h]
  rfl

/-- A decoded file is reported, unless it is turned away for too many digits. -/
theorem ofBytes_isReported_of_decode {path : Path} {bytes : List UInt8} {chars : List Char}
    (h : Text.decode bytes = .ok chars) :
    IsReported path (Definition.ofBytes path bytes) ↔ ¬HoldsLongNumber (unifyLineEnds chars) := by
  rw [← exists_read_eq_error_iff, ofBytes_of_decode_ok h]
  split
  next count place hread =>
    exact iff_of_false (by simp [isReported_error_iff]) (not_not_intro ⟨place, count, hread⟩)
  next fault hother hread =>
    refine iff_of_true (.inr ⟨_, rfl⟩) ?_
    rintro ⟨place, count, hdigits⟩
    rw [hread] at hdigits
    exact hother _ _ (Except.error.inj hdigits)
  next value hread =>
    refine iff_of_true ?_ ?_
    · split
      · exact .inl ⟨_, rfl⟩
      · exact .inr ⟨_, rfl⟩
    · rintro ⟨place, count, hdigits⟩
      rw [hread] at hdigits
      cases hdigits

/-- The bytes of a file are reported exactly if they are readable. -/
theorem ofBytes_isReported_iff {path : Path} {bytes : List UInt8} :
    IsReported path (Definition.ofBytes path bytes) ↔ IsReadable bytes := by
  cases hdecode : Text.decode bytes with
  | error fault =>
    rw [ofBytes_of_decode_error hdecode]
    refine iff_of_false (by simp [isReported_error_iff]) ?_
    rintro ⟨chars, hchars, -⟩
    rw [decode_eq_ok_iff.2 hchars] at hdecode
    cases hdecode
  | ok chars =>
    rw [ofBytes_isReported_of_decode hdecode]
    constructor
    · exact fun hshort => ⟨chars, decode_eq_ok_iff.1 hdecode, hshort⟩
    · rintro ⟨chars', hchars, hshort⟩
      rw [decode_eq_ok_iff.2 hchars] at hdecode
      obtain rfl := Except.ok.inj hdecode
      exact hshort

theorem ofFile_eq (files : Files) (text : String) :
    Definition.ofFile files text =
      if holdsNull text then .error .nullInPath
      else match files.read (Path.ofText text).text with
        | .error problem => .error (.file (Path.ofText text) (.unreadable problem))
        | .ok bytes => Definition.ofBytes (Path.ofText text) bytes := by
  rw [Definition.ofFile]
  cases holdsNull text with
  | true => rfl
  | false =>
    rw [if_neg Bool.false_ne_true, if_neg Bool.false_ne_true]
    dsimp only
    cases files.read (Path.ofText text).text <;> rfl

/-- A file is reported if and only if its path holds no null character and its bytes, where they can
be read, are readable. -/
theorem ofFile_isReported_iff_isReadable {files : Files} {text : String} :
    IsReported (Path.ofText text) (Definition.ofFile files text) ↔ holdsNull text = false ∧
      ∀ bytes, files.read (Path.ofText text).text = .ok bytes → IsReadable bytes := by
  rw [ofFile_eq]
  cases holdsNull text with
  | true =>
    exact iff_of_false (by simp [isReported_error_iff]) (by simp)
  | false =>
    rw [if_neg Bool.false_ne_true, and_iff_right rfl]
    cases files.read (Path.ofText text).text with
    | error problem => exact iff_of_true (.inr ⟨_, rfl⟩) (by simp)
    | ok bytes =>
      refine ofBytes_isReported_iff.trans ?_
      simp

/-! ## Files with few digits in a row -/

/-- Digits that a text starts with once its line ends are unified, it starts with. -/
theorem prefix_of_prefix_unifyLineEnds {digits chars : List Char}
    (hdigits : ∀ d ∈ digits, d.isDigit = true) (h : digits <+: unifyLineEnds chars) :
    digits <+: chars := by
  fun_induction unifyLineEnds chars generalizing digits with
  | case1 => exact h
  | case2 cs ih =>
    rcases List.prefix_cons_iff.1 h with rfl | ⟨rest, rfl, -⟩
    · exact List.nil_prefix
    · exact absurd (hdigits '\n' List.mem_cons_self) (by decide)
  | case3 cs hcs ih =>
    rcases List.prefix_cons_iff.1 h with rfl | ⟨rest, rfl, -⟩
    · exact List.nil_prefix
    · exact absurd (hdigits '\n' List.mem_cons_self) (by decide)
  | case4 c cs hpair hreturn ih =>
    rcases List.prefix_cons_iff.1 h with rfl | ⟨rest, rfl, hrest⟩
    · exact List.nil_prefix
    · rw [List.forall_mem_cons] at hdigits
      exact (List.prefix_cons_inj c).2 (ih hdigits.2 hrest)

/-- Digits in a row stand in a row before the line ends are unified. -/
theorem infix_of_infix_unifyLineEnds {digits chars : List Char}
    (hdigits : ∀ d ∈ digits, d.isDigit = true) (h : digits <:+: unifyLineEnds chars) :
    digits <:+: chars := by
  have hfront : ∀ cs, digits <+: unifyLineEnds cs → digits <+: cs :=
    fun _ => prefix_of_prefix_unifyLineEnds hdigits
  fun_induction unifyLineEnds chars with
  | case1 => exact h
  | case2 cs ih =>
    rcases List.infix_cons_iff.1 h with h | h
    · rw [← unifyLineEnds] at h
      exact (hfront _ h).isInfix
    · exact (ih h).trans (List.suffix_append ['\r', '\n'] cs).isInfix
  | case3 cs hcs ih =>
    rcases List.infix_cons_iff.1 h with h | h
    · rw [← unifyLineEnds.eq_3 cs hcs] at h
      exact (hfront _ h).isInfix
    · exact (ih h).trans (List.suffix_cons '\r' cs).isInfix
  | case4 c cs hpair hreturn ih =>
    rcases List.infix_cons_iff.1 h with h | h
    · rw [← unifyLineEnds.eq_4 c cs hpair hreturn] at h
      exact (hfront _ h).isInfix
    · exact (ih h).trans (List.suffix_cons c cs).isInfix

/-- The encoding of a text without so many digits in a row is readable. -/
theorem isReadable_of_length_le {chars : List Char}
    (h : ∀ digits, digits <:+: chars → (∀ d ∈ digits, d.isDigit = true) →
      digits.length ≤ maxDigits) : IsReadable (chars.flatMap String.utf8EncodeChar) := by
  refine ⟨chars, rfl, not_holdsLongNumber fun digits hrow hdigits => ?_⟩
  exact h digits (infix_of_infix_unifyLineEnds hdigits hrow) hdigits

/-! ## Files that are reported -/

/-- **Every file is reported** if and only if its path holds no null character and its bytes, where
they can be read, are readable.  They are if they encode a text that has nowhere more digits in a
row than a number may have. -/
theorem ofFile_isReported_iff {files : Files} {text : String} :
    (IsReported (Path.ofText text) (Definition.ofFile files text) ↔ holdsNull text = false ∧
      ∀ bytes, files.read (Path.ofText text).text = .ok bytes → IsReadable bytes) ∧
    ∀ chars : List Char, holdsNull text = false →
      files.read (Path.ofText text).text = .ok (chars.flatMap String.utf8EncodeChar) →
      (∀ digits, digits <:+: chars → (∀ d ∈ digits, d.isDigit = true) →
        digits.length ≤ maxDigits) →
      IsReported (Path.ofText text) (Definition.ofFile files text) := by
  refine ⟨ofFile_isReported_iff_isReadable, ?_⟩
  intro chars hnull hread hfew
  refine ofFile_isReported_iff_isReadable.2 ⟨hnull, fun bytes hbytes => ?_⟩
  rw [hread] at hbytes
  obtain rfl := Except.ok.inj hbytes
  exact isReadable_of_length_le hfew

/-- A byte that starts no character is not reported as a fault of the file. -/
theorem not_isReported_undecodable :
    let directory : Directory := .ofList [("a.json", .file [0xFF])]
    Definition.ofFile directory.files "a.json" = .error (.undecodable ⟨0, [0xFF], .invalidStart⟩) ∧
      ¬IsReported (Path.ofText "a.json") (Definition.ofFile directory.files "a.json") := by
  intro directory
  have hload : Definition.ofFile directory.files "a.json" =
      .error (.undecodable ⟨0, [0xFF], .invalidStart⟩) := by
    have hread : directory.files.read (Path.ofText "a.json").text = .ok [0xFF] := by rfl
    rw [ofFile_eq, hread]
    exact ofBytes_of_decode_error (by rfl)
  refine ⟨hload, ?_⟩
  rw [hload, isReported_error_iff]
  simp

end StyleCascade
