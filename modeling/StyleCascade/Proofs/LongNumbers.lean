import StyleCascade.Json.Reader
import StyleCascade.Proofs.Names

/-!
# Numbers with too many digits

A whole number in a JSON text may have no more than a fixed number of digits; one that has more is
turned away.  A number with a fraction or an exponent may have as many as it likes.

* `IsLongNumber` — a whole number with too many digits at the head of a text.
* `readNumber_eq_error_iff`, `readScalar_eq_error_iff` — it is what is turned away for them.
-/

namespace StyleCascade.Json

open StyleCascade.Text (StopsAt stopsAt_cons takeWhile_append_of_stopsAt
  dropWhile_append_of_stopsAt stopsAt_dropWhile)

/-! ## Long numbers -/

/-- A text that goes on a whole number, with a digit, a fraction or an exponent. -/
inductive ContinuesNumber : List Char → Prop where
  | digit {d : Char} {cs : List Char} : d.isDigit = true → ContinuesNumber (d :: cs)
  | fraction {d : Char} {cs : List Char} : d.isDigit = true → ContinuesNumber ('.' :: d :: cs)
  | exponent {e d : Char} {sign cs : List Char} : e = 'e' ∨ e = 'E' →
      sign = [] ∨ sign = ['+'] ∨ sign = ['-'] → d.isDigit = true →
      ContinuesNumber (e :: (sign ++ d :: cs))

/-- A whole number with too many digits, `count` of them, stands at the head of a text. -/
def IsLongNumber (count : Nat) (s : List Char) : Prop :=
  ∃ sign digits rest, s = sign ++ (digits ++ rest) ∧ (sign = [] ∨ sign = ['-']) ∧
    digits.length = count ∧ maxDigits < count ∧ (∀ d ∈ digits, d.isDigit = true) ∧
    digits.head? ≠ some '0' ∧ ¬ContinuesNumber rest

/-- A number without its sign. -/
def unsigned : List Char → List Char
  | '-' :: cs => cs
  | s => s

theorem ne_of_isDigit {c d : Char} (hd : d.isDigit = true) (hc : c.isDigit = false) : d ≠ c := by
  rintro rfl
  rw [hd] at hc
  cases hc

theorem digitSpan_append {digits rest : List Char} (hdigits : ∀ d ∈ digits, d.isDigit = true)
    (hrest : StopsAt Char.isDigit rest) : digitSpan (digits ++ rest) = (digits, rest) := by
  rw [digitSpan, takeWhile_append_of_stopsAt hdigits hrest,
    dropWhile_append_of_stopsAt hdigits hrest]

theorem digitSpan_fst_eq_nil_iff {s : List Char} :
    (digitSpan s).1 = [] ↔ StopsAt Char.isDigit s := by
  cases s with
  | nil => simp [digitSpan]
  | cons c cs => cases h : c.isDigit <;> simp [digitSpan, h]

theorem digitSpan_eq_nil {s rest : List Char} (h : digitSpan s = ([], rest)) :
    StopsAt Char.isDigit s :=
  digitSpan_fst_eq_nil_iff.1 (by rw [h])

/-- A whole part with several digits does not start with a zero and goes as far as it can. -/
theorem wholePart?_eq_some_iff {s whole rest : List Char} (hlong : 1 < whole.length) :
    wholePart? s = some (whole, rest) ↔ s = whole ++ rest ∧ (∀ d ∈ whole, d.isDigit = true) ∧
      whole.head? ≠ some '0' ∧ StopsAt Char.isDigit rest := by
  fun_cases wholePart? s with
  | case1 cs =>
    constructor
    · intro h
      cases h
      simp at hlong
    · rintro ⟨hs, -, hzero, -⟩
      cases whole with
      | nil => simp at hlong
      | cons c cs =>
        obtain ⟨rfl, -⟩ := List.cons.inj hs
        exact absurd rfl hzero
  | case2 s hzero more hspan =>
    constructor
    · intro h
      cases h
    · rintro ⟨rfl, hdigits, -, hrest⟩
      rw [digitSpan_append hdigits hrest] at hspan
      obtain ⟨rfl, -⟩ := Prod.mk.inj hspan
      simp at hlong
  | case3 s hzero hspan =>
    constructor
    · intro h
      obtain ⟨rfl, rfl⟩ := Prod.mk.inj (Option.some.inj h)
      have hsplit : s.takeWhile Char.isDigit ++ s.dropWhile Char.isDigit = s :=
        List.takeWhile_append_dropWhile
      refine ⟨hsplit.symm, List.all_eq_true.1 List.all_takeWhile, fun hhead => ?_,
        stopsAt_dropWhile _ _⟩
      obtain ⟨cs, hcs⟩ := List.head?_eq_some_iff.1 hhead
      exact hzero _ (by rw [← hsplit, hcs, List.cons_append])
    · rintro ⟨rfl, hdigits, -, hrest⟩
      rw [digitSpan_append hdigits hrest]

theorem fractionPart_fst_eq_nil_iff {s : List Char} :
    (fractionPart s).1 = [] ↔ ∀ d cs, s = '.' :: d :: cs → d.isDigit = false := by
  fun_cases fractionPart s with
  | case1 cs more hspan =>
    have hstops := digitSpan_eq_nil hspan
    refine iff_of_true rfl fun d ds hcs => ?_
    obtain ⟨-, rfl⟩ := List.cons.inj hcs
    exact stopsAt_cons.1 hstops
  | case2 cs hspan =>
    refine iff_of_false (fun hnil => hspan _ (Prod.ext hnil rfl)) fun hnone => ?_
    refine hspan _ (Prod.ext (digitSpan_fst_eq_nil_iff.2 ?_) rfl)
    cases cs with
    | nil => simp
    | cons d ds => exact stopsAt_cons.2 (hnone d ds rfl)
  | case3 s hdot =>
    exact iff_of_true rfl fun d cs hs => (hdot _ hs).elim

/-- Where no fraction is read, nothing is taken. -/
theorem fractionPart_of_fst_eq_nil {s : List Char} (h : (fractionPart s).1 = []) :
    fractionPart s = ([], s) := by
  revert h
  fun_cases fractionPart s with
  | case1 cs more hspan => exact fun _ => rfl
  | case2 cs hspan => exact fun hnil => (hspan _ (Prod.ext hnil rfl)).elim
  | case3 s hdot => exact fun _ => rfl

/-- The sign of an exponent is taken off. -/
theorem exists_of_exponentSign {s digits : List Char} {negative : Bool}
    (h : exponentSign s = (negative, digits)) :
    ∃ sign, (sign = [] ∨ sign = ['+'] ∨ sign = ['-']) ∧ s = sign ++ digits := by
  revert h
  fun_cases exponentSign s with
  | case1 cs =>
    rintro ⟨⟩
    exact ⟨['-'], .inr (.inr rfl), rfl⟩
  | case2 cs =>
    rintro ⟨⟩
    exact ⟨['+'], .inr (.inl rfl), rfl⟩
  | case3 =>
    rintro ⟨⟩
    exact ⟨[], .inl rfl, rfl⟩

theorem exponentSign_append {sign : List Char} {d : Char}
    (hsign : sign = [] ∨ sign = ['+'] ∨ sign = ['-']) (hd : d.isDigit = true) (cs : List Char) :
    ∃ negative, exponentSign (sign ++ d :: cs) = (negative, d :: cs) := by
  rcases hsign with rfl | rfl | rfl
  · have hminus := ne_of_isDigit (c := '-') hd rfl
    have hplus := ne_of_isDigit (c := '+') hd rfl
    exact ⟨false, by simp [exponentSign, hminus, hplus]⟩
  · exact ⟨false, rfl⟩
  · exact ⟨true, rfl⟩

theorem exponentPart_fst_eq_none_iff {s : List Char} :
    (exponentPart s).1 = none ↔ ∀ e sign d cs, s = e :: (sign ++ d :: cs) → e = 'e' ∨ e = 'E' →
      sign = [] ∨ sign = ['+'] ∨ sign = ['-'] → d.isDigit = false := by
  fun_cases exponentPart s with
  | case1 e rest he negative digits hexponent more hspan =>
    refine iff_of_true rfl fun e sign d cs hs _ hsign => Bool.eq_false_iff.2 fun hd => ?_
    obtain ⟨rfl, rfl⟩ := List.cons.inj hs
    obtain ⟨negative', hrest⟩ := exponentSign_append hsign hd cs
    rw [hrest] at hexponent
    obtain ⟨-, rfl⟩ := Prod.mk.inj hexponent
    have hstops := stopsAt_cons.1 (digitSpan_eq_nil hspan)
    rw [hd] at hstops
    cases hstops
  | case2 e rest he negative digits hexponent found more hfound hspan =>
    refine iff_of_false (by simp) fun hnone => hfound ?_
    obtain ⟨sign, hsign, rfl⟩ := exists_of_exponentSign hexponent
    have hstops : StopsAt Char.isDigit digits := by
      cases digits with
      | nil => simp
      | cons d ds => exact stopsAt_cons.2 (hnone e sign d ds rfl (by simpa using he) hsign)
    have hnil := digitSpan_fst_eq_nil_iff.2 hstops
    rwa [hspan] at hnil
  | case3 e rest he =>
    refine iff_of_true rfl fun e sign d cs hs he' _ => ?_
    obtain ⟨rfl, -⟩ := List.cons.inj hs
    exact absurd (by simpa using he') he
  | case4 => exact iff_of_true rfl (by simp)

/-- A text goes on no whole number if no digit stands there, no fraction and no exponent. -/
theorem not_continuesNumber_iff {s : List Char} :
    ¬ContinuesNumber s ↔
      StopsAt Char.isDigit s ∧ (fractionPart s).1 = [] ∧ (exponentPart s).1 = none := by
  rw [fractionPart_fst_eq_nil_iff, exponentPart_fst_eq_none_iff]
  constructor
  · intro h
    refine ⟨?_, ?_, ?_⟩
    · cases s with
      | nil => simp
      | cons d cs => exact stopsAt_cons.2 (Bool.eq_false_iff.2 fun hd => h (.digit hd))
    · rintro d cs rfl
      exact Bool.eq_false_iff.2 fun hd => h (.fraction hd)
    · rintro e sign d cs rfl he hsign
      exact Bool.eq_false_iff.2 fun hd => h (.exponent he hsign hd)
  · rintro ⟨hdigit, hfraction, hexponent⟩ h
    cases h with
    | digit hd => simp [hd] at hdigit
    | fraction hd => simp [hfraction _ _ rfl] at hd
    | exponent he hsign hd => simp [hexponent _ _ _ _ rfl he hsign] at hd

/-- The reader takes off the sign first. -/
theorem unsigned_eq {s : List Char} {found : Bool × List Char} (h : (match s with
    | '-' :: cs => (true, cs)
    | _ => (false, s)) = found) : unsigned s = found.2 := by
  subst h
  fun_cases unsigned s with
  | case1 cs => rfl
  | case2 s hminus =>
    split
    · exact (hminus _ rfl).elim
    · rfl

/-- Where a number is turned away for too many digits. -/
theorem readNumber_eq_error_iff_wholePart? {s place : List Char} {count : Nat} :
    readNumber s = .error ⟨.tooManyDigits count, place⟩ ↔ place = s ∧ ∃ whole rest,
      wholePart? (unsigned s) = some (whole, rest) ∧ (fractionPart rest).1 = [] ∧
        (exponentPart (fractionPart rest).2).1 = none ∧ whole.length = count ∧
          maxDigits < count := by
  fun_cases readNumber s with
  | case1 negative digits hunsigned hwhole =>
    rw [unsigned_eq hunsigned, hwhole]
    simp
  | case2 negative digits hunsigned whole behind hwhole fraction rest hfraction exponent left
      hexponent hplain hlong =>
    have hnone : fraction = [] ∧ exponent = none := by simpa using hplain
    rw [unsigned_eq hunsigned, hwhole]
    constructor
    · intro h
      obtain ⟨hcount, hplace⟩ := Fault.mk.inj (Except.error.inj h)
      obtain rfl := Problem.tooManyDigits.inj hcount
      exact ⟨hplace.symm, whole, behind, rfl, by rw [hfraction]; exact hnone.1,
        by rw [hfraction, hexponent]; exact hnone.2, rfl, hlong⟩
    · rintro ⟨rfl, whole', behind', hwhole', -, -, rfl, -⟩
      obtain ⟨rfl, -⟩ := Prod.mk.inj (Option.some.inj hwhole')
      rfl
  | case3 negative digits hunsigned whole behind hwhole fraction rest hfraction exponent left
      hexponent hplain hshort =>
    rw [unsigned_eq hunsigned, hwhole]
    refine iff_of_false (by simp) ?_
    rintro ⟨-, whole', behind', hwhole', -, -, rfl, hlong⟩
    obtain ⟨rfl, -⟩ := Prod.mk.inj (Option.some.inj hwhole')
    exact hshort hlong
  | case4 negative digits hunsigned whole behind hwhole fraction rest hfraction exponent left
      hexponent hplain =>
    rw [unsigned_eq hunsigned, hwhole]
    refine iff_of_false (by simp) ?_
    rintro ⟨-, whole', behind', hwhole', hnone, hnone', -⟩
    obtain ⟨-, rfl⟩ := Prod.mk.inj (Option.some.inj hwhole')
    rw [hfraction] at hnone hnone'
    rw [hexponent] at hnone'
    exact hplain (by simpa using ⟨hnone, hnone'⟩)

theorem exists_sign_append_unsigned (s : List Char) :
    ∃ sign, (sign = [] ∨ sign = ['-']) ∧ s = sign ++ unsigned s := by
  fun_cases unsigned s with
  | case1 cs => exact ⟨['-'], .inr rfl, rfl⟩
  | case2 s hminus => exact ⟨[], .inl rfl, rfl⟩

theorem unsigned_append {sign : List Char} (hsign : sign = [] ∨ sign = ['-']) {d : Char}
    (hd : d.isDigit = true) (cs : List Char) : unsigned (sign ++ d :: cs) = d :: cs := by
  rcases hsign with rfl | rfl
  · have hminus := ne_of_isDigit (c := '-') hd rfl
    simp [unsigned, hminus]
  · rfl

/-- **A number** is turned away for too many digits exactly if it is a long one. -/
theorem readNumber_eq_error_iff {s place : List Char} {count : Nat} :
    readNumber s = .error ⟨.tooManyDigits count, place⟩ ↔ place = s ∧ IsLongNumber count s := by
  have hmax : 1 < maxDigits := by decide
  rw [readNumber_eq_error_iff_wholePart?]
  refine and_congr_right fun _ => ?_
  constructor
  · rintro ⟨whole, rest, hwhole, hfraction, hexponent, rfl, hlong⟩
    obtain ⟨hunsigned, hdigits, hzero, hrest⟩ := (wholePart?_eq_some_iff (by omega)).1 hwhole
    rw [fractionPart_of_fst_eq_nil hfraction] at hexponent
    obtain ⟨sign, hsign, hs⟩ := exists_sign_append_unsigned s
    rw [hunsigned] at hs
    exact ⟨sign, whole, rest, hs, hsign, rfl, hlong, hdigits, hzero,
      not_continuesNumber_iff.2 ⟨hrest, hfraction, hexponent⟩⟩
  · rintro ⟨sign, digits, rest, rfl, hsign, rfl, hlong, hdigits, hzero, hends⟩
    obtain ⟨hrest, hfraction, hexponent⟩ := not_continuesNumber_iff.1 hends
    have hunsigned : unsigned (sign ++ (digits ++ rest)) = digits ++ rest := by
      cases digits with
      | nil => simp at hlong
      | cons d ds => exact unsigned_append hsign (hdigits d List.mem_cons_self) (ds ++ rest)
    refine ⟨digits, rest, ?_, hfraction, ?_, rfl, hlong⟩
    · rw [hunsigned]
      exact (wholePart?_eq_some_iff (by omega)).2 ⟨rfl, hdigits, hzero, hrest⟩
    · rw [fractionPart_of_fst_eq_nil hfraction]
      exact hexponent

/-! ## Words and numbers -/

/-- A long number is none of the words. -/
theorem IsLongNumber.readWord? {count : Nat} {s : List Char} (h : IsLongNumber count s) :
    readWord? s = none := by
  obtain ⟨sign, digits, rest, rfl, hsign, rfl, hlong, hdigits, -⟩ := h
  cases digits with
  | nil => simp at hlong
  | cons d ds =>
    have hd := hdigits d List.mem_cons_self
    have hne : ∀ c : Char, c.isDigit = false → ¬c = d := fun c hc => (ne_of_isDigit hd hc).symm
    have hn := hne 'n' rfl
    have ht := hne 't' rfl
    have hf := hne 'f' rfl
    have hnan := hne 'N' rfl
    have hi := hne 'I' rfl
    have hminus := hne '-' rfl
    rcases hsign with rfl | rfl
    · simp [Json.readWord?, wordValues, hn, ht, hf, hnan, hi, hminus]
    · simp [Json.readWord?, wordValues, hi]

theorem readScalar_eq_error_iff {s place : List Char} {count : Nat} :
    readScalar s = .error ⟨.tooManyDigits count, place⟩ ↔ place = s ∧ IsLongNumber count s := by
  rw [readScalar, ← readNumber_eq_error_iff]
  cases hword : readWord? s with
  | none => rfl
  | some found =>
    refine iff_of_false (by simp) fun h => ?_
    rw [(readNumber_eq_error_iff.1 h).2.readWord?] at hword
    cases hword

theorem IsLongNumber.head?_eq {count : Nat} {s : List Char} (h : IsLongNumber count s) :
    ∃ c, s.head? = some c ∧ (c = '-' ∨ c.isDigit = true) := by
  obtain ⟨sign, digits, rest, rfl, hsign, rfl, hlong, hdigits, -⟩ := h
  cases digits with
  | nil => simp at hlong
  | cons d ds =>
    rcases hsign with rfl | rfl
    · exact ⟨d, rfl, .inr (hdigits d List.mem_cons_self)⟩
    · exact ⟨'-', rfl, .inl rfl⟩

theorem not_isLongNumber_cons {count : Nat} {c : Char} {cs : List Char} (hminus : c ≠ '-')
    (hdigit : c.isDigit = false) : ¬IsLongNumber count (c :: cs) := by
  intro h
  obtain ⟨d, hd, h⟩ := h.head?_eq
  obtain rfl := Option.some.inj hd
  rcases h with rfl | h
  · exact hminus rfl
  · rw [hdigit] at h
    cases h

/-- The digits of a long number stand in a row. -/
theorem IsLongNumber.exists_row {count : Nat} {s : List Char} (h : IsLongNumber count s) :
    ∃ digits, digits <:+: s ∧ maxDigits < digits.length ∧ ∀ d ∈ digits, d.isDigit = true := by
  obtain ⟨sign, digits, rest, rfl, -, rfl, hlong, hdigits, -⟩ := h
  exact ⟨digits, ⟨sign, rest, by rw [List.append_assoc]⟩, hlong, hdigits⟩

end StyleCascade.Json
