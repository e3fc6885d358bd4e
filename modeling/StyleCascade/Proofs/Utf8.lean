import Mathlib.Tactic.MkIffOfInductiveProp
import StyleCascade.Text.Utf8

/-!
# The reader of UTF-8

Bytes are read as text exactly if they are the encoding of a text, and then as this text.

* `leadByte?_eq_some`, `MayComeSecond` — what starts a character, and what may come second.
* `IsCharacter`, `headBytes_eq_ok_iff` — the bytes of one character, and that they are read.
* `isCharacter_iff` — the bytes of one character are the encoding of one.
* `decode_eq_ok_iff` — bytes are read as a text exactly if they encode it.
-/

namespace StyleCascade.Text

/-! ## The first byte of a character -/

/-- Whether a byte may come second in a character of several bytes. -/
@[mk_iff]
structure MayComeSecond (lead second : UInt8) : Prop where
  continues : 0x80 ≤ second.toNat ∧ second.toNat < 0xC0
  /-- Two bytes would do below this bound. -/
  notInTwo : lead.toNat = 0xE0 → 0xA0 ≤ second.toNat
  /-- Halves of pairs start at this bound. -/
  noHalf : lead.toNat = 0xED → second.toNat < 0xA0
  /-- Three bytes would do below this bound. -/
  notInThree : lead.toNat = 0xF0 → 0x90 ≤ second.toNat
  /-- No characters are past this bound. -/
  notTooGreat : lead.toNat = 0xF4 → second.toNat < 0x90

/-- A byte that starts a character tells the number of its bytes and bounds the second one. -/
theorem leadByte?_eq_some {b least greatest : UInt8} {count : Nat}
    (h : leadByte? b = some (count, least, greatest)) :
    (count = 1 ∧ b.toNat < 0x80 ∨ count = 2 ∧ 0xC2 ≤ b.toNat ∧ b.toNat < 0xE0 ∨
      count = 3 ∧ 0xE0 ≤ b.toNat ∧ b.toNat < 0xF0 ∨ count = 4 ∧ 0xF0 ≤ b.toNat ∧ b.toNat < 0xF5) ∧
    ∀ second, least ≤ second ∧ second ≤ greatest ↔ MayComeSecond b second := by
  simp only [leadByte?, UInt8.lt_iff_toNat_lt, ← UInt8.toNat_inj, UInt8.reduceToNat] at h
  simp only [mayComeSecond_iff, UInt8.le_iff_toNat_le]
  repeat' split at h
  all_goals cases h
  all_goals refine ⟨by omega, fun second => ?_⟩
  all_goals simp only [UInt8.reduceToNat]; omega

theorem leadByte?_eq_none {b : UInt8} (h : leadByte? b = none) :
    0x80 ≤ b.toNat ∧ b.toNat < 0xC2 ∨ 0xF5 ≤ b.toNat := by
  simp only [leadByte?, UInt8.lt_iff_toNat_lt, ← UInt8.toNat_inj, UInt8.reduceToNat] at h
  repeat' split at h
  all_goals first | omega | cases h

/-! ## The bytes of one character -/

/-- The bytes of one character. -/
inductive IsCharacter : List UInt8 → Prop where
  | one {a : UInt8} : a.toNat < 0x80 → IsCharacter [a]
  | two {a b : UInt8} : 0xC2 ≤ a.toNat → a.toNat < 0xE0 → MayComeSecond a b → IsCharacter [a, b]
  | three {a b c : UInt8} : 0xE0 ≤ a.toNat → a.toNat < 0xF0 → MayComeSecond a b →
      isContinuation c = true → IsCharacter [a, b, c]
  | four {a b c d : UInt8} : 0xF0 ≤ a.toNat → a.toNat < 0xF5 → MayComeSecond a b →
      isContinuation c = true → isContinuation d = true → IsCharacter [a, b, c, d]

theorem isContinuation_iff {b : UInt8} :
    isContinuation b = true ↔ 0x80 ≤ b.toNat ∧ b.toNat < 0xC0 := by
  simp [isContinuation, UInt8.le_iff_toNat_le, UInt8.lt_iff_toNat_lt]

theorem length_takeWhile_lt_iff {α : Type} {p : α → Bool} {l : List α} :
    (l.takeWhile p).length < l.length ↔ ¬∀ a ∈ l, p a = true := by
  induction l with
  | nil => simp
  | cons a rest ih =>
    cases ha : p a with
    | true => simp [ha, ih]
    | false => simp [ha]

theorem headBytes_eq_ok_of_leadByte? {b least greatest : UInt8} {count : Nat}
    (h : leadByte? b = some (count, least, greatest)) {rest taken : List UInt8} :
    headBytes b rest = .ok taken ↔ ∃ tail, taken = b :: tail ∧ tail <+: rest ∧
      tail.length = count - 1 ∧ (∀ c ∈ tail, isContinuation c = true) ∧
        ∀ second ∈ tail.head?, MayComeSecond b second := by
  have hsecond : ∀ tail : List UInt8, (tail.head?.all fun second =>
      decide (least ≤ second) && decide (second ≤ greatest)) = true ↔
        ∀ second ∈ tail.head?, MayComeSecond b second := by
    intro tail
    simp [Option.all_eq_true, ← (leadByte?_eq_some h).2]
  have hwhole : (rest.take (count - 1)).length < count - 1 ↔
      ¬(rest.take (count - 1)).length = count - 1 := by
    have := List.length_take_le (count - 1) rest
    omega
  rw [headBytes, h]
  simp only [length_takeWhile_lt_iff, hwhole]
  constructor
  · intro hok
    split at hok
    next hhead =>
      split at hok
      · cases hok
      next hcontinues =>
        split at hok
        · cases hok
        next hlength =>
          cases hok
          exact ⟨_, rfl, List.take_prefix _ _, Decidable.not_not.1 hlength,
            Classical.not_not.1 hcontinues, (hsecond _).1 hhead⟩
    · cases hok
  · rintro ⟨tail, rfl, ⟨s, rfl⟩, hlength, hcontinues, hhead⟩
    rw [List.take_left' hlength, if_pos ((hsecond tail).2 hhead),
      if_neg (Classical.not_not.2 hcontinues), if_neg (Classical.not_not.2 hlength)]

/-- **The bytes at the head** are read if and only if those of a character are there. -/
theorem headBytes_eq_ok_iff {b : UInt8} {rest taken : List UInt8} :
    headBytes b rest = .ok taken ↔
      IsCharacter taken ∧ ∃ tail, taken = b :: tail ∧ tail <+: rest := by
  cases hlead : leadByte? b with
  | none =>
    have hnone := leadByte?_eq_none hlead
    constructor
    · intro h
      rw [headBytes, hlead] at h
      cases h
    · rintro ⟨hcharacter, tail, rfl, -⟩
      cases hcharacter <;> omega
  | some row =>
    obtain ⟨count, least, greatest⟩ := row
    obtain ⟨hrow, -⟩ := leadByte?_eq_some hlead
    rw [headBytes_eq_ok_of_leadByte? hlead]
    constructor
    · rintro ⟨tail, rfl, hfront, hlength, hcontinues, hhead⟩
      refine ⟨?_, tail, rfl, hfront⟩
      match tail, hrow with
      | [], hrow =>
        rw [List.length_nil] at hlength
        exact .one (by omega)
      | [c], hrow =>
        rw [List.length_singleton] at hlength
        exact .two (by omega) (by omega) (hhead c rfl)
      | [c, d], hrow =>
        simp only [List.length_cons, List.length_nil] at hlength
        exact .three (by omega) (by omega) (hhead c rfl) (hcontinues d (by simp))
      | [c, d, e], hrow =>
        simp only [List.length_cons, List.length_nil] at hlength
        exact .four (by omega) (by omega) (hhead c rfl) (hcontinues d (by simp))
          (hcontinues e (by simp))
      | _ :: _ :: _ :: _ :: _, hrow =>
        simp only [List.length_cons] at hlength
        omega
    · rintro ⟨hcharacter, tail, rfl, hfront⟩
      refine ⟨tail, rfl, hfront, ?_⟩
      cases hcharacter with
      | one ha =>
        exact ⟨by simp only [List.length_nil]; omega, by simp, by simp⟩
      | two ha ha' hb =>
        have hcontinues := isContinuation_iff.2 hb.continues
        exact ⟨by simp only [List.length_cons, List.length_nil]; omega, by simpa using hcontinues,
          by simpa using hb⟩
      | three ha ha' hb hc =>
        have hcontinues := isContinuation_iff.2 hb.continues
        exact ⟨by simp only [List.length_cons, List.length_nil]; omega,
          by simpa using ⟨hcontinues, hc⟩, by simpa using hb⟩
      | four ha ha' hb hc hd =>
        have hcontinues := isContinuation_iff.2 hb.continues
        exact ⟨by simp only [List.length_cons, List.length_nil]; omega,
          by simpa using ⟨hcontinues, hc, hd⟩, by simpa using hb⟩

/-! ## The encoding of a character -/

theorem toNat_valid (c : Char) :
    c.toNat < 0xD800 ∨ 0xDFFF < c.toNat ∧ c.toNat < 0x110000 := by
  have h := c.valid
  simpa [UInt32.isValidChar, Nat.isValidChar] using h

theorem toNat_ofNat_of_valid {n : Nat} (h : n < 0xD800 ∨ 0xDFFF < n ∧ n < 0x110000) :
    (Char.ofNat n).toNat = n := by
  have hvalid : n.isValidChar := h
  rw [Char.ofNat, dif_pos hvalid]
  rfl

/-- The encoding of a character is the bytes of one. -/
theorem isCharacter_utf8EncodeChar (c : Char) : IsCharacter (String.utf8EncodeChar c) := by
  have hvalid := toNat_valid c
  simp only [String.utf8EncodeChar, Char.toNat_val]
  split
  next h =>
    exact .one (by simp only [UInt8.toNat_ofNat']; omega)
  next h =>
    split
    next h' =>
      refine .two ?_ ?_ ?_
      all_goals simp only [UInt8.toNat_ofNat', mayComeSecond_iff]; omega
    next h' =>
      split
      next h'' =>
        refine .three ?_ ?_ ?_ ?_
        all_goals simp only [UInt8.toNat_ofNat', mayComeSecond_iff, isContinuation_iff]; omega
      next h'' =>
        refine .four ?_ ?_ ?_ ?_ ?_
        all_goals simp only [UInt8.toNat_ofNat', mayComeSecond_iff, isContinuation_iff]; omega

theorem charOfBytes_utf8EncodeChar (c : Char) : charOfBytes (String.utf8EncodeChar c) = c := by
  have hvalid := toNat_valid c
  conv => rhs; rw [← Char.ofNat_toNat c]
  simp only [String.utf8EncodeChar, Char.toNat_val]
  split
  next h =>
    refine congrArg Char.ofNat ?_
    simp only [UInt8.toNat_ofNat']; omega
  next h =>
    split
    next h' =>
      refine congrArg Char.ofNat ?_
      simp only [UInt8.toNat_ofNat', payload]; omega
    next h' =>
      split
      next h'' =>
        refine congrArg Char.ofNat ?_
        simp only [UInt8.toNat_ofNat', payload]; omega
      next h'' =>
        refine congrArg Char.ofNat ?_
        simp only [UInt8.toNat_ofNat', payload]; omega

theorem eq_utf8EncodeChar {n : Nat} (h : n < 0xD800 ∨ 0xDFFF < n ∧ n < 0x110000) :
    String.utf8EncodeChar (Char.ofNat n) =
      if n ≤ 0x7F then [UInt8.ofNat n]
      else if n ≤ 0x7FF then [UInt8.ofNat (n / 64 % 32 + 0xC0), UInt8.ofNat (n % 64 + 0x80)]
      else if n ≤ 0xFFFF then
        [UInt8.ofNat (n / 4096 % 16 + 0xE0), UInt8.ofNat (n / 64 % 64 + 0x80),
          UInt8.ofNat (n % 64 + 0x80)]
      else
        [UInt8.ofNat (n / 262144 % 8 + 0xF0), UInt8.ofNat (n / 4096 % 64 + 0x80),
          UInt8.ofNat (n / 64 % 64 + 0x80), UInt8.ofNat (n % 64 + 0x80)] := by
  simp only [String.utf8EncodeChar, Char.toNat_val, toNat_ofNat_of_valid h]

theorem ofNat_eq {n : Nat} {b : UInt8} (h : n = b.toNat) : UInt8.ofNat n = b := by
  rw [h, UInt8.ofNat_toNat]

/-- The bytes of a character are the encoding of the character that they write. -/
theorem utf8EncodeChar_charOfBytes {bytes : List UInt8} (h : IsCharacter bytes) :
    String.utf8EncodeChar (charOfBytes bytes) = bytes := by
  cases h with
  | @one a ha =>
    rw [charOfBytes, eq_utf8EncodeChar (by omega), if_pos (by omega), ofNat_eq rfl]
  | @two a b ha ha' hb =>
    rw [mayComeSecond_iff] at hb
    rw [charOfBytes, payload, eq_utf8EncodeChar (by omega), if_neg (by omega), if_pos (by omega),
      ofNat_eq (b := a) (by omega), ofNat_eq (b := b) (by omega)]
  | @three a b c ha ha' hb hc =>
    rw [mayComeSecond_iff] at hb
    rw [isContinuation_iff] at hc
    rw [charOfBytes, payload, payload, eq_utf8EncodeChar (by omega), if_neg (by omega),
      if_neg (by omega), if_pos (by omega), ofNat_eq (b := a) (by omega),
      ofNat_eq (b := b) (by omega), ofNat_eq (b := c) (by omega)]
  | @four a b c d ha ha' hb hc hd =>
    rw [mayComeSecond_iff] at hb
    rw [isContinuation_iff] at hc hd
    rw [charOfBytes, payload, payload, payload, eq_utf8EncodeChar (by omega), if_neg (by omega),
      if_neg (by omega), if_neg (by omega), ofNat_eq (b := a) (by omega),
      ofNat_eq (b := b) (by omega), ofNat_eq (b := c) (by omega), ofNat_eq (b := d) (by omega)]

/-- **The bytes of one character** are the encoding of one. -/
theorem isCharacter_iff {bytes : List UInt8} :
    IsCharacter bytes ↔ ∃ c, bytes = String.utf8EncodeChar c := by
  constructor
  · intro h
    exact ⟨charOfBytes bytes, (utf8EncodeChar_charOfBytes h).symm⟩
  · rintro ⟨c, rfl⟩
    exact isCharacter_utf8EncodeChar c

/-! ## Whole texts -/

theorem decodeFrom_skip (offset skip : Nat) (bytes : List UInt8) :
    decodeFrom offset skip bytes = decodeFrom (offset + skip) 0 (bytes.drop skip) := by
  induction skip generalizing offset bytes with
  | zero => rfl
  | succ skip ih =>
    cases bytes with
    | nil => rfl
    | cons b rest =>
      rw [decodeFrom, ih, List.drop_succ_cons]
      congr 1
      omega

/-- One character is read, and then what stands behind it. -/
theorem decodeFrom_utf8EncodeChar (offset : Nat) (c : Char) (rest : List UInt8) :
    decodeFrom offset 0 (String.utf8EncodeChar c ++ rest) =
      (decodeFrom (offset + (String.utf8EncodeChar c).length) 0 rest).map (c :: ·) := by
  have hchar := charOfBytes_utf8EncodeChar c
  have hcharacter := isCharacter_utf8EncodeChar c
  cases hbytes : String.utf8EncodeChar c with
  | nil => exact absurd hbytes String.utf8EncodeChar_ne_nil
  | cons b tail =>
    rw [hbytes] at hchar hcharacter
    have hhead : headBytes b (tail ++ rest) = .ok (b :: tail) :=
      headBytes_eq_ok_iff.2 ⟨hcharacter, tail, rfl, List.prefix_append tail rest⟩
    rw [List.cons_append, decodeFrom]
    simp only [hhead, hchar]
    rw [decodeFrom_skip, List.length_cons, Nat.add_sub_cancel, List.drop_left]
    congr 2
    omega

theorem decodeFrom_flatMap (offset : Nat) (chars : List Char) :
    decodeFrom offset 0 (chars.flatMap String.utf8EncodeChar) = .ok chars := by
  induction chars generalizing offset with
  | nil => rfl
  | cons c cs ih =>
    rw [List.flatMap_cons, decodeFrom_utf8EncodeChar, ih]
    rfl

/-- Bytes that are read start with a character. -/
theorem exists_of_decodeFrom {offset : Nat} {b : UInt8} {rest : List UInt8} {chars : List Char}
    (h : decodeFrom offset 0 (b :: rest) = .ok chars) :
    ∃ c behind, b :: rest = String.utf8EncodeChar c ++ behind := by
  rw [decodeFrom] at h
  split at h
  · cases h
  next taken htaken =>
    obtain ⟨hcharacter, tail, rfl, behind, rfl⟩ := headBytes_eq_ok_iff.1 htaken
    obtain ⟨c, hc⟩ := isCharacter_iff.1 hcharacter
    exact ⟨c, behind, by rw [← hc, List.cons_append]⟩

theorem eq_flatMap_of_decodeFrom {offset : Nat} {bytes : List UInt8} {chars : List Char}
    (h : decodeFrom offset 0 bytes = .ok chars) :
    bytes = chars.flatMap String.utf8EncodeChar := by
  cases bytes with
  | nil =>
    obtain rfl := Except.ok.inj h
    rfl
  | cons b rest =>
    -- The induction is on the length: what is left behind a character is no tail of the bytes.
    obtain ⟨c, behind, hbytes⟩ := exists_of_decodeFrom h
    have hshorter : behind.length < (b :: rest).length := by
      have hlength := congrArg List.length hbytes
      have hpos := List.length_pos_iff.2 (String.utf8EncodeChar_ne_nil (c := c))
      rw [List.length_append] at hlength
      omega
    rw [hbytes, decodeFrom_utf8EncodeChar] at h
    cases hbehind : decodeFrom (offset + (String.utf8EncodeChar c).length) 0 behind with
    | error fault =>
      rw [hbehind] at h
      cases h
    | ok cs =>
      rw [hbehind] at h
      obtain rfl := Except.ok.inj h
      rw [hbytes, List.flatMap_cons, ← eq_flatMap_of_decodeFrom hbehind]
termination_by bytes.length

/-- **The reader of UTF-8.**  Bytes are read as a text if and only if they are its encoding. -/
theorem decode_eq_ok_iff {bytes : List UInt8} {chars : List Char} :
    decode bytes = .ok chars ↔ bytes = chars.flatMap String.utf8EncodeChar := by
  constructor
  · exact eq_flatMap_of_decodeFrom
  · rintro rfl
    exact decodeFrom_flatMap 0 chars

end StyleCascade.Text
