import StyleCascade.Proofs.LongNumbers

/-!
# Where values are read

The reader of JSON goes through a text once, from its head on, and stops at the first fault.  It
comes to a number only where a value stands behind parts that were read without one.

* `ReachesValue`, `ReachesItem`, `ReachesMember` — the places at which a value is read.
* `readValue_eq_error_iff` — a value is turned away for too many digits exactly if a long number
  stands at such a place.
* `HoldsLongNumber`, `exists_read_eq_error_iff` — the same for a whole text.
* `readValue_suffix`, `ReachesValue.suffix` — what is left behind a value, and where a value is
  read, is an end of the text.
* `not_holdsLongNumber` — a text without that many digits in a row is not turned away for them.
-/

namespace StyleCascade.Json

/-! ## Other faults -/

/-- A step fails if what comes first fails, or what follows does with its result. -/
theorem bind_eq_error_iff {ε α β : Type} {x : Except ε α} {f : α → Except ε β} {e : ε} :
    x >>= f = .error e ↔ x = .error e ∨ ∃ a, x = .ok a ∧ f a = .error e := by
  cases x with
  | error e' => simp [bind, Except.bind]
  | ok a => simp [bind, Except.bind]

theorem readUnit_ne_error {place s place' : List Char} {count : Nat} :
    readUnit place s ≠ .error ⟨.tooManyDigits count, place'⟩ := by
  fun_cases readUnit place s <;> simp

theorem readUnicodeEscape_ne_error {place s place' : List Char} {count : Nat} :
    readUnicodeEscape place s ≠ .error ⟨.tooManyDigits count, place'⟩ := by
  intro h
  rw [readUnicodeEscape] at h
  rcases bind_eq_error_iff.1 h with hfirst | ⟨unit, -, h⟩
  · exact readUnit_ne_error hfirst
  split at h
  · split at h
    · rcases bind_eq_error_iff.1 h with hsecond | ⟨second, -, h⟩
      · exact readUnit_ne_error hsecond
      split at h <;> cases h
    · cases h
  · cases h

/-- A text has no digits to be turned away for. -/
theorem readText_ne_error {opening s place : List Char} {count : Nat} :
    readText opening s ≠ .error ⟨.tooManyDigits count, place⟩ := by
  fun_induction readText opening s with
  | case4 cs fault hescape =>
    rintro ⟨⟩
    exact readUnicodeEscape_ne_error hescape
  | case5 cs c taken hescape fault hrest ih => rwa [← hrest]
  | case8 e cs hu c hescape fault hrest ih => rwa [← hrest]
  | case11 c cs hquote hend hunit hescape hcontrol fault hrest ih => rwa [← hrest]
  | _ => simp

/-- What is left behind a text is a shorter end of it. -/
theorem exists_of_readText {opening s chars rest : List Char}
    (h : readText opening s = .ok (chars, rest)) : ∃ taken, taken ≠ [] ∧ taken ++ rest = s := by
  fun_induction readText opening s generalizing chars with
  | case2 rest' =>
    cases h
    exact ⟨['"'], List.cons_ne_nil _ _, rfl⟩
  | case6 cs c count hescape chars' rest' hrest ih =>
    cases h
    obtain ⟨taken, -, heq⟩ := ih hrest
    refine ⟨'\\' :: 'u' :: (cs.take count ++ taken), List.cons_ne_nil _ _, ?_⟩
    rw [List.cons_append, List.cons_append, List.append_assoc, heq, List.take_append_drop]
  | case9 e cs hu c hescape chars' rest' hrest ih =>
    cases h
    obtain ⟨taken, -, rfl⟩ := ih hrest
    exact ⟨'\\' :: e :: taken, List.cons_ne_nil _ _, rfl⟩
  | case12 c cs hquote hend hunit hescape hcontrol chars' rest' hrest ih =>
    cases h
    obtain ⟨taken, -, rfl⟩ := ih hrest
    exact ⟨c :: taken, List.cons_ne_nil _ _, rfl⟩
  | _ => cases h

theorem length_lt_of_readText {opening s chars rest : List Char}
    (h : readText opening s = .ok (chars, rest)) : rest.length < s.length := by
  obtain ⟨taken, hne, rfl⟩ := exists_of_readText h
  have hpos := List.length_pos_iff.2 hne
  rw [List.length_append]
  omega

theorem readText_suffix {opening s chars rest : List Char}
    (h : readText opening s = .ok (chars, rest)) : rest <:+ s := by
  obtain ⟨taken, -, heq⟩ := exists_of_readText h
  exact ⟨taken, heq⟩

theorem shorten_ne_error {α : Type} {s place : List Char} {found : α × List Char} {count : Nat} :
    shorten s found ≠ .error ⟨.tooManyDigits count, place⟩ := by
  fun_cases shorten s found <;> simp

/-! ## Where values are read -/

mutual

/-- While the value at the head of a text is read, a value is read at a place. -/
inductive ReachesValue : List Char → List Char → Prop where
  | here {s : List Char} : ReachesValue s s
  | list {cs place : List Char} : (∀ rest, skipBlanks cs ≠ ']' :: rest) →
      ReachesItem (skipBlanks cs) place → ReachesValue ('[' :: cs) place
  | mapping {cs place : List Char} : (∀ rest, skipBlanks cs ≠ '\x7d' :: rest) →
      ReachesMember (skipBlanks cs) place → ReachesValue ('\x7b' :: cs) place

/-- While the items of a list are read, a value is read at a place. -/
inductive ReachesItem : List Char → List Char → Prop where
  | value {s place : List Char} : ReachesValue s place → ReachesItem s place
  | next {s place : List Char} {item : Value} {rest : Rest s} {next : Rest rest.1} :
      readValue s = .ok (item, rest) → token? rest.1 = some (',', next) →
      ReachesItem next.1 place → ReachesItem s place

/-- While the members of a mapping are read, a value is read at a place. -/
inductive ReachesMember : List Char → List Char → Prop where
  | value {cs place name behindName : List Char} {start : Rest behindName} :
      readText ('"' :: cs) cs = .ok (name, behindName) → token? behindName = some (':', start) →
      ReachesValue start.1 place → ReachesMember ('"' :: cs) place
  | next {cs place name behindName : List Char} {start : Rest behindName} {value : Value}
      {rest : Rest start.1} {next : Rest rest.1} :
      readText ('"' :: cs) cs = .ok (name, behindName) → token? behindName = some (':', start) →
      readValue start.1 = .ok (value, rest) → token? rest.1 = some (',', next) →
      ReachesMember next.1 place → ReachesMember ('"' :: cs) place

end

section
variable {s cs place : List Char} {count : Nat}

theorem readValue_list_eq_error_iff (hopen : ∀ rest, skipBlanks cs ≠ ']' :: rest) :
    readValue ('[' :: cs) = .error ⟨.tooManyDigits count, place⟩ ↔
      readItems (skipBlanks cs) = .error ⟨.tooManyDigits count, place⟩ := by
  rw [readValue]
  split
  next rest hclose => exact absurd hclose (hopen rest)
  next =>
    rw [bind_eq_error_iff]
    refine or_iff_left ?_
    rintro ⟨found, -, h⟩
    exact shorten_ne_error h

theorem readValue_mapping_eq_error_iff (hopen : ∀ rest, skipBlanks cs ≠ '\x7d' :: rest) :
    readValue ('\x7b' :: cs) = .error ⟨.tooManyDigits count, place⟩ ↔
      readMembers (skipBlanks cs) = .error ⟨.tooManyDigits count, place⟩ := by
  rw [readValue]
  split
  next rest hclose => exact absurd hclose (hopen rest)
  next =>
    rw [bind_eq_error_iff]
    refine or_iff_left ?_
    rintro ⟨found, -, h⟩
    exact shorten_ne_error h

theorem readValue_text_ne_error :
    readValue ('"' :: cs) ≠ .error ⟨.tooManyDigits count, place⟩ := by
  rw [readValue]
  intro h
  rcases bind_eq_error_iff.1 h with h | ⟨found, -, h⟩
  · exact readText_ne_error h
  · exact shorten_ne_error h

theorem readItems_eq_error_iff_parts :
    readItems s = .error ⟨.tooManyDigits count, place⟩ ↔
      readValue s = .error ⟨.tooManyDigits count, place⟩ ∨
        ∃ item, ∃ rest : Rest s, ∃ next : Rest rest.1, readValue s = .ok (item, rest) ∧
          token? rest.1 = some (',', next) ∧
            readItems next.1 = .error ⟨.tooManyDigits count, place⟩ := by
  rw [readItems, bind_eq_error_iff]
  refine or_congr_right ?_
  constructor
  · rintro ⟨⟨item, rest⟩, hitem, h⟩
    dsimp only at h
    split at h
    next close hclose => exact absurd h shorten_ne_error
    next next hlength hcomma =>
      rcases bind_eq_error_iff.1 h with h | ⟨found, -, h⟩
      · exact ⟨item, rest, ⟨next, hlength⟩, hitem, hcomma, h⟩
      · exact absurd h shorten_ne_error
    next => cases h
  · rintro ⟨item, rest, next, hitem, hcomma, h⟩
    refine ⟨(item, rest), hitem, ?_⟩
    dsimp only
    rw [hcomma]
    exact bind_eq_error_iff.2 (.inl h)

/-- The name of a member is read as any text is. -/
theorem bind_shorten_eq_ok_iff {name : List Char} {behindName : Rest ('"' :: cs)} :
    (readText ('"' :: cs) cs).bind (shorten ('"' :: cs)) = .ok (name, behindName) ↔
      readText ('"' :: cs) cs = .ok (name, behindName.1) := by
  cases hread : readText ('"' :: cs) cs with
  | error fault => simp [Except.bind]
  | ok found =>
    have hlength : found.2.length < ('"' :: cs).length :=
      Nat.lt_succ_of_lt (length_lt_of_readText hread)
    rw [Except.bind, shorten, dif_pos hlength, Except.ok.injEq, Except.ok.injEq, Prod.ext_iff,
      Prod.ext_iff, Subtype.ext_iff]

theorem readMembers_eq_error_iff_parts :
    readMembers ('"' :: cs) = .error ⟨.tooManyDigits count, place⟩ ↔
      ∃ name, ∃ behindName : List Char, ∃ start : Rest behindName,
        readText ('"' :: cs) cs = .ok (name, behindName) ∧ token? behindName = some (':', start) ∧
        (readValue start.1 = .error ⟨.tooManyDigits count, place⟩ ∨
          ∃ value, ∃ rest : Rest start.1, ∃ next : Rest rest.1,
            readValue start.1 = .ok (value, rest) ∧ token? rest.1 = some (',', next) ∧
              readMembers next.1 = .error ⟨.tooManyDigits count, place⟩) := by
  rw [readMembers]
  constructor
  · intro h
    rcases bind_eq_error_iff.1 h with h | ⟨⟨name, behindName⟩, hname, h⟩
    · rcases bind_eq_error_iff.1 h with h | ⟨found, -, h⟩
      · exact absurd h readText_ne_error
      · exact absurd h shorten_ne_error
    · dsimp only at h
      split at h
      next start hlength hcolon =>
        refine ⟨name, behindName.1, ⟨start, hlength⟩, bind_shorten_eq_ok_iff.1 hname, hcolon, ?_⟩
        rcases bind_eq_error_iff.1 h with h | ⟨⟨value, rest⟩, hvalue, h⟩
        · exact .inl h
        · dsimp only at h
          split at h
          next close hclose => exact absurd h shorten_ne_error
          next next hlength' hcomma =>
            rcases bind_eq_error_iff.1 h with h | ⟨found, -, h⟩
            · exact .inr ⟨value, rest, ⟨next, hlength'⟩, hvalue, hcomma, h⟩
            · exact absurd h shorten_ne_error
          next => cases h
      next => cases h
  · rintro ⟨name, behindName, start, hname, hcolon, h⟩
    have hlength : behindName.length < ('"' :: cs).length :=
      Nat.lt_succ_of_lt (length_lt_of_readText hname)
    refine bind_eq_error_iff.2 (.inr ⟨(name, ⟨behindName, hlength⟩), ?_, ?_⟩)
    · exact bind_shorten_eq_ok_iff.2 hname
    · dsimp only
      rw [hcolon]
      rcases h with h | ⟨value, rest, next, hvalue, hcomma, h⟩
      · exact bind_eq_error_iff.2 (.inl h)
      · refine bind_eq_error_iff.2 (.inr ⟨(value, rest), hvalue, ?_⟩)
        dsimp only
        rw [hcomma]
        exact bind_eq_error_iff.2 (.inl h)

theorem readMembers_ne_error (h : ∀ cs, s ≠ '"' :: cs) :
    readMembers s ≠ .error ⟨.tooManyDigits count, place⟩ := by
  rw [readMembers]
  · simp
  · exact h

theorem readValue_scalar_eq_error_iff (htext : ∀ cs, s ≠ '"' :: cs) (hlist : ∀ cs, s ≠ '[' :: cs)
    (hmapping : ∀ cs, s ≠ '\x7b' :: cs) :
    readValue s = .error ⟨.tooManyDigits count, place⟩ ↔ place = s ∧ IsLongNumber count s := by
  rw [readValue, bind_eq_error_iff, readScalar_eq_error_iff]
  · refine or_iff_left ?_
    rintro ⟨found, -, h⟩
    exact shorten_ne_error h
  · exact htext
  · exact hlist
  · exact hmapping

theorem reachesItem_iff :
    ReachesItem s place ↔ ReachesValue s place ∨
      ∃ item, ∃ rest : Rest s, ∃ next : Rest rest.1, readValue s = .ok (item, rest) ∧
        token? rest.1 = some (',', next) ∧ ReachesItem next.1 place := by
  constructor
  · rintro (hreach | ⟨hitem, hcomma, hreach⟩)
    · exact .inl hreach
    · exact .inr ⟨_, _, _, hitem, hcomma, hreach⟩
  · rintro (hreach | ⟨item, rest, next, hitem, hcomma, hreach⟩)
    · exact .value hreach
    · exact .next hitem hcomma hreach

theorem reachesMember_iff :
    ReachesMember ('"' :: cs) place ↔
      ∃ name, ∃ behindName : List Char, ∃ start : Rest behindName,
        readText ('"' :: cs) cs = .ok (name, behindName) ∧ token? behindName = some (':', start) ∧
        (ReachesValue start.1 place ∨
          ∃ value, ∃ rest : Rest start.1, ∃ next : Rest rest.1,
            readValue start.1 = .ok (value, rest) ∧ token? rest.1 = some (',', next) ∧
              ReachesMember next.1 place) := by
  constructor
  · rintro (⟨hname, hcolon, hreach⟩ | ⟨hname, hcolon, hvalue, hcomma, hreach⟩)
    · exact ⟨_, _, _, hname, hcolon, .inl hreach⟩
    · exact ⟨_, _, _, hname, hcolon, .inr ⟨_, _, _, hvalue, hcomma, hreach⟩⟩
  · rintro ⟨name, behindName, start, hname, hcolon,
      hreach | ⟨value, rest, next, hvalue, hcomma, hreach⟩⟩
    · exact .value hname hcolon hreach
    · exact .next hname hcolon hvalue hcomma hreach

end

mutual

/-- **A value** is turned away for too many digits exactly if a long number stands where a value is
read on the way. -/
theorem readValue_eq_error_iff (s place : List Char) (count : Nat) :
    readValue s = .error ⟨.tooManyDigits count, place⟩ ↔
      ReachesValue s place ∧ IsLongNumber count place := by
  fun_cases readValue s with
  | case1 cs =>
    refine iff_of_false readValue_text_ne_error ?_
    rintro ⟨hreach, hlong⟩
    cases hreach
    exact not_isLongNumber_cons (by decide) (by decide) hlong
  | case2 cs hle rest hclose =>
    refine iff_of_false ?_ ?_
    · rw [readValue]
      split
      next => exact shorten_ne_error
      next hopen => exact absurd hclose (hopen rest)
    · rintro ⟨hreach, hlong⟩
      cases hreach with
      | here => exact not_isLongNumber_cons (by decide) (by decide) hlong
      | list hopen hreach => exact hopen rest hclose
  | case3 cs hle hopen =>
    rw [readValue_list_eq_error_iff hopen, readItems_eq_error_iff (skipBlanks cs)]
    -- The list itself is reached too, but no long number starts with a bracket.
    refine and_congr_left fun hlong => ⟨.list hopen, fun hreach => ?_⟩
    cases hreach with
    | here => exact absurd hlong (not_isLongNumber_cons (by decide) (by decide))
    | list hopen hreach => exact hreach
  | case4 cs hle rest hclose =>
    refine iff_of_false ?_ ?_
    · rw [readValue]
      split
      next => exact shorten_ne_error
      next hopen => exact absurd hclose (hopen rest)
    · rintro ⟨hreach, hlong⟩
      cases hreach with
      | here => exact not_isLongNumber_cons (by decide) (by decide) hlong
      | mapping hopen hreach => exact hopen rest hclose
  | case5 cs hle hopen =>
    rw [readValue_mapping_eq_error_iff hopen, readMembers_eq_error_iff (skipBlanks cs)]
    refine and_congr_left fun hlong => ⟨.mapping hopen, fun hreach => ?_⟩
    cases hreach with
    | here => exact absurd hlong (not_isLongNumber_cons (by decide) (by decide))
    | mapping hopen hreach => exact hreach
  | case6 s htext hlist hmapping =>
    rw [readValue_scalar_eq_error_iff htext hlist hmapping]
    constructor
    · rintro ⟨rfl, hlong⟩
      exact ⟨.here, hlong⟩
    · rintro ⟨hreach, hlong⟩
      cases hreach with
      | here => exact ⟨rfl, hlong⟩
      | list => exact (hlist _ rfl).elim
      | mapping => exact (hmapping _ rfl).elim
termination_by (s.length, 0)
decreasing_by all_goals subst_vars; apply Prod.Lex.left; simp only [List.length_cons]; omega

/-- The items of a list are turned away as the values among them are. -/
theorem readItems_eq_error_iff (s place : List Char) (count : Nat) :
    readItems s = .error ⟨.tooManyDigits count, place⟩ ↔
      ReachesItem s place ∧ IsLongNumber count place := by
  rw [readItems_eq_error_iff_parts, readValue_eq_error_iff s, reachesItem_iff]
  constructor
  · rintro (⟨hreach, hlong⟩ | ⟨item, rest, next, hitem, hcomma, h⟩)
    · exact ⟨.inl hreach, hlong⟩
    · obtain ⟨hreach, hlong⟩ := (readItems_eq_error_iff next.1 place count).1 h
      exact ⟨.inr ⟨item, rest, next, hitem, hcomma, hreach⟩, hlong⟩
  · rintro ⟨hreach | ⟨item, rest, next, hitem, hcomma, hreach⟩, hlong⟩
    · exact .inl ⟨hreach, hlong⟩
    · exact .inr ⟨item, rest, next, hitem, hcomma,
        (readItems_eq_error_iff next.1 place count).2 ⟨hreach, hlong⟩⟩
termination_by (s.length, 1)
decreasing_by
  · apply Prod.Lex.right; omega
  · apply Prod.Lex.left; have := rest.2; have := next.2; omega
  · apply Prod.Lex.left; have := rest.2; have := next.2; omega

/-- The members of a mapping are turned away as the values among them are. -/
theorem readMembers_eq_error_iff (s place : List Char) (count : Nat) :
    readMembers s = .error ⟨.tooManyDigits count, place⟩ ↔
      ReachesMember s place ∧ IsLongNumber count place := by
  by_cases hname : ∃ cs, s = '"' :: cs
  · obtain ⟨cs, rfl⟩ := hname
    rw [readMembers_eq_error_iff_parts, reachesMember_iff]
    constructor
    · rintro ⟨name, behindName, start, hname, hcolon,
        h | ⟨value, rest, next, hvalue, hcomma, h⟩⟩
      · obtain ⟨hreach, hlong⟩ := (readValue_eq_error_iff start.1 place count).1 h
        exact ⟨⟨name, behindName, start, hname, hcolon, .inl hreach⟩, hlong⟩
      · obtain ⟨hreach, hlong⟩ := (readMembers_eq_error_iff next.1 place count).1 h
        exact ⟨⟨name, behindName, start, hname, hcolon,
          .inr ⟨value, rest, next, hvalue, hcomma, hreach⟩⟩, hlong⟩
    · rintro ⟨⟨name, behindName, start, hname, hcolon,
        hreach | ⟨value, rest, next, hvalue, hcomma, hreach⟩⟩, hlong⟩
      · exact ⟨name, behindName, start, hname, hcolon,
          .inl ((readValue_eq_error_iff start.1 place count).2 ⟨hreach, hlong⟩)⟩
      · exact ⟨name, behindName, start, hname, hcolon, .inr ⟨value, rest, next, hvalue, hcomma,
          (readMembers_eq_error_iff next.1 place count).2 ⟨hreach, hlong⟩⟩⟩
  · rw [not_exists] at hname
    refine iff_of_false (readMembers_ne_error hname) ?_
    rintro ⟨hreach, -⟩
    cases hreach with
    | value => exact hname _ rfl
    | next => exact hname _ rfl
termination_by (s.length, 1)
decreasing_by
  all_goals
    have hbehind := length_lt_of_readText hname
    have := start.2
    subst_vars
    apply Prod.Lex.left
    simp only [List.length_cons]
  · omega
  · have := rest.2; have := next.2; omega
  · omega
  · have := rest.2; have := next.2; omega

end

/-- Whether a long number stands where a value is read in a text. -/
def HoldsLongNumber (s : List Char) : Prop :=
  s.head? ≠ some '\ufeff' ∧
    ∃ place count, ReachesValue (skipBlanks s) place ∧ IsLongNumber count place

theorem read_eq_error_iff {s place : List Char} {count : Nat} :
    read s = .error ⟨.tooManyDigits count, place⟩ ↔ s.head? ≠ some '\ufeff' ∧
      ReachesValue (skipBlanks s) place ∧ IsLongNumber count place := by
  rw [← readValue_eq_error_iff, read]
  split
  next hmark =>
    exact iff_of_false (by simp) fun h => h.1 (by simpa using hmark)
  next hmark =>
    have hmark' : s.head? ≠ some '\ufeff' := by simpa using hmark
    rw [and_iff_right hmark', bind_eq_error_iff]
    refine or_iff_left ?_
    rintro ⟨⟨value, rest⟩, -, h⟩
    dsimp only at h
    split at h <;> cases h

/-- **A text** is turned away for too many digits if and only if a long number stands where a value
is read in it. -/
theorem exists_read_eq_error_iff {s : List Char} :
    (∃ place count, read s = .error ⟨.tooManyDigits count, place⟩) ↔ HoldsLongNumber s := by
  simp only [read_eq_error_iff, HoldsLongNumber, exists_and_left]

/-! ## What is left behind what was read -/

theorem skipBlanks_suffix (s : List Char) : skipBlanks s <:+ s := List.dropWhile_suffix isBlank

theorem token?_suffix {s : List Char} {c : Char} {next : Rest s} (h : token? s = some (c, next)) :
    next.1 <:+ s := by
  revert h
  fun_cases token? s with
  | case1 => simp
  | case2 d cs hs hle hle' =>
    rintro ⟨⟩
    exact (skipBlanks_suffix cs).trans ((List.suffix_cons _ cs).trans (hs ▸ skipBlanks_suffix s))

theorem digitSpan_suffix (s : List Char) : (digitSpan s).2 <:+ s :=
  List.dropWhile_suffix Char.isDigit

theorem wholePart?_suffix {s whole rest : List Char} (h : wholePart? s = some (whole, rest)) :
    rest <:+ s := by
  revert h
  fun_cases wholePart? s with
  | case1 cs =>
    rintro ⟨⟩
    exact List.suffix_cons '0' _
  | case2 => simp
  | case3 s hzero hspan =>
    rintro ⟨⟩
    exact digitSpan_suffix s

theorem fractionPart_suffix (s : List Char) : (fractionPart s).2 <:+ s := by
  fun_cases fractionPart s with
  | case2 cs hspan => exact (digitSpan_suffix cs).trans (List.suffix_cons '.' cs)
  | _ => exact List.suffix_rfl

theorem exponentPart_suffix (s : List Char) : (exponentPart s).2 <:+ s := by
  fun_cases exponentPart s with
  | case2 e cs he negative digits hexponent found rest hfound hspan =>
    obtain ⟨sign, -, rfl⟩ := exists_of_exponentSign hexponent
    have hrest := digitSpan_suffix digits
    rw [hspan] at hrest
    exact (hrest.trans (List.suffix_append sign digits)).trans (List.suffix_cons e _)
  | _ => exact List.suffix_rfl

/-- What is left behind a number is left behind its parts. -/
theorem readNumber_suffix {s rest : List Char} {value : Value}
    (h : readNumber s = .ok (value, rest)) : rest <:+ s := by
  have hparts : ∀ whole behind, wholePart? (unsigned s) = some (whole, behind) →
      (exponentPart (fractionPart behind).2).2 <:+ s := by
    intro whole behind hwhole
    obtain ⟨sign, -, hs⟩ := exists_sign_append_unsigned s
    have hunsigned : unsigned s <:+ s := ⟨sign, hs.symm⟩
    exact ((exponentPart_suffix _).trans (fractionPart_suffix behind)).trans
      ((wholePart?_suffix hwhole).trans hunsigned)
  revert h
  fun_cases readNumber s with
  | case3 negative digits hunsigned whole behind hwhole fraction left hfraction exponent rest'
      hexponent =>
    rintro ⟨⟩
    have hsuffix := hparts whole behind (by rw [unsigned_eq hunsigned]; exact hwhole)
    rwa [hfraction, hexponent] at hsuffix
  | case4 negative digits hunsigned whole behind hwhole fraction left hfraction exponent rest'
      hexponent =>
    rintro ⟨⟩
    have hsuffix := hparts whole behind (by rw [unsigned_eq hunsigned]; exact hwhole)
    rwa [hfraction, hexponent] at hsuffix
  | _ => rintro ⟨⟩

theorem readWord?_suffix {s rest : List Char} {value : Value}
    (h : readWord? s = some (value, rest)) : rest <:+ s := by
  obtain ⟨⟨word, found⟩, -, hword⟩ := List.exists_of_findSome?_eq_some h
  dsimp only at hword
  split at hword
  · cases hword
    exact List.drop_suffix word.length s
  · cases hword

theorem readScalar_suffix {s rest : List Char} {value : Value}
    (h : readScalar s = .ok (value, rest)) : rest <:+ s := by
  rw [readScalar] at h
  split at h
  next found hword =>
    cases h
    exact readWord?_suffix hword
  next => exact readNumber_suffix h

theorem shorten_eq_ok {α : Type} {s : List Char} {found : α × List Char} {a : α} {rest : Rest s}
    (h : shorten s found = .ok (a, rest)) : rest.1 = found.2 := by
  revert h
  fun_cases shorten s found with
  | case1 => rintro ⟨⟩; rfl
  | case2 => rintro ⟨⟩

theorem bind_eq_ok_iff {ε α β : Type} {x : Except ε α} {f : α → Except ε β} {b : β} :
    x >>= f = .ok b ↔ ∃ a, x = .ok a ∧ f a = .ok b := by
  cases x with
  | error e => simp [bind, Except.bind]
  | ok a => simp [bind, Except.bind]

mutual

/-- **What is left behind a value** is an end of the text that it was read from. -/
theorem readValue_suffix (s : List Char) :
    ∀ value rest, readValue s = .ok (value, rest) → rest.1 <:+ s := by
  fun_cases readValue s with
  | case1 cs =>
    intro value rest h
    rw [readValue] at h
    obtain ⟨⟨chars, behind⟩, htext, h⟩ := bind_eq_ok_iff.1 h
    rw [shorten_eq_ok h]
    exact (readText_suffix htext).trans (List.suffix_cons '"' cs)
  | case2 cs hle behind hclose =>
    intro value rest h
    rw [readValue] at h
    split at h
    next behind hclose =>
      rw [shorten_eq_ok h]
      exact ((List.suffix_cons ']' behind).trans (hclose ▸ skipBlanks_suffix cs)).trans
        (List.suffix_cons '[' cs)
    next hopen => exact absurd hclose (hopen behind)
  | case3 cs hle hopen =>
    intro value rest h
    rw [readValue] at h
    split at h
    next behind hclose => exact absurd hclose (hopen behind)
    next =>
      obtain ⟨⟨items, behind⟩, hitems, h⟩ := bind_eq_ok_iff.1 h
      rw [shorten_eq_ok h]
      exact ((readItems_suffix _ items behind hitems).trans (skipBlanks_suffix cs)).trans
        (List.suffix_cons '[' cs)
  | case4 cs hle behind hclose =>
    intro value rest h
    rw [readValue] at h
    split at h
    next behind hclose =>
      rw [shorten_eq_ok h]
      exact ((List.suffix_cons '\x7d' behind).trans (hclose ▸ skipBlanks_suffix cs)).trans
        (List.suffix_cons '\x7b' cs)
    next hopen => exact absurd hclose (hopen behind)
  | case5 cs hle hopen =>
    intro value rest h
    rw [readValue] at h
    split at h
    next behind hclose => exact absurd hclose (hopen behind)
    next =>
      obtain ⟨⟨members, behind⟩, hmembers, h⟩ := bind_eq_ok_iff.1 h
      rw [shorten_eq_ok h]
      exact ((readMembers_suffix _ members behind hmembers).trans (skipBlanks_suffix cs)).trans
        (List.suffix_cons '\x7b' cs)
  | case6 s htext hlist hmapping =>
    intro value rest h
    rw [readValue] at h
    · obtain ⟨⟨found, behind⟩, hscalar, h⟩ := bind_eq_ok_iff.1 h
      rw [shorten_eq_ok h]
      exact readScalar_suffix hscalar
    · exact htext
    · exact hlist
    · exact hmapping
termination_by (s.length, 0)
decreasing_by all_goals subst_vars; apply Prod.Lex.left; simp only [List.length_cons]; omega

theorem readItems_suffix (s : List Char) :
    ∀ items rest, readItems s = .ok (items, rest) → rest.1 <:+ s := by
  intro items rest h
  rw [readItems] at h
  obtain ⟨⟨item, behind⟩, hitem, h⟩ := bind_eq_ok_iff.1 h
  have hbehind := readValue_suffix s item behind hitem
  dsimp only at h
  split at h
  next close hlength hclose =>
    rw [shorten_eq_ok h]
    exact (token?_suffix hclose).trans hbehind
  next next hlength hcomma =>
    obtain ⟨⟨items, rest'⟩, hitems, h⟩ := bind_eq_ok_iff.1 h
    rw [shorten_eq_ok h]
    exact ((readItems_suffix next items rest' hitems).trans (token?_suffix hcomma)).trans hbehind
  next => cases h
termination_by (s.length, 1)
decreasing_by
  · apply Prod.Lex.right; omega
  · have := behind.2; apply Prod.Lex.left; omega

theorem readMembers_suffix (s : List Char) :
    ∀ members rest, readMembers s = .ok (members, rest) → rest.1 <:+ s := by
  fun_cases readMembers s with
  | case1 cs =>
    intro members rest h
    rw [readMembers] at h
    obtain ⟨⟨name, behindName⟩, hname, h⟩ := bind_eq_ok_iff.1 h
    have hbehind :=
      (readText_suffix (bind_shorten_eq_ok_iff.1 hname)).trans (List.suffix_cons '"' cs)
    dsimp only at h
    split at h
    next start hlength hcolon =>
      obtain ⟨⟨value, behind⟩, hvalue, h⟩ := bind_eq_ok_iff.1 h
      have hleft := ((readValue_suffix start value behind hvalue).trans
        (token?_suffix hcolon)).trans hbehind
      dsimp only at h
      split at h
      next close hlength' hclose =>
        rw [shorten_eq_ok h]
        exact (token?_suffix hclose).trans hleft
      next next hlength' hcomma =>
        obtain ⟨⟨members, rest'⟩, hmembers, h⟩ := bind_eq_ok_iff.1 h
        rw [shorten_eq_ok h]
        exact ((readMembers_suffix next members rest' hmembers).trans (token?_suffix hcomma)).trans
          hleft
      next => cases h
    next => cases h
  | case2 s hname =>
    intro members rest h
    rw [readMembers] at h
    · cases h
    · exact hname
termination_by (s.length, 1)
decreasing_by
  · have := behindName.2; subst_vars; apply Prod.Lex.left; omega
  · have := behindName.2; have := behind.2; subst_vars; apply Prod.Lex.left; dsimp only at *; omega

end

/-! ## Texts without long numbers -/

mutual

/-- A value is read at an end of the text. -/
theorem ReachesValue.suffix {s place : List Char} : ReachesValue s place → place <:+ s
  | .here => List.suffix_rfl
  | @ReachesValue.list cs _ _ hreach =>
    (hreach.suffix.trans (skipBlanks_suffix cs)).trans (List.suffix_cons '[' cs)
  | @ReachesValue.mapping cs _ _ hreach =>
    (hreach.suffix.trans (skipBlanks_suffix cs)).trans (List.suffix_cons '\x7b' cs)

theorem ReachesItem.suffix {s place : List Char} : ReachesItem s place → place <:+ s
  | .value hreach => hreach.suffix
  | .next hitem hcomma hreach =>
    (hreach.suffix.trans (token?_suffix hcomma)).trans (readValue_suffix _ _ _ hitem)

theorem ReachesMember.suffix {s place : List Char} : ReachesMember s place → place <:+ s
  | @ReachesMember.value cs _ _ _ _ hname hcolon hreach =>
    ((hreach.suffix.trans (token?_suffix hcolon)).trans (readText_suffix hname)).trans
      (List.suffix_cons '"' cs)
  | @ReachesMember.next cs _ _ _ _ _ _ _ hname hcolon hvalue hcomma hreach =>
    (((hreach.suffix.trans (token?_suffix hcomma)).trans (readValue_suffix _ _ _ hvalue)).trans
      (token?_suffix hcolon)).trans ((readText_suffix hname).trans (List.suffix_cons '"' cs))

end

/-- **A text without so many digits in a row** holds no long number. -/
theorem not_holdsLongNumber {s : List Char}
    (h : ∀ digits, digits <:+: s → (∀ d ∈ digits, d.isDigit = true) → digits.length ≤ maxDigits) :
    ¬HoldsLongNumber s := by
  rintro ⟨-, place, count, hreach, hlong⟩
  obtain ⟨digits, hrow, hmany, hdigits⟩ := hlong.exists_row
  have hplace := hreach.suffix.trans (skipBlanks_suffix s)
  have hfew := h digits (hrow.trans hplace.isInfix) hdigits
  omega

end StyleCascade.Json
