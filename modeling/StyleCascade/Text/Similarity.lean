/-!
# Similar texts

How much two texts have in common, and the names that are closest to a word.  Two texts share
their longest common block, and what they share on either side of it.

* `Block`, `longestBlock` — the longest block that two texts have in common.
* `sharedCount` — the number of characters in all the blocks that they share.
* `closestNames` — up to three names that share most of their characters with a word.
-/

namespace StyleCascade.Text

/-- The length of the longest text that two texts start with. -/
def commonPrefix : List Char → List Char → Nat
  | a :: as, b :: bs => if a == b then commonPrefix as bs + 1 else 0
  | _, _ => 0

/-- A block that two texts have in common. -/
structure Block where
  /-- Where it starts in the first. -/
  left : Nat
  /-- Where it starts in the second. -/
  right : Nat
  /-- Its length. -/
  size : Nat
  deriving Repr, DecidableEq

/-- The longest block that starts a text and stands in another, the first such. -/
def headBlock (a : List Char) : List Char → Block
  | [] => ⟨0, 0, 0⟩
  | b :: bs =>
    let later := headBlock a bs
    let size := commonPrefix a (b :: bs)
    if size < later.size then { later with right := later.right + 1 } else ⟨0, 0, size⟩

/-- The longest block that two texts have in common; of equal ones the first of the first text,
and where that stands in the second. -/
def longestBlock : List Char → List Char → Block
  | [], _ => ⟨0, 0, 0⟩
  | a :: as, bs =>
    let later := longestBlock as bs
    let here := headBlock (a :: as) bs
    if here.size < later.size then { later with left := later.left + 1 } else here

theorem commonPrefix_le : (as bs : List Char) → commonPrefix as bs ≤ as.length
  | [], _ => by simp [commonPrefix]
  | _ :: _, [] => by simp [commonPrefix]
  | a :: as, b :: bs => by
    rw [commonPrefix]
    split
    · simpa using commonPrefix_le as bs
    · simp

theorem headBlock_le (a : List Char) :
    (bs : List Char) → (headBlock a bs).left + (headBlock a bs).size ≤ a.length
  | [] => by simp [headBlock]
  | b :: bs => by
    simp only [headBlock]
    split
    · exact headBlock_le a bs
    · simpa using commonPrefix_le a (b :: bs)

/-- The longest block lies within the first text. -/
theorem longestBlock_le : (as bs : List Char) →
    (longestBlock as bs).left + (longestBlock as bs).size ≤ as.length
  | [], _ => by simp [longestBlock]
  | a :: as, bs => by
    simp only [longestBlock]
    split
    · have := longestBlock_le as bs
      simp only [List.length_cons]
      omega
    · exact headBlock_le (a :: as) bs

/-- The number of characters in the longest common block of two texts and in the blocks that they
share before and behind it. -/
def sharedCount (a b : List Char) : Nat :=
  let block := longestBlock a b
  if block.size = 0 then 0
  else
    block.size + sharedCount (a.take block.left) (b.take block.right) +
      sharedCount (a.drop (block.left + block.size)) (b.drop (block.right + block.size))
termination_by a.length
decreasing_by
  all_goals
    have := longestBlock_le a b
    have : ¬(longestBlock a b).size = 0 := ‹_›
    simp only [List.length_take, List.length_drop]
    omega

/-- A name with the characters that it shares with a word, and the characters of both. -/
structure Likeness where
  /-- The name. -/
  name : String
  /-- The number of its characters that the word shares. -/
  shared : Nat
  /-- The number of all its characters and those of the word. -/
  total : Nat
  deriving Repr, DecidableEq

namespace Likeness

/-- The likeness of a name to a word. -/
def ofName (word name : String) : Likeness :=
  { name
    shared := sharedCount name.toList word.toList
    total := name.length + word.length }

/-- Whether three fifths of all characters or more stand in shared blocks. -/
def isClose (l : Likeness) : Bool := 3 * l.total ≤ 10 * l.shared

/-- Whether a name is liker than another; of names equally like, the later in the alphabet. -/
def isBefore (l m : Likeness) : Bool :=
  m.shared * l.total < l.shared * m.total ||
    (m.shared * l.total == l.shared * m.total && decide (m.name ≤ l.name))

end Likeness

/-- The three of the names that are most like a word, or fewer where not as many are close to it,
in alphabetical order. -/
def closestNames (names : List String) (word : String) : List String :=
  let close := (names.map (Likeness.ofName word)).filter Likeness.isClose
  (((close.mergeSort Likeness.isBefore).take 3).map Likeness.name).mergeSort
    fun a b => decide (a ≤ b)

example : longestBlock "--attr".toList "--stat".toList = ⟨0, 0, 2⟩ := by decide

example : sharedCount "--attr".toList "--stat".toList = 4 := by decide +kernel

end StyleCascade.Text
