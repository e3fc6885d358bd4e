/-!
# UTF-8

Bytes as text.  A sequence of bytes that is no UTF-8 is reported with the bytes that show it and
the reason, at the first place where there is one.

* `decode` — the characters that bytes write, or the first fault.
* `unifyLineEnds` — a text with every line end written as one line feed.
-/

namespace StyleCascade.Text

/-- Why bytes are no UTF-8. -/
inductive Utf8Problem where
  /-- No character starts with this byte. -/
  | invalidStart
  /-- A byte that should go on a character does not. -/
  | invalidContinuation
  /-- The bytes end inside a character. -/
  | unexpectedEnd
  deriving Repr, DecidableEq

/-- The wording of a problem. -/
def Utf8Problem.text : Utf8Problem → String
  | invalidStart => "invalid start byte"
  | invalidContinuation => "invalid continuation byte"
  | unexpectedEnd => "unexpected end of data"

/-- A place where bytes are no UTF-8. -/
structure Utf8Fault where
  /-- The bytes before. -/
  offset : Nat
  /-- The bytes that show it, at least one. -/
  bytes : List UInt8
  /-- What is wrong with them. -/
  problem : Utf8Problem
  deriving Repr, DecidableEq

/-- A byte as two hexadecimal digits. -/
def hexByte (b : UInt8) : String :=
  let digits := Nat.toDigits 16 b.toNat
  String.ofList (List.replicate (2 - digits.length) '0' ++ digits)

/-- The wording of a fault. -/
def Utf8Fault.message (fault : Utf8Fault) : String :=
  "'utf-8' codec can't decode " ++
    (match fault.bytes with
    | [b] => "byte 0x" ++ hexByte b ++ " in position " ++ toString fault.offset
    | bytes => "bytes in position " ++ toString fault.offset ++ "-" ++
        toString (fault.offset + bytes.length - 1)) ++
    ": " ++ fault.problem.text

/-- Whether a byte goes on a character. -/
def isContinuation (b : UInt8) : Bool := 0x80 ≤ b && b < 0xC0

/-- The number of bytes of a character that starts with the given byte, and the least and the
greatest byte that may come second; nothing where no character starts with it. -/
def leadByte? (b : UInt8) : Option (Nat × UInt8 × UInt8) :=
  if b < 0x80 then some (1, 0x80, 0xBF)
  else if b < 0xC2 then none
  else if b < 0xE0 then some (2, 0x80, 0xBF)
  else if b = 0xE0 then some (3, 0xA0, 0xBF)
  else if b = 0xED then some (3, 0x80, 0x9F)
  else if b < 0xF0 then some (3, 0x80, 0xBF)
  else if b = 0xF0 then some (4, 0x90, 0xBF)
  else if b < 0xF4 then some (4, 0x80, 0xBF)
  else if b = 0xF4 then some (4, 0x80, 0x8F)
  else none

/-- The bits that a continuation byte carries. -/
def payload (b : UInt8) : Nat := b.toNat % 64

/-- The character that the bytes of one character write. -/
def charOfBytes : List UInt8 → Char
  | [a] => Char.ofNat a.toNat
  | [a, b] => Char.ofNat (a.toNat % 32 * 64 + payload b)
  | [a, b, c] => Char.ofNat (a.toNat % 16 * 4096 + payload b * 64 + payload c)
  | [a, b, c, d] =>
    Char.ofNat (a.toNat % 8 * 262144 + payload b * 4096 + payload c * 64 + payload d)
  | _ => '\ufffd'

/-- The bytes of the character at the head of bytes, or what is wrong and the bytes that show
it. -/
def headBytes (b : UInt8) (rest : List UInt8) : Except (Utf8Problem × List UInt8) (List UInt8) :=
  match leadByte? b with
  | none => .error (.invalidStart, [b])
  | some (count, least, greatest) =>
    let tail := rest.take (count - 1)
    if (tail.head?.all fun second => least ≤ second && second ≤ greatest) then
      let going := tail.takeWhile isContinuation
      if going.length < tail.length then .error (.invalidContinuation, b :: going)
      else if tail.length < count - 1 then .error (.unexpectedEnd, b :: tail)
      else .ok (b :: tail)
    else .error (.invalidContinuation, [b])

/-- The characters that bytes write; the first `skip` of the bytes belong to a character before,
and `offset` is the number of bytes before. -/
def decodeFrom : (offset skip : Nat) → List UInt8 → Except Utf8Fault (List Char)
  | _, _, [] => .ok []
  | offset, skip + 1, _ :: rest => decodeFrom (offset + 1) skip rest
  | offset, 0, b :: rest =>
    match headBytes b rest with
    | .error (problem, bytes) => .error ⟨offset, bytes, problem⟩
    | .ok bytes => (decodeFrom (offset + 1) (bytes.length - 1) rest).map (charOfBytes bytes :: ·)

/-- The characters that bytes write. -/
def decode (bytes : List UInt8) : Except Utf8Fault (List Char) := decodeFrom 0 0 bytes

/-- A text with every line end, be it `\r\n`, `\r` or `\n`, written as `\n`. -/
def unifyLineEnds : List Char → List Char
  | [] => []
  | '\r' :: '\n' :: cs => '\n' :: unifyLineEnds cs
  | '\r' :: cs => '\n' :: unifyLineEnds cs
  | c :: cs => c :: unifyLineEnds cs

example : decode [0x61, 0xC3, 0xA9] = .ok ['a', 'é'] := by cbv

example : decode [0x61, 0xE2, 0x82] = .error ⟨1, [0xE2, 0x82], .unexpectedEnd⟩ := by cbv

end StyleCascade.Text
