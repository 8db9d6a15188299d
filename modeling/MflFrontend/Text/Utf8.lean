import MflFrontend.Decimal.Reading
import MflFrontend.Text.Quoted

/-!
# Reading bytes as text

Strict UTF-8: every byte sequence stands for at most one text, and the first sequence that is not
the form of a character is reported with its place, its length and what is wrong with it.

The decoder goes through the bytes once. Behind a leading byte it owes a number of further bytes;
the range of the first of these excludes overlong forms, surrogates and numbers that are too large.

A text file may end its lines with CR LF or CR; `unifyLineEnds` turns both into LF.
-/

namespace MflFrontend

/-- What is wrong with a sequence of bytes. -/
inductive Utf8Flaw where
  /-- No character starts with the byte. -/
  | start
  /-- The sequence breaks off before a byte that does not continue it. -/
  | continuation
  /-- The sequence breaks off at the end. -/
  | truncated
  deriving DecidableEq

/-- The wording of a flaw. -/
def Utf8Flaw.describe : Utf8Flaw → String
  | start => "invalid start byte"
  | continuation => "invalid continuation byte"
  | truncated => "unexpected end of data"

/-- The first sequence of bytes that is no character. -/
structure Utf8Fault where
  /-- Where the sequence starts. -/
  position : Nat
  /-- How many bytes it has. -/
  length : Nat
  /-- Its first byte. -/
  first : UInt8
  /-- What is wrong with it. -/
  flaw : Utf8Flaw
  deriving DecidableEq

/-- The wording of a decoding fault. -/
def Utf8Fault.message (f : Utf8Fault) : String :=
  "'utf-8' codec can't decode " ++
    (if f.length = 1 then
      "byte 0x" ++ String.ofList (hexDigits 2 f.first.toNat) ++ " in position " ++
        integerText f.position
    else
      "bytes in position " ++ integerText f.position ++ "-" ++
        integerText (f.position + f.length - 1)) ++
    ": " ++ f.flaw.describe

namespace Utf8

/-- A character of which some bytes were read. -/
structure OpenCharacter where
  /-- Where the character starts. -/
  position : Nat
  /-- Its first byte. -/
  first : UInt8
  /-- How many bytes were read. -/
  taken : Nat
  /-- How many further bytes it needs, less one. -/
  owed : Nat
  /-- The least value of the next byte. -/
  low : Nat
  /-- The greatest value of the next byte. -/
  high : Nat
  /-- The bits read so far, as a number. -/
  bits : Nat

/-- What a byte opens: a character of its own, a longer one, or none. -/
inductive Opening where
  /-- The byte is a character. -/
  | whole (c : Char)
  /-- The byte starts a longer character. -/
  | longer (p : OpenCharacter)
  /-- The byte starts no character. -/
  | none

/-- What the byte at a position opens. -/
def opening (position : Nat) (b : UInt8) : Opening :=
  let n := b.toNat
  let longer (owed low high bits : Nat) : Opening := .longer ⟨position, b, 1, owed, low, high, bits⟩
  if n < 0x80 then .whole (Char.ofNat n)
  -- the bytes that continue a character open none, and two more could only open overlong forms
  else if n < 0xc2 then .none
  else if n < 0xe0 then longer 0 0x80 0xbf (n - 0xc0)
  -- the range leaves out overlong forms behind 0xe0 and 0xf0, surrogates behind 0xed, and numbers
  -- that are too large behind 0xf4
  else if n = 0xe0 then longer 1 0xa0 0xbf 0
  else if n = 0xed then longer 1 0x80 0x9f 0xd
  else if n < 0xf0 then longer 1 0x80 0xbf (n - 0xe0)
  else if n = 0xf0 then longer 2 0x90 0xbf 0
  else if n < 0xf4 then longer 2 0x80 0xbf (n - 0xf0)
  else if n = 0xf4 then longer 2 0x80 0x8f 4
  else .none

/-- Decodes the bytes from a position on, `p` being the character that is still open. -/
def decodeFrom (position : Nat) (p : Option OpenCharacter) :
    List UInt8 → Except Utf8Fault (List Char)
  | [] =>
    match p with
    | none => .ok []
    | some p => .error ⟨p.position, p.taken, p.first, .truncated⟩
  | b :: bs =>
    match p with
    | none =>
      match opening position b with
      | .whole c => (decodeFrom (position + 1) none bs).map (c :: ·)
      | .longer p => decodeFrom (position + 1) (some p) bs
      | .none => .error ⟨position, 1, b, .start⟩
    | some p =>
      if b.toNat < p.low ∨ p.high < b.toNat then
        .error ⟨p.position, p.taken, p.first, .continuation⟩
      else
        let bits := p.bits * 0x40 + (b.toNat - 0x80)
        match p.owed with
        | 0 => (decodeFrom (position + 1) none bs).map (Char.ofNat bits :: ·)
        | owed + 1 =>
          decodeFrom (position + 1)
            (some { p with taken := p.taken + 1, owed, low := 0x80, high := 0xbf, bits }) bs

/-- The text that the bytes stand for. -/
def decode (bytes : List UInt8) : Except Utf8Fault (List Char) := decodeFrom 0 none bytes

end Utf8

/-- The text with LF for every CR LF and every other CR. -/
def unifyLineEnds : List Char → List Char
  | '\r' :: '\n' :: cs => '\n' :: unifyLineEnds cs
  | '\r' :: cs => '\n' :: unifyLineEnds cs
  | c :: cs => c :: unifyLineEnds cs
  | [] => []

end MflFrontend
