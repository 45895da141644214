import GodotLint.Text.Basic

/-!
# Reading and writing UTF-8

Bytes are read as UTF-8 by a machine that knows how many continuation bytes a character still
owes and in which range the next must lie. A sequence that breaks off gives one replacement
character, and the byte that broke it is read afresh.
-/

namespace GodotLint.Text

/-- The character that stands for bytes that are none. -/
def replacement : Char := '\ufffd'

/-- A character that is partly read. -/
structure Partial where
  /-- Continuation bytes that are still owed. -/
  owed : Nat
  /-- The least value of the next byte. -/
  low : Nat
  /-- The greatest value of the next byte. -/
  high : Nat
  /-- The bits read so far. -/
  bits : Nat
  deriving DecidableEq, Repr

/-- What a first byte begins: a whole character, a character with continuation bytes, or nothing
that UTF-8 knows. -/
def firstByte (b : Nat) : Char ⊕ Option Partial :=
  if b < 0x80 then .inl (Char.ofNat b)
  else if 0xC2 ≤ b && b ≤ 0xDF then .inr (some ⟨1, 0x80, 0xBF, b - 0xC0⟩)
  else if b = 0xE0 then .inr (some ⟨2, 0xA0, 0xBF, 0⟩)
  else if b = 0xED then .inr (some ⟨2, 0x80, 0x9F, 0xD⟩)
  else if 0xE1 ≤ b && b ≤ 0xEF then .inr (some ⟨2, 0x80, 0xBF, b - 0xE0⟩)
  else if b = 0xF0 then .inr (some ⟨3, 0x90, 0xBF, 0⟩)
  else if 0xF1 ≤ b && b ≤ 0xF3 then .inr (some ⟨3, 0x80, 0xBF, b - 0xF0⟩)
  else if b = 0xF4 then .inr (some ⟨3, 0x80, 0x8F, 4⟩)
  else .inr none

/-- Reads a byte that begins a character: what is shown for it at once, and what stays open. -/
def beginByte (b : Nat) : List Char × Option Partial :=
  match firstByte b with
  | .inl c => ([c], none)
  | .inr none => ([replacement], none)
  | .inr (some p) => ([], some p)

/-- Reads bytes as UTF-8 after a character that is partly read. -/
def decodeFrom : Option Partial → List UInt8 → List Char
  | none, [] => []
  | some _, [] => [replacement]
  | none, b :: rest =>
    let (shown, state) := beginByte b.toNat
    shown ++ decodeFrom state rest
  | some p, b :: rest =>
    let n := b.toNat
    if p.low ≤ n && n ≤ p.high then
      let bits := p.bits * 64 + (n - 0x80)
      if p.owed = 1 then Char.ofNat bits :: decodeFrom none rest
      else decodeFrom (some ⟨p.owed - 1, 0x80, 0xBF, bits⟩) rest
    else
      let (shown, state) := beginByte n
      replacement :: shown ++ decodeFrom state rest

/-- Drops one byte-order mark at the start. -/
def dropMark (s : List Char) : List Char :=
  match s with
  | '\ufeff' :: rest => rest
  | _ => s

/-- The text that bytes hold, without a byte-order mark, invalid sequences replaced. -/
def decode (bytes : List UInt8) : List Char := dropMark (decodeFrom none bytes)

/-- The bytes of a text. -/
def encode (s : List Char) : List UInt8 := s.flatMap String.utf8EncodeChar

/-- The text that bytes hold, a byte-order mark included, if they are the bytes of one. -/
def decodeStrict? (bytes : List UInt8) : Option (List Char) :=
  let text := decodeFrom none bytes
  if encode text == bytes then some text else none

end GodotLint.Text
