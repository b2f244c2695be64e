namespace DeviceLab.Text

def encode (text : String) : List UInt8 :=
  text.toUTF8.toList

/-- The text with exactly these bytes, if they are well-formed UTF-8. -/
def decode? (bytes : List UInt8) : Option String :=
  String.fromUTF8? ⟨bytes.toArray⟩

/-- How many continuation bytes a leading byte asks for, with the bounds of the first of them and
the bits that the leading byte contributes. -/
def leading (b : UInt8) : Option (Nat × UInt8 × UInt8 × Nat) :=
  if 0xC2 ≤ b ∧ b ≤ 0xDF then some (1, 0x80, 0xBF, b.toNat % 0x20)
  else if b = 0xE0 then some (2, 0xA0, 0xBF, 0)
  else if b = 0xED then some (2, 0x80, 0x9F, 0xD)
  else if 0xE1 ≤ b ∧ b ≤ 0xEF then some (2, 0x80, 0xBF, b.toNat % 0x10)
  else if b = 0xF0 then some (3, 0x90, 0xBF, 0)
  else if 0xF1 ≤ b ∧ b ≤ 0xF3 then some (3, 0x80, 0xBF, b.toNat % 0x08)
  else if b = 0xF4 then some (3, 0x80, 0x8F, 4)
  else none

def replacement : Char := '\uFFFD'

/-- A character still being read: its bits so far, how many bytes it still needs, and the bounds of
the next one. -/
structure Partial where
  bits : Nat
  missing : Nat
  low : UInt8
  high : UInt8

/-- Lossy decoding, in the middle of a character when there is one. -/
def decodeFrom (open? : Option Partial) : List UInt8 → List Char
  | [] => if open?.isSome then [replacement] else []
  | b :: rest =>
    let start : Unit → List Char := fun _ =>
      if b < 0x80 then Char.ofNat b.toNat :: decodeFrom none rest
      else match leading b with
        | some (missing, low, high, bits) => decodeFrom (some ⟨bits, missing, low, high⟩) rest
        | none => replacement :: decodeFrom none rest
    match open? with
    | none => start ()
    | some p =>
      if p.low ≤ b ∧ b ≤ p.high then
        let bits := p.bits * 0x40 + b.toNat % 0x40
        if p.missing ≤ 1 then Char.ofNat bits :: decodeFrom none rest
        else decodeFrom (some ⟨bits, p.missing - 1, 0x80, 0xBF⟩) rest
      else replacement :: start ()

/-- The text of any byte sequence, with replacement characters where it is malformed. -/
def decodeLossy (bytes : List UInt8) : String :=
  String.ofList (decodeFrom none bytes)

/-- The bytes of a text in which every character stands for one byte. -/
def bytesOf (text : String) : List UInt8 :=
  text.toList.map fun c => UInt8.ofNat c.toNat

def ofBytes (bytes : List UInt8) : String :=
  String.ofList (bytes.map fun b => Char.ofNat b.toNat)

/-- A text as its bytes, each standing as a character. -/
def narrow (text : String) : String :=
  ofBytes (encode text)

def widen (text : String) : String :=
  decodeLossy (bytesOf text)

end DeviceLab.Text
