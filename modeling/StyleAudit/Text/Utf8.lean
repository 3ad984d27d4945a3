/-!
# Reading text from bytes

Bytes are read as UTF-8. A sequence that no character is written as becomes the replacement
character, one for each longest stretch that could still have begun a character. The line ends
`\r\n` and `\r` are read as `\n`.
-/

namespace StyleAudit.Text

/-- What stands for bytes that cannot be read. -/
def replacement : Char := Char.ofNat 0xfffd

/-- A character of which `missing` bytes are still to come. The next one lies between `least` and
`greatest`, which rules out overlong forms, surrogates and what is past the last code point. -/
structure Unfinished where
  bits : Nat
  missing : Nat
  least : UInt8
  greatest : UInt8

/-- What a byte in lead position gives: characters, and the character that it begins. -/
def leadByte (b : UInt8) : List Char × Option Unfinished :=
  if b < 0x80 then ([Char.ofNat b.toNat], none)
  else if 0xc2 ≤ b && b ≤ 0xdf then ([], some ⟨b.toNat - 0xc0, 1, 0x80, 0xbf⟩)
  else if b == 0xe0 then ([], some ⟨0, 2, 0xa0, 0xbf⟩)
  else if b == 0xed then ([], some ⟨0xd, 2, 0x80, 0x9f⟩)
  else if 0xe0 ≤ b && b ≤ 0xef then ([], some ⟨b.toNat - 0xe0, 2, 0x80, 0xbf⟩)
  else if b == 0xf0 then ([], some ⟨0, 3, 0x90, 0xbf⟩)
  else if b == 0xf4 then ([], some ⟨4, 3, 0x80, 0x8f⟩)
  else if 0xf0 ≤ b && b ≤ 0xf4 then ([], some ⟨b.toNat - 0xf0, 3, 0x80, 0xbf⟩)
  else ([replacement], none)

/-- What a byte gives after an unfinished character. -/
def nextByte (u : Unfinished) (b : UInt8) : List Char × Option Unfinished :=
  if u.least ≤ b && b ≤ u.greatest then
    let bits := u.bits * 64 + (b.toNat - 0x80)
    if u.missing ≤ 1 then ([Char.ofNat bits], none)
    else ([], some ⟨bits, u.missing - 1, 0x80, 0xbf⟩)
  else
    let (cs, next) := leadByte b
    (replacement :: cs, next)

def decodeFrom : Option Unfinished → List UInt8 → List Char
  | none, [] => []
  | some _, [] => [replacement]
  | none, b :: bs => (leadByte b).1 ++ decodeFrom (leadByte b).2 bs
  | some u, b :: bs => (nextByte u b).1 ++ decodeFrom (nextByte u b).2 bs

/-- The characters that the bytes write. -/
def decode (bytes : List UInt8) : List Char :=
  decodeFrom none bytes

/-- Every line end becomes `\n`. -/
def unifyLines : List Char → List Char
  | '\r' :: '\n' :: cs => '\n' :: unifyLines cs
  | '\r' :: cs => '\n' :: unifyLines cs
  | c :: cs => c :: unifyLines cs
  | [] => []

/-- The text of a file with the given bytes. -/
def ofBytes (bytes : List UInt8) : String :=
  String.ofList (unifyLines (decode bytes))

end StyleAudit.Text
