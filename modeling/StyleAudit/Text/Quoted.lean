import StyleAudit.Text.Digit
import StyleAudit.Text.Printable

/-!
# Quoted texts in messages

A text in a message stands between single quotes, or between double quotes if it holds a single
quote and no double quote. Backslashes, the chosen quote and what cannot be printed are escaped.
-/

namespace StyleAudit.Text

/-- The quote that a text is written in. -/
def quoteFor (cs : List Char) : Char :=
  if cs.contains '\'' && !cs.contains '"' then '"' else '\''

/-- The escape of a code with up to four hexadecimal digits. -/
def codeEscapeText (n : Nat) : List Char :=
  '\\' :: 'u' :: hexDigitsPadded 4 n

/-- One character between the quotes. -/
def quotedChar (quote c : Char) : List Char :=
  if c == quote || c == '\\' then ['\\', c]
  else if c == '\n' then ['\\', 'n']
  else if c == '\r' then ['\\', 'r']
  else if c == '\t' then ['\\', 't']
  else if isPrintable c then [c]
  else if c.toNat < 0x100 then '\\' :: 'x' :: hexDigitsPadded 2 c.toNat
  else if c.toNat < 0x10000 then codeEscapeText c.toNat
  else '\\' :: 'U' :: hexDigitsPadded 8 c.toNat

def quote (cs : List Char) : List Char :=
  let q := quoteFor cs
  q :: cs.flatMap (quotedChar q) ++ [q]

def quoted (s : String) : String :=
  String.ofList (quote s.toList)

end StyleAudit.Text
