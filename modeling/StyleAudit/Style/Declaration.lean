import StyleAudit.Style.Dialect
import StyleAudit.Style.Printer
import StyleAudit.Text.Blank

/-!
# Declarations

A declaration is a property name, a colon and a value, up to a semicolon or the end of its block. A
block in curly brackets is read for the declarations inside it, and what stands before the block is
none.
-/

namespace StyleAudit.Style

open StyleAudit.Text

structure Declaration where
  property : String
  value : String
  line : Int
deriving DecidableEq, Repr

/-! ### The importance mark -/

/-- The letter matches a letter of the mark, in either case. The two forms of `i` without or with a
forced dot count as `i`. -/
def matchesLetter (letter c : Char) : Bool :=
  c.toLower == letter ||
    letter == 'i' && (c.toNat == 0x130 || c.toNat == 0x131)

def matchesLetters : List Char → List Char → Bool
  | [], [] => true
  | l :: ls, c :: cs => matchesLetter l c && matchesLetters ls cs
  | _, _ => false

/-- What is left of a text after the mark `! important`, with any blanks before and inside it. -/
def importanceMark? (cs : List Char) : Option Unit :=
  match cs.dropWhile isBlank with
  | '!' :: rest =>
    if matchesLetters "important".toList (rest.dropWhile isBlank) then some () else none
  | _ => none

/-- The value without the mark `! important` at its end. -/
def withoutImportance : List Char → List Char
  | [] => []
  | c :: cs => if (importanceMark? (c :: cs)).isSome then [] else c :: withoutImportance cs

/-! ### Segments -/

/-- The tokens up to a semicolon read as a declaration. -/
def asDeclaration (segment : List Token) : Option Declaration :=
  match segment.dropWhile Token.isBlank with
  | .leaf line (.ident name) :: rest =>
    match rest.dropWhile Token.isBlank with
    | colon :: value =>
      if colon.isLiteral ":" then
        some ⟨asciiLowered name, String.ofList (withoutImportance (trim (print value))), line⟩
      else none
    | [] => none
  | _ => none

mutual

/-- The declarations in the block of a token. -/
def Token.declarations : Token → List Declaration
  | .leaf _ _ => []
  | .function _ _ _ => []
  | .block _ _ content => declarationsAfter [] content

/-- The declarations of a forest that follows the tokens of `segment`. -/
def declarationsAfter (segment : List Token) : List Token → List Declaration
  | [] => (asDeclaration segment).toList
  | t :: ts =>
    if t.isLiteral ";" then (asDeclaration segment).toList ++ declarationsAfter [] ts
    else if t.isCurly then t.declarations ++ declarationsAfter [] ts
    else declarationsAfter (segment ++ [t]) ts

end

/-- The declarations of a stylesheet in document order, or why it cannot be read. -/
def declarations (d : Dialect) (source : String) : Except ParseError (List Declaration) := do
  return declarationsAfter [] (← d.parse source)

end StyleAudit.Style
