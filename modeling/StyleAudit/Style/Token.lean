/-!
# Style tokens

A stylesheet is read as a forest of tokens. A leaf is a token without parts; blocks and functions
hold the forest between their brackets. Comments leave no token. Each token knows the line that it
starts on. What the reader could not make sense of stands in the forest too, as a fault leaf.
-/

namespace StyleAudit.Style

inductive Bracket where
  | round
  | square
  | curly
deriving DecidableEq, Repr

namespace Bracket

def opening : Bracket → Char
  | .round => '('
  | .square => '['
  | .curly => '{'

def closing : Bracket → Char
  | .round => ')'
  | .square => ']'
  | .curly => '}'

end Bracket

/-- Why a stretch of text is no token. -/
inductive TokenFault where
  | unmatched (closer : Bracket)
  | badString
  | unclosedString
  | badUrl
  | unclosedUrl
deriving DecidableEq, Repr

def TokenFault.message : TokenFault → String
  | .unmatched b => "Unmatched " ++ b.closing.toString
  | .badString => "Bad string token"
  | .unclosedString => "EOF in string"
  | .badUrl => "bad URL token"
  | .unclosedUrl => "EOF in URL"

/-- A token without parts. Names and values are held without escapes, numbers as written. -/
inductive Leaf where
  | blank (text : String)
  | ident (name : String)
  | atKeyword (name : String)
  | hash (value : String) (startsIdent : Bool)
  | string (value : String)
  | url (value : String)
  | codeRange (first last : Nat)
  | number (text : String)
  | percentage (text : String)
  | dimension (text unit : String)
  | literal (text : String)
  | fault (cause : TokenFault)
deriving DecidableEq, Repr

inductive Token where
  | leaf (line : Nat) (leaf : Leaf)
  | block (line : Nat) (bracket : Bracket) (content : List Token)
  | function (line : Nat) (name : String) (arguments : List Token)

namespace Token

def line : Token → Nat
  | .leaf l _ => l
  | .block l _ _ => l
  | .function l _ _ => l

def leaf? : Token → Option Leaf
  | .leaf _ l => some l
  | _ => none

def isBlank : Token → Bool
  | .leaf _ (.blank _) => true
  | _ => false

/-- The token is the literal `text`. -/
def isLiteral (t : Token) (text : String) : Bool :=
  t.leaf? == some (.literal text)

/-- The token is a block in curly brackets. -/
def isCurly : Token → Bool
  | .block _ .curly _ => true
  | _ => false

end Token

end StyleAudit.Style
