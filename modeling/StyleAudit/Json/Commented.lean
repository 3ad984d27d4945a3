import StyleAudit.Json.Parser
import StyleAudit.Text.Blank
import StyleAudit.Text.Pattern

/-!
# JSON with comments

Configurations may hold comments, to the end of the line or between `/*` and `*/`, and a comma
before a closing bracket. Both are removed outside strings, and the rest is read as JSON.
-/

namespace StyleAudit.Json

open StyleAudit.Text

/-- A string at the front of a text, with its quotes. -/
def stringText? (escapable : Char → Bool) : List Char → Option (List Char × List Char)
  | '"' :: cs => (quotedRest? '"' (fun _ => true) escapable cs).map fun (t, r) => ('"' :: t, r)
  | _ => none

/-- A string, which is kept, or a comment, of which nothing is kept. -/
def stringOrComment : Pattern (List Char)
  | _, cs =>
    match stringText? (fun _ => true) cs with
    | some found => some found
    | none =>
      match cs with
      | '/' :: '/' :: r => some ([], r.dropWhile (· != '\n'))
      | '/' :: '*' :: r => (splitAtMark? ['*', '/'] r).map fun (_, rest) => ([], rest)
      | _ => none

/-- A string, which is kept, or a comma before a closing bracket, of which the bracket is kept with
the blanks before it. -/
def stringOrLastComma : Pattern (List Char)
  | _, cs =>
    match stringText? (· != '\n') cs with
    | some found => some found
    | none =>
      match cs with
      | ',' :: r =>
        match r.dropWhile isBlank with
        | c :: rest =>
          if c == '}' || c == ']' then some (r.takeWhile isBlank ++ [c], rest) else none
        | [] => none
      | _ => none

def withoutComments (cs : List Char) : List Char :=
  stringOrComment.replace id cs

def withoutLastCommas (cs : List Char) : List Char :=
  stringOrLastComma.replace id cs

/-- The value of a text that may hold comments and commas before closing brackets. -/
def parseCommented (text : String) : Except ReadError Json :=
  parse (withoutLastCommas (withoutComments text.toList))

/-- The value of such a text with at most `limit` brackets open at a time. -/
def parseCommentedWithin (limit : Nat) (text : String) : Except ReadError Json :=
  parseWithin limit (withoutLastCommas (withoutComments text.toList))

end StyleAudit.Json
