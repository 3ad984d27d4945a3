import StyleAudit.Text.Pattern

/-!
# Line comments

Some dialects have comments from `//` to the end of the line. They are removed before the text is
read any further, except inside a quoted string, a block comment or an address, which are kept as
written.
-/

namespace StyleAudit.Style

open StyleAudit.Text

/-- A stretch that a line comment cannot begin in: a string on one line, a block comment or an
address. -/
def protected? : List Char → Option (List Char × List Char)
  | '"' :: cs => (quotedRest? '"' (· != '\n') (fun _ => true) cs).map fun (t, r) => ('"' :: t, r)
  | '\'' :: cs =>
    (quotedRest? '\'' (· != '\n') (fun _ => true) cs).map fun (t, r) => ('\'' :: t, r)
  | '/' :: '*' :: cs =>
    (splitAtMark? ['*', '/'] cs).map fun (t, r) => ('/' :: '*' :: t ++ ['*', '/'], r)
  | 'u' :: 'r' :: 'l' :: '(' :: cs =>
    (splitAtMark? [')'] cs).map fun (t, r) => ("url(".toList ++ t ++ [')'], r)
  | _ => none

/-- A stretch that is kept as it is, or a line comment, for which nothing is kept. -/
def keptOrComment : Pattern (List Char)
  | _, cs =>
    match protected? cs with
    | some found => some found
    | none =>
      match cs with
      | '/' :: '/' :: rest => some ([], rest.dropWhile (· != '\n'))
      | _ => none

/-- The text without its line comments. Line ends stay, and so does the number of each line. -/
def stripLineComments (cs : List Char) : List Char :=
  keptOrComment.replace id cs

end StyleAudit.Style
