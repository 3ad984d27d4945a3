import StyleAudit.Configuration.Error
import StyleAudit.Json.Access
import StyleAudit.Numeric.Shortest
import StyleAudit.Style.Declaration
import StyleAudit.Violation

/-!
# Limits of numbers

A limit says which numbers a property must not have: a comparison and a threshold. The number of a
value is what stands at its front.
-/

namespace StyleAudit.Style

open StyleAudit.Text

/-! ### Comparisons -/

inductive Comparison where
  | atLeast
  | above
  | atMost
  | below
  | equal
  | different
deriving DecidableEq, Repr

namespace Comparison

def all : List Comparison :=
  [.atLeast, .above, .atMost, .below, .equal, .different]

/-- How the comparison is written. -/
def sign : Comparison → String
  | .atLeast => ">="
  | .above => ">"
  | .atMost => "<="
  | .below => "<"
  | .equal => "=="
  | .different => "!="

def ofSign? (s : CodeText) : Option Comparison :=
  all.find? fun c => CodeText.ofString c.sign == s

/-- Whether the comparison holds. What is no number differs from everything and is otherwise out of
every order. -/
def holds (c : Comparison) (a b : Binary64) : Bool :=
  match c with
  | .atLeast => Binary64.compareWith (fun x y => y ≤ x) false a b
  | .above => Binary64.compareWith (fun x y => y < x) false a b
  | .atMost => Binary64.compareWith (fun x y => x ≤ y) false a b
  | .below => Binary64.compareWith (fun x y => x < y) false a b
  | .equal => Binary64.compareWith (fun x y => x == y) false a b
  | .different => Binary64.compareWith (fun x y => x != y) true a b

end Comparison

/-! ### The number of a value -/

/-- Digits of any script at the front of a text. -/
def digitRun (cs : List Char) : List Char × List Char :=
  (cs.takeWhile isDigit, cs.dropWhile isDigit)

/-- A sign at the front of a text. -/
def signRun : List Char → List Char × List Char
  | '+' :: cs => (['+'], cs)
  | '-' :: cs => (['-'], cs)
  | cs => ([], cs)

/-- Digits with at most one point: there are digits before the point, or after it. -/
def mantissa? (cs : List Char) : Option (List Char × List Char) :=
  match digitRun cs with
  | ([], '.' :: rest) =>
    match digitRun rest with
    | ([], _) => none
    | (fraction, after) => some ('.' :: fraction, after)
  | ([], _) => none
  | (whole, '.' :: rest) =>
    let (fraction, after) := digitRun rest
    some (whole ++ '.' :: fraction, after)
  | (whole, rest) => some (whole, rest)

/-- The power of ten at the front of a text, or nothing. -/
def powerText : List Char → List Char
  | e :: cs =>
    if e == 'e' || e == 'E' then
      let (sign, rest) := signRun cs
      match digitRun rest with
      | ([], _) => []
      | (digits, _) => e :: sign ++ digits
    else []
  | [] => []

/-- The numeral at the front of a value, after blanks. -/
def leadingNumeral? (value : List Char) : Option (List Char) :=
  let (sign, body) := signRun (value.dropWhile isBlank)
  (mantissa? body).map fun (m, rest) => sign ++ m ++ powerText rest

/-- The number at the front of a value. -/
def leadingNumber? (value : List Char) : Option Binary64 :=
  (leadingNumeral? value).bind Numeral.read?

/-! ### Limits -/

structure Limit where
  threshold : Binary64
  comparison : Comparison
deriving DecidableEq, Repr

/-- The comparison of a limit that names none. -/
def Comparison.usual : Comparison := .atLeast

/-- The violation of a declaration with the number `x`, under a limit whose comparison is written as
`sign`. -/
def Limit.violation (file sign : String) (l : Limit) (d : Declaration) (x : Binary64) :
    Violation where
  rule := Violation.numericLimits
  file := file
  line := d.line
  message := d.property ++ " value " ++ x.plainText ++ " violates limit " ++ sign ++ " " ++
    l.threshold.plainText

/-- The violation of a declaration, if its number is past the limit. -/
def Limit.check (l : Limit) (file sign : String) (d : Declaration) (x : Binary64) :
    Option Violation :=
  if l.comparison.holds x l.threshold then some (l.violation file sign d x) else none

/-- The violation of a declaration under a table of limits. -/
def limitViolation? (limits : Table Limit) (file : String) (d : Declaration) :
    Option Violation := do
  let l ← limits.find? d.property
  l.check file l.comparison.sign d (← leadingNumber? d.value.toList)

/-- The violations of the declarations of a file. -/
def checkLimits (limits : Table Limit) (file : String) (ds : List Declaration) : List Violation :=
  ds.filterMap (limitViolation? limits file)

/-! ### Limits as they are written -/

/-- The comparison that a limit writes, and how it is written. An unknown one counts as the usual
one. -/
def writtenComparison (entries : Json.Entries) : Except Json.Misuse (Comparison × String) :=
  match entries.find? "operator" with
  | none => .ok (.usual, Comparison.usual.sign)
  | some (.string s) => .ok ((Comparison.ofSign? s).getD .usual, s.shown)
  | some v => if v.isKey then .ok (.usual, v.inSentence) else .error (.notKey v.kind)

/-- The violation of a declaration under limits that are not validated: what is no limit limits
nothing, and a limit is only read for a value with a number. -/
def writtenLimitViolation? (limits : Json) (file : String) (d : Declaration) :
    Except Json.Misuse (Option Violation) := do
  match ← limits.get d.property with
  | some (.object entries) =>
    match Table.find? entries "threshold", leadingNumber? d.value.toList with
    | some threshold, some x =>
      let (comparison, sign) ← writtenComparison entries
      let l : Limit := ⟨← threshold.toNumber, comparison⟩
      return l.check file sign d x
    | _, _ => return none
  | _ => return none

/-- The violations of the declarations of a file under limits that are not validated. -/
def checkWrittenLimits (limits : Json) (file : String) (ds : List Declaration) :
    Except Json.Misuse (List Violation) := do
  return (← ds.mapM (writtenLimitViolation? limits file)).filterMap id

/-! ### Validation -/

/-- Why limits are refused. -/
inductive LimitFault where
  | configuration (e : Configuration.Error)
  | misuse (m : Json.Misuse)

/-- The threshold of a limit. -/
def validThreshold (property : CodeText) (threshold : Json) : Except LimitFault Binary64 :=
  match threshold.toNumber with
  | .ok x => .ok x
  | .error .integerTooLarge => .error (.misuse .integerTooLarge)
  | .error _ => .error (.configuration (.thresholdNoNumber property threshold))

/-- The comparison of a limit. -/
def validComparison (property : CodeText) (entries : Json.Entries) :
    Except LimitFault Comparison :=
  match entries.find? "operator" with
  | none => .ok .usual
  | some v =>
    if v.isKey then
      match v with
      | .string s =>
        match Comparison.ofSign? s with
        | some c => .ok c
        | none => .error (.configuration (.unknownOperator property v))
      | _ => .error (.configuration (.unknownOperator property v))
    else .error (.misuse (.notKey v.kind))

/-- A limit of a property. -/
def validLimit (property : CodeText) : Json → Except LimitFault Limit
  | .object entries =>
    match Table.find? entries "threshold" with
    | some threshold => do
      let x ← validThreshold property threshold
      return ⟨x, ← validComparison property entries⟩
    | none => .error (.configuration (.limitShape property))
  | _ => .error (.configuration (.limitShape property))

/-- One limit of a list, with the name of its property in lower case. A name that is no string is
that of no property. -/
def validEntry (entry : CodeText × Json) : Except LimitFault (Option (String × Limit)) :=
  (validLimit entry.1 entry.2).map fun limit =>
    entry.1.toString?.map fun name => (lowered name, limit)

/-- The limits of a list of properties. -/
def validLimits (entries : Json.Entries) : Except LimitFault (Table Limit) :=
  (entries.mapM validEntry).map fun limits => Table.ofList (limits.filterMap id)

/-- The limits that a configuration states. -/
def limitsOfJson (v : Json) : Except LimitFault (Table Limit) := do
  match v.entries with
  | .ok entries => validLimits entries
  | .error m => .error (.misuse m)

end StyleAudit.Style
