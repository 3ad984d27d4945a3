import StyleAudit.Json.Value

/-!
# Violations

What a rule has to say about a place in a stylesheet. The texts of a violation are strings, or texts
by code points where it is written as JSON.
-/

namespace StyleAudit

structure Violation (τ : Type := String) where
  rule : τ
  file : τ
  line : Int
  message : τ
  /-- The class that is meant, if the violation is about one. -/
  className : Option τ := none
deriving DecidableEq, Repr

namespace Violation

/-- The rule about classes that nothing uses. -/
def unusedClasses : String := "no-unused-classes"

/-- The rule about colours outside the palette. -/
def paletteColors : String := "design-system-colors"

/-- The rule about numbers past a limit. -/
def numericLimits : String := "numeric-property-limits"

/-- The violation with its texts by code points. -/
def coded (v : Violation) : Violation CodeText where
  rule := v.rule
  file := v.file
  line := v.line
  message := v.message
  className := v.className.map CodeText.ofString

/-- The entries of the violation as a JSON object. -/
def entries (v : Violation CodeText) : Json.Entries :=
  ("rule", .string v.rule) :: ("file", .string v.file) :: ("line", .int v.line) ::
    ("message", .string v.message) ::
    match v.className with
    | none => []
    | some name => [("class", .string name)]

/-- The violation as a JSON object. -/
def toJson (v : Violation CodeText) : Json :=
  .object v.entries

end Violation

end StyleAudit
