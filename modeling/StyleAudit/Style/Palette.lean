import StyleAudit.Json.Access
import StyleAudit.Style.Color
import StyleAudit.Style.Declaration
import StyleAudit.Violation

/-!
# Palettes

A palette is a list of allowed colours. Declarations about colours may only use colours of the
palette; a value with a preprocessor variable cannot be checked and is reported as such.
-/

namespace StyleAudit.Style

open StyleAudit.Text

/-- Whether a property is about colours. -/
def isColorProperty (property : String) : Bool :=
  ["color", "background", "border"].any fun word => occursIn word.toList property.toList

/-- Whether a value uses a preprocessor variable. -/
def usesVariable (value : List Char) : Bool :=
  value.contains '$' || value.contains '@'

/-- The allowed colours in their one spelling. -/
abbrev Palette := List (List Char)

namespace Palette

/-- The palette of a list of colours. -/
def ofColors (colors : List (List Char)) : Palette :=
  colors.map Color.normal

/-- A colour of a configuration; a text that is no string is none. -/
def color : Json → Except Json.Misuse (Option (List Char))
  | .string s => .ok (s.toString?.map String.toList)
  | v => .error (.lacks v.kind "strip")

/-- The palette that a configuration lists. -/
def ofJson (allowed : Json) : Except Json.Misuse Palette := do
  return ofColors ((← (← allowed.elements).mapM color).filterMap id)

def allows (p : Palette) (color : List Char) : Bool :=
  p.contains (Color.normal color)

/-- The messages about one value. -/
def complaints (p : Palette) (value : List Char) : List String :=
  if usesVariable value then
    ["Preprocessor variable used: " ++ String.ofList value ++ ". Direct color validation skipped."]
  else
    ((Color.find value).filter fun c => !p.allows c).map fun c =>
      "Invalid color: " ++ String.ofList c

/-- The violations of one declaration. -/
def violationsOf (p : Palette) (file : String) (d : Declaration) : List Violation :=
  if isColorProperty d.property then
    (p.complaints d.value.toList).map fun message =>
      { rule := Violation.paletteColors, file, line := d.line, message }
  else []

/-- The violations of the declarations of a file. -/
def check (p : Palette) (file : String) (ds : List Declaration) : List Violation :=
  ds.flatMap (p.violationsOf file)

end Palette

end StyleAudit.Style
