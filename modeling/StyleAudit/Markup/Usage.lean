import StyleAudit.Table

/-!
# Usages

What markup says about the classes of a sheet: the names that it asks for, and the classes whose
nested classes it may reach by a computed name. Names that stand in plain strings belong to no
sheet.
-/

namespace StyleAudit.Markup

structure Usage where
  static : List String := []
  dynamicParents : List String := []
deriving DecidableEq, Repr

/-- The two usages together. -/
def Usage.merge (u v : Usage) : Usage :=
  ⟨addNames u.static v.static, addNames u.dynamicParents v.dynamicParents⟩

/-- What one markup file contributes: its names for sheets, its usages of them, and the names in its
plain strings. -/
structure MarkupUse where
  bindings : Table String := []
  usages : Table Usage := []
  literals : List String := []
deriving DecidableEq, Repr

namespace MarkupUse

/-- Adds names asked for in a sheet. -/
def addStatic (u : MarkupUse) (path : String) (names : List String) : MarkupUse :=
  { u with usages := u.usages.alter path {} fun r => { r with static := addNames r.static names } }

/-- Adds classes of a sheet whose nested classes may be reached. -/
def addDynamic (u : MarkupUse) (path : String) (names : List String) : MarkupUse :=
  { u with
    usages := u.usages.alter path {} fun r =>
      { r with dynamicParents := addNames r.dynamicParents names } }

def addLiterals (u : MarkupUse) (names : List String) : MarkupUse :=
  { u with literals := addNames u.literals names }

end MarkupUse

end StyleAudit.Markup
