import StyleAudit.Markup.Extract

/-!
# Options of the rule about unused classes
-/

namespace StyleAudit.Audit

structure Options where
  enabled : Bool := true
  /-- Whether the classes nested under a class that is reached by a computed name count as used. -/
  ignoreDynamic : Bool := true
  helpers : List String := Markup.defaultHelpers
  attributes : List String := Markup.defaultAttributes
deriving DecidableEq, Repr

end StyleAudit.Audit
