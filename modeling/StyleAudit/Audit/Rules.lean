import StyleAudit.Audit.Project
import StyleAudit.Audit.StyleRules
import StyleAudit.Configuration.Basic

/-!
# All rules

Unused classes come first, then colours, then limits.
-/

namespace StyleAudit.Audit

/-- The violations of a project under a configuration. -/
def violations (d : Disk) (root : String) (c : Configuration) : Logged (List Violation) := do
  let options ← Logged.lift (c.options.mapError Fault.configuration)
  let unused ← unusedClasses d root options
  let files := (Disk.collect d root).styles
  let colors ← checkColors d root files c.colorRule?
  let limits ← checkLimits d root files c.limitRule?
  return unused ++ colors ++ limits

end StyleAudit.Audit
