import StyleAudit.Main
import StyleAudit.Markup.Extract
import StyleAudit.Style.Declaration
import StyleAudit.Style.Extract
import StyleAudit.Text.Quoted
import StyleAudit.Text.Utf8
import StyleAudit.Text.WordChar
import StyleAudit.Proofs.Markup.Usage
import StyleAudit.Proofs.Markup.Leaves
import StyleAudit.Proofs.Markup.DynamicParents
import StyleAudit.Proofs.Audit.Context
import StyleAudit.Proofs.Audit.Shrinking
import StyleAudit.Proofs.Style.ClassTokens
import StyleAudit.Proofs.Style.WellFormed
import StyleAudit.Proofs.Markup.StaticUse
import StyleAudit.Proofs.Audit.Soundness
import StyleAudit.Proofs.Audit.Accumulation
import StyleAudit.Proofs.Audit.Project
import StyleAudit.Proofs.Audit.Enlarging
import StyleAudit.Proofs.Audit.Consistency
import StyleAudit.Proofs.Audit.Isolation
import StyleAudit.Proofs.Markup.Remark
import StyleAudit.Proofs.Markup.Import
import StyleAudit.Proofs.Logged
import StyleAudit.Proofs.Alias.Loader
import StyleAudit.Proofs.Alias.FallThrough
import StyleAudit.Proofs.Alias.Precedence
import StyleAudit.Proofs.Alias.Wildcards
import StyleAudit.Proofs.Alias.Block
import StyleAudit.Proofs.Disk.Tree
import StyleAudit.Proofs.Disk.Discovery
import StyleAudit.Proofs.Json.Commented
import StyleAudit.Proofs.Json.Printing
import StyleAudit.Proofs.Report.RoundTrip
import StyleAudit.Proofs.Style.Lines
import StyleAudit.Proofs.Audit.Ordering
import StyleAudit.Proofs.Report.Summary
import StyleAudit.Proofs.Configuration.Validation
import StyleAudit.Proofs.CommandLine.Misconfiguration
import StyleAudit.Proofs.Markup.Reading
import StyleAudit.Proofs.Markup.Resolution
import StyleAudit.Proofs.Markup.Wrappers
import StyleAudit.Proofs.Style.Nesting
import StyleAudit.Proofs.Style.Marks
import StyleAudit.Proofs.Style.Spelling
import StyleAudit.Proofs.Style.Outline
import StyleAudit.Proofs.Style.Suffixes
import StyleAudit.Proofs.Style.Appending
import StyleAudit.Proofs.Markup.Regrouping
import StyleAudit.Proofs.Markup.Agreement
import StyleAudit.Proofs.Markup.Conventions
import StyleAudit.Proofs.Style.AtRules
import StyleAudit.Proofs.Style.ClassMentions
import StyleAudit.Proofs.Style.RuleBody
import StyleAudit.Proofs.Style.Interpolation
import StyleAudit.Proofs.Style.Palette
import StyleAudit.Proofs.Style.LineComments
import StyleAudit.Proofs.Markup.TemplateText
import StyleAudit.Proofs.Disk.Catalogue
import StyleAudit.Proofs.Style.SelectorList
import StyleAudit.Proofs.Style.NormalColor
import StyleAudit.Proofs.Style.Balance
import StyleAudit.Proofs.Style.Brackets
import StyleAudit.Proofs.Style.Refusal
import StyleAudit.Proofs.Markup.FaultSearch
import StyleAudit.Proofs.Style.FirstFault
