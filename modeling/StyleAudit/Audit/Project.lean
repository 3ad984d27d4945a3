import StyleAudit.Alias.Loader
import StyleAudit.Audit.Context
import StyleAudit.Disk.Discovery
import StyleAudit.Markup.Extract
import StyleAudit.Style.Extract

/-!
# Projects

A project is the files that were found below its root, with what they hold. Its sheets are read
first, and its markup in the light of the sheets. A file that cannot be read is reported and
contributes nothing; in the place of its sheet there is an empty one, so that imports of it still
mean it.
-/

namespace StyleAudit.Audit

open StyleAudit.Style (Sheet)
open StyleAudit.Markup (MarkupUse)

/-! ### Files -/

/-- A file and its text, or why it has none. -/
structure Source where
  path : String
  content : Except FileError String

/-- The file at a path. -/
def Source.ofDisk (d : Disk) (path : String) : Source :=
  ⟨path, d.read path⟩

/-- The message about a file that cannot be opened. -/
def unreadable (e : FileError) : String :=
  "cannot read file: " ++ e.message

/-- The sheet of a file, or why it has none. -/
def Source.sheet (s : Source) : Except Style.ParseError Sheet :=
  match s.content with
  | .ok text => Style.extract (.ofPath s.path) text
  | .error e => .error ⟨unreadable e, 0⟩

/-- What was read from a markup file: the use it makes of classes, with what is to be told about its
imports; or why it is refused. -/
structure MarkupReading where
  path : String
  result : Except Markup.ParseError (MarkupUse × List Event)

/-- Reads a markup file. -/
def Source.markup (s : Source) (settings : Markup.Settings) : MarkupReading where
  path := s.path
  result :=
    match s.content with
    | .ok text =>
      let root := Markup.parse text
      (settings.examine s.path root).map fun use => (use, settings.unresolved s.path root)
    | .error e => .error ⟨unreadable e, 0⟩

/-! ### Contexts of files -/

namespace Context

/-- Adds what was read from a style file. -/
def addSheet (c : Context) (path : String) : Except Style.ParseError Sheet → Context
  | .ok sheet => { c with sheets := c.sheets.put path sheet }
  | .error _ => { c with sheets := c.sheets.put path {}, failures := c.failures ++ [path] }

/-- Adds what was read from a markup file. -/
def addReading (c : Context) (r : MarkupReading) : Context :=
  match r.result with
  | .ok (use, _) => c.addUse use
  | .error _ => { c with failures := c.failures ++ [r.path] }

/-- Adds what was read from markup files. -/
def addReadings (c : Context) (rs : List MarkupReading) : Context :=
  rs.foldl addReading c

end Context

/-! ### Projects -/

structure Project where
  cwd : String
  root : String
  styles : List Source
  markups : List Source

namespace Project

/-- The project below a directory. -/
def ofDisk (d : Disk) (base : String) : Project :=
  let found := Disk.collect d base
  { cwd := d.cwd, root := Path.real d.cwd base, styles := found.styles.map (Source.ofDisk d)
    markups := found.markups.map (Source.ofDisk d) }

/-- What is read from the style files, with their paths. -/
def sheets (p : Project) : List (String × Except Style.ParseError Sheet) :=
  p.styles.map fun s => (s.path, s.sheet)

/-- What is to be told about a style file. -/
def sheetEvent (p : Project) (path : String) : Except Style.ParseError Sheet → Event
  | .ok sheet => .classesExtracted sheet.definitions.length path
  | .error e => .styleUnreadable (Path.relative p.cwd path p.root) e.message

/-- The context with the given sheets. -/
def sheetContext (p : Project) (sheets : List (String × Except Style.ParseError Sheet)) : Context :=
  sheets.foldl (fun c (path, sheet) => c.addSheet path sheet) { root := p.root }

/-- How the markup of a project is read. -/
def settings (p : Project) (sheets : Table Sheet) (resolver : Alias.Resolver) (o : Options) :
    Markup.Settings where
  cwd := p.cwd
  sheets := sheets
  resolver := some resolver
  helpers := o.helpers
  attributes := o.attributes

/-- What is read from the markup files. -/
def readings (p : Project) (sheets : Table Sheet) (resolver : Alias.Resolver) (o : Options) :
    List MarkupReading :=
  p.markups.map fun s => s.markup (p.settings sheets resolver o)

/-- What is to be told about a markup file. -/
def readingEvents (p : Project) (r : MarkupReading) : List Event :=
  match r.result with
  | .ok (_, events) => events
  | .error e => [.markupUnreadable (Path.relative p.cwd r.path p.root) e.message]

/-- The whole context of a project, whose aliases are known. -/
def context (p : Project) (resolver : Alias.Resolver) (o : Options) : Context :=
  let c := p.sheetContext p.sheets
  c.addReadings (p.readings c.sheets resolver o)

/-- What is to be told about the project in the end. -/
def finalEvent (p : Project) : Event :=
  .filesScanned p.styles.length p.markups.length

end Project

/-- The context of the project below a directory, as `Project.context` has it. Aliases are loaded
between the two readings. -/
def Context.ofDisk (d : Disk) (base : String) (o : Options) : Logged Context := do
  let p := Project.ofDisk d base
  let sheets := p.sheets
  let c := p.sheetContext sheets
  Logged.tell (sheets.map fun (path, sheet) => p.sheetEvent path sheet)
  let resolver ← Alias.Resolver.ofDisk d p.root
  let readings := p.readings c.sheets resolver o
  Logged.tell (readings.flatMap p.readingEvents ++ [p.finalEvent])
  return c.addReadings readings

/-- The violations of the rule about unused classes; none if it is switched off. -/
def unusedClasses (d : Disk) (base : String) (o : Options) : Logged (List Violation) :=
  if o.enabled then do
    let c ← Context.ofDisk d base o
    Logged.lift ((c.report d.cwd o).mapError .path)
  else pure []

end StyleAudit.Audit
