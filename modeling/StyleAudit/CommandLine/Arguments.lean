import StyleAudit.Text.Digit
import StyleAudit.Text.Pattern
import StyleAudit.Text.Quoted

/-!
# Arguments

The arguments are words. A word that begins with a dash names an option, in full, by a front of its
long name that fits no other, or by its letter, after which more letters or the value of the option
may follow. All other words, and all after `--`, are plain; one plain word may be the command.

Reading stops at the first error, or when help is asked for.
-/

namespace StyleAudit.CommandLine

open StyleAudit.Text

/-! ### Options -/

inductive Flag where
  | help
  | config
  | json
  | root
  | verbose
deriving DecidableEq, Repr

/-- All names of options, in the order in which they are searched. -/
def optionNames : List (String × Flag) :=
  [("-h", .help), ("--help", .help), ("-c", .config), ("--config", .config), ("--json", .json),
    ("--root", .root), ("-v", .verbose), ("--verbose", .verbose)]

def Flag.ofName? (name : String) : Option Flag :=
  optionNames.lookup name

/-- Whether an option has a value. -/
def Flag.takesValue : Flag → Bool
  | .config => true
  | .root => true
  | _ => false

/-- All names of an option, as they stand in messages. -/
def Flag.title (f : Flag) : String :=
  String.intercalate "/" ((optionNames.filter (·.2 == f)).map Prod.fst)

/-- What was asked for. -/
structure Arguments where
  /-- Whether the command `init` was given. -/
  init : Bool := false
  config : Option String := none
  json : Bool := false
  root : String := "."
  verbose : Bool := false
deriving DecidableEq, Repr

/-! ### Errors -/

inductive UsageError where
  | ambiguous (word : String) (names : List String)
  | needsValue (flag : Flag)
  | ignoredValue (flag : Flag) (value : String)
  | unknownCommand (word : String)
  | unknownWords (words : List String)
deriving DecidableEq, Repr

def UsageError.message : UsageError → String
  | .ambiguous word names =>
    "ambiguous option: " ++ word ++ " could match " ++ String.intercalate ", " names
  | .needsValue flag => "argument " ++ flag.title ++ ": expected one argument"
  | .ignoredValue flag value =>
    "argument " ++ flag.title ++ ": ignored explicit argument " ++ quoted value
  | .unknownCommand word =>
    "argument command: invalid choice: " ++ quoted word ++ " (choose from 'init')"
  | .unknownWords words => "unrecognized arguments: " ++ String.intercalate " " words

/-- Why reading stopped. -/
inductive Stop where
  | help
  | error (e : UsageError)
deriving DecidableEq, Repr

/-! ### Words -/

inductive Word where
  | plain (word : String)
  /-- The word after which all words are plain. -/
  | mark
  /-- An option by one of its names, and a value that was attached to it. -/
  | option (flag : Flag) (name : String) (value : Option String)
  | unknown (word : String)
deriving DecidableEq, Repr

/-- A word at its first `=`. -/
def splitValue? (word : String) : Option (String × String) :=
  (splitAtMark? ['='] word.toList).map fun (name, value) =>
    (String.ofList name, String.ofList value)

/-- The options with a long name that begins with the word, up to its `=`. -/
def longMatches (word : String) : List Word :=
  let (front, value) := match splitValue? word with
    | some (front, value) => (front, some value)
    | none => (word, none)
  (optionNames.filter fun (name, _) => (dropLead? front.toList name.toList).isSome).map
    fun (name, flag) => .option flag name value

/-- The option whose letter is the first one of the word, with the rest as attached value; or
options with a name that begins with the word. -/
def shortMatches (word : String) : List Word :=
  optionNames.filterMap fun (name, flag) =>
    if name.toList == word.toList.take 2 then
      some (.option flag name (some (String.ofList (word.toList.drop 2))))
    else if (dropLead? word.toList name.toList).isSome then some (.option flag name none)
    else none

/-- Whether a word is a negative number: `-5`, `-.5`, `-1.5`. -/
def isNegativeNumber (word : String) : Bool :=
  match word.toList with
  | '-' :: cs =>
    let cs := if cs.getLast? == some '\n' then cs.dropLast else cs
    match cs.dropWhile isDigit with
    | [] => !cs.isEmpty
    | '.' :: ds => !ds.isEmpty && ds.all isDigit
    | _ => false
  | _ => false

/-- A word that begins with a dash and is no full name. -/
def Word.ofPartial (word : String) : Except UsageError Word :=
  let isLong := word.toList.take 2 == ['-', '-']
  match if isLong then longMatches word else shortMatches word with
  | [found] => .ok found
  | [] =>
    if isNegativeNumber word || word.toList.contains ' ' then .ok (.plain word)
    else .ok (.unknown word)
  | many =>
    .error (.ambiguous word (many.filterMap fun w =>
      match w with
      | .option _ name _ => some name
      | _ => none))

/-- What a word before the mark is. -/
def Word.read (word : String) : Except UsageError Word :=
  if word.toList.head? != some '-' then .ok (.plain word)
  else match Flag.ofName? word with
    | some flag => .ok (.option flag word none)
    | none =>
      if word.length == 1 then .ok (.plain word)
      else match splitValue? word with
        | some (name, value) =>
          match Flag.ofName? name with
          | some flag => .ok (.option flag name (some value))
          | none => Word.ofPartial word
        | none => Word.ofPartial word

/-- The words of the arguments. -/
def Word.readAll : List String → Except UsageError (List Word)
  | [] => .ok []
  | word :: words =>
    if word == "--" then .ok (.mark :: words.map .plain)
    else do
      let w ← Word.read word
      return w :: (← readAll words)

/-- The word as it was given. -/
def Word.text : Word → String
  | .plain word => word
  | .mark => "--"
  | .option _ name _ => name
  | .unknown word => word

def Word.isOption : Word → Bool
  | .option .. => true
  | .unknown _ => true
  | _ => false

/-! ### Reading -/

/-- What has been read. -/
structure Reading where
  arguments : Arguments := {}
  /-- Whether the command has been looked for. -/
  commandDone : Bool := false
  /-- Words that nothing asked for. -/
  extra : List String := []

/-- An option with its value, where it takes one. -/
structure Setting where
  flag : Flag
  value : String

/-- The letters after an option without value are options too; the first one with a value takes the
rest as its value. `none` as value says that the value is the next word. -/
def letterSettings (flag : Flag) : List Char → Except UsageError (List Setting × Option Flag)
  | [] => .ok ([⟨flag, ""⟩], none)
  | c :: cs => do
    match Flag.ofName? (String.ofList ['-', c]) with
    | none => .error (.ignoredValue flag (String.ofList (c :: cs)))
    | some next =>
      if next.takesValue then
        if cs.isEmpty then return ([⟨flag, ""⟩], some next)
        else return ([⟨flag, ""⟩, ⟨next, String.ofList cs⟩], none)
      else
        let (settings, open?) ← letterSettings next cs
        return (⟨flag, ""⟩ :: settings, open?)

/-- The settings that a word makes, and the option that still needs the next word as its value. -/
def wordSettings (flag : Flag) (name : String) (value : Option String) :
    Except UsageError (List Setting × Option Flag) :=
  match value with
  | none => if flag.takesValue then .ok ([], some flag) else .ok ([⟨flag, ""⟩], none)
  | some v =>
    if flag.takesValue then .ok ([⟨flag, v⟩], none)
    else if name.toList.take 2 == ['-', '-'] || v.isEmpty then .error (.ignoredValue flag v)
    else letterSettings flag v.toList

def Setting.apply (s : Setting) (a : Arguments) : Except Stop Arguments :=
  match s.flag with
  | .help => .error .help
  | .config => .ok { a with config := some s.value }
  | .json => .ok { a with json := true }
  | .root => .ok { a with root := s.value }
  | .verbose => .ok { a with verbose := true }

def Reading.set (r : Reading) (settings : List Setting) : Except Stop Reading := do
  return { r with arguments := ← settings.foldlM (fun a s => s.apply a) r.arguments }

/-- Takes a word as the command. -/
def Reading.command (r : Reading) (word : String) : Except Stop Reading :=
  if word == "init" then
    .ok { r with arguments := { r.arguments with init := true }, commandDone := true }
  else .error (.error (.unknownCommand word))

/-- The words after the last option. -/
def Reading.finish (r : Reading) (words : List Word) : Except Stop Reading :=
  let leave := fun (r : Reading) (ws : List Word) => { r with extra := r.extra ++ ws.map Word.text }
  if r.commandDone then .ok (leave r words)
  else match words with
    | .mark :: .plain word :: ws => do return leave (← r.command word) ws
    | .mark :: ws => .ok (leave r ws)
    | .plain word :: .mark :: ws => do return leave (← r.command word) ws
    | .plain word :: ws => do return leave (← r.command word) ws
    | ws => .ok (leave r ws)

/-- Reads the words from left to right. An option that waits for its value takes the next word,
which has to be plain. -/
def Reading.run (waiting : Option (List Setting × Flag)) (r : Reading) :
    List Word → Except Stop Reading
  | [] =>
    match waiting with
    | some (_, flag) => .error (.error (.needsValue flag))
    | none => r.finish []
  | w :: ws =>
    match waiting, w with
    | some (settings, flag), .plain word => do
      Reading.run none (← r.set (settings ++ [⟨flag, word⟩])) ws
    | some (_, flag), _ => .error (.error (.needsValue flag))
    | none, .option flag name value =>
      match wordSettings flag name value with
      | .error e => .error (.error e)
      | .ok (settings, some open?) => Reading.run (some (settings, open?)) r ws
      | .ok (settings, none) => do Reading.run none (← r.set settings) ws
    | none, .unknown word => Reading.run none { r with extra := r.extra ++ [word] } ws
    | none, w =>
      if ws.any Word.isOption then
        if r.commandDone then Reading.run none { r with extra := r.extra ++ [w.text] } ws
        else do Reading.run none (← r.command w.text) ws
      else r.finish (w :: ws)

/-- The arguments that the words of a command line state. -/
def Arguments.read (words : List String) : Except Stop Arguments := do
  let ws ← (Word.readAll words).mapError Stop.error
  let r ← Reading.run none {} ws
  if r.extra.isEmpty then return r.arguments else .error (.error (.unknownWords r.extra))

end StyleAudit.CommandLine
