import RavenLang.CommandLine.Answer
import RavenLang.CommandLine.Files
import RavenLang.Report
import RavenLang.Syntax.PrefixForm

/-!
# The script runner

`raven run|check|tokens FILE`: evaluates a file, shows its tree, or lists its
tokens.
-/

namespace RavenLang.CommandLine.Script

inductive Mode where
  | run
  | check
  | tokens
  deriving DecidableEq, Repr

namespace Mode

def name : Mode → String
  | run => "run"
  | check => "check"
  | tokens => "tokens"

def all : List Mode := [run, check, tokens]

def ofName? (name : String) : Option Mode := all.find? (·.name = name)

def about : Mode → String
  | run => "Evaluate a source file and print the value of its last statement"
  | check => "Parse a source file and print its syntax tree"
  | tokens => "Print the tokens of a source file"

def fileHelp : Mode → String
  | run => "Path to the source file"
  | check => "Path to the source file to check"
  | tokens => "Path to the source file"

def usage (m : Mode) (used : List String) : String :=
  "raven " ++ m.name ++ String.join (used.map (" --" ++ ·)) ++ " <FILE>"

def help (m : Mode) : String :=
  m.about ++ "\n\nUsage: " ++ m.usage [] ++ "\n\nArguments:\n  <FILE>  " ++ m.fileHelp ++
    "\n\nOptions:\n  -h, --help  Print help\n"

end Mode

def usage (used : List String) : String := "raven" ++ String.join (used.map (" --" ++ ·)) ++ " <COMMAND>"

def help : String :=
  "Run Raven scripts\n\nUsage: raven <COMMAND>\n\nCommands:\n" ++
    "  run     Evaluate a source file and print the value of its last statement\n" ++
    "  check   Parse a source file and print its syntax tree\n" ++
    "  tokens  Print the tokens of a source file\n" ++
    "  help    Print this message or the help of the given subcommand(s)\n\n" ++
    "Options:\n  -h, --help     Print help\n  -V, --version  Print version\n"

/-! ## Arguments -/

structure Request where
  mode : Mode
  file : String
  deriving DecidableEq, Repr

def finish (mode : Mode) : Option String → Answer Request
  | none =>
    .refusal (refusalText "the following required arguments were not provided:\n  <FILE>" none
      (some (mode.usage [])))
  | some file => if file.isEmpty then .refusal (valueMissing "<FILE>") else .request ⟨mode, file⟩

def helpOrFault (mode : Mode) (file : Option String) : Answer Request :=
  if file = some "" then .refusal (valueMissing "<FILE>") else .info mode.help

def asValue (option : String) : String := "to pass '" ++ option ++ "' as a value, use '-- " ++ option ++ "'"

def readFile (mode : Mode) (file : Option String) (separated : Bool) : List String → Answer Request
  | [] => finish mode file
  | a :: rest =>
    match if separated then Form.value else Form.of a with
    | .separator => readFile mode file true rest
    | .value =>
      match file with
      | none => readFile mode (some a) separated rest
      | some _ => .refusal (unexpected a (mode.usage []) none)
    | .short 'h' => helpOrFault mode file
    | .short letter =>
      let option := "-" ++ letter.toString
      .refusal (unexpected option (mode.usage []) (some (asValue option)))
    | .long "help" none => helpOrFault mode file
    | .long "help" (some value) => .refusal (valueUnneeded value "--help" (mode.usage ["help"]))
    | .long name _ => .refusal (unknownLong ["help"] mode.usage [] name (some (asValue ("--" ++ name))))

def unrecognized (word usage : String) (tip : Option String) : String :=
  refusalText ("unrecognized subcommand '" ++ word ++ "'") tip (some usage)

def commandNames : List String := Mode.all.map Mode.name ++ ["help"]

def similarTip (word : String) : Option String :=
  match similarWords commandNames word with
  | [] => none
  | [one] => some ("a similar subcommand exists: '" ++ one ++ "'")
  | several =>
    some ("some similar subcommands exist: " ++ ", ".intercalate (several.map fun w => "'" ++ w ++ "'"))

def helpUsage : String := "raven help [COMMAND]..."

def helpHelp : String :=
  "Print this message or the help of the given subcommand(s)\n\nUsage: " ++ helpUsage ++ "\n\n" ++
    "Arguments:\n  [COMMAND]...  Print help for the subcommand(s)\n"

/-- `help` with the words behind it. It has no help option itself, so its refusal does
not name one. -/
def readHelp : List String → Answer Request
  | [] => .info help
  | word :: rest =>
    match Mode.ofName? word with
    | some mode =>
      match rest with
      | [] => .info mode.help
      | next :: _ => .refusal (unrecognized next (mode.usage []) none)
    | none =>
      if word = "help" then
        match rest with
        | [] => .info helpHelp
        | next :: _ =>
          .refusal (complaint ("unrecognized subcommand '" ++ next ++ "'") none (some helpUsage) ++ "\n")
      else .refusal (unrecognized word (usage []) none)

/-- Words behind a separator are no commands, even if they look like one. -/
def readSeparated : List String → Answer Request
  | [] => .refusal help
  | word :: _ =>
    if commandNames.contains word then
      .refusal (unexpected word (usage [])
        (some ("subcommand '" ++ word ++ "' exists; to use it, remove the '--' before it")))
    else .refusal (unrecognized word (usage []) (similarTip word))

def readArguments : List String → Answer Request
  | [] => .refusal help
  | a :: rest =>
    match Form.of a with
    | .separator => readSeparated rest
    | .value =>
      match Mode.ofName? a with
      | some mode => readFile mode none false rest
      | none =>
        if a = "help" then readHelp rest else .refusal (unrecognized a (usage []) (similarTip a))
    | .short 'h' => .info help
    | .short 'V' => .info versionText
    | .short letter => .refusal (unexpected ("-" ++ letter.toString) (usage []) none)
    | .long "help" none => .info help
    | .long "version" none => .info versionText
    | .long name value =>
      match value with
      | some value =>
        if name = "help" ∨ name = "version" then
          .refusal (valueUnneeded value ("--" ++ name) (usage [name]))
        else .refusal (unknownLong ["help", "version"] usage [] name none)
      | none => .refusal (unknownLong ["help", "version"] usage [] name none)

/-! ## Work on a file -/

def padLeft (width : Nat) (s : String) : String := .ofList (List.replicate (width - s.length) ' ') ++ s

def padRight (width : Nat) (s : String) : String := s ++ .ofList (List.replicate (width - s.length) ' ')

def tokenLine (t : Token) : String :=
  padLeft 9 t.span.text ++ " " ++ padRight 12 t.kind.name ++ " " ++ t.quoted ++ "\n"

def work (calls : Calls) (mode : Mode) (id source : String) : Outcome :=
  match mode with
  | .run =>
    let (scope, st) := Store.empty.addGlobal
    match run calls scope source st with
    | (.ok v, st) => ⟨0, st.printed ++ v.text st.functions ++ "\n", ""⟩
    | (.error f, st) => ⟨1, st.printed, f.report st.functions id source⟩
  | .check =>
    match Program.ofSource source with
    | .ok p => ⟨0, p.prefixForm ++ "\n", ""⟩
    | .error f => ⟨1, "", (Failure.notAProgram f).report #[] id source⟩
  | .tokens =>
    match tokenize source with
    | .ok ts => ⟨0, String.join (ts.map tokenLine), ""⟩
    | .error f => ⟨1, "", (Failure.notAProgram (.lexical f)).report #[] id source⟩

def perform (calls : Calls) (files : Files) (r : Request) : Outcome :=
  match files.readText r.file with
  | .ok source => work calls r.mode r.file source
  | .error why => ⟨1, "", "Could not read " ++ r.file ++ ": " ++ why ++ "\n"⟩

def outcome (calls : Calls) (files : Files) (arguments : List String) : Outcome :=
  (readArguments arguments).outcome (perform calls files)

end RavenLang.CommandLine.Script
