import RavenLang.CommandLine.Answer
import RavenLang.CommandLine.Files
import RavenLang.Report
import RavenLang.Shell.Input
import RavenLang.Text.Blank

/-!
# The interactive session

`repl [--history FILE] [--vi]`: runs inputs one after the other in one scope until
one of them is `exit` or nothing is left.
-/

namespace RavenLang.CommandLine.Interactive

def own : List String := ["history", "vi"]

def known : List String := own ++ ["help", "version"]

def shown (name : String) : String := if name = "history" then "--history <HISTORY>" else "--" ++ name

def usage : List String → String
  | [] => "repl [OPTIONS]"
  | used => "repl" ++ String.join (used.map fun name => " " ++ shown name)

def help : String :=
  "Interactive Raven session\n\nUsage: " ++ usage [] ++ "\n\nOptions:\n" ++
    "      --history <HISTORY>  File to load history from and save it to [default: raven_history.txt]\n" ++
    "      --vi                 Use vi key bindings instead of emacs ones\n" ++
    "  -h, --help               Print help\n  -V, --version            Print version\n"

/-! ## Arguments -/

structure Options where
  history : String
  vi : Bool
  deriving DecidableEq, Repr

inductive Pending where
  | nothing
  | history (value : Option String)

structure Progress where
  history : Option String
  used : List String
  pending : Pending

def Progress.settle (p : Progress) : Except String Progress :=
  match p.pending with
  | .nothing => .ok p
  | .history none => .error (valueMissing (shown "history"))
  | .history (some value) =>
    if p.history.isSome then .error (repeated (shown "history") (usage []))
    else if value.isEmpty then .error (valueMissing (shown "history"))
    else .ok ⟨some value, p.used ++ ["history"], .nothing⟩

/-- The options that count as used once the pending one was tried, whether it is right
or not. One that has a value counts, but a second one undoes the first. -/
def Progress.tried (p : Progress) : List String :=
  match p.pending with
  | .history (some _) =>
    if p.history.isSome then p.used.filter (· ≠ "history") else p.used ++ ["history"]
  | _ => p.used

def Progress.settled (p : Progress) (next : Progress → Answer Options) : Answer Options :=
  match p.settle with
  | .ok p => next p
  | .error text => .refusal text

/-- The usage with one option, after others were used or not. The session's own options
are named together once one of them was used, so that none of them stands alone then. -/
def usageAfter (used : List String) (name : String) : String :=
  if used = [] then usage [name]
  else
    "repl" ++ (if own.contains name then "" else " " ++ shown name) ++
      " <" ++ "|".intercalate (own.map shown) ++ ">"

def Progress.refuseValue (p : Progress) (name value : String) : Answer Options :=
  .refusal (valueUnneeded value (shown name) (usageAfter p.used name))

def readOptions (separated : Bool) (p : Progress) : List String → Answer Options
  | [] => p.settled fun p => .request ⟨p.history.getD "raven_history.txt", p.used.contains "vi"⟩
  | a :: rest =>
    match if separated then Form.value else Form.of a with
    | .separator => readOptions true p rest
    | .value =>
      match separated, p.pending with
      | false, .history none => readOptions false { p with pending := .history (some a) } rest
      | _, _ => .refusal (unexpected a (usage []) none)
    | .short 'h' => p.settled fun _ => .info help
    | .short 'V' => p.settled fun _ => .info versionText
    | .short letter => .refusal (unexpected ("-" ++ letter.toString) (usage []) none)
    | .long "help" none => p.settled fun _ => .info help
    | .long "help" (some value) => p.refuseValue "help" value
    | .long "version" none => p.settled fun _ => .info versionText
    | .long "version" (some value) => p.refuseValue "version" value
    | .long "vi" none =>
      match p.settle with
      | .error text => .refusal text
      | .ok p =>
        if p.used.contains "vi" then .refusal (repeated (shown "vi") (usage []))
        else readOptions false { p with used := p.used ++ ["vi"] } rest
    | .long "vi" (some value) => p.refuseValue "vi" value
    | .long "history" none =>
      match p.settle with
      | .error text => .refusal text
      | .ok p => readOptions false { p with pending := .history none } rest
    | .long "history" (some value) =>
      match p.settle with
      | .error text => .refusal text
      | .ok p =>
        match ({ p with pending := .history (some value) } : Progress).settle with
        | .error text => .refusal text
        | .ok p => readOptions false p rest
    | .long name _ => .refusal (unknownLong known usage p.tried name none)

def readArguments (arguments : List String) : Answer Options :=
  readOptions false ⟨none, [], .nothing⟩ arguments

/-! ## The session -/

def isExit (text : List Char) : Bool := text.map Char.toLower = "exit".toList

/-- Runs inputs in a scope. What is printed and complained about adds up; at the end
of the inputs the session says so. -/
def session (calls : Calls) (scope : ScopeId) (st : Store) (out err : String) (lastComplaints : String) :
    List Shell.Input → Outcome
  | [] => ⟨0, out ++ "\nExiting.\n", err ++ lastComplaints⟩
  | input :: inputs =>
    let err := err ++ input.complaints
    let text := Text.trim input.text
    if text.isEmpty then session calls scope st out err lastComplaints inputs
    else if isExit text then ⟨0, out, err⟩
    else
      let source := String.ofList text
      match run calls scope source { st with printed := "" } with
      | (.ok v, st) =>
        session calls scope st (out ++ st.printed ++ v.text st.functions ++ "\n") err lastComplaints inputs
      | (.error f, st) =>
        session calls scope st (out ++ st.printed) (err ++ f.report st.functions "REPL" source)
          lastComplaints inputs

def banner : String := "Raven REPL v0.1.0\nType 'exit' or press Ctrl-D to quit.\n"

def entered (inputs : List Shell.Input) : Bool := inputs.any fun input => !input.text.isEmpty

def saved (files : Files) (history : String) (o : Outcome) : Outcome :=
  match files.blocked history with
  | none => o
  | some obstacle => { o with exit := 1, err := o.err ++ "Error: Io(" ++ obstacle.dump ++ ")\n" }

def perform (calls : Calls) (files : Files) (input : String) (o : Options) : Outcome :=
  let greeting :=
    match files.readText o.history with
    | .ok _ => banner
    | .error _ => banner ++ "No previous history.\n"
  let (scope, st) := Store.empty.addGlobal
  let inputs := Shell.readInputs input
  let outcome := session calls scope st greeting "" inputs.complaints inputs.complete
  if entered inputs.complete then saved files o.history outcome else outcome

def outcome (calls : Calls) (files : Files) (input : String) (arguments : List String) : Outcome :=
  (readArguments arguments).outcome (perform calls files input)

end RavenLang.CommandLine.Interactive
