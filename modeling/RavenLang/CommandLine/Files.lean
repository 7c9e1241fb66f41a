/-!
# Files

What a program can do with the files around it, and why a file cannot be read or
written.
-/

namespace RavenLang.CommandLine

inductive Obstacle where
  | missing
  | directory
  | notDirectory
  deriving DecidableEq, Repr

namespace Obstacle

def code : Obstacle → Nat
  | missing => 2
  | directory => 21
  | notDirectory => 20

def text : Obstacle → String
  | missing => "No such file or directory"
  | directory => "Is a directory"
  | notDirectory => "Not a directory"

def kind : Obstacle → String
  | missing => "NotFound"
  | directory => "IsADirectory"
  | notDirectory => "NotADirectory"

def message (o : Obstacle) : String := o.text ++ " (os error " ++ toString o.code ++ ")"

def dump (o : Obstacle) : String :=
  "Os \x7b code: " ++ toString o.code ++ ", kind: " ++ o.kind ++ ", message: \"" ++ o.text ++ "\" \x7d"

end Obstacle

structure Files where
  read : String → Except Obstacle ByteArray
  blocked : String → Option Obstacle

def Files.readText (files : Files) (path : String) : Except String String :=
  match files.read path with
  | .error o => .error o.message
  | .ok bytes =>
    match String.fromUTF8? bytes with
    | some text => .ok text
    | none => .error "stream did not contain valid UTF-8"

/-! ## A directory in memory -/

inductive Content where
  | bytes (bytes : ByteArray)
  | directory

inductive Place where
  | content (c : Content)
  | free
  | obstacle (o : Obstacle)

/-- What has a name among the entries. A directory need not be an entry itself if one
of its files is. -/
def contentOf (entries : List (String × Content)) (name : List String) : Option Content :=
  let joined := "/".intercalate name
  if entries.any fun (n, _) => (joined ++ "/").isPrefixOf n then some .directory else entries.lookup joined

/-- Walks along the parts of a path. Only the last one can be something else than a
directory, and nothing may be behind it, not even a slash. -/
def walk (entries : List (String × Content)) (here : List String) : List String → Place
  | [] => .content .directory
  | part :: rest =>
    if part = "" ∨ part = "." then walk entries here rest
    else if part = ".." then walk entries here.dropLast rest
    else
      match contentOf entries (here ++ [part]), rest with
      | some .directory, _ => walk entries (here ++ [part]) rest
      | some (.bytes b), [] => .content (.bytes b)
      | some (.bytes _), _ => .obstacle .notDirectory
      | none, [] => .free
      | none, _ => .obstacle .missing

def placeOf (entries : List (String × Content)) (path : String) : Place :=
  if path.isEmpty ∨ path.startsWith "/" then .obstacle .missing else walk entries [] (path.splitOn "/")

def Files.ofEntries (entries : List (String × Content)) : Files where
  read path :=
    match placeOf entries path with
    | .content (.bytes b) => .ok b
    | .content .directory => .error .directory
    | .free => .error .missing
    | .obstacle o => .error o
  blocked path :=
    match placeOf entries path with
    | .content (.bytes _) | .free => none
    | .content .directory => some .directory
    | .obstacle o => some o

end RavenLang.CommandLine
