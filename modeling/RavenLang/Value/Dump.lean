import RavenLang.Syntax.Dump
import RavenLang.Value

/-!
# Dumps of values

A function is dumped without its scope, which usually holds the function itself.
-/

namespace RavenLang

def Function.dump (f : Function) : String :=
  "Function \x7b name: " ++ Text.quoted f.name ++ ", parameters: " ++
    Dump.list (f.parameters.map Text.quoted) ++ ", body: " ++ Dump.list (Stmt.dumps f.body) ++ ", .. \x7d"

mutual

def Value.dump (functions : Functions) : Value → String
  | .null => "Null"
  | .boolean b => "Boolean(" ++ Dump.boolean b ++ ")"
  | .number x => "Number(" ++ Number.write .plain x ++ ")"
  | .string s => "String(" ++ Text.quoted s ++ ")"
  | .object fields => "\x7b" ++ ", ".intercalate (Value.fieldDumps functions fields) ++ "\x7d"
  | .native _ name => "NativeFunction(" ++ name ++ ")"
  | .function id =>
    match functions[id]? with
    | some f => f.dump
    | none => "Function"

def Value.fieldDumps (functions : Functions) : List (String × Value) → List String
  | [] => []
  | (k, v) :: fields => (Text.quoted k ++ ": " ++ v.dump functions) :: Value.fieldDumps functions fields

end

end RavenLang
