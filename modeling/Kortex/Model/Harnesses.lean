import Kortex.Library.JsonLimits
import Kortex.Model.Types

/-
This file models the JSON merges of `harnesses.py`, which put Kortex into the configuration of a harness.
-/

namespace Kortex.Harnesses

/-- This is what the reading of a configuration takes from Python. -/
structure Decoder where
  /-- This is the conversion of a float literal. -/
  round : FloatText → PyFloat
  /-- The `repr` of a float is a literal of this float. -/
  stable : Json.Stable round
  /-- This is the text of the `JSONDecodeError` for a text. -/
  decodeError : Str → Str

/-- This is what a merge raises. -/
inductive Raised where
  | harnessError (message : Str)
  | valueError
  | typeError
deriving DecidableEq

def serverName : Str := "kortex"

def hookCommand : Str := "kortex hook session-start"

/-- This is `McpServer`, where the keys of a dictionary are distinct. -/
structure McpServer where
  url : Str
  apiKey : Str
  command : Str := "kortex-mcp"
  args : List Str := ["stdio".toList]
  env : Dict Str Str := []
  distinct : (env.map Prod.fst).Nodup

/-- This is `headers`. -/
def McpServer.headers (server : McpServer) : JsonDict :=
  [("Authorization".toList, .str ("Bearer ".toList ++ server.apiKey))]

/-- These are the environment variables as JSON. -/
def McpServer.envValues (server : McpServer) : JsonDict := server.env.map fun entry => (entry.1, .str entry.2)

/-- This is `sys.int_info.default_max_str_digits`, the limit of `int()`. -/
def maxDigits : Nat := 4300

/-- This is `type(value).__name__`. -/
def typeName : Json → Str
  | .null => "NoneType"
  | .bool _ => "bool"
  | .int _ => "int"
  | .float _ => "float"
  | .str _ => "str"
  | .arr _ => "list"
  | .obj _ => "dict"

/-- This is `_load_json`. An integer that `int()` refuses is no `JSONDecodeError`. -/
def loadJson (decoder : Decoder) (path : Str) : Option Str → Except Raised JsonDict
  | none => .ok []
  | some text =>
      if Str.strip text = [] then .ok []
      else if Json.overlong decoder.round maxDigits text then .error .valueError
      else match Json.loads decoder.round text with
        | none => .error (.harnessError (path ++ " is not valid JSON (".toList ++ decoder.decodeError text ++
            ") — refusing to overwrite it".toList))
        | some (.obj doc) => .ok doc
        | some _ => .error (.harnessError (path ++ " is not a JSON object — refusing to overwrite it".toList))

/-- This is `_dump_json`. -/
def dumpJson (doc : JsonDict) : Str := Json.encode (Json.indented false 2) 0 (.obj doc) ++ "\n"

/-- This is `_table`. The caller puts the table back at the key. -/
def table (doc : JsonDict) (key path : Str) : Except Raised JsonDict :=
  match Dict.get? doc key with
  | none | some .null => .ok []
  | some (.obj existing) => .ok existing
  | some existing => .error (.harnessError (path ++ ": expected `".toList ++ key ++
      "` to be an object, found ".toList ++ typeName existing))

/-- This is `_mcp_servers_entry`. -/
def mcpServersEntry (server : McpServer) (remote : Bool) : JsonDict :=
  if remote then
    [("type".toList, .str "sse"), ("url".toList, .str server.url), ("headers".toList, .obj server.headers)]
  else
    [("command".toList, .str server.command), ("args".toList, .arr (server.args.map .str)),
      ("env".toList, .obj server.envValues)]

/-- This is `_merge_mcp_servers`. -/
def mergeMcpServers (decoder : Decoder) (text : Option Str) (path : Str) (server : McpServer)
    (remote : Bool) : Except Raised Str := do
  let doc ← loadJson decoder path text
  let servers ← table doc "mcpServers" path
  let servers := Dict.set servers serverName (.obj (mcpServersEntry server remote))
  return dumpJson (Dict.set doc "mcpServers" (.obj servers))

def schemaKey : Str := "$schema"

def schemaUrl : Json := .str "https://opencode.ai/config.json"

/-- This is `dict.setdefault`. -/
def setDefault (doc : JsonDict) (key : Str) (value : Json) : JsonDict :=
  if (Dict.get? doc key).isSome then doc else Dict.set doc key value

/-- This is the `entry` of `_merge_opencode`. -/
def opencodeEntry (server : McpServer) (remote : Bool) : JsonDict :=
  if remote then
    [("type".toList, .str "remote"), ("url".toList, .str server.url), ("headers".toList, .obj server.headers),
      ("enabled".toList, .bool true)]
  else
    [("type".toList, .str "local"), ("command".toList, .arr ((server.command :: server.args).map .str)),
      ("environment".toList, .obj server.envValues), ("enabled".toList, .bool true)]

/-- This is `_merge_opencode`. -/
def mergeOpencode (decoder : Decoder) (text : Option Str) (path : Str) (server : McpServer)
    (remote : Bool) : Except Raised Str := do
  let doc ← loadJson decoder path text
  let doc := setDefault doc schemaKey schemaUrl
  let servers ← table doc "mcp" path
  let servers := Dict.set servers serverName (.obj (opencodeEntry server remote))
  return dumpJson (Dict.set doc "mcp" (.obj servers))

/-- This is `isinstance(hook, dict) and hook.get("command") == command`. -/
def runs (command : Str) : Json → Bool
  | .obj hook =>
      match Dict.get? hook "command" with
      | some (.str own) => own = command
      | _ => false
  | _ => false

/-- This is what the loop over `group.get("hooks", [])` goes through: the characters of a string and the keys
of a dictionary count too. -/
def hooksOf (group : JsonDict) : Except Raised (List Json) :=
  match Dict.get? group "hooks" with
  | none => .ok []
  | some (.arr hooks) => .ok hooks
  | some (.str s) => .ok (s.map fun c => .str [c])
  | some (.obj members) => .ok (members.map fun member => .str member.1)
  | some _ => .error .typeError

/-- This is the loop of `merge_session_start_hook` over the groups. -/
def installed (command : Str) : List Json → Except Raised Bool
  | [] => .ok false
  | .obj group :: rest => do
      let hooks ← hooksOf group
      if hooks.any (runs command) then return true else installed command rest
  | _ :: rest => installed command rest

/-- These are the groups of `SessionStart`. -/
def sessionStart (hooks : JsonDict) (path : Str) : Except Raised (List Json) :=
  match Dict.get? hooks "SessionStart" with
  | none | some .null => .ok []
  | some (.arr groups) => .ok groups
  | some _ => .error (.harnessError (path ++ ": expected `hooks.SessionStart` to be a list".toList))

/-- This is the group that the merge appends. -/
def hookGroup (command : Str) : Json :=
  .obj [("hooks".toList, .arr [.obj [("type".toList, .str "command"), ("command".toList, .str command)]])]

/-- The groups are put back into the hooks and these into the document. -/
def withGroups (doc hooks : JsonDict) (groups : List Json) : JsonDict :=
  Dict.set doc "hooks" (.obj (Dict.set hooks "SessionStart" (.arr groups)))

/-- This is `merge_session_start_hook`. -/
def mergeSessionStartHook (decoder : Decoder) (text : Option Str) (path command : Str) :
    Except Raised Str := do
  let doc ← loadJson decoder path text
  let hooks ← table doc "hooks" path
  let groups ← sessionStart hooks path
  if ← installed command groups then
    return dumpJson (withGroups doc hooks groups)
  else
    return dumpJson (withGroups doc hooks (groups ++ [hookGroup command]))

end Kortex.Harnesses
