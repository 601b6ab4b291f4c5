import Kortex.Model.MemoryService

/-
This file models `memory_tool.py`: file commands over the memories of one scope.
-/

namespace Kortex

structure ToolResult where
  content : Str
  isError : Bool := false
deriving DecidableEq

/-- This is a result with `is_error=True`. -/
def ToolResult.failure (content : Str) : ToolResult := { content := content, isError := true }

/-- A command is rejected with a text, or the service raises. -/
inductive ToolError where
  | rejected (message : Str)
  | service (error : ServiceError)

namespace MemoryTool

def memoryRoot : Str := "/memories"

def pathKey : Str := "memory_tool_path"

def maxLines : Nat := 999999

/-- This is the pattern `_ENCODED`. -/
def encoded : Regex := Regex.alts [Regex.word "%2e", Regex.word "%2f", Regex.word "%5c"]

/-- The pattern `_TRAVERSAL` finds a component `..`, for a path without a line break at its end. -/
def traversal (path : Str) : Bool := (Str.split '/' path).contains ['.', '.']

/-- This is one round of the loop of `posixpath.normpath`. -/
def normComponent (rooted : Bool) (parts : List Str) (part : Str) : List Str :=
  if part = [] ∨ part = ['.'] then parts
  else if part ≠ ['.', '.'] ∨ (rooted = false ∧ parts = []) ∨ parts.getLast? = some ['.', '.'] then
    parts ++ [part]
  else parts.dropLast

/-- This is `posixpath.normpath`, which keeps exactly two slashes at the start. -/
def normpath (path : Str) : Str :=
  let slashes := if path.head? ≠ some '/' then 0
    else if Str.startsWith path "//" && !Str.startsWith path "///" then 2 else 1
  let parts := (Str.split '/' path).foldl (normComponent (slashes != 0)) []
  let joined := List.replicate slashes '/' ++ Str.join ['/'] parts
  if joined = [] then ['.'] else joined

def notPermitted (path : Str) : Str := "Error: The path " ++ path ++ " is not permitted"

def outsideRoot (path : Str) : Str :=
  "Error: The path " ++ path ++ " is outside " ++ memoryRoot ++ ". All memory paths must start with " ++
    memoryRoot ++ "/."

/-- This is `normalise_path`. -/
def normalisePath (raw : Option Json) : Except ToolError Str :=
  match raw with
  | some (.str text) =>
      let path := Str.strip text
      if path = [] then .error (.rejected "Error: a path is required")
      else if encoded.search path then .error (.rejected (notPermitted path))
      else if traversal path || decide ('\\' ∈ path) then .error (.rejected (notPermitted path))
      else
        let canonical := normpath path
        if canonical ≠ memoryRoot ∧ Str.startsWith canonical (memoryRoot ++ ['/']) = false then
          .error (.rejected (outsideRoot path))
        else .ok canonical
  | _ => .error (.rejected "Error: a path is required")

/-- This is the format `.1f` of a quotient of integers, which is exact here and rounds to even. -/
def oneDecimal (n d : Nat) : Str :=
  let tenths := n * 10 / d
  let rest := 2 * (n * 10 % d)
  let rounded := if d < rest ∨ (rest = d ∧ tenths % 2 = 1) then tenths + 1 else tenths
  Str.ofNat (rounded / 10) ++ "." ++ Str.ofNat (rounded % 10)

/-- This is `_human_size`. -/
def humanSize (text : Str) : Str :=
  let size := Str.utf8Length text
  if size < 1024 then Str.ofNat (max size 1)
  else if size < 1024 * 1024 then oneDecimal size 1024 ++ "K"
  else oneDecimal size (1024 * 1024) ++ "M"

def lineNumber (first : Int) (index : Nat) (line : Str) : Str :=
  Str.padLeft 6 (Str.ofInt (first + index)) ++ "\t" ++ line

/-- This is `_numbered`. -/
def numbered (body : Str) (first : Int) : Str :=
  Str.join ['\n'] ((Str.split '\n' body).mapIdx (lineNumber first))

/-- The call `int(x)` raises a `ValueError` or `TypeError`, or an `OverflowError`. -/
inductive IntError where
  | invalid
  | overflow

/-- The digits of an integer may have single underscores between them. -/
def digitsOf (u : Unicode) : Bool → Str → Option (List Nat)
  | afterDigit, [] => if afterDigit then some [] else none
  | afterDigit, c :: rest =>
      if c = '_' then (if afterDigit then digitsOf u false rest else none)
      else match u.decimal c with
        | some d => (digitsOf u true rest).map fun ds => d :: ds
        | none => none

/-- This is `int(text)`, which refuses more than 4300 digits. -/
def parseInt (u : Unicode) (text : Str) : Except IntError Int :=
  let stripped := Str.strip text
  let (sign, unsigned) : Int × Str := match stripped with
    | '-' :: rest => (-1, rest)
    | '+' :: rest => (1, rest)
    | other => (1, other)
  match digitsOf u false unsigned with
  | some ds => if ds.length ≤ 4300 then .ok (sign * (ds.foldl (fun n d => n * 10 + d) 0 : Nat))
      else .error .invalid
  | none => .error .invalid

/-- This is `int(value)`. -/
def pyInt (u : Unicode) : Json → Except IntError Int
  | .int i => .ok i
  | .bool b => .ok (if b then 1 else 0)
  | .str s => parseInt u s
  | .float (.finite x) => .ok (x.value.num.tdiv x.value.den)
  | .float (.inf _) => .error .overflow
  | _ => .error .invalid

/-- This is `_slice`. -/
def slice (u : Unicode) (body : Str) (first last : Json) : Except IntError (Str × Int) := do
  let lines := Str.split '\n' body
  let bounds := do
    let start ← pyInt u first
    let stop ← pyInt u last
    return (start, stop)
  match bounds with
  | .error .invalid => return (body, 1)
  | .error .overflow => throw .overflow
  | .ok (start, stop) =>
      let start := max 1 start
      let stop := if stop = -1 then (lines.length : Int) else min stop lines.length
      if stop < start then return (body, 1)
      return (Str.join ['\n'] ((lines.take stop.toNat).drop (start - 1).toNat), start)

/-- A backend executes the commands of a principal in one scope. -/
structure Backend where
  env : Environment
  principal : Principal
  scope : ScopeFilter
  sensitivity : Sensitivity := .internal

/-- A handler looks files up and ends with a reply, or with one change and its reply. -/
inductive Plan where
  | reply (result : ToolResult)
  | update (m : Memory) (patch : MemoryPatch) (content : Str)
  | write (path text : Str)
  | delete (found : List Memory) (content : Str)

variable (b : Backend)

/-- This is `_file`; the database refuses a text with the null character. -/
def file (db : Database) (path : Str) : Except ToolError (Option Memory) :=
  if PyValue.accepts path then .ok (MemoryRepo.findByMetadata b.principal db b.scope pathKey path)
  else .error (.service .databaseError)

/-- This is `_path_of` for a path that is a string. The text of another value starts without a
slash, so it lies under no directory. -/
def pathOf (m : Memory) : Option Str :=
  match Dict.get? m.metadata pathKey with
  | some (.str path) => some path
  | _ => none

/-- The path lies under the directory. -/
def below (directory path : Str) : Bool :=
  Str.startsWith path (Str.rstripChar '/' directory ++ ['/'])

/-- These are the files of `_tree` under a directory. -/
def children (db : Database) (path : Str) : List Memory :=
  (MemoryRepo.listByMetadataKey b.principal db b.scope pathKey).filter fun m =>
    (pathOf m).any (below path)

/-- This is `_listing`. -/
def listing (db : Database) (path : Str) : Option Str :=
  let found := children b db path
  if found = [] ∧ path ≠ memoryRoot then none
  else
    let sorted := found.insertionSort fun m m' =>
      Str.le ((pathOf m).getD []) ((pathOf m').getD []) = true
    let rows := (humanSize (found.flatMap Memory.body) ++ "\t" ++ path) ::
      sorted.map fun m => humanSize m.body ++ "\t" ++ (pathOf m).getD []
    some ("Here're the files and directories up to 2 levels deep in " ++ path ++
      ", excluding hidden items and node_modules:\n" ++ Str.join ['\n'] rows)

/-- This is what `_view` shows of a text, with the window that the command asks for. -/
def viewText (u : Unicode) (path body : Str) (window : Option Json) : Except ToolError ToolResult :=
  if maxLines < Str.count ['\n'] body + 1 then
    .ok (.failure ("File " ++ path ++ " exceeds maximum line limit of " ++
      Str.groupThousands (Str.ofNat maxLines) ++ " lines."))
  else
    let shown := match window with
      | some (.arr [first, last]) => slice u body first last
      | _ => .ok (body, 1)
    match shown with
    | .ok (body, first) =>
        .ok { content := "Here's the content of " ++ path ++ " with line numbers:\n" ++
                numbered body first }
    | .error _ => .error (.service (.valueError "cannot convert float infinity to integer"))

/-- This is the rest of `_view` once the file is found. -/
def viewFile (path : Str) (m : Memory) (window : Option Json) : Except ToolError ToolResult :=
  if m.reviewStatus = .pending then
    .ok { content := "The file " ++ path ++ " exists but is held for human review (" ++
            Audit.orDefault m.reviewReason "awaiting review" ++
            ") and cannot be read until it is approved." }
  else viewText b.env.unicode path m.body window

/-- This is `_view`; its text for a missing path has no `Error`. -/
def view (db : Database) (command : JsonDict) : Except ToolError Plan := do
  let path ← normalisePath (Dict.get? command "path".toList)
  match ← file b db path with
  | some m => return .reply (← viewFile b path m (Dict.get? command "view_range".toList))
  | none => match listing b db path with
      | some text => return .reply { content := text }
      | none => return .reply (.failure ("The path " ++ path ++
          " does not exist. Please provide a valid path."))

/-- The root of the memories is no file. -/
def requireFilePath (path message : Str) : Except ToolError Unit :=
  if path = memoryRoot then .error (.rejected message) else .ok ()

/-- A file that exists is overwritten. -/
def overwrite (path text : Str) (existing : Memory) : Plan :=
  .update existing { body := some text, title := some path }
    ("File created successfully at: " ++ path)

/-- This is `_create`. -/
def create (db : Database) (command : JsonDict) : Except ToolError Plan := do
  let path ← normalisePath (Dict.get? command "path".toList)
  requireFilePath path ("Error: " ++ memoryRoot ++ " is a directory, not a file")
  match Dict.get? command "file_text".toList with
  | some (.str text) =>
      match ← file b db path with
      | some existing => return overwrite path text existing
      | none => return .write path text
  | _ => throw (.rejected "Error: file_text is required for create")

def noPath (path : Str) : Str :=
  "Error: The path " ++ path ++ " does not exist. Please provide a valid path."

/-- This is `_require_file`. -/
def requireFile (db : Database) (path missing : Str) : Except ToolError Memory := do
  match ← file b db path with
  | none => throw (.rejected missing)
  | some m =>
      if m.reviewStatus = .pending then
        throw (.rejected ("Error: The file " ++ path ++
          " is held for human review and cannot be edited until it is approved."))
      else return m

/-- These are the numbers of the lines that contain the text. -/
def linesWith (body old : Str) : List Str :=
  ((Str.split '\n' body).zipIdx 1).filterMap fun line =>
    if Str.contains line.1 old then some (Str.ofNat line.2) else none

/-- This is the rest of `_str_replace` once the file and the texts are known. -/
def replaceIn (path : Str) (m : Memory) (old new : Str) : Plan :=
  let occurrences := Str.count old m.body
  if occurrences = 0 then
    .reply (.failure ("No replacement was performed, old_str `" ++ old ++
      "` did not appear verbatim in " ++ path ++ "."))
  else if 1 < occurrences then
    .reply (.failure ("No replacement was performed. Multiple occurrences of old_str `" ++ old ++
      "` in lines: " ++ Str.join ", " (linesWith m.body old) ++ ". Please ensure it is unique"))
  else
    let updated := Str.replaceFirst old new m.body
    .update m { body := some updated } ("The memory file has been edited.\n" ++ numbered updated 1)

/-- This is `_str_replace`. -/
def strReplace (db : Database) (command : JsonDict) : Except ToolError Plan := do
  let path ← normalisePath (Dict.get? command "path".toList)
  let m ← requireFile b db path (noPath path)
  match Dict.get? command "old_str".toList with
  | some (.str (c :: rest)) =>
      let new := match Dict.get? command "new_str".toList with
        | some (.str new) => new
        | _ => []
      return replaceIn path m (c :: rest) new
  | _ => throw (.rejected "Error: old_str is required for str_replace")

/-- This is the rest of `_insert` once the file and the line are known. -/
def insertAt (path : Str) (m : Memory) (lineNo : Int) (text : Option Json) : Except ToolError Plan :=
  let lines := Str.split '\n' m.body
  if lineNo < 0 ∨ lines.length < lineNo then
    .ok (.reply (.failure ("Error: Invalid `insert_line` parameter: " ++ Str.ofInt lineNo ++
      ". It should be within the range of lines of the file: [0, " ++ Str.ofNat lines.length ++ "]")))
  else match text with
    | some (.str text) => .ok (.update m
        { body := some (Str.join ['\n'] (lines.insertIdx lineNo.toNat (Str.rstripChar '\n' text))) }
        ("The file " ++ path ++ " has been edited."))
    | _ => .error (.rejected "Error: insert_text is required for insert")

/-- This is `_insert`. -/
def insert (db : Database) (command : JsonDict) : Except ToolError Plan := do
  let path ← normalisePath (Dict.get? command "path".toList)
  let m ← requireFile b db path ("Error: The path " ++ path ++ " does not exist")
  match Dict.get? command "insert_line".toList with
  | some (.int lineNo) => insertAt path m lineNo (Dict.get? command "insert_text".toList)
  | _ => throw (.rejected "Error: insert_line must be an integer")

/-- This is `_delete`. -/
def delete (db : Database) (command : JsonDict) : Except ToolError Plan := do
  let path ← normalisePath (Dict.get? command "path".toList)
  requireFilePath path ("Error: " ++ memoryRoot ++ " cannot be deleted")
  match ← file b db path with
  | some m => return .delete [m] ("Successfully deleted " ++ path)
  | none => match children b db path with
      | [] => return .reply (.failure ("Error: The path " ++ path ++ " does not exist"))
      | found => return .delete found ("Successfully deleted " ++ path)

/-- This is the change of `_rename`. -/
def moveTo (oldPath newPath : Str) (m : Memory) : Plan :=
  .update m { title := some newPath, metadata := some (Dict.set m.metadata pathKey (.str newPath)) }
    ("Successfully renamed " ++ oldPath ++ " to " ++ newPath)

/-- This is `_rename`. -/
def rename (db : Database) (command : JsonDict) : Except ToolError Plan := do
  let oldPath ← normalisePath (Dict.get? command "old_path".toList)
  let newPath ← normalisePath (Dict.get? command "new_path".toList)
  requireFilePath oldPath ("Error: " ++ memoryRoot ++ " cannot be renamed")
  match ← file b db oldPath with
  | none => return .reply (.failure ("Error: The path " ++ oldPath ++ " does not exist"))
  | some m =>
      match ← file b db newPath with
      | some _ => return .reply (.failure ("Error: The destination " ++ newPath ++ " already exists"))
      | none => return moveTo oldPath newPath m

/-- These are the keys of the table `handlers`. -/
inductive Command where
  | view
  | create
  | strReplace
  | insert
  | delete
  | rename
deriving DecidableEq

def commandOf (name : Option Json) : Option Command :=
  match name with
  | some (.str name) =>
      if name = "view".toList then some .view
      else if name = "create".toList then some .create
      else if name = "str_replace".toList then some .strReplace
      else if name = "insert".toList then some .insert
      else if name = "delete".toList then some .delete
      else if name = "rename".toList then some .rename
      else none
  | _ => none

def handler : Command → Database → JsonDict → Except ToolError Plan
  | .view => view b
  | .create => create b
  | .strReplace => strReplace b
  | .insert => insert b
  | .delete => delete b
  | .rename => rename b

/-- This is the payload of `_store`. -/
def filePayload (path text : Str) : CreateMemoryInput where
  scope := b.scope
  body := text
  title := path
  kind := .fact
  sensitivity := b.sensitivity
  sourceType := .toolOutput
  sourceRef := some [("tool", .str "memory_20250818"), ("path", .str path)]
  metadata := some [(pathKey, .str path), ("memory_tool", .bool true)]

/-- This is the text that `_store` returns. -/
def stored (verb path : Str) (result : MemoryWrite) : Str :=
  if result.pendingReview then
    verb ++ ": " ++ path ++ " — but it is held for human review (" ++
      Audit.orDefault (some result.reviewReason) "policy" ++ ") and will not be readable until approved."
  else if result.redacted then
    verb ++ ": " ++ path ++ " — personal data in it was redacted before storage."
  else verb ++ ": " ++ path

/-- This is the loop of `_delete` over the files of a directory. -/
def deleteAll (ctx : CallContext) : Session → List Memory → Except ServiceError Session
  | s, [] => .ok s
  | s, m :: rest => do
      let (_, s) ← MemoryService.delete b.env b.principal ctx s m.publicId
      deleteAll ctx s rest

/-- This is the change at the end of a handler. -/
def carryOut (ctx : CallContext) (s : Session) : Plan → Except ServiceError (ToolResult × Session)
  | .reply result => .ok (result, s)
  | .update m patch content => do
      let (_, s) ← MemoryService.update b.principal ctx s m.publicId patch
      return ({ content := content }, s)
  | .write path text => do
      let (result, s) ← MemoryService.write b.env b.principal ctx s (filePayload b path text) false false
      return ({ content := stored "File created successfully at" path result }, s)
  | .delete found content => do
      let s ← deleteAll b ctx s found
      return ({ content := content }, s)

/-- This is `execute`, which reports a rejected command and lets the other exceptions through. -/
def execute (ctx : CallContext) (s : Session) (command : JsonDict) :
    Except ServiceError (ToolResult × Session) :=
  let name := Dict.get? command "command".toList
  match commandOf name with
  | none => .ok (.failure ("Error: unknown command " ++ b.env.repr (name.getD .null)), s)
  | some c => match handler b c s.db command with
      | .ok plan => carryOut b ctx s plan
      | .error (.rejected message) => .ok (.failure message, s)
      | .error (.service error) => .error error

/-- A call of the tool executes one command, on a new backend or on the last one. -/
structure ToolCall where
  context : CallContext
  newService : Bool
  command : JsonDict

def toolStep (s : Session) (c : ToolCall) : Session :=
  MemoryService.afterCall s
    (execute b c.context (MemoryService.Session.renew s c.newService) c.command)

/-- Memories change through the calls of the service and through the commands of the tool. -/
inductive Action where
  | call (c : MemoryService.Call)
  | command (scope : ScopeFilter) (sensitivity : Sensitivity) (c : JsonDict)

/-- A turn makes one action for a principal, on a new instance of the service or on the last one. -/
structure Turn where
  principal : Principal
  context : CallContext
  newService : Bool
  action : Action

def turn (env : Environment) (s : Session) (t : Turn) : Session :=
  let session := MemoryService.Session.renew s t.newService
  match t.action with
  | .call c => MemoryService.afterCall s (MemoryService.perform env t.principal t.context session c)
  | .command scope sensitivity c =>
      MemoryService.afterCall s (execute ⟨env, t.principal, scope, sensitivity⟩ t.context session c)

end MemoryTool
end Kortex
