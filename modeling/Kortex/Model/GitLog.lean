import Kortex.Library.Lines
import Kortex.Model.MemoryService

/-
This file models `ingest_git_log`.
-/

namespace Kortex

/-- These are the members of a commit that the code reads. -/
structure GitCommit where
  sha : Str
  message : Str
  author : Json := .null
  date : Json := .null
  files : Json := .null

namespace IngestionService

variable (env : Environment) (p : Principal) (scope : ScopeFilter) (sensitivity : Sensitivity)
variable (ctx : Nat → CallContext)

/-- A commit without a sha or a message is skipped. -/
def commitInput (commit : GitCommit) : Option CreateMemoryInput :=
  let sha := Str.strip commit.sha
  let message := Str.strip commit.message
  if sha = [] ∨ message = [] then none
  else
    -- A message that is not empty has a first line.
    let title := ((Str.splitlines message).headD []).take 200
    some
      { scope := scope, title := title, body := message, kind := .event, sensitivity := sensitivity
        sourceType := .toolOutput
        sourceRef := some [("sha", .str sha), ("author", commit.author), ("date", commit.date),
          ("files", commit.files)] }

/-- The writes have their own contexts, which are numbered. -/
def ingestCommits : Nat → List GitCommit → Session → Except ServiceError (Nat × Session)
  | _, [], s => .ok (0, s)
  | i, commit :: rest, s =>
      match commitInput scope sensitivity commit with
      | none => ingestCommits i rest s
      | some payload => do
          let (_, s) ← MemoryService.write env p (ctx i) s payload false false
          let (created, s) ← ingestCommits (i + 1) rest s
          return (created + 1, s)

/-- This is `ingest_git_log`, which counts the commits that it writes, folded or not. -/
def ingestGitLog (s : Session) (commits : List GitCommit) : Except ServiceError (Nat × Session) :=
  ingestCommits env p scope sensitivity ctx 0 commits s

end IngestionService

/-! The command `ingest git-log` reads the commits from the output of `git log`. -/

namespace GitLog

/-- This is `\x1e`. -/
def recordSeparator : Char := Char.ofNat 0x1e

/-- This is `\x1f`. -/
def unitSeparator : Char := Char.ofNat 0x1f

/-- These are the fields `%H`, `%an`, `%aI` and `%B`. -/
structure Entry where
  sha : Str
  author : Str
  date : Str
  message : Str

/-- This is an entry in the format of the command up to its `%x1e`. -/
def Entry.text (e : Entry) : Str :=
  e.sha ++ unitSeparator :: (e.author ++ unitSeparator :: (e.date ++ unitSeparator :: e.message))

/-- A newline stands between two entries. -/
def output : List Entry → Str
  | [] => []
  | [e] => e.text ++ [recordSeparator]
  | e :: rest => e.text ++ recordSeparator :: '\n' :: output rest

/-- This is `split(separator, maxsplit)`. -/
def splitMax (separator : Char) : Nat → Str → List Str
  | 0, s => [s]
  | maxsplit + 1, s =>
      match s.dropWhile (· != separator) with
      | [] => [s]
      | _ :: rest => s.takeWhile (· != separator) :: splitMax separator maxsplit rest

/-- This is the commit of a record; a record with fewer than four parts is skipped. -/
def commitOf (record : Str) : Option GitCommit :=
  let record := Str.strip record
  if record = [] then none
  else match splitMax unitSeparator 3 record with
    | [sha, author, date, message] =>
        some { sha := sha, message := Str.strip message, author := .str author, date := .str date }
    | _ => none

/-- These are the commits that the command posts. -/
def commits (out : Str) : List GitCommit := (Str.split recordSeparator out).filterMap commitOf

end GitLog
end Kortex
