import Kortex.Library.OrderBy
import Kortex.Model.Accounts

/-
This file models the messages of a conversation, `ingest_messages` and `list_for_conversation`, and the task
that summarises idle conversations: `tasks/summary.py` and `LLMSummarizer`.
-/

namespace Kortex

inductive MessageRole where
  | user
  | assistant
  | system
  | tool
deriving DecidableEq

/-- This is `IngestMessage`. -/
structure IngestMessage where
  role : MessageRole
  content : Str
  createdAt : Option Instant := none
  toolName : Option Str := none
  toolInput : Option JsonDict := none
  toolOutput : Option JsonDict := none

/-- These are the columns of the table `sessions` that the code reads. -/
structure AgentSession where
  id : Nat
  publicId : Uuid
  orgId : Nat

structure Conversation where
  id : Nat
  publicId : Uuid
  orgId : Nat
  sessionId : Nat

/-- This is `Message`; an ingested message has no `content_tokens`. -/
structure Message where
  id : Nat
  orgId : Nat
  conversationId : Nat
  role : MessageRole
  content : Str
  toolName : Option Str
  toolInput : Option JsonDict
  toolOutput : Option JsonDict
  createdAt : Instant

structure Transcripts where
  sessions : List AgentSession := []
  conversations : List Conversation := []
  messages : List Message := []

/-- The columns of the table `messages` accept the values of the row. -/
def Message.storable (m : Message) : Bool :=
  PyValue.accepts m.content && Audit.acceptsColumn 128 m.toolName &&
    m.toolInput.all Json.storableMembers && m.toolOutput.all Json.storableMembers

/-- This is `IngestSummary`. -/
structure IngestSummary where
  sessionPublicId : Uuid
  conversationPublicId : Uuid
  messagesInserted : Nat
  memoriesCreated : Nat

namespace ConversationRepo

variable (p : Principal) (t : Transcripts)

/-- This is `create`. -/
def create (ctx : CallContext) (sessionId : Nat) : Conversation × Transcripts :=
  let convo : Conversation :=
    ⟨nextId Conversation.id t.conversations ctx.idGap, ctx.newPublicId, p.orgId, sessionId⟩
  (convo, { t with conversations := t.conversations ++ [convo] })

/-- This is `get_or_create_default`. -/
def getOrCreateDefault (ctx : CallContext) (sessionId : Nat) : Conversation × Transcripts :=
  let own := (tenantQuery Conversation.orgId p t.conversations).filter fun c => c.sessionId == sessionId
  match (own.insertionSort fun a b => a.id ≤ b.id).head? with
  | some existing => (existing, t)
  | none => create p t ctx sessionId

end ConversationRepo

namespace MessageRepo

variable (p : Principal) (clock : Nat → Instant)

/-- A message without a time gets that of the clock, which is read once for each of them. -/
def stamped : Nat → List IngestMessage → List IngestMessage
  | _, [] => []
  | n, item :: rest =>
      match item.createdAt with
      | some _ => item :: stamped n rest
      | none => { item with createdAt := some (clock n) } :: stamped (n + 1) rest

/-- This is the row of a message that has a time. -/
def rowOf (conversationId id : Nat) (item : IngestMessage) : Message where
  id
  orgId := p.orgId
  conversationId
  role := item.role
  content := item.content
  toolName := item.toolName
  toolInput := item.toolInput
  toolOutput := item.toolOutput
  createdAt := item.createdAt.getD 0

/-- These are the rows of `append_bulk`. -/
def newRows (t : Transcripts) (ctx : CallContext) (conversationId : Nat) (items : List IngestMessage) :
    List Message :=
  (stamped clock 0 items).mapIdx fun k item =>
    rowOf p conversationId (nextId Message.id t.messages ctx.idGap + k) item

/-- This is `append_bulk`, where `none` stands for a flush that the database refuses. -/
def appendBulk (t : Transcripts) (ctx : CallContext) (conversationId : Nat) (items : List IngestMessage) :
    Option (Nat × Transcripts) :=
  let rows := newRows p clock t ctx conversationId items
  if rows.all Message.storable then some (rows.length, { t with messages := t.messages ++ rows }) else none

/-- These are the rows that `list_for_conversation` asks for. -/
def rowsOf (t : Transcripts) (conversationId : Nat) : List Message :=
  (tenantQuery Message.orgId p t.messages).filter fun m => m.conversationId == conversationId

/-- The database may give this answer to `list_for_conversation`. -/
def ListForConversation (t : Transcripts) (conversationId limit : Nat) (answer : List Message) : Prop :=
  OrderBy Message.createdAt limit (rowsOf p t conversationId) answer

end MessageRepo

namespace IngestionService

variable (p : Principal) (clock : Nat → Instant)

/-- This is `SessionRepository.get_by_public_id`. -/
def findSession (t : Transcripts) (publicId : Uuid) : Option AgentSession :=
  (tenantQuery AgentSession.orgId p t.sessions).find? fun s => s.publicId == publicId

/-- This is `ingest_messages`, which gives the conversation that it wrote to beside its summary; without
the session it gives nothing. -/
def ingestMessages (t : Transcripts) (ctx : CallContext) (sessionPublicId : Uuid)
    (items : List IngestMessage) :
    Except ServiceError (Option (IngestSummary × Conversation × Transcripts)) :=
  match findSession p t sessionPublicId with
  | none => .ok none
  | some session =>
      let (convo, t') := ConversationRepo.getOrCreateDefault p t ctx session.id
      match MessageRepo.appendBulk p clock t' ctx convo.id items with
      | none => .error .databaseError
      | some (inserted, t'') =>
          .ok (some (⟨session.publicId, convo.publicId, inserted, 0⟩, convo, t''))

end IngestionService
end Kortex

namespace Kortex

/-- These are the strings of the enumeration in the database. -/
def MessageRole.value : MessageRole → Str
  | .user => "user"
  | .assistant => "assistant"
  | .system => "system"
  | .tool => "tool"

namespace Summaries

/-- A call of the model fails with an `LlmError` or with another exception. -/
inductive Failure where
  | llmError
  | other

/-- This is `complete` with a system message and a user message. -/
abbrev Complete := Str → Str → Except Failure Str

/-- This is the system message for 120 words, which is the default. -/
def systemMessage : Str :=
  "Summarize the following conversation in at most 120 words. Be factual; skip pleasantries."

/-- This is `LLMSummarizer.summarize`. -/
def summarize (complete : Complete) (messages : List (Str × Str)) : Except Failure Str :=
  if messages = [] then .ok []
  else
    let rendered := Str.join "\n" (messages.map fun message => message.1 ++ ": ".toList ++ message.2)
    match complete systemMessage rendered with
    | .ok text => .ok (Str.strip text)
    | .error .llmError => .ok []
    | .error .other => .error .other

/-- These are the tables, with the column `conversations.summary` by the id of the conversation. -/
structure Tables where
  transcripts : Transcripts := {}
  summaries : Nat → Option Str := fun _ => none

/-- These are 30 minutes. -/
def idleTime : Int := 30 * 60 * 1000000

/-- These are the messages of a conversation, whatever their org. -/
def messagesOf (t : Transcripts) (conversation : Nat) : List Message :=
  t.messages.filter fun m => m.conversationId == conversation

/-- This is the condition of `_find_idle`; the greatest time of no messages is less than none. -/
def idle (now : Instant) (tables : Tables) (conversation : Nat) : Bool :=
  (tables.summaries conversation).isNone &&
    (((messagesOf tables.transcripts conversation).map Message.createdAt).max?).any fun last =>
      decide (last < now - idleTime)

/-- These are the ids of all conversations that `_find_idle` looks for. -/
def allIdle (now : Instant) (tables : Tables) : List Nat :=
  ((tables.transcripts.conversations.map Conversation.id).filter (idle now tables)).insertionSort (· ≤ ·)

/-- This is the default of `_find_idle`. -/
def batch : Nat := 16

/-- This is `_find_idle`; nothing reads the orgs that it returns too. -/
def findIdle (now : Instant) (tables : Tables) : List Nat := (allIdle now tables).take batch

/-- The database may give this answer to the query for the last 50 messages. -/
def LastMessages (t : Transcripts) (conversation : Nat) (answer : List Message) : Prop :=
  OrderBy (fun m => OrderDual.toDual m.createdAt) 50 (messagesOf t conversation) answer

/-- The messages are shown in the order of time. -/
def rendered (answer : List Message) : List (Str × Str) :=
  (answer.map fun m => (m.role.value, m.content)).reverse

/-- This is the `UPDATE` of the summary. -/
def store (tables : Tables) (conversation : Nat) (summary : Str) : Tables :=
  if tables.transcripts.conversations.any fun c => c.id == conversation then
    { tables with summaries := Function.update tables.summaries conversation (some summary) }
  else tables

/-- This is `_summarise_conversation` with the answer of the database; the column refuses a summary that
has a null character. -/
def summariseConversation (complete : Complete) (tables : Tables) (conversation : Nat)
    (answer : List Message) : Except ServiceError (Bool × Tables) :=
  if answer = [] then .ok (false, tables)
  else
    match summarize complete (rendered answer) with
    | .error _ => .ok (false, tables)
    | .ok summary =>
        if Str.strip summary = [] then .ok (false, tables)
        else if PyValue.accepts summary then .ok (true, store tables conversation summary)
        else .error .databaseError

/-- This is the loop of `_generate_summaries`, which counts what is done; a failure of the database ends
it, and what is done before stays. -/
def summariseAll (complete : Complete) (answers : Nat → List Message) :
    List Nat → Tables → Except ServiceError Nat × Tables
  | [], tables => (.ok 0, tables)
  | conversation :: rest, tables =>
      match summariseConversation complete tables conversation (answers conversation) with
      | .error e => (.error e, tables)
      | .ok (done, tables) =>
          let (count, tables) := summariseAll complete answers rest tables
          (count.map fun n => if done then n + 1 else n, tables)

/-- This is `_generate_summaries`, which returns `checked` and `summarised`. -/
def generateSummaries (complete : Complete) (answers : Nat → List Message) (now : Instant)
    (tables : Tables) : Except ServiceError (Nat × Nat) × Tables :=
  let found := findIdle now tables
  let (count, tables) := summariseAll complete answers found tables
  (count.map fun n => (found.length, n), tables)

/-- Workers go through what they have found while messages arrive. -/
structure State where
  tables : Tables
  now : Instant := 0
  works : Nat → List Nat := fun _ => []

/-- A worker finds its work, or it takes its next conversation and asks the database and then the model. -/
inductive Event where
  | ingest (p : Principal) (clock : Nat → Instant) (ctx : CallContext) (session : Uuid)
      (items : List IngestMessage)
  | find (worker : Nat)
  | next (worker : Nat) (answer : List Message) (complete : Complete)
  | wait (time : Nat)

def step (s : State) : Event → State
  | .ingest p clock ctx session items =>
      match IngestionService.ingestMessages p clock s.tables.transcripts ctx session items with
      | .ok (some (_, _, t)) => { s with tables := { s.tables with transcripts := t } }
      | _ => s
  | .find worker => { s with works := Function.update s.works worker (findIdle s.now s.tables) }
  | .next worker answer complete =>
      match s.works worker with
      | [] => s
      | conversation :: rest =>
          match summariseConversation complete s.tables conversation answer with
          | .ok (_, tables) => { s with tables := tables, works := Function.update s.works worker rest }
          | .error _ => { s with works := Function.update s.works worker [] }
  | .wait time => { s with now := s.now + time }

/-- The answer of the database is one for the conversation that the worker takes. -/
def Answered (s : State) : Event → Prop
  | .next worker answer _ =>
      ∀ conversation ∈ (s.works worker).head?, LastMessages s.tables.transcripts conversation answer
  | _ => True

end Summaries
end Kortex
