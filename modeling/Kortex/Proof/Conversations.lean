import Kortex.Model.Conversations

/-
This file proves when a conversation reads back as it was ingested.
-/

namespace Kortex
namespace MessageRepo

variable {p : Principal} {clock : Nat → Instant} {t : Transcripts} {ctx : CallContext}

/-- This is what a message of the database says. -/
def viewOf (m : Message) : IngestMessage where
  role := m.role
  content := m.content
  createdAt := some m.createdAt
  toolName := m.toolName
  toolInput := m.toolInput
  toolOutput := m.toolOutput

/-- The messages have no times and the clock never goes backwards, or their times never fall. -/
def Ordered (clock : Nat → Instant) (items : List IngestMessage) : Prop :=
  (∀ item ∈ items, item.createdAt = none) ∧ Monotone clock ∨
    (∀ item ∈ items, item.createdAt.isSome = true) ∧
      (items.filterMap IngestMessage.createdAt).Pairwise (· ≤ ·)

theorem stamped_isSome (n : Nat) (items : List IngestMessage) :
    ∀ item ∈ stamped clock n items, item.createdAt.isSome = true := by
  induction items generalizing n with
  | nil => exact fun _ inside => absurd inside List.not_mem_nil
  | cons item rest ih =>
      rw [stamped]
      split
      · next time found => exact List.forall_mem_cons.mpr ⟨by rw [found]; rfl, ih n⟩
      · exact List.forall_mem_cons.mpr ⟨rfl, ih (n + 1)⟩

theorem viewOf_rowOf (conversationId id : Nat) (item : IngestMessage)
    (some_time : item.createdAt.isSome = true) : viewOf (rowOf p conversationId id item) = item := by
  obtain ⟨time, found⟩ := Option.isSome_iff_exists.mp some_time
  cases item
  subst found
  rfl

theorem map_viewOf_newRows (conversationId : Nat) (items : List IngestMessage) :
    (newRows p clock t ctx conversationId items).map viewOf = stamped clock 0 items := by
  rw [newRows]
  apply List.ext_getElem
  · simp
  · intro k small small'
    rw [List.getElem_map, List.getElem_mapIdx]
    exact viewOf_rowOf _ _ _ (stamped_isSome 0 items _ (List.getElem_mem small'))

theorem rowsOf_newRows (t' : Transcripts) (conversationId : Nat) (items : List IngestMessage)
    (written : t'.messages = t.messages ++ newRows p clock t ctx conversationId items) :
    rowsOf p t' conversationId = rowsOf p t conversationId ++ newRows p clock t ctx conversationId items := by
  have own : ∀ m ∈ newRows p clock t ctx conversationId items,
      m.orgId = p.orgId ∧ m.conversationId = conversationId := by
    intro m inside
    obtain ⟨k, small, rfl⟩ := List.mem_mapIdx.mp inside
    exact ⟨rfl, rfl⟩
  rw [rowsOf, rowsOf, tenantQuery, tenantQuery, written, List.filter_append, List.filter_append]
  congr 1
  rw [List.filter_filter, List.filter_eq_self]
  intro m inside
  simp [(own m inside).1, (own m inside).2]

/-- The times of messages without times are those of the clock from here on. -/
theorem times_of_absent (n : Nat) (items : List IngestMessage)
    (absent : ∀ item ∈ items, item.createdAt = none) :
    (stamped clock n items).filterMap IngestMessage.createdAt =
      (List.range' n items.length).map clock := by
  induction items generalizing n with
  | nil => rfl
  | cons item rest ih =>
      rw [List.forall_mem_cons] at absent
      rw [stamped, absent.1, List.length_cons, List.range'_succ, List.map_cons, ← ih (n + 1) absent.2]
      rfl

theorem stamped_of_present (n : Nat) (items : List IngestMessage)
    (present : ∀ item ∈ items, item.createdAt.isSome = true) : stamped clock n items = items := by
  induction items generalizing n with
  | nil => rfl
  | cons item rest ih =>
      rw [List.forall_mem_cons] at present
      obtain ⟨time, found⟩ := Option.isSome_iff_exists.mp present.1
      rw [stamped, found]
      exact congrArg _ (ih n present.2)

/-- The times that the messages get never fall. -/
theorem times_sorted (items : List IngestMessage) (ordered : Ordered clock items) :
    ((stamped clock 0 items).filterMap IngestMessage.createdAt).Pairwise (· ≤ ·) := by
  rcases ordered with ⟨absent, rises⟩ | ⟨present, rises⟩
  · rw [times_of_absent 0 items absent, List.pairwise_map]
    exact (List.pairwise_lt_range' (s := 0)).imp fun less => rises (Nat.le_of_lt less)
  · rw [stamped_of_present 0 items present]
    exact rises

theorem map_createdAt (rows : List Message) :
    rows.map Message.createdAt = (rows.map viewOf).filterMap IngestMessage.createdAt := by
  rw [List.filterMap_map, ← List.filterMap_eq_map]
  rfl

end MessageRepo

namespace IngestionService

open MessageRepo

variable {p : Principal} {clock : Nat → Instant} {t : Transcripts} {ctx : CallContext}

theorem messages_getOrCreateDefault (sessionId : Nat) :
    (ConversationRepo.getOrCreateDefault p t ctx sessionId).2.messages = t.messages := by
  rw [ConversationRepo.getOrCreateDefault]
  split <;> rfl

/-- An ingest that is done has written the messages behind those of its conversation. -/
theorem rowsOf_ingestMessages (sessionPublicId : Uuid) (items : List IngestMessage)
    (summary : IngestSummary) (convo : Conversation) (t' : Transcripts)
    (done : ingestMessages p clock t ctx sessionPublicId items = .ok (some (summary, convo, t'))) :
    ∃ new, rowsOf p t' convo.id = rowsOf p t convo.id ++ new ∧
      new.map viewOf = stamped clock 0 items := by
  rw [ingestMessages] at done
  split at done
  · exact absurd done (by simp)
  · next session _ =>
      have before := @messages_getOrCreateDefault p t ctx session.id
      dsimp only at done
      generalize ConversationRepo.getOrCreateDefault p t ctx session.id = found at done before
      obtain ⟨convo', t₁⟩ := found
      dsimp only [appendBulk] at done before
      split at done
      · exact absurd done (by simp)
      · next inserted t₂ written =>
          split at written
          · simp only [Except.ok.injEq, Option.some.injEq, Prod.mk.injEq] at done written
            obtain ⟨_, rfl, rfl⟩ := done
            obtain ⟨_, rfl⟩ := written
            refine ⟨newRows p clock t₁ ctx convo'.id items, ?_, map_viewOf_newRows _ _⟩
            have same : rowsOf p t₁ convo'.id = rowsOf p t convo'.id := by
              rw [rowsOf, rowsOf, before]
            rw [← same]
            exact rowsOf_newRows _ convo'.id items rfl
          · exact absurd written (by simp)

/-- The messages read back as they were ingested, whatever order the database chooses, exactly when the
conversation had none before and messages with equal times are equal. -/
theorem readsBackInOrder_iff (sessionPublicId : Uuid) (items : List IngestMessage) (ordered : Ordered clock items)
    (summary : IngestSummary) (convo : Conversation) (t' : Transcripts)
    (done : ingestMessages p clock t ctx sessionPublicId items = .ok (some (summary, convo, t'))) :
    (∀ limit answer, (rowsOf p t' convo.id).length ≤ limit →
        ListForConversation p t' convo.id limit answer → answer.map viewOf = stamped clock 0 items) ↔
      rowsOf p t convo.id = [] ∧
        ∀ a ∈ stamped clock 0 items, ∀ b ∈ stamped clock 0 items, a.createdAt = b.createdAt → a = b := by
  obtain ⟨new, written, shown⟩ := rowsOf_ingestMessages sessionPublicId items summary convo t' done
  by_cases earlier : rowsOf p t convo.id = []
  · rw [and_iff_right earlier]
    rw [earlier, List.nil_append] at written
    have rises : (new.map Message.createdAt).Pairwise (· ≤ ·) := by
      rw [map_createdAt, shown]
      exact times_sorted items ordered
    have tied : (∀ a ∈ stamped clock 0 items, ∀ b ∈ stamped clock 0 items,
        a.createdAt = b.createdAt → a = b) ↔
          ∀ a ∈ new, ∀ b ∈ new, a.createdAt = b.createdAt → viewOf a = viewOf b := by
      rw [← shown]
      simp only [List.forall_mem_map, viewOf, Option.some.injEq]
    rw [tied, ← OrderBy.forall_map_eq_iff viewOf new rises, shown, ← written]
    rfl
  · rw [iff_false_right (fun both => earlier both.1)]
    intro all
    obtain ⟨answer, given⟩ := @OrderBy.exists_answer _ _ _ Message.createdAt (rowsOf p t' convo.id)
      (rowsOf p t' convo.id).length
    have same := congrArg List.length (all _ answer (Nat.le_refl _) given)
    have count := (OrderBy.perm_of_le (Nat.le_refl _) given).1.length_eq
    have lengths := congrArg List.length shown
    have some_earlier := List.length_pos_iff.mpr earlier
    rw [written, List.length_append] at count
    rw [List.length_map] at same lengths
    omega

def sampleCaller : Principal := ⟨1, .user, 1, none, [], [], .internal, false⟩

def sampleTranscripts : Transcripts := { sessions := [⟨1, 7, 1⟩] }

def sampleClock (_ : Nat) : Instant := 0

def sampleContext : CallContext := { now := 0, newPublicId := 8 }

/-- A question and its answer are imported with times in whole seconds. -/
def sampleTurns : List IngestMessage :=
  [{ role := .user, content := "ok?", createdAt := some 0 },
    { role := .assistant, content := "yes", createdAt := some 0 }]

def sampleConversation : Conversation := ⟨1, 8, 1, 1⟩

/-- This is what the ingest of the turns leaves. -/
def sampleIngested : Transcripts where
  sessions := [⟨1, 7, 1⟩]
  conversations := [sampleConversation]
  messages :=
    [⟨1, 1, 1, .user, "ok?", none, none, none, 0⟩, ⟨2, 1, 1, .assistant, "yes", none, none, none, 0⟩]

theorem sample_ingested :
    ingestMessages sampleCaller sampleClock sampleTranscripts sampleContext 7 sampleTurns =
      .ok (some (⟨7, 8, 2, 0⟩, sampleConversation, sampleIngested)) := rfl

/-- The database may return the answer before the question. -/
theorem turns_may_swap :
    ingestMessages sampleCaller sampleClock sampleTranscripts sampleContext 7 sampleTurns =
        .ok (some (⟨7, 8, 2, 0⟩, sampleConversation, sampleIngested)) ∧
      ¬ ∀ limit answer, (rowsOf sampleCaller sampleIngested sampleConversation.id).length ≤ limit →
        ListForConversation sampleCaller sampleIngested sampleConversation.id limit answer →
          answer.map viewOf = stamped sampleClock 0 sampleTurns := by
  refine ⟨sample_ingested, ?_⟩
  intro all
  have swapped := all 2
    [⟨2, 1, 1, .assistant, "yes", none, none, none, 0⟩, ⟨1, 1, 1, .user, "ok?", none, none, none, 0⟩]
    (by decide) ⟨_, List.Perm.swap _ _ [], by decide, rfl⟩
  have roles := congrArg (List.map IngestMessage.role) swapped
  exact absurd roles (by decide)

theorem readsBackInOrder_iff_turns :
    (∀ limit answer, (rowsOf sampleCaller sampleIngested sampleConversation.id).length ≤ limit →
        ListForConversation sampleCaller sampleIngested sampleConversation.id limit answer →
          answer.map viewOf = stamped sampleClock 0 sampleTurns) ↔
      rowsOf sampleCaller sampleTranscripts sampleConversation.id = [] ∧
        ∀ a ∈ stamped sampleClock 0 sampleTurns, ∀ b ∈ stamped sampleClock 0 sampleTurns,
          a.createdAt = b.createdAt → a = b :=
  readsBackInOrder_iff 7 sampleTurns (Or.inr ⟨by decide, by decide⟩) ⟨7, 8, 2, 0⟩ sampleConversation
    sampleIngested sample_ingested

end IngestionService
end Kortex
