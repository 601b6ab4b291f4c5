import Kortex.Library.Rounds
import Kortex.Library.Run
import Kortex.Library.Sorted
import Kortex.Model.Conversations

/-
This file proves which conversations are summarised, and from what.
-/

namespace Kortex.Summaries

/-! A round alone works on the first conversations that wait. -/

/-- This is what becomes of a conversation for which the database and the model give these answers. -/
def verdictOf (complete : Complete) (answer : List Message) : Rounds.Verdict :=
  if answer = [] then .skip
  else
    match summarize complete (rendered answer) with
    | .error _ => .skip
    | .ok summary =>
        if Str.strip summary = [] then .skip
        else if PyValue.accepts summary then .done
        else .abort

theorem summariseConversation_cases (complete : Complete) (tables : Tables) (c : Nat)
    (answer : List Message) :
    (verdictOf complete answer = .skip ∧
        summariseConversation complete tables c answer = .ok (false, tables)) ∨
      (verdictOf complete answer = .abort ∧
        summariseConversation complete tables c answer = .error .databaseError) ∨
      ∃ summary, verdictOf complete answer = .done ∧ answer ≠ [] ∧
        summarize complete (rendered answer) = .ok summary ∧ Str.strip summary ≠ [] ∧
        summariseConversation complete tables c answer = .ok (true, store tables c summary) := by
  rw [verdictOf, summariseConversation]
  by_cases none : answer = []
  · rw [if_pos none, if_pos none]
    exact Or.inl ⟨rfl, rfl⟩
  · rw [if_neg none, if_neg none]
    cases summarize complete (rendered answer) with
    | error e => exact Or.inl ⟨rfl, rfl⟩
    | ok summary =>
        dsimp only
        by_cases blank : Str.strip summary = []
        · rw [if_pos blank, if_pos blank]
          exact Or.inl ⟨rfl, rfl⟩
        · rw [if_neg blank, if_neg blank]
          by_cases fits : PyValue.accepts summary = true
          · rw [if_pos fits, if_pos fits]
            exact Or.inr (Or.inr ⟨summary, rfl, none, rfl, blank, rfl⟩)
          · rw [if_neg fits, if_neg fits]
            exact Or.inr (Or.inl ⟨rfl, rfl⟩)

@[simp] theorem store_transcripts (tables : Tables) (c : Nat) (summary : Str) :
    (store tables c summary).transcripts = tables.transcripts := by
  rw [store]
  split <;> rfl

theorem store_summaries_other (tables : Tables) (c other : Nat) (summary : Str) (different : other ≠ c) :
    (store tables c summary).summaries other = tables.summaries other := by
  rw [store]
  split
  · exact Function.update_of_ne different _ _
  · rfl

theorem store_summaries_self (tables : Tables) (c : Nat) (summary : Str)
    (present : c ∈ tables.transcripts.conversations.map Conversation.id) :
    (store tables c summary).summaries c = some summary := by
  obtain ⟨conversation, inside, same⟩ := List.mem_map.mp present
  have found : (tables.transcripts.conversations.any fun c' => c'.id == c) = true := by
    rw [List.any_eq_true]
    exact ⟨conversation, inside, by simp [same]⟩
  rw [store, if_pos found]
  exact Function.update_self _ _ _

/-- These conversations have messages and no summary. -/
def waiting (tables : Tables) : List Nat :=
  (tables.transcripts.conversations.map Conversation.id).filter fun c =>
    (tables.summaries c).isNone && !(messagesOf tables.transcripts c).isEmpty

/-- The answers and the time of a round. -/
structure Round where
  complete : Complete
  answers : Nat → List Message
  now : Instant

/-- All messages are old, and each conversation has the same verdict as in the other rounds. -/
structure Steady (t : Transcripts) (verdict : Nat → Rounds.Verdict) (r : Round) : Prop where
  quiet : ∀ m ∈ t.messages, m.createdAt < r.now - idleTime
  answers : ∀ c, verdictOf r.complete (r.answers c) = verdict c

/-- These are the tables after so many rounds. -/
def after (rounds : Nat → Round) (tables : Tables) : Nat → Tables
  | 0 => tables
  | n + 1 =>
      let r := rounds n
      (generateSummaries r.complete r.answers r.now (after rounds tables n)).2

theorem allIdle_quiet (now : Instant) (tables : Tables)
    (quiet : ∀ m ∈ tables.transcripts.messages, m.createdAt < now - idleTime) :
    allIdle now tables = (waiting tables).insertionSort (· ≤ ·) := by
  rw [allIdle, waiting]
  congr 1
  apply List.filter_congr
  intro c _
  rw [idle]
  congr 1
  cases found : ((messagesOf tables.transcripts c).map Message.createdAt).max? with
  | none =>
      rw [List.max?_eq_none_iff, List.map_eq_nil_iff] at found
      rw [found]
      rfl
  | some last =>
      obtain ⟨m, inside, rfl⟩ := List.mem_map.mp (List.max?_mem found)
      have old := quiet m (List.mem_of_mem_filter inside)
      have some : (messagesOf tables.transcripts c).isEmpty = false := by
        rw [List.isEmpty_eq_false_iff_exists_mem]
        exact ⟨m, inside⟩
      rw [some]
      exact decide_eq_true old

theorem summariseAll_cases (complete : Complete) (answers : Nat → List Message)
    (verdict : Nat → Rounds.Verdict) (same : ∀ c, verdictOf complete (answers c) = verdict c)
    (list : List Nat) (tables : Tables)
    (present : ∀ c ∈ list, c ∈ tables.transcripts.conversations.map Conversation.id) :
    (summariseAll complete answers list tables).2.transcripts = tables.transcripts ∧
      ∀ c, ((summariseAll complete answers list tables).2.summaries c).isNone =
        ((tables.summaries c).isNone && decide (c ∉ Rounds.work verdict list)) := by
  induction list generalizing tables with
  | nil =>
      refine ⟨rfl, fun c => ?_⟩
      rw [summariseAll, Rounds.work]
      simp
  | cons first rest ih =>
      rw [List.forall_mem_cons] at present
      have own := same first
      rcases summariseConversation_cases complete tables first (answers first) with
        ⟨kind, outcome⟩ | ⟨kind, outcome⟩ | ⟨summary, kind, _, _, _, outcome⟩
      · rw [own] at kind
        rw [summariseAll, outcome, Rounds.work, kind]
        exact ih tables present.2
      · rw [own] at kind
        rw [summariseAll, outcome, Rounds.work, kind]
        refine ⟨rfl, fun c => ?_⟩
        simp
      · rw [own] at kind
        rw [summariseAll, outcome, Rounds.work, kind]
        obtain ⟨unchanged, summaries⟩ := ih (store tables first summary) (by
          rw [store_transcripts]
          exact present.2)
        rw [store_transcripts] at unchanged
        refine ⟨unchanged, fun c => ?_⟩
        refine (summaries c).trans ?_
        by_cases here : c = first
        · subst here
          rw [store_summaries_self tables c summary present.1]
          simp
        · rw [store_summaries_other tables first c summary here]
          simp [here]

/-- A round does the work of the library on the conversations that wait. -/
theorem queue_round (verdict : Nat → Rounds.Verdict) (r : Round) (tables : Tables)
    (steady : Steady tables.transcripts verdict r) :
    (generateSummaries r.complete r.answers r.now tables).2.transcripts = tables.transcripts ∧
      (waiting (generateSummaries r.complete r.answers r.now tables).2).insertionSort (· ≤ ·) =
        Rounds.round verdict batch ((waiting tables).insertionSort (· ≤ ·)) := by
  have queue := allIdle_quiet r.now tables steady.quiet
  have present : ∀ c ∈ findIdle r.now tables,
      c ∈ tables.transcripts.conversations.map Conversation.id := by
    intro c inside
    have sorted := List.mem_of_mem_take inside
    rw [allIdle, List.mem_insertionSort] at sorted
    exact List.mem_of_mem_filter sorted
  obtain ⟨same, summaries⟩ := summariseAll_cases r.complete r.answers verdict steady.answers
    (findIdle r.now tables) tables present
  refine ⟨same, ?_⟩
  have left : waiting (generateSummaries r.complete r.answers r.now tables).2 =
      (waiting tables).filter fun c => c ∉ Rounds.work verdict (findIdle r.now tables) := by
    rw [waiting, waiting, generateSummaries, same, List.filter_filter]
    apply List.filter_congr
    intro c _
    rw [summaries c, Bool.and_right_comm, Bool.and_comm]
  have taken : findIdle r.now tables = ((waiting tables).insertionSort (· ≤ ·)).take batch := by
    rw [findIdle, queue]
  rw [left, taken, Rounds.round]
  exact insertionSort_filter_of_linear _ _

theorem after_transcripts (rounds : Nat → Round) (tables : Tables) (verdict : Nat → Rounds.Verdict)
    (steady : ∀ n, Steady tables.transcripts verdict (rounds n)) (n : Nat) :
    (after rounds tables n).transcripts = tables.transcripts ∧
      (waiting (after rounds tables n)).insertionSort (· ≤ ·) =
        (Rounds.round verdict batch)^[n] ((waiting tables).insertionSort (· ≤ ·)) := by
  induction n with
  | zero => exact ⟨rfl, rfl⟩
  | succ n ih =>
      obtain ⟨same, queue⟩ := ih
      have step := queue_round verdict (rounds n) (after rounds tables n) (by
        rw [same]
        exact steady n)
      refine ⟨step.1.trans same, ?_⟩
      rw [Function.iterate_succ_apply', ← queue]
      exact step.2

/-- A conversation whose summary succeeds is reached exactly when no earlier one makes the database fail and
fewer than 16 earlier ones fail. -/
theorem summarised_iff (tables : Tables) (rounds : Nat → Round) (verdict : Nat → Rounds.Verdict)
    (distinct : (tables.transcripts.conversations.map Conversation.id).Nodup)
    (steady : ∀ n, Steady tables.transcripts verdict (rounds n)) (c : Nat) (waits : c ∈ waiting tables)
    (good : verdict c = .done) :
    ((∃ n summary, (after rounds tables n).summaries c = some summary) ↔
      (∀ b ∈ waiting tables, b < c → verdict b ≠ .abort) ∧
        (waiting tables).countP (fun b => b < c ∧ verdict b = .skip) < 16) ∧
      ∀ m, (∀ b ∈ waiting tables, b < c → verdict b ≠ .abort) →
        (waiting tables).countP (fun b => b < c ∧ verdict b = .done) <
          m * (16 - (waiting tables).countP fun b => b < c ∧ verdict b = .skip) →
        ∃ summary, (after rounds tables m).summaries c = some summary := by
  have waited (n : Nat) : c ∈ waiting (after rounds tables n) ↔
      (after rounds tables n).summaries c = none := by
    rw [waiting, List.mem_filter] at waits ⊢
    rw [(after_transcripts rounds tables verdict steady n).1]
    simp only [Bool.and_eq_true] at waits ⊢
    rw [Option.isNone_iff_eq_none]
    exact ⟨fun both => both.2.1, fun none => ⟨waits.1, none, waits.2.2⟩⟩
  have reached (n : Nat) : (∃ summary, (after rounds tables n).summaries c = some summary) ↔
      c ∉ (Rounds.round verdict batch)^[n] ((waiting tables).insertionSort (· ≤ ·)) := by
    rw [← (after_transcripts rounds tables verdict steady n).2, List.mem_insertionSort, waited,
      Option.eq_none_iff_forall_ne_some]
    push Not
    rfl
  have nodup : ((waiting tables).insertionSort (· ≤ ·)).Nodup :=
    (List.perm_insertionSort (· ≤ ·) (waiting tables)).nodup_iff.mpr (distinct.sublist List.filter_sublist)
  obtain ⟨front, back, split⟩ := List.append_of_mem ((List.mem_insertionSort (· ≤ ·)).mpr waits)
  have rises : ((waiting tables).insertionSort (· ≤ ·)).Pairwise (· < ·) := by
    have weak : ((waiting tables).insertionSort (· ≤ ·)).Pairwise (· ≤ ·) :=
      List.pairwise_insertionSort (· ≤ ·) _
    exact (weak.and nodup).imp fun both => Nat.lt_of_le_of_ne both.1 both.2
  have before : front = ((waiting tables).insertionSort (· ≤ ·)).filter fun b => b < c := by
    rw [split] at rises ⊢
    obtain ⟨_, tail, less⟩ := List.pairwise_append.mp rises
    have more := (List.pairwise_cons.mp tail).1
    have own : front.filter (fun b => b < c) = front := by
      rw [List.filter_eq_self]
      exact fun b inside => decide_eq_true (less b inside c List.mem_cons_self)
    have others : back.filter (fun b => b < c) = [] := by
      rw [List.filter_eq_nil_iff]
      intro b inside
      have later := more b inside
      simp only [decide_eq_true_eq]
      omega
    rw [List.filter_append, own, List.filter_cons_of_neg (by simp), others, List.append_nil]
  have counted (kind : Rounds.Verdict) : front.countP (fun b => verdict b = kind) =
      (waiting tables).countP fun b => b < c ∧ verdict b = kind := by
    rw [before, List.countP_filter, (List.perm_insertionSort (· ≤ ·) (waiting tables)).countP_eq]
    apply List.countP_congr
    intro b _
    simp only [Bool.and_eq_true, decide_eq_true_eq]
    exact and_comm
  have stuck : ¬ Rounds.Stuck verdict batch front ↔
      (∀ b ∈ waiting tables, b < c → verdict b ≠ .abort) ∧
        (waiting tables).countP (fun b => b < c ∧ verdict b = .skip) < 16 := by
    rw [Rounds.Stuck, not_or, counted, not_le]
    apply and_congr_left'
    have member (b : Nat) : b ∈ front ↔ b ∈ waiting tables ∧ b < c := by
      rw [before, List.mem_filter, List.mem_insertionSort, decide_eq_true_eq]
    push Not
    exact ⟨fun free b inside less => free b ((member b).mpr ⟨inside, less⟩),
      fun free b inside => free b ((member b).mp inside).1 ((member b).mp inside).2⟩
  have whole := nodup
  rw [split] at whole
  constructor
  · rw [← stuck, ← Rounds.exists_removed_iff front back c good whole, ← split]
    exact exists_congr reached
  · intro m free enough
    rw [reached, split]
    apply Rounds.removed m front back c good _ whole
    · rw [counted, counted]
      exact enough
    · rw [stuck]
      refine ⟨free, ?_⟩
      by_contra many
      rw [Nat.sub_eq_zero_of_le (not_lt.mp many), Nat.mul_zero] at enough
      exact absurd enough (Nat.not_lt_zero _)

def sampleMessage (id conversation : Nat) (content : Str) : Message where
  id
  orgId := 1
  conversationId := conversation
  role := .user
  content
  toolName := none
  toolInput := none
  toolOutput := none
  createdAt := 0

/-- The model has something to say of the second conversation only. -/
def sampleTables : Tables where
  transcripts :=
    { conversations := [⟨1, 1, 1, 1⟩, ⟨2, 2, 1, 1⟩]
      messages := [sampleMessage 1 1 "...", sampleMessage 2 2 "hi"] }

def sampleComplete : Complete := fun _ user => if user = "user: hi".toList then .ok "A greeting." else .ok []

def sampleRound : Round where
  complete := sampleComplete
  answers c := messagesOf sampleTables.transcripts c
  now := 10000000000

theorem summarised_sample : ∃ summary,
    (after (fun _ => sampleRound) sampleTables 1).summaries 2 = some summary := by
  let verdict : Nat → Rounds.Verdict := fun c => verdictOf sampleRound.complete (sampleRound.answers c)
  have steady : Steady sampleTables.transcripts verdict sampleRound := ⟨by decide, fun _ => rfl⟩
  exact (summarised_iff sampleTables (fun _ => sampleRound) verdict (by decide) (fun _ => steady) 2
    (by decide +kernel) (by decide +kernel)).2 1 (by decide +kernel) (by decide +kernel)

theorem summarize_ok (complete : Complete) (messages : List (Str × Str)) (summary : Str)
    (told : summarize complete messages = .ok summary) (filled : Str.strip summary ≠ []) :
    ∃ text, complete systemMessage
        (Str.join "\n" (messages.map fun message => message.1 ++ ": ".toList ++ message.2)) = .ok text ∧
      summary = Str.strip text ∧ summary ≠ [] := by
  have nonempty : summary ≠ [] := by
    rintro rfl
    exact filled rfl
  rw [summarize] at told
  split at told
  · exact absurd (Except.ok.inj told).symm nonempty
  · dsimp only at told
    split at told
    · next text said => exact ⟨text, said, (Except.ok.inj told).symm, nonempty⟩
    · exact absurd (Except.ok.inj told).symm nonempty
    · cases told

/-! Workers that run side by side, while messages arrive, store nothing else. -/

/-- The answer is shown as the last 50 messages of the conversation in some order of time. -/
theorem rendered_last (t : Transcripts) (c : Nat) (answer : List Message) (given : LastMessages t c answer) :
    ∃ sorted : List Message, sorted.Perm (messagesOf t c) ∧
      (sorted.map Message.createdAt).Pairwise (· ≤ ·) ∧
      rendered answer = (sorted.drop (sorted.length - 50)).map fun m => (m.role.value, m.content) := by
  obtain ⟨falls, same, order, rfl⟩ := given
  refine ⟨falls.reverse, falls.reverse_perm.trans same, ?_, ?_⟩
  · rw [List.map_reverse, List.pairwise_reverse]
    rw [List.pairwise_map] at order ⊢
    exact order.imp fun before => OrderDual.toDual_le_toDual.mp before
  · rw [rendered, ← List.map_reverse, List.reverse_take, List.length_reverse]

theorem mem_update_works (works : Nat → List Nat) (worker w c : Nat) (list : List Nat)
    (held : c ∈ Function.update works worker list w) : (w = worker ∧ c ∈ list) ∨ c ∈ works w := by
  by_cases own : w = worker
  · subst own
    rw [Function.update_self] at held
    exact Or.inl ⟨rfl, held⟩
  · rw [Function.update_of_ne own] at held
    exact Or.inr held

/-- A worker has what it had, or it has just found it. -/
theorem step_works (s : State) (e : Event) (w c : Nat) (held : c ∈ (step s e).works w) :
    c ∈ s.works w ∨ (e = .find w ∧ c ∈ findIdle s.now s.tables) := by
  cases e with
  | ingest p clock ctx session items =>
      rw [step] at held
      split at held <;> exact Or.inl held
  | find worker =>
      rcases mem_update_works s.works worker w c _ held with ⟨rfl, found⟩ | old
      · exact Or.inr ⟨rfl, found⟩
      · exact Or.inl old
  | next worker answer complete =>
      rw [step] at held
      split at held
      · exact Or.inl held
      · next conversation rest work =>
          split at held
          · rcases mem_update_works s.works worker w c _ held with ⟨rfl, later⟩ | old
            · rw [work]
              exact Or.inl (List.mem_cons_of_mem _ later)
            · exact Or.inl old
          · rcases mem_update_works s.works worker w c _ held with ⟨_, impossible⟩ | old
            · exact absurd impossible List.not_mem_nil
            · exact Or.inl old
  | wait time => exact Or.inl held

/-- What a worker has it has found in an earlier step. -/
theorem found_before (start : State) (free : ∀ w, start.works w = []) (events : List Event) (w c : Nat)
    (held : c ∈ (Run.final step start events).works w) :
    ∃ before middle, events = before ++ .find w :: middle ∧
      c ∈ findIdle (Run.final step start before).now (Run.final step start before).tables := by
  induction events using List.reverseRecOn with
  | nil =>
      rw [Run.final_nil, free] at held
      exact absurd held List.not_mem_nil
  | append_singleton front e ih =>
      rw [Run.final_append, Run.final_cons, Run.final_nil] at held
      rcases step_works _ e w c held with old | ⟨rfl, found⟩
      · obtain ⟨before, middle, split, found⟩ := ih old
        exact ⟨before, middle ++ [e], by simp [split], found⟩
      · exact ⟨front, [], rfl, found⟩

/-- A step leaves a summary as it is, or a worker stores it for the conversation that it takes. -/
theorem step_summaries (s : State) (e : Event) (c : Nat) :
    (step s e).tables.summaries c = s.tables.summaries c ∨
      ∃ worker answer complete summary, e = .next worker answer complete ∧
        c ∈ (s.works worker).head? ∧ answer ≠ [] ∧ summarize complete (rendered answer) = .ok summary ∧
        Str.strip summary ≠ [] ∧ (step s e).tables.summaries c = some summary := by
  cases e with
  | ingest p clock ctx session items =>
      rw [step]
      split <;> exact Or.inl rfl
  | find worker => exact Or.inl rfl
  | wait time => exact Or.inl rfl
  | next worker answer complete =>
      rw [step]
      cases work : s.works worker with
      | nil => exact Or.inl rfl
      | cons conversation rest =>
          dsimp only
          rcases summariseConversation_cases complete s.tables conversation answer with
            ⟨_, outcome⟩ | ⟨_, outcome⟩ | ⟨summary, _, some, told, filled, outcome⟩
          · rw [outcome]
            exact Or.inl rfl
          · rw [outcome]
            exact Or.inl rfl
          · rw [outcome]
            by_cases own : c = conversation
            · subst own
              by_cases present : (s.tables.transcripts.conversations.any fun c' => c'.id == c) = true
              · refine Or.inr ⟨worker, answer, complete, summary, rfl, by simp [work], some, told, filled, ?_⟩
                rw [store, if_pos present]
                exact Function.update_self _ _ _
              · rw [store, if_neg present]
                exact Or.inl rfl
            · exact Or.inl (store_summaries_other _ _ _ _ own)

/-- A summary that no worker has found stays for ever. -/
theorem summary_stays (s : State) (c : Nat) (summary : Str)
    (stored : s.tables.summaries c = some summary) (free : ∀ w, c ∉ s.works w) (events : List Event) :
    (Run.final step s events).tables.summaries c = some summary := by
  induction events generalizing s with
  | nil => exact stored
  | cons e rest ih =>
      have kept : (step s e).tables.summaries c = some summary := by
        rcases step_summaries s e c with same | ⟨worker, _, _, _, _, head, _⟩
        · rw [same, stored]
        · exact absurd (List.mem_of_mem_head? head) (free worker)
      apply ih (step s e) kept
      intro w held
      rcases step_works s e w c held with old | ⟨_, found⟩
      · exact free w old
      · -- A conversation with a summary is never found.
        have waits := List.mem_of_mem_take found
        rw [allIdle, List.mem_insertionSort, List.mem_filter, idle, stored] at waits
        exact absurd waits.2 (by simp)

/-- The first worker goes through both conversations. -/
def sampleEvents : List Event :=
  [.wait 10000000000, .find 0, .next 0 [sampleMessage 1 1 "..."] sampleComplete,
    .next 0 [sampleMessage 2 2 "hi"] sampleComplete]

end Kortex.Summaries
