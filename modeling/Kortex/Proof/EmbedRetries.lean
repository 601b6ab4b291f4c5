import Kortex.Library.Run
import Kortex.Proof.EmbeddingQueue

/-
This file proves how a memory whose attempts fail is retried and parked.
-/

namespace Kortex.EmbeddingQueue

open EmbeddingTask MemoryService MemoryTool

/-- An attempt at the watched memory was listed and failed, and the next one was scheduled. -/
structure Attempted where
  listedAt : Instant
  recordedAt : Instant
  next : Option Instant

/-- This is the delay that the failure scheduled. -/
def Attempted.delay (a : Attempted) : Option Int := a.next.map fun next => next - a.recordedAt

/-- The tables come with the attempts at the watched memory since it was released. -/
structure Watch where
  queue : Queue
  attempts : List Attempted

def Watch.settings (w : Watch) : Settings := w.queue.env.settings

inductive Round where
  | turn (t : Turn)
  | resetEmbedFailures (now : Instant) (orgId : Option Nat)
  | changeModel (model : Str)
  | tick (t : Tick)

variable (id : Nat)

/-- This is the watched memory, if the worker lists it. -/
def listed (q : Queue) (now : Instant) : Option Memory :=
  (listPendingEmbedding q now).find? fun m => decide (m.id = id)

/-- A memory is attempted when it is listed, and a release forgets the attempts. -/
def watch (w : Watch) : Round → Watch
  | .turn t => { w with queue := step w.queue (.turn t) }
  | .resetEmbedFailures now orgId =>
      ⟨resetEmbedFailures w.queue now orgId,
        if id ∈ releasedIds w.queue orgId then [] else w.attempts⟩
  | .changeModel model => { w with queue := changeModel w.queue model }
  | .tick t =>
      let queue := tick w.queue t
      match listed id w.queue t.listedAt with
      | none => ⟨queue, w.attempts⟩
      | some m => ⟨queue, w.attempts ++ [⟨t.listedAt, (t.attempt m).1, (queue.retry id).nextAttemptAt⟩]⟩

/-- The attempt of the tick at the watched memory fails. -/
def Fails (w : Watch) : Round → Prop
  | .tick t => ∀ m, listed id w.queue t.listedAt = some m → ∃ error, (t.attempt m).2 = .error error
  | _ => True

/-- An hour is the longest delay. -/
def longestDelay : Int := 3600 * 1000000

/-- The memory is parked by its last attempt and not sooner, each attempt waits for the time that the
one before it has scheduled, the delays grow up to an hour, and a parked memory is left alone. -/
structure Paced (w : Watch) : Prop where
  counted : (w.queue.retry id).attempts = w.attempts.length
  bounded : w.attempts.length ≤ w.settings.embedMaxAttempts
  parked : (w.queue.retry id).failedAt.isSome = true ↔ w.attempts.length = w.settings.embedMaxAttempts
  scheduled : (w.queue.retry id).nextAttemptAt = w.attempts.getLast?.bind Attempted.next
  waits : w.attempts.IsChain fun earlier later =>
    ∃ next, earlier.next = some next ∧ next ≤ later.listedAt
  delays : (w.attempts.filterMap Attempted.delay).Pairwise (· ≤ ·)
  capped : ∀ delay ∈ w.attempts.filterMap Attempted.delay, delay ≤ longestDelay
  stops : (w.queue.retry id).failedAt.isSome = true → (w.queue.retry id).nextAttemptAt = none ∧
    ∀ now, ∀ m ∈ listPendingEmbedding w.queue now, m.id ≠ id

/-- The delay after an attempt depends on its number. -/
def delayAfter (retryBaseSeconds i : Nat) : Int :=
  ((min (retryBaseSeconds * 2 ^ i) maxBackoffSeconds : Nat) : Int) * 1000000

/-- The row of the memory continues its attempts. -/
structure Scheduled (w : Watch) : Prop where
  counted : (w.queue.retry id).attempts = w.attempts.length
  bounded : w.attempts.length ≤ w.settings.embedMaxAttempts
  parked : (w.queue.retry id).failedAt.isSome = true ↔ w.attempts.length = w.settings.embedMaxAttempts
  scheduled : (w.queue.retry id).nextAttemptAt = w.attempts.getLast?.bind Attempted.next
  waits : w.attempts.IsChain fun earlier later =>
    ∃ next, earlier.next = some next ∧ next ≤ later.listedAt
  backoff : ∀ i a, w.attempts[i]? = some a → a.next =
    if w.settings.embedMaxAttempts ≤ i + 1 then none
    else some (a.recordedAt + delayAfter w.settings.embedRetryBaseSeconds i)

variable {id}

theorem delayAfter_le (base i : Nat) : delayAfter base i ≤ longestDelay := by
  have capped := Nat.min_le_right (base * 2 ^ i) maxBackoffSeconds
  rw [delayAfter, longestDelay]
  rw [maxBackoffSeconds] at capped ⊢
  omega

theorem delayAfter_mono (base i j : Nat) (before : i ≤ j) : delayAfter base i ≤ delayAfter base j := by
  have grows : base * 2 ^ i ≤ base * 2 ^ j :=
    Nat.mul_le_mul_left _ (Nat.pow_le_pow_right (by decide) before)
  have least : min (base * 2 ^ i) maxBackoffSeconds ≤ min (base * 2 ^ j) maxBackoffSeconds := by
    omega
  rw [delayAfter, delayAfter]
  omega

theorem failed_next (settings : Settings) (now : Instant) (error : Str) (retry : EmbedRetry) :
    (failed settings now error retry).nextAttemptAt =
      if settings.embedMaxAttempts ≤ retry.attempts + 1 then none
      else some (now + delayAfter settings.embedRetryBaseSeconds retry.attempts) := by
  simp only [failed, decideRetry]
  split <;> rfl

theorem Scheduled.delay (w : Watch) (own : Scheduled id w) (i : Nat) (a : Attempted)
    (found : w.attempts[i]? = some a) (delay : Int) (asked : a.delay = some delay) :
    delay = delayAfter w.settings.embedRetryBaseSeconds i := by
  rw [Attempted.delay, own.backoff i a found] at asked
  split at asked
  · exact absurd asked (by simp)
  · have equal : a.recordedAt + delayAfter w.settings.embedRetryBaseSeconds i - a.recordedAt = delay :=
      Option.some.inj asked
    rw [← equal, add_sub_cancel_left]

theorem listed_row (q : Queue) (now : Instant) (m : Memory) (found : listed id q now = some m) :
    m ∈ listPendingEmbedding q now ∧ m.id = id :=
  ⟨List.mem_of_find?_eq_some found, by simpa using List.find?_some found⟩

/-- The schedule paces the attempts. -/
theorem Scheduled.paced (w : Watch) (own : Scheduled id w)
    (positive : 1 ≤ w.settings.embedMaxAttempts) :
    Paced id w where
  counted := own.counted
  bounded := own.bounded
  parked := own.parked
  scheduled := own.scheduled
  waits := own.waits
  delays := by
    rw [List.pairwise_filterMap, List.pairwise_iff_getElem]
    intro i j iBound jBound before x first y second
    rw [own.delay w i _ (List.getElem?_eq_getElem iBound) x first,
      own.delay w j _ (List.getElem?_eq_getElem jBound) y second]
    exact delayAfter_mono _ i j before.le
  capped := by
    intro delay inside
    obtain ⟨a, present, asked⟩ := List.mem_filterMap.mp inside
    obtain ⟨i, found⟩ := List.mem_iff_getElem?.mp present
    rw [own.delay w i a found delay asked]
    exact delayAfter_le _ i
  stops := by
    intro parked
    constructor
    · have count := own.parked.mp parked
      have bound : w.attempts.length - 1 < w.attempts.length := by omega
      have last := List.getElem?_eq_getElem bound
      rw [own.scheduled, List.getLast?_eq_getElem?, last, Option.bind_some,
        own.backoff _ _ last, if_pos (by omega)]
    · intro now m inside same
      have ready := eligible_of_listed w.queue now m inside
      rw [same, eligible, Bool.and_eq_true, Option.isNone_iff_eq_none] at ready
      rw [ready.1] at parked
      exact Bool.noConfusion parked

variable (id) in
theorem Scheduled.start (q : Queue) (fresh : q.retry id = {})
    (positive : 1 ≤ q.env.settings.embedMaxAttempts) : Scheduled id ⟨q, []⟩ where
  counted := by
    change (q.retry id).attempts = 0
    rw [fresh]
  bounded := Nat.zero_le _
  parked := by
    change (q.retry id).failedAt.isSome = true ↔ 0 = q.env.settings.embedMaxAttempts
    rw [fresh]
    exact iff_of_false (by simp) (by omega)
  scheduled := by
    change (q.retry id).nextAttemptAt = none
    rw [fresh]
  waits := List.IsChain.nil
  backoff i a found := absurd found (by simp)

/-- The settings of the retries are the same. -/
def SameBudget (w w' : Watch) : Prop :=
  w'.settings.embedMaxAttempts = w.settings.embedMaxAttempts ∧
    w'.settings.embedRetryBaseSeconds = w.settings.embedRetryBaseSeconds

/-- A step that leaves the row of the memory alone and adds no attempt keeps the schedule. -/
theorem Scheduled.frame (w w' : Watch) (own : Scheduled id w) (budget : SameBudget w w')
    (attempts : w'.attempts = w.attempts) (retry : w'.queue.retry id = w.queue.retry id) :
    Scheduled id w' := by
  obtain ⟨counted, bounded, parked, scheduled, waits, backoff⟩ := own
  rw [← retry, ← attempts] at counted parked scheduled
  rw [← budget.1, ← attempts] at bounded
  rw [← attempts, ← budget.1, ← budget.2] at backoff
  rw [← attempts] at waits
  rw [← budget.1] at parked
  exact ⟨counted, bounded, parked, scheduled, waits, backoff⟩

/-- A failed attempt at a memory that is listed continues the schedule. -/
theorem Scheduled.attempt (w w' : Watch) (own : Scheduled id w) (settings : w'.settings = w.settings)
    (listedAt now : Instant) (error : Str) (ready : eligible listedAt (w.queue.retry id) = true)
    (retry : w'.queue.retry id = failed w.settings now error (w.queue.retry id))
    (attempts : w'.attempts = w.attempts ++ [⟨listedAt, now, (w'.queue.retry id).nextAttemptAt⟩]) :
    Scheduled id w' := by
  rw [eligible, Bool.and_eq_true, Option.isNone_iff_eq_none] at ready
  obtain ⟨unparked, reached⟩ := ready
  have next := failed_next w.settings now error (w.queue.retry id)
  rw [own.counted] at next
  have room : w.attempts.length < w.settings.embedMaxAttempts := by
    refine lt_of_le_of_ne own.bounded fun full => ?_
    have parked := own.parked.mpr full
    rw [unparked] at parked
    exact Bool.noConfusion parked
  have length : w'.attempts.length = w.attempts.length + 1 := by
    rw [attempts, List.length_append, List.length_singleton]
  constructor
  · rw [retry, length, failed, ← own.counted]
    exact decideRetry_attempts _ _ _ _
  · rw [settings, length]
    exact room
  · rw [retry, settings, length, failed_parked w.settings now error _ unparked, own.counted]
    omega
  · rw [attempts, List.getLast?_concat]
    rfl
  · rw [attempts, List.isChain_append]
    refine ⟨own.waits, List.isChain_singleton _, fun earlier last later head => ?_⟩
    obtain rfl : _ = later := Option.some.inj head
    have scheduled := own.scheduled
    rw [last, Option.bind_some] at scheduled
    rw [List.getLast?_eq_getElem?] at last
    have place := (List.getElem?_eq_some_iff.mp last).1
    have delayed := own.backoff _ _ last
    rw [if_neg (by omega)] at delayed
    rw [scheduled, delayed, Option.all_some, decide_eq_true_eq] at reached
    exact ⟨_, delayed, reached⟩
  · intro i a found
    rw [settings]
    rw [attempts, retry] at found
    rcases Nat.lt_or_ge i w.attempts.length with old | new
    · rw [List.getElem?_append_left old] at found
      exact own.backoff i a found
    · have bound := (List.getElem?_eq_some_iff.mp found).1
      rw [List.length_append, List.length_singleton] at bound
      obtain rfl : i = w.attempts.length := by omega
      rw [List.getElem?_concat_length] at found
      obtain rfl := Option.some.inj found
      exact next

theorem tick_settings (q : Queue) (t : Tick) : (tick q t).env.settings = q.env.settings :=
  (cells_store q.env.settings t.modelId).valid_foldl (t.attempts q) q rfl

theorem attempts_ids (q : Queue) (t : Tick) :
    (t.attempts q).map (fun a => a.memory.id) = (listPendingEmbedding q t.listedAt).map Memory.id := by
  rw [Tick.attempts, List.map_map]
  rfl

/-- A tick leaves the row of a memory that it does not list as it is. -/
theorem tick_unlisted (q : Queue) (t : Tick) (unlisted : listed id q t.listedAt = none) :
    (tick q t).retry id = q.retry id := by
  refine congrArg Columns.retry ((cells_store q.env.settings t.modelId).foldl_other (t.attempts q) q rfl
    id fun attempt inside same => ?_)
  have present : attempt.memory.id ∈ (t.attempts q).map fun a => a.memory.id :=
    List.mem_map.mpr ⟨attempt, inside, rfl⟩
  rw [attempts_ids] at present
  obtain ⟨m, own, equal⟩ := List.mem_map.mp present
  exact absurd (equal.trans same.symm) (by simpa using List.find?_eq_none.mp unlisted m own)

/-- A tick records the failure of a memory that it lists. -/
theorem tick_failed (q : Queue) (t : Tick) (m : Memory) (found : listed id q t.listedAt = some m)
    (error : Str) (refused : (t.attempt m).2 = .error error) : (tick q t).retry id =
      failed q.env.settings (t.attempt m).1 error (q.retry id) := by
  obtain ⟨inside, rfl⟩ := listed_row q t.listedAt m found
  have present := (mem_listPendingEmbedding_row q t.listedAt m inside).1
  have distinct : ((t.attempts q).map fun a => a.memory.id).Nodup := by
    rw [attempts_ids]
    exact pending_ids_nodup q t.listedAt
  have own := (cells_store q.env.settings t.modelId).foldl_own (t.attempts q) distinct q rfl
    ⟨m, (t.attempt m).1, (t.attempt m).2⟩ (List.mem_map.mpr ⟨m, inside, rfl⟩)
  exact (congrArg Columns.retry own).trans
    (attempted_retry q.env.settings t.modelId _ error refused present)

/-- A step keeps the schedule if the attempts that it makes at the memory fail. -/
theorem scheduled_watch (w : Watch) (r : Round) (own : Scheduled id w)
    (positive : 1 ≤ w.settings.embedMaxAttempts) (fails : Fails id w r) :
    Scheduled id (watch id w r) := by
  cases r with
  | turn t => exact own.frame w _ ⟨rfl, rfl⟩ rfl rfl
  | resetEmbedFailures now orgId =>
      by_cases released : id ∈ releasedIds w.queue orgId
      · have start := Scheduled.start id (resetEmbedFailures w.queue now orgId)
          (by simp [resetEmbedFailures, released]) positive
        rw [watch, if_pos released]
        exact start
      · refine own.frame w _ ⟨rfl, rfl⟩ ?_ ?_
        · rw [watch, if_neg released]
        · simp [watch, resetEmbedFailures, released]
  | changeModel model => exact own.frame w _ ⟨rfl, rfl⟩ rfl rfl
  | tick t =>
      have settings := tick_settings w.queue t
      have budget (attempts : List Attempted) : SameBudget w ⟨tick w.queue t, attempts⟩ :=
        ⟨congrArg Settings.embedMaxAttempts settings, congrArg Settings.embedRetryBaseSeconds settings⟩
      simp only [watch]
      cases found : listed id w.queue t.listedAt with
      | none => exact own.frame w _ (budget _) rfl (tick_unlisted w.queue t found)
      | some m =>
          obtain ⟨error, refused⟩ := fails m found
          obtain ⟨inside, same⟩ := listed_row w.queue t.listedAt m found
          have ready := eligible_of_listed w.queue t.listedAt m inside
          rw [same] at ready
          exact own.attempt w _ settings t.listedAt (t.attempt m).1 error ready
            (tick_failed w.queue t m found error refused) rfl

theorem watch_budget (w : Watch) (r : Round) :
    (watch id w r).settings.embedMaxAttempts = w.settings.embedMaxAttempts := by
  cases r with
  | tick t =>
      have settings := congrArg Settings.embedMaxAttempts (tick_settings w.queue t)
      simp only [watch]
      split <;> exact settings
  | _ => rfl

/-- The tables start with no failure of the memory. -/
def Watch.start (q : Queue) : Watch := ⟨q, []⟩

/-- Along every run in which the attempts at a memory fail, the attempts at it are paced. -/
theorem paced_run (q : Queue) (id : Nat) (fresh : q.retry id = {})
    (positive : 1 ≤ q.env.settings.embedMaxAttempts) (rounds : List Round)
    (fails : Run.Each (watch id) (Fails id) (Watch.start q) rounds) :
    Run.Always (watch id) (Paced id) (Watch.start q) rounds := by
  have scheduled : Run.Always (watch id)
      (fun w => Scheduled id w ∧ 1 ≤ w.settings.embedMaxAttempts) (Watch.start q) rounds := by
    refine Run.always_of_each (fun w r own fails => ?_) ⟨Scheduled.start id q fresh positive, positive⟩ fails
    exact ⟨scheduled_watch w r own.1 own.2 fails, by rw [watch_budget]; exact own.2⟩
  exact scheduled.imp fun w own => own.1.paced w own.2

/-- Every attempt of the tick fails. -/
def failingTick (now : Instant) : Tick :=
  ⟨now, emptyQueue.configuredModel, fun _ => (now, .error "timeout".toList)⟩

/-- A file is created, the embedder fails at each of five hours, and the failures are reset. -/
def failingRounds : List Round :=
  .turn (sampleCommand 1 (createCommand "/memories/a" "x")) ::
    ([1, 2, 3, 4, 5].map fun hour => .tick (failingTick (hour * longestDelay))) ++
      [.resetEmbedFailures (6 * longestDelay) none, .tick (failingTick (7 * longestDelay))]

theorem failingRounds_paced :
    Run.Always (watch 1) (Paced 1) (Watch.start emptyQueue) failingRounds :=
  paced_run emptyQueue 1 rfl (by decide) failingRounds
    ⟨trivial, fun _ _ => ⟨_, rfl⟩, fun _ _ => ⟨_, rfl⟩, fun _ _ => ⟨_, rfl⟩, fun _ _ => ⟨_, rfl⟩,
      fun _ _ => ⟨_, rfl⟩, trivial, fun _ _ => ⟨_, rfl⟩, trivial⟩

/-- The fifth failure parks the memory, and after the reset the first one does not. -/
example : ((failingRounds.inits.map (Run.final (watch 1) (Watch.start emptyQueue))).map fun w =>
    (w.attempts.length, (w.queue.retry 1).failedAt.isSome)) =
      [(0, false), (0, false), (1, false), (2, false), (3, false), (4, false), (5, true), (0, false),
        (1, false)] := by
  decide +kernel

end Kortex.EmbeddingQueue
