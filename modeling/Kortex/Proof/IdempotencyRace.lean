import Kortex.Model.IdempotencyRace
import Kortex.Proof.Idempotency

/-
This file proves when the requests of one cache key run their handler at most once.
-/

namespace Kortex.Idempotency.Race

section Payload

theorem readHeaders_map (headers : Dict Str Str) :
    readHeaders (headers.map fun h => (h.1, .str h.2)) = some headers := by
  induction headers with
  | nil => rfl
  | cons header rest ih => simp [readHeaders, ih]

theorem properMembers_map (headers : Dict Str Str) :
    Json.ProperMembers PyFloat.finite (headers.map fun h => (h.1, Value.str h.2)) := by
  induction headers with
  | nil => trivial
  | cons header rest ih => exact ⟨trivial, ih⟩

theorem proper_payload (response : Response) (distinct : (response.headers.map Prod.fst).Nodup) :
    Json.Proper PyFloat.finite (payload response) := by
  have names : ["status".toList, "body".toList, "media_type".toList, "headers".toList].Nodup := by
    decide
  refine ⟨names, trivial, trivial, ?_, ⟨?_, properMembers_map _⟩, trivial⟩
  · cases response.mediaType <;> trivial
  · rw [List.map_map]
    exact distinct.sublist (List.filter_sublist.map Prod.fst)

/-- These are the headers that a payload keeps. -/
def keptHeaders (response : Response) : Dict Str Str := response.headers.filter fun h =>
  lower h.1 ≠ "content-length".toList && lower h.1 ≠ "transfer-encoding".toList

/-- This is the response that a payload is read back as. -/
def readBack (response : Response) : Response where
  status := response.status
  body := response.body
  mediaType := match response.mediaType with
    | some (c :: s) => some (c :: s)
    | _ => some "application/json"
  headers := Dict.set (keptHeaders response) "Idempotent-Replay".toList "true".toList

theorem readPayload_payload (response : Response) :
    readPayload (payload response) = some (readBack response) := by
  have headers := readHeaders_map (keptHeaders response)
  obtain ⟨status, body, mediaType, sent⟩ := response
  rcases mediaType with _ | _ | ⟨c, s⟩ <;>
    exact congrArg (fun read : Option (Dict Str Str) => read.bind fun headers => some
      (⟨status, body, _, Dict.set headers "Idempotent-Replay".toList "true".toList⟩ : Response)) headers

/-- The text of an answer is replayed with its status and with the text of its body. -/
theorem loads_text (answer : Answer) :
    (Json.loads .finite answer.text).bind readPayload = some (readBack answer.cached) := by
  have proper := proper_payload answer.cached (Dict.nodup_ofPairs answer.headers)
  rw [Answer.text, Json.loads_dumps _ _ proper]
  exact readPayload_payload answer.cached

theorem text_head (answer : Answer) : ∃ rest, answer.text = '\x7b' :: rest := dumps_payload _

theorem text_ne_sentinel (answer : Answer) : ¬ (answer.text = [] ∨ answer.text = inflightSentinel) := by
  obtain ⟨rest, text⟩ := text_head answer
  rw [text, inflightSentinel]
  rintro (empty | same)
  · exact List.cons_ne_nil _ _ empty
  · exact absurd (List.cons.inj same).1 (by decide)

end Payload

/-- The handler completes with success once, replays repeat this answer, and no request removes the
entry of another. -/
structure AtMostOnce (s : State) : Prop where
  once : s.completions.length ≤ 1
  faithful : ∀ replay ∈ s.replays, ∃ completion ∈ s.completions,
    replay.answer.status = completion.answer.status ∧ replay.answer.body = completion.answer.body
  own : ∀ removal ∈ s.removals, removal.producer = removal.id

/-- A request takes the reservation while no other request is in flight, and the body of a
successful answer is UTF-8. -/
def Clear (s : State) : Event → Prop
  | .reserve id => s.phase id = .missed → s.get = none → ∀ other, ¬ (s.phase other).inFlight
  | .respond id answer => s.phase id = .running → answer.success → Utf8.Valid answer.body
  | _ => True

/-- At most one request is in flight, and an answer stays in the cache after its request. -/
structure Sound (s : State) : Prop extends AtMostOnce s where
  alone : ∀ i j, (s.phase i).inFlight → (s.phase j).inFlight → i = j
  held : ∀ i, (s.phase i).inFlight → ∃ entry, s.cache = some entry ∧ entry.producer = i
  texts : ∀ entry, s.cache = some entry →
    entry.text = inflightSentinel ∨ ∃ completion ∈ s.completions, entry.text = completion.answer.text
  valid : ∀ completion ∈ s.completions, Utf8.Valid completion.answer.body
  intact : ∀ i again, s.phase i ≠ .corrupted again
  listed : ∀ i answer, s.phase i = .completed answer → ⟨i, answer⟩ ∈ s.completions
  settled : ∀ completion ∈ s.completions,
    s.phase completion.id = .completed completion.answer ∨
      (∀ i, ¬ (s.phase i).inFlight) ∧ ∃ entry, s.cache = some entry ∧
        cacheTtl ≤ entry.expiresAt ∧ entry.text = completion.answer.text

theorem phase_setPhase (s : State) (id i : Nat) (phase : Phase) :
    (s.setPhase id phase).phase i = if i = id then phase else s.phase i :=
  Function.update_apply s.phase id phase i

theorem get_eq_some (s : State) (entry : Entry) :
    s.get = some entry ↔ s.cache = some entry ∧ s.now < entry.expiresAt := by
  simp [State.get, Option.filter_eq_some_iff]

/-- A lookup that finds the text of an answer replays it. -/
theorem tryReplay_text (s : State) (entry : Entry) (answer : Answer) (found : s.get = some entry)
    (text : entry.text = answer.text) : tryReplay s = .replay (replayed (readBack answer.cached)) := by
  unfold tryReplay
  simp only [found, text, if_neg (text_ne_sentinel answer), loads_text]

/-- A lookup finds no answer, or the answer of a completed request. -/
theorem tryReplay_cases (s : State) (sound : Sound s) :
    tryReplay s = .nothing ∨ ∃ completion ∈ s.completions,
      tryReplay s = .replay (replayed (readBack completion.answer.cached)) := by
  cases found : s.get with
  | none =>
      left
      simp only [tryReplay, found]
  | some entry =>
      rcases sound.texts entry ((get_eq_some s entry).mp found).1 with sentinel | ⟨completion, inside, text⟩
      · left
        simp only [tryReplay, found]
        exact if_pos (Or.inr sentinel)
      · exact Or.inr ⟨completion, inside, tryReplay_text s entry completion.answer found text⟩

theorem intact_setPhase (s : State) (sound : Sound s) (id : Nat) (phase : Phase)
    (intact : ∀ again, phase ≠ .corrupted again) (i : Nat) (again : Bool) :
    (s.setPhase id phase).phase i ≠ .corrupted again := by
  rw [phase_setPhase]
  split
  · exact intact again
  · exact sound.intact i again

theorem sound_quiet (s : State) (sound : Sound s) (id : Nat) (phase : Phase)
    (before : ¬ (s.phase id).inFlight) (after : ¬ phase.inFlight)
    (intact : ∀ again, phase ≠ .corrupted again) : Sound (s.setPhase id phase) := by
  have stays (i : Nat) (inFlight : ((s.setPhase id phase).phase i).inFlight) :
      (s.phase i).inFlight ∧ (s.setPhase id phase).phase i = s.phase i := by
    rw [phase_setPhase] at inFlight ⊢
    split at inFlight
    · exact absurd inFlight after
    · exact ⟨inFlight, if_neg (by assumption)⟩
  have other (i : Nat) (inFlight : (s.phase i).inFlight) : (s.setPhase id phase).phase i = s.phase i := by
    rw [phase_setPhase, if_neg]
    rintro rfl
    exact before inFlight
  exact
    { once := sound.once
      faithful := sound.faithful
      own := sound.own
      alone := fun i j first second => sound.alone i j (stays i first).1 (stays j second).1
      held := fun i inFlight => sound.held i (stays i inFlight).1
      texts := sound.texts
      valid := sound.valid
      intact := intact_setPhase s sound id phase intact
      listed := by
        intro i answer completed
        have inFlight := stays i (by rw [completed]; trivial)
        exact sound.listed i answer (inFlight.2 ▸ completed)
      settled := by
        intro completion inside
        rcases sound.settled completion inside with completed | ⟨nobody, kept⟩
        · exact Or.inl ((other _ (by rw [completed]; trivial)).trans completed)
        · exact Or.inr ⟨fun i inFlight => nobody i (stays i inFlight).1, kept⟩ }

theorem sound_lookup (s : State) (sound : Sound s) (id : Nat) (again : Bool) (next : Phase)
    (before : ¬ (s.phase id).inFlight) (after : ¬ next.inFlight)
    (intact : ∀ again, next ≠ .corrupted again) : Sound (lookup s id again next) := by
  unfold lookup
  rcases tryReplay_cases s sound with nothing | ⟨completion, inside, found⟩
  · rw [nothing]
    exact sound_quiet s sound id next before after intact
  · rw [found]
    have quiet := sound_quiet s sound id .done before (fun inFlight => inFlight) (by simp)
    refine { quiet with faithful := ?_ }
    intro replay among
    rcases List.mem_append.mp among with earlier | last
    · exact sound.faithful replay earlier
    · rw [List.mem_singleton.mp last]
      refine ⟨completion, inside, rfl, ?_⟩
      exact (Utf8.encode_decode_iff _).mpr (sound.valid completion inside)

/-- No request has completed while another runs or has failed. -/
theorem completions_eq_nil (s : State) (sound : Sound s) (id : Nat) (inFlight : (s.phase id).inFlight)
    (incomplete : ∀ answer, s.phase id ≠ .completed answer) : s.completions = [] := by
  apply List.eq_nil_iff_forall_not_mem.mpr
  intro completion inside
  rcases sound.settled completion inside with completed | ⟨nobody, _⟩
  · have same := sound.alone completion.id id (by rw [completed]; trivial) inFlight
    exact incomplete completion.answer (same ▸ completed)
  · exact nobody id inFlight

/-- Before the first completion only the reservations count. -/
theorem sound_of_nil (s s' : State) (sound : Sound s) (none : s.completions = [])
    (completions : s'.completions = s.completions) (replays : s'.replays = s.replays)
    (own : ∀ removal ∈ s'.removals, removal.producer = removal.id)
    (alone : ∀ i j, (s'.phase i).inFlight → (s'.phase j).inFlight → i = j)
    (held : ∀ i, (s'.phase i).inFlight → ∃ entry, s'.cache = some entry ∧ entry.producer = i)
    (texts : ∀ entry, s'.cache = some entry → entry.text = inflightSentinel)
    (intact : ∀ i again, s'.phase i ≠ .corrupted again)
    (open' : ∀ i answer, s'.phase i ≠ .completed answer) : Sound s' := by
  rw [none] at completions
  exact
    { once := by simp [completions]
      faithful := by
        intro replay inside
        rw [completions, ← none]
        exact sound.faithful replay (replays ▸ inside)
      own := own
      alone := alone
      held := held
      texts := fun entry found => Or.inl (texts entry found)
      valid := by simp [completions]
      intact := intact
      listed := fun i answer completed => absurd completed (open' i answer)
      settled := by simp [completions] }

theorem texts_of_nil (s : State) (sound : Sound s) (none : s.completions = []) (entry : Entry)
    (found : s.cache = some entry) : entry.text = inflightSentinel := by
  rcases sound.texts entry found with sentinel | ⟨completion, inside, _⟩
  · exact sentinel
  · rw [none] at inside
    exact absurd inside List.not_mem_nil

theorem open_of_nil (s : State) (sound : Sound s) (none : s.completions = []) (i : Nat)
    (answer : Answer) : s.phase i ≠ .completed answer := by
  intro completed
  have inside := sound.listed i answer completed
  rw [none] at inside
  exact List.not_mem_nil inside

theorem open_setPhase (s : State) (sound : Sound s) (none : s.completions = []) (id : Nat)
    (phase : Phase) (open' : ∀ answer, phase ≠ .completed answer) (i : Nat) (answer : Answer) :
    (s.setPhase id phase).phase i ≠ .completed answer := by
  rw [phase_setPhase]
  split
  · exact open' answer
  · exact open_of_nil s sound none i answer

/-- A request that reserves the key while nobody is in flight is the first to complete. -/
theorem sound_reserve (s : State) (sound : Sound s) (id : Nat) (window : s.now < cacheTtl)
    (free : s.get = none) (nobody : ∀ other, ¬ (s.phase other).inFlight) :
    Sound ((s.set id inflightSentinel inflightTtl).setPhase id .running) := by
  have none : s.completions = [] := by
    apply List.eq_nil_iff_forall_not_mem.mpr
    intro completion inside
    rcases sound.settled completion inside with completed | ⟨_, entry, cached, lasting, _⟩
    · exact nobody completion.id (by rw [completed]; trivial)
    · have found := (get_eq_some s entry).mpr ⟨cached, by omega⟩
      rw [free] at found
      exact absurd found (by simp)
  have only (i : Nat) (inFlight : (((s.set id inflightSentinel inflightTtl).setPhase id
      .running).phase i).inFlight) : i = id := by
    rw [phase_setPhase] at inFlight
    by_contra other
    rw [if_neg other] at inFlight
    exact nobody i inFlight
  refine sound_of_nil s _ sound none rfl rfl sound.own ?_ ?_ ?_
    (intact_setPhase s sound id _ (by simp)) (open_setPhase s sound none id _ (by simp))
  · intro i j first second
    rw [only i first, only j second]
  · intro i inFlight
    exact ⟨_, rfl, (only i inFlight).symm⟩
  · intro entry found
    have taken : (⟨inflightSentinel, id, s.now + inflightTtl⟩ : Entry) = entry := Option.some.inj found
    rw [← taken]

/-- A request in flight that has no answer moves on without one. -/
theorem sound_moves (s : State) (sound : Sound s) (id : Nat) (phase : Phase)
    (inFlight : (s.phase id).inFlight) (incomplete : ∀ answer, s.phase id ≠ .completed answer)
    (intact : ∀ again, phase ≠ .corrupted again) (open' : ∀ answer, phase ≠ .completed answer) :
    Sound (s.setPhase id phase) := by
  have none := completions_eq_nil s sound id inFlight incomplete
  have stays (i : Nat) (after : ((s.setPhase id phase).phase i).inFlight) : (s.phase i).inFlight := by
    rw [phase_setPhase] at after
    split at after
    · rename_i same
      exact same ▸ inFlight
    · exact after
  refine sound_of_nil s _ sound none rfl rfl sound.own ?_ ?_ ?_
    (intact_setPhase s sound id _ intact) (open_setPhase s sound none id _ open')
  · intro i j first second
    exact sound.alone i j (stays i first) (stays j second)
  · intro i after
    exact sound.held i (stays i after)
  · exact texts_of_nil s sound none

theorem sound_respond (s : State) (sound : Sound s) (id : Nat) (answer : Answer)
    (running : s.phase id = .running) (valid : Utf8.Valid answer.body) :
    Sound { s.setPhase id (.completed answer) with completions := s.completions ++ [⟨id, answer⟩] } := by
  have none := completions_eq_nil s sound id (by rw [running]; trivial) (by simp [running])
  have first : s.completions ++ [⟨id, answer⟩] = [⟨id, answer⟩] := by rw [none]; rfl
  rw [first]
  have stays (i : Nat) (after : ((s.setPhase id (.completed answer)).phase i).inFlight) :
      (s.phase i).inFlight := by
    rw [phase_setPhase] at after
    split at after
    · rename_i same
      rw [same, running]
      trivial
    · exact after
  exact
    { once := le_rfl
      faithful := by
        intro replay inside
        obtain ⟨completion, earlier, _⟩ := sound.faithful replay inside
        rw [none] at earlier
        exact absurd earlier List.not_mem_nil
      own := sound.own
      alone := fun i j one two => sound.alone i j (stays i one) (stays j two)
      held := fun i after => sound.held i (stays i after)
      texts := fun entry found => Or.inl (texts_of_nil s sound none entry found)
      valid := by
        intro completion inside
        rw [List.mem_singleton.mp inside]
        exact valid
      intact := intact_setPhase s sound id _ (by simp)
      listed := by
        intro i given completed
        change (s.setPhase id (.completed answer)).phase i = _ at completed
        rw [phase_setPhase] at completed
        split at completed
        · rename_i same
          cases completed
          rw [same]
          exact List.mem_singleton_self _
        · exact absurd completed (open_of_nil s sound none i given)
      settled := by
        intro completion inside
        rw [List.mem_singleton.mp inside]
        exact Or.inl ((phase_setPhase s id id _).trans (if_pos rfl)) }

/-- The request that stores its answer leaves nobody in flight. -/
theorem sound_store (s : State) (sound : Sound s) (id : Nat) (answer : Answer)
    (completed : s.phase id = .completed answer) :
    Sound ((s.set id answer.text cacheTtl).setPhase id .done) := by
  have listed := sound.listed id answer completed
  have only (completion : Completion) (inside : completion ∈ s.completions) :
      completion = ⟨id, answer⟩ := by
    obtain ⟨single, list⟩ := List.length_eq_one_iff.mp
      (le_antisymm sound.once (List.length_pos_of_mem listed))
    rw [list, List.mem_singleton] at inside listed
    rw [inside, listed]
  have nobody (i : Nat) : ¬ (((s.set id answer.text cacheTtl).setPhase id .done).phase i).inFlight := by
    intro inFlight
    rw [phase_setPhase] at inFlight
    split at inFlight
    · exact inFlight
    · rename_i other
      exact other (sound.alone i id inFlight (by rw [completed]; trivial))
  exact
    { once := sound.once
      faithful := sound.faithful
      own := sound.own
      alone := fun i _ inFlight => absurd inFlight (nobody i)
      held := fun i inFlight => absurd inFlight (nobody i)
      texts := by
        intro entry found
        cases Option.some.inj found
        exact Or.inr ⟨_, listed, rfl⟩
      valid := sound.valid
      intact := intact_setPhase s sound id _ (by simp)
      listed := by
        intro i given after
        exact absurd (by rw [after]; trivial) (nobody i)
      settled := by
        intro completion inside
        rw [only completion inside]
        exact Or.inr ⟨nobody, _, rfl, Nat.le_add_left _ _, rfl⟩ }

/-- The request that drops the key after a failure removes its own reservation. -/
theorem sound_drop (s : State) (sound : Sound s) (id : Nat) (failed : s.phase id = .failed) :
    Sound ((s.delete id).setPhase id .done) := by
  have inFlight : (s.phase id).inFlight := by rw [failed]; trivial
  have none := completions_eq_nil s sound id inFlight (by simp [failed])
  have nobody (i : Nat) : ¬ (((s.delete id).setPhase id .done).phase i).inFlight := by
    intro after
    rw [phase_setPhase] at after
    split at after
    · exact after
    · rename_i other
      exact other (sound.alone i id after inFlight)
  refine sound_of_nil s _ sound none rfl rfl ?_ ?_ ?_ ?_
    (intact_setPhase s sound id _ (by simp)) (open_setPhase s sound none id _ (by simp))
  · intro removal inside
    rcases List.mem_append.mp inside with earlier | last
    · exact sound.own removal earlier
    · obtain ⟨entry, found, rfl⟩ := List.mem_map.mp last
      obtain ⟨own, cached, producer⟩ := sound.held id inFlight
      rw [((get_eq_some s entry).mp (Option.mem_toList.mp found)).1, Option.some.injEq] at cached
      rw [cached]
      exact producer
  · intro i _ first
    exact absurd first (nobody i)
  · intro i after
    exact absurd after (nobody i)
  · intro entry found
    exact absurd found (Option.some_ne_none entry).symm

/-- A request overtakes another only past the time to live of the reservation of the other. -/
theorem expired_of_not_clear (s : State) (sound : Sound s) (id : Nat) (overtakes : ¬ Clear s (.reserve id)) :
    ∃ other entry, (s.phase other).inFlight ∧ s.cache = some entry ∧ entry.producer = other ∧
      entry.expiresAt ≤ s.now := by
  simp only [Clear, Classical.not_imp, not_forall, not_not] at overtakes
  obtain ⟨_, free, other, inFlight⟩ := overtakes
  obtain ⟨entry, cached, producer⟩ := sound.held other inFlight
  refine ⟨other, entry, inFlight, cached, producer, ?_⟩
  by_contra fresh
  have found := (get_eq_some s entry).mpr ⟨cached, by omega⟩
  rw [free] at found
  exact absurd found (Option.some_ne_none entry).symm

theorem sound_step (s : State) (e : Event) (sound : Sound s) (clear : Clear s e)
    (window : s.now < cacheTtl) : Sound (step s e) := by
  cases e with
  | pass duration => exact { sound with }
  | dispatch id =>
      simp only [step]
      split
      · rename_i idle
        exact sound_lookup s sound id false .missed (by rw [idle]; exact fun h => h) (fun h => h) (by simp)
      · exact sound
  | discard id =>
      simp only [step]
      split
      · rename_i again corrupted
        exact absurd corrupted (sound.intact id again)
      · exact sound
  | reserve id =>
      simp only [step]
      split
      · rename_i missed
        split
        · exact sound_quiet s sound id .blocked (by rw [missed]; exact fun h => h) (fun h => h) (by simp)
        · rename_i free
          have free := Option.not_isSome_iff_eq_none.mp free
          exact sound_reserve s sound id window free (clear missed free)
      · exact sound
  | recheck id =>
      simp only [step]
      split
      · rename_i blocked
        exact sound_lookup s sound id true .done (by rw [blocked]; exact fun h => h) (fun h => h) (by simp)
      · exact sound
  | respond id answer =>
      simp only [step]
      split
      · rename_i running
        split
        · rename_i success
          exact sound_respond s sound id answer running (clear running success)
        · exact sound_moves s sound id .failed (by rw [running]; trivial) (by simp [running])
            (by simp) (by simp)
      · exact sound
  | crash id =>
      simp only [step]
      split
      · rename_i running
        exact sound_moves s sound id .failed (by rw [running]; trivial) (by simp [running])
          (by simp) (by simp)
      · exact sound
  | breakOff id =>
      simp only [step]
      split
      · rename_i running
        exact sound_moves s sound id .done (by rw [running]; trivial) (by simp [running])
          (by simp) (by simp)
      · exact sound
  | finish id =>
      simp only [step]
      split
      · rename_i answer completed
        exact sound_store s sound id answer completed
      · rename_i failed
        exact sound_drop s sound id failed
      · exact sound

theorem sound_start : Sound start where
  once := Nat.zero_le 1
  faithful := by simp [start]
  own := by simp [start]
  alone := fun _ _ inFlight => False.elim inFlight
  held := fun _ inFlight => False.elim inFlight
  texts := by simp [start]
  valid := by simp [start]
  intact := by simp [start]
  listed := by simp [start]
  settled := by simp [start]

/-- The clock of Redis does not go back. -/
theorem now_le_step (s : State) (e : Event) : s.now ≤ (step s e).now := by
  cases e with
  | pass duration => exact Nat.le_add_right _ _
  | dispatch id =>
      simp only [step, lookup]
      split
      · split <;> exact le_rfl
      · exact le_rfl
  | recheck id =>
      simp only [step, lookup]
      split
      · split <;> exact le_rfl
      · exact le_rfl
  | reserve id =>
      simp only [step]
      split
      · split <;> exact le_rfl
      · exact le_rfl
  | respond id answer =>
      simp only [step]
      split
      · split <;> exact le_rfl
      · exact le_rfl
  | discard id | crash id | breakOff id | finish id =>
      simp only [step]
      split <;> exact le_rfl

theorem now_le_final (events : List Event) (s : State) : s.now ≤ (Run.final step s events).now := by
  induction events generalizing s with
  | nil => exact le_rfl
  | cons e rest ih => exact (now_le_step s e).trans (ih (step s e))

theorem sound_run (events : List Event) (s : State) (sound : Sound s)
    (window : (Run.final step s events).now < cacheTtl) (clear : Run.Each step Clear s events) :
    Run.Always step Sound s events := by
  induction events generalizing s with
  | nil => exact sound
  | cons e rest ih =>
      have early := (now_le_final (e :: rest) s).trans_lt window
      exact ⟨sound, ih (step s e) (sound_step s e sound clear.1 early) window clear.2⟩

/-- Within the time to live of an answer, the handler of one cache key completes once, its answer is
replayed as it is, and no request removes the entry of another, in every run where the key is
reserved while nobody is in flight and the successful bodies are UTF-8. -/
theorem atMostOnce_run (events : List Event) (window : (Run.final step start events).now < cacheTtl)
    (clear : Run.Each step Clear start events) : Run.Always step AtMostOnce start events :=
  (sound_run events start sound_start window clear).imp fun _ sound => sound.toAtMostOnce

def emptyAnswer : Answer := ⟨200, [], none, []⟩

/-- The second request waits for the answer of the first, and receives it. -/
def retried : List Event :=
  [.dispatch 0, .dispatch 1, .reserve 0, .reserve 1, .respond 0 emptyAnswer, .finish 0, .recheck 1]

theorem atMostOnce_run_retried : (Run.final step start retried).now < cacheTtl ∧
    Run.Each step Clear start retried ∧ Run.Always step AtMostOnce start retried := by
  have window : (Run.final step start retried).now < cacheTtl := by decide
  have clear : Run.Each step Clear start retried := by
    refine ⟨trivial, trivial, ?_, ?_, ?_, trivial, trivial, trivial⟩
    · intro _ _ other
      match other with
      | 0 => exact fun h => h
      | 1 => exact fun h => h
      | _ + 2 => exact fun h => h
    · intro _ free
      exact absurd free (by decide)
    · intro _ _
      exact ⟨[], rfl⟩
  exact ⟨window, clear, atMostOnce_run retried window clear⟩

/-- Both requests hold the reservation of the key, the first one past its time to live. -/
def overlapping : List Event :=
  [.dispatch 0, .reserve 0, .pass inflightTtl, .dispatch 1, .reserve 1]

def binaryAnswer : Answer := ⟨200, [0xff], none, []⟩

/-- The answer of the request is in the cache. -/
def stored : List Event := [.dispatch 0, .reserve 0, .respond 0 binaryAnswer, .finish 0]

/-- A handler that runs past its reservation runs beside another one, and removes the reservation of
this one when it fails; a body that is not UTF-8 is replayed as another one. -/
theorem overlapping_runs_twice :
    (∃ events, (Run.final step start events).now < cacheTtl ∧
      (Run.final step start events).completions = [⟨0, emptyAnswer⟩, ⟨1, emptyAnswer⟩]) ∧
    (∃ events, (Run.final step start events).now < cacheTtl ∧
      (Run.final step start events).removals = [⟨0, 1⟩]) ∧
    (∃ events, (Run.final step start events).now < cacheTtl ∧
      (Run.final step start events).completions = [⟨0, binaryAnswer⟩] ∧
      ∃ replay ∈ (Run.final step start events).replays, replay.answer.body ≠ binaryAnswer.body) := by
  have replays : (Run.final step start (stored ++ [.dispatch 1])).replays =
      [⟨1, replayed (readBack binaryAnswer.cached)⟩] := by
    have kept : (Run.final step start stored).cache = some ⟨binaryAnswer.text, 0, 0 + cacheTtl⟩ := rfl
    have found := (get_eq_some (Run.final step start stored) _).mpr ⟨kept, by decide⟩
    rw [Run.final_append]
    change (lookup (Run.final step start stored) 1 false .missed).replays = _
    rw [lookup, tryReplay_text _ _ binaryAnswer found rfl]
    rfl
  refine ⟨⟨overlapping ++ [.respond 0 emptyAnswer, .respond 1 emptyAnswer], by decide, by decide⟩,
    ⟨overlapping ++ [.crash 0, .finish 0], by decide, by decide⟩,
    ⟨stored ++ [.dispatch 1], by decide, by decide, ⟨1, replayed (readBack binaryAnswer.cached)⟩, ?_, ?_⟩⟩
  · rw [replays]
    exact List.mem_singleton_self _
  · show Utf8.encode (Utf8.decode [0xff]) ≠ [0xff]
    decide

end Kortex.Idempotency.Race
