import Kortex.Library.Run
import Kortex.Model.Idempotency

/-
This file proves which requests may receive each other's replayed responses.
-/

namespace Kortex.Idempotency

variable {settings : Settings} {sha256 : List UInt8 → Str}

/-- Two requests are confusable when they have the same body and the same short name. -/
def Confusable (settings : Settings) (r r' : Request) : Prop :=
  r.body = r'.body ∧ shortName settings r = shortName settings r'

/-- Two requests are the same for a caller when they agree in everything but the header forms. -/
structure SameRequest (r r' : Request) : Prop where
  credential : credential r = credential r'
  method : r.method = r'.method
  path : r.path = r'.path
  query : r.query = r'.query
  idempotencyKey : r.idempotencyKey = r'.idempotencyKey
  body : r.body = r'.body

/-- Every replayed response was produced by the same request. -/
def Isolated (s : State) : Prop := ∀ replay ∈ s.replays, SameRequest replay.request replay.producer

/-- The equation of the definition is slow to generate, so it is stated here. -/
theorem cacheKey_eq (r : Request) : cacheKey settings sha256 r =
    "idem:".toList ++ shortName settings r ++ ":".toList ++ (sha256 r.body).take 16 := by
  delta cacheKey
  rfl

theorem cacheKey_eq_iff (length : ∀ b, (sha256 b).length = 64) (r r' : Request) :
    cacheKey settings sha256 r = cacheKey settings sha256 r' ↔
      shortName settings r = shortName settings r' ∧
        (sha256 r.body).take 16 = (sha256 r'.body).take 16 := by
  constructor
  · intro same
    have lengths : ((sha256 r.body).take 16).length = ((sha256 r'.body).take 16).length := by
      rw [List.length_take, List.length_take, length, length]
    rw [cacheKey_eq, cacheKey_eq] at same
    obtain ⟨front, hash⟩ := List.append_inj' same lengths
    refine ⟨?_, hash⟩
    have name := List.append_cancel_right front
    exact List.append_cancel_left name
  · rintro ⟨name, hash⟩
    rw [cacheKey_eq, cacheKey_eq, name, hash]

theorem cacheKey_of_confusable (r r' : Request) (confusable : Confusable settings r r') :
    cacheKey settings sha256 r = cacheKey settings sha256 r' := by
  rw [cacheKey_eq, cacheKey_eq, confusable.1, confusable.2]

def Phase.request? : Phase → Option Request
  | missed r | blocked r | running r => some r
  | _ => none

/-- Each entry of the cache stands under the key of the guarded request that wrote it. -/
structure Tracked (settings : Settings) (sha256 : List UInt8 → Str) (requests : List Request)
    (s : State) : Prop where
  cache : ∀ key entry, s.cache key = some entry → cacheKey settings sha256 entry.producer = key ∧
    guarded entry.producer = true ∧ entry.producer ∈ requests
  phase : ∀ id r, (s.phase id).request? = some r → guarded r = true ∧ r ∈ requests
  replays : ∀ replay ∈ s.replays,
    cacheKey settings sha256 replay.request = cacheKey settings sha256 replay.producer ∧
      (guarded replay.request = true ∧ replay.request ∈ requests) ∧
      guarded replay.producer = true ∧ replay.producer ∈ requests

variable {requests : List Request}

theorem tracked_setPhase (s : State) (tracked : Tracked settings sha256 requests s) (id : Nat)
    (phase : Phase) (own : ∀ r, phase.request? = some r → guarded r = true ∧ r ∈ requests) :
    Tracked settings sha256 requests (s.setPhase id phase) where
  cache := tracked.cache
  phase := by
    intro id' r present
    by_cases self : id' = id
    · simp only [State.setPhase, self, Function.update_self] at present
      exact own r present
    · simp only [State.setPhase, Function.update_of_ne self] at present
      exact tracked.phase id' r present
  replays := tracked.replays

theorem tracked_setCache (s : State) (tracked : Tracked settings sha256 requests s) (key : Str)
    (entry : Option Entry) (own : ∀ e, entry = some e → cacheKey settings sha256 e.producer = key ∧
      guarded e.producer = true ∧ e.producer ∈ requests) :
    Tracked settings sha256 requests (s.setCache key entry) where
  cache := by
    intro key' e present
    by_cases self : key' = key
    · simp only [State.setCache, self, Function.update_self] at present
      exact self ▸ own e present
    · simp only [State.setCache, Function.update_of_ne self] at present
      exact tracked.cache key' e present
  phase := tracked.phase
  replays := tracked.replays

theorem tracked_tryReplay (s : State) (tracked : Tracked settings sha256 requests s) (r : Request)
    (getOk deleteOk : Bool) :
    Tracked settings sha256 requests (tryReplay settings sha256 s r getOk deleteOk).1 ∧
      ∀ replay, (tryReplay settings sha256 s r getOk deleteOk).2 = some replay →
        replay.request = r ∧ cacheKey settings sha256 r = cacheKey settings sha256 replay.producer ∧
          guarded replay.producer = true ∧ replay.producer ∈ requests := by
  cases getOk with
  | false => exact ⟨tracked, by simp [tryReplay]⟩
  | true =>
      simp only [tryReplay, Bool.not_true, Bool.false_eq_true, if_false]
      cases found : s.cache (cacheKey settings sha256 r) with
      | none => exact ⟨tracked, by simp⟩
      | some entry =>
          obtain ⟨key, isGuarded, member⟩ := tracked.cache _ entry found
          by_cases pending : entry.text = [] ∨ entry.text = inflightSentinel
          · simp only [if_pos pending]
            exact ⟨tracked, by simp⟩
          · simp only [if_neg pending]
            cases (Json.loads .finite entry.text).bind readPayload with
            | some response =>
                refine ⟨tracked, ?_⟩
                rintro replay same
                rw [← Option.some.inj same]
                exact ⟨rfl, key.symm, isGuarded, member⟩
            | none =>
                refine ⟨?_, by simp⟩
                cases deleteOk with
                | true => exact tracked_setCache s tracked _ none (by simp)
                | false => exact tracked

theorem tracked_lookup (s : State) (tracked : Tracked settings sha256 requests s) (id : Nat)
    (r : Request) (getOk deleteOk : Bool) (next : Phase) (isGuarded : guarded r = true)
    (member : r ∈ requests) (own : ∀ r, next.request? = some r → guarded r = true ∧ r ∈ requests) :
    Tracked settings sha256 requests (lookup settings sha256 s id r getOk deleteOk next) := by
  obtain ⟨after, produced⟩ := tracked_tryReplay s tracked r getOk deleteOk
  unfold lookup
  split
  · rename_i s' replay result
    rw [result] at after produced
    obtain ⟨rfl, key, producer⟩ := produced replay rfl
    have done := tracked_setPhase s' after id .done (by simp [Phase.request?])
    refine ⟨done.cache, done.phase, fun other present => ?_⟩
    have cases : other ∈ s'.replays ∨ other = replay := by simpa using present
    rcases cases with old | rfl
    · exact after.replays other old
    · exact ⟨key, ⟨isGuarded, member⟩, producer⟩
  · rename_i s' result
    rw [result] at after
    exact tracked_setPhase s' after id next own

/-- Every step over the given requests keeps track of the producers. -/
theorem tracked_step (s : State) (e : Event) (tracked : Tracked settings sha256 requests s)
    (within : ∀ r, e.request? = some r → r ∈ requests) :
    Tracked settings sha256 requests (step settings sha256 s e) := by
  cases e with
  | dispatch id request getOk deleteOk =>
      have member := within request rfl
      simp only [step]
      split
      · split
        · rename_i isGuarded
          exact tracked_lookup s tracked id request getOk deleteOk _ isGuarded member (by
            rintro r same
            exact Option.some.inj same ▸ ⟨isGuarded, member⟩)
        · exact tracked_setPhase s tracked id .done (by simp [Phase.request?])
      · exact tracked
  | reserve id setOk =>
      simp only [step]
      split
      · rename_i request missed
        obtain ⟨isGuarded, member⟩ := tracked.phase id request (by rw [missed]; rfl)
        have own : ∀ r, some request = some r → guarded r = true ∧ r ∈ requests := by
          rintro r same
          exact Option.some.inj same ▸ ⟨isGuarded, member⟩
        split
        · exact tracked_setPhase s tracked id _ own
        · split
          · refine tracked_setPhase _ (tracked_setCache s tracked _ _ ?_) id _ own
            rintro e same
            rw [← Option.some.inj same]
            exact ⟨rfl, isGuarded, member⟩
          · exact tracked_setPhase s tracked id _ own
      · exact tracked
  | recheck id getOk deleteOk =>
      simp only [step]
      split
      · rename_i request blocked
        obtain ⟨isGuarded, member⟩ := tracked.phase id request (by rw [blocked]; rfl)
        exact tracked_lookup s tracked id request getOk deleteOk .done isGuarded member
          (by simp [Phase.request?])
      · exact tracked
  | respond id response redisOk =>
      simp only [step]
      split
      · rename_i request running
        obtain ⟨isGuarded, member⟩ := tracked.phase id request (by rw [running]; rfl)
        refine tracked_setPhase _ ?_ id .done (by simp [Phase.request?])
        split
        · exact tracked
        · split
          · refine tracked_setCache s tracked _ _ ?_
            rintro e same
            rw [← Option.some.inj same]
            exact ⟨rfl, isGuarded, member⟩
          · exact tracked_setCache s tracked _ none (by simp)
      · exact tracked
  | crash id deleteOk =>
      simp only [step]
      split
      · refine tracked_setPhase _ ?_ id .done (by simp [Phase.request?])
        split
        · exact tracked_setCache s tracked _ none (by simp)
        · exact tracked
      · exact tracked
  | expire key => exact tracked_setCache s tracked key none (by simp)

theorem tracked_start : Tracked settings sha256 requests start where
  cache := by simp [start]
  phase := by simp [start, Phase.request?]
  replays := by simp [start]

/-- The requests of a history are among the given ones. -/
def Over (requests : List Request) (events : List Event) : Prop :=
  ∀ e ∈ events, ∀ r, e.request? = some r → r ∈ requests

theorem tracked_run (events : List Event) (s : State) (tracked : Tracked settings sha256 requests s)
    (contained : Over requests events) :
    Run.Always (step settings sha256) (Tracked settings sha256 requests) s events := by
  induction events generalizing s with
  | nil => exact tracked
  | cons e rest ih =>
      exact ⟨tracked, ih _ (tracked_step s e tracked (contained e (by simp)))
        fun e' present => contained e' (by simp [present])⟩

def emptyResponse : Response := ⟨200, [], none, []⟩

/-- This is what a caller reads from the replay of an empty response. -/
def replayedEmptyResponse : Response where
  status := 200
  body := []
  mediaType := some "application/json"
  headers := [("Idempotent-Replay", "true")]

theorem dumps_payload (response : Response) :
    ∃ text, Json.dumps {} (payload response) = '\x7b' :: text := ⟨_, rfl⟩

theorem readPayload_emptyResponse :
    (Json.loads .finite (Json.dumps {} (payload emptyResponse))).bind readPayload =
      some replayedEmptyResponse := by
  have members : payload emptyResponse = .obj [("status", .int 200), ("body", .str []),
    ("media_type", .null), ("headers", .obj [])] := rfl
  have proper : Json.Proper PyFloat.finite (payload emptyResponse) := by
    rw [members]
    refine ⟨by decide, ?_⟩
    simp [Json.ProperMembers, Json.Proper]
  rw [Json.loads_dumps _ _ proper]
  rfl

/-- A request and an earlier one that it is confused with. -/
def replayHistory (r r' : Request) : List Event :=
  [.dispatch 0 r' true true, .reserve 0 true, .respond 0 emptyResponse true, .dispatch 1 r true true]

/-- The later of two guarded requests with one cache key receives the response of the earlier. -/
theorem replay_of_cacheKey (r r' : Request) (isGuarded : guarded r = true)
    (isGuarded' : guarded r' = true)
    (same : cacheKey settings sha256 r = cacheKey settings sha256 r') :
    ∃ replay ∈ (Run.final (step settings sha256) start (replayHistory r r')).replays,
      replay.request = r ∧ replay.producer = r' := by
  have read := readPayload_emptyResponse
  obtain ⟨text, head⟩ := dumps_payload emptyResponse
  rw [head] at read
  have notSentinel : ¬ ('\x7b' :: text = [] ∨ '\x7b' :: text = inflightSentinel) := by
    simp [inflightSentinel]
  have missed : step settings sha256 start (.dispatch 0 r' true true) =
      start.setPhase 0 (.missed r') := by
    simp [step, start, isGuarded', lookup, tryReplay]
  set reserving := start.setPhase 0 (.missed r') with reservingEq
  have reserved : step settings sha256 reserving (.reserve 0 true) =
      (reserving.setCache (cacheKey settings sha256 r') (some ⟨inflightSentinel, r'⟩)).setPhase 0
        (.running r') := by
    simp [step, start, reserving, State.setPhase]
  set running := (reserving.setCache (cacheKey settings sha256 r')
    (some ⟨inflightSentinel, r'⟩)).setPhase 0 (.running r') with runningEq
  have stored : step settings sha256 running (.respond 0 emptyResponse true) =
      (running.setCache (cacheKey settings sha256 r') (some ⟨'\x7b' :: text, r'⟩)).setPhase 0
        .done := by
    simp [step, running, State.setPhase, head, show emptyResponse.status = 200 from rfl]
  set cached := (running.setCache (cacheKey settings sha256 r')
    (some ⟨'\x7b' :: text, r'⟩)).setPhase 0 .done with cachedEq
  have found : cached.cache (cacheKey settings sha256 r) = some ⟨'\x7b' :: text, r'⟩ := by
    simp [cached, same, State.setPhase, State.setCache]
  have idle : cached.phase 1 = .idle := by
    simp [cached, running, reserving, State.setPhase, State.setCache, start]
  have replayed : tryReplay settings sha256 cached r true true =
      (cached, some ⟨r, r', replayedEmptyResponse⟩) := by
    simp only [tryReplay, Bool.not_true, Bool.false_eq_true, if_false, found, if_neg notSentinel,
      read]
  refine ⟨⟨r, r', replayedEmptyResponse⟩, ?_, rfl, rfl⟩
  rw [replayHistory, Run.final_cons, missed, Run.final_cons, reserved, Run.final_cons, stored,
    Run.final_cons, Run.final_nil]
  simp only [step, idle, isGuarded, if_true, lookup, replayed]
  exact List.mem_append_right _ (List.mem_singleton.mpr rfl)

/-- In every history over the given requests each replay comes from the same request, exactly
when no two guarded requests of them that differ are confusable. -/
theorem isolated_iff_not_confusable (length : ∀ b, (sha256 b).length = 64)
    (apart : ∀ r ∈ requests, ∀ r' ∈ requests,
      (sha256 r.body).take 16 = (sha256 r'.body).take 16 → r.body = r'.body) :
    (∀ events, Over requests events →
        Run.Always (step settings sha256) Isolated start events) ↔
      ∀ r ∈ requests, ∀ r' ∈ requests, guarded r = true → guarded r' = true →
        Confusable settings r r' → SameRequest r r' := by
  constructor
  · intro isolated r member r' member' isGuarded isGuarded' confusable
    obtain ⟨replay, present, request, producer⟩ := replay_of_cacheKey r r' isGuarded isGuarded'
      (@cacheKey_of_confusable _ sha256 r r' confusable)
    have contained : Over requests (replayHistory r r') := by
      intro e inside x asked
      simp only [replayHistory, List.mem_cons, List.not_mem_nil, or_false] at inside
      rcases inside with rfl | rfl | rfl | rfl <;> simp only [Event.request?, Option.some.injEq,
        reduceCtorEq] at asked
      · exact asked ▸ member'
      · exact asked ▸ member
    have same := (isolated _ contained).final replay present
    rwa [request, producer] at same
  · intro notConfused events contained
    refine (tracked_run events start tracked_start contained).imp fun s tracked replay present => ?_
    obtain ⟨key, ⟨isGuarded, member⟩, isGuarded', member'⟩ := tracked.replays replay present
    obtain ⟨name, hash⟩ := (cacheKey_eq_iff length _ _).mp key
    exact notConfused _ member _ member' isGuarded isGuarded' ⟨apart _ member _ member' hash, name⟩

/-- This is the SHA-256 of the empty body, which the function returns for every body. -/
def emptyBodySha256 (_ : List UInt8) : Str :=
  "e3b0c44298fc1c149afbf4c8996fb92427ae41e4649b934ca495991b7852b855"

theorem emptyBodySha256_length (b : List UInt8) : (emptyBodySha256 b).length = 64 := rfl

/-- A request that carries a JWT and no body. -/
def jwtRequest (token : Str) : Request where
  method := "POST"
  path := "/v1/memories"
  query := []
  xApiKey := none
  authorization := some ("Bearer " ++ token)
  idempotencyKey := some "key-1"
  body := []

/-- Two tokens that share the header of every token that the service issues. -/
def firstToken : Str := "eyJhbGciOiJIUzUxMiIsInR5cCI6IkpXVCJ9.eyJzdWIiOiIxIn0.a"

def secondToken : Str := "eyJhbGciOiJIUzUxMiIsInR5cCI6IkpXVCJ9.eyJzdWIiOiIyIn0.b"

theorem isolated_iff_not_confusable_one :
    (∀ events, Over [jwtRequest firstToken] events →
        Run.Always (step {} emptyBodySha256) Isolated start events) ↔
      ∀ r ∈ [jwtRequest firstToken], ∀ r' ∈ [jwtRequest firstToken], guarded r = true →
        guarded r' = true → Confusable {} r r' → SameRequest r r' :=
  isolated_iff_not_confusable emptyBodySha256_length (by simp)

/-- Two users with different tokens receive each other's responses. -/
theorem jwt_prefix_confuses_users :
    ¬ ∀ (sha256 : List UInt8 → Str) (requests : List Request), (∀ b, (sha256 b).length = 64) →
      (∀ r ∈ requests, ∀ r' ∈ requests,
        (sha256 r.body).take 16 = (sha256 r'.body).take 16 → r.body = r'.body) →
      ∀ events, Over requests events → Run.Always (step {} sha256) Isolated start events := by
  intro isolated
  have history := isolated emptyBodySha256 [jwtRequest firstToken, jwtRequest secondToken]
    emptyBodySha256_length (by simp [jwtRequest])
    (replayHistory (jwtRequest secondToken) (jwtRequest firstToken))
    (by
      intro e inside r asked
      simp only [replayHistory, List.mem_cons, List.not_mem_nil, or_false] at inside
      rcases inside with rfl | rfl | rfl | rfl <;> simp_all [Event.request?])
  obtain ⟨replay, present, request, producer⟩ := @replay_of_cacheKey {} emptyBodySha256
    (jwtRequest secondToken) (jwtRequest firstToken) (by decide) (by decide) (by decide)
  have same := history.final replay present
  rw [request, producer] at same
  have credentials := same.credential
  revert credentials
  decide

end Kortex.Idempotency
