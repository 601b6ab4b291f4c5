import Kortex.Proof.Ownership
import Kortex.Proof.ResentEdits

/-
This file proves when the retries of the client take effect once at most.
-/

namespace Kortex

namespace SignupService

variable {env : Environment} {lower fold : Str → Str} {ctx ctx' : CallContext} {hex hex' : Str}
variable {s s' : Store} {email orgName : Str}

theorem users_of_grant {p : Principal} {store after : AccountStore} (userId : Nat) (scope : ScopeRef)
    (role : Role) (done : UserService.grant env p ctx store userId scope role = .ok after) :
    after.users = store.users := by
  simp only [UserService.grant, bind_eq_ok, MemoryService.flush_eq_ok] at done
  obtain ⟨_, _, granted, upserted, audit, _, same⟩ := done
  obtain rfl := Except.ok.inj same
  show granted.users = store.users
  rw [UserService.upsert] at upserted
  split at upserted
  · rw [← Option.some.inj upserted]
  · split at upserted
    · obtain ⟨memberships, _, rfl⟩ := Option.map_eq_some_iff.mp upserted
      rfl
    · exact absurd upserted (by simp)

theorem users_of_grants (orgId userId : Nat) (scopes : List ScopeRef)
    (done : scopes.foldlM (grantOwner env ctx orgId userId) s = .ok s') : s'.users = s.users := by
  induction scopes generalizing s with
  | nil =>
      obtain rfl := Except.ok.inj done
      rfl
  | cons scope rest ih =>
      rw [List.foldlM_cons, bind_eq_ok] at done
      obtain ⟨middle, one, others⟩ := done
      rw [ih others]
      rw [grantOwner] at one
      split at one
      · rename_i accounts granted
        obtain rfl := Except.ok.inj one
        exact users_of_grant userId scope .owner granted
      · exact absurd one (by simp)

/-- A user that was created is found under its email. -/
theorem getByEmail_of_createUser (orgId userId : Nat)
    (done : createUser fold ctx s orgId email = .ok (userId, s')) :
    (UserService.getByEmail fold s'.accounts email).isSome = true := by
  rw [createUser] at done
  split at done
  · exact absurd done (by simp)
  · split at done
    · rename_i user accounts created
      obtain ⟨_, rfl⟩ := Prod.mk.inj (Except.ok.inj done)
      rw [UserService.createWithPassword] at created
      split at created
      · split at created
        · exact absurd created (throw_ne_ok _ _)
        · simp only [bind_eq_ok, MemoryService.flush_eq_ok] at created
          obtain ⟨users, inserted, same⟩ := created
          obtain ⟨own, rfl⟩ := Prod.mk.inj (Except.ok.inj same)
          have rows := (Table.insert?_eq_some _ _ _ inserted).1
          rw [UserService.getByEmail, List.find?_isSome]
          refine ⟨user, ?_, ?_⟩
          · show user ∈ users.rows
            rw [rows, own]
            exact List.mem_append_right _ (List.mem_singleton_self _)
          · rw [← own]
            simp
      · exact absurd created (throw_ne_ok _ _)
    · exact absurd done (by simp)

theorem registered (done : register env lower fold ctx hex s email orgName = .ok s') :
    (UserService.getByEmail fold s'.accounts email).isSome = true := by
  simp only [register] at done
  split at done
  · exact absurd done (throw_ne_ok _ _)
  simp only [bind_eq_ok] at done
  obtain ⟨⟨orgId, s₁⟩, _, ⟨workspaceId, s₂⟩, _, ⟨userId, s₃⟩, created, granted⟩ := done
  have users := users_of_grants orgId userId _ granted
  have found := getByEmail_of_createUser orgId userId created
  rw [UserService.getByEmail] at found ⊢
  show (List.find? _ s'.users.rows).isSome = true
  rw [users]
  exact found

/-- A second registration of the email is refused. -/
theorem register_again (taken : (UserService.getByEmail fold s.accounts email).isSome = true) :
    register env lower fold ctx hex s email orgName = .error (.refused emailTaken) := by
  simp only [register, taken, if_true]
  rfl

end SignupService

namespace SdkClient

open MemoryService MemoryTool

/-- These are the names of the headers that a client sets. -/
def headerNames : List Str :=
  ["User-Agent".toList, "Accept".toList, "X-API-Key".toList, "Authorization".toList]

/-- Every header of the dictionary has one of the names. -/
def Named (headers : Dict Str Str) : Prop := ∀ name ∈ headers.map Prod.fst, name ∈ headerNames

theorem named_set (headers : Dict Str Str) (key value : Str) (named : Named headers)
    (known : key ∈ headerNames) : Named (Dict.set headers key value) := by
  intro name inside
  rcases (Dict.mem_keys_set headers key name value).mp inside with rfl | other
  · exact known
  · exact named name other

theorem named_of_built (headers : Dict Str Str) (built : Built headers) : Named headers := by
  induction built with
  | init apiKey token environmentKey userAgent =>
      have start : Named [("User-Agent".toList, userAgent),
          ("Accept".toList, "application/json".toList)] := by
        intro name inside
        simp only [List.map_cons, List.map_nil, List.mem_cons, List.not_mem_nil, or_false] at inside
        rcases inside with rfl | rfl
        · decide
        · decide
      unfold buildHeaders
      simp only
      split
      · exact named_set _ _ _ start (by decide)
      · split
        · exact named_set _ _ _ start (by decide)
        · exact start
  | setToken headers token _ ih =>
      apply named_set _ _ _ _ (by decide)
      intro name inside
      obtain ⟨entry, own, rfl⟩ := List.mem_map.mp inside
      exact ih entry.1 (List.mem_map_of_mem (List.mem_filter.mp own).1)

variable {d : Deployment} {encoding : Encoding} {client : Client} {attempts : Nat → Attempt}

/-- No request of the client carries a key. -/
theorem not_guarded (call : Call) : Idempotency.guarded (httpRequest encoding client call) = false := by
  have absent : header client.headers "idempotency-key".toList = none := by
    rw [header, Option.map_eq_none_iff, List.find?_eq_none]
    intro entry inside
    have known := named_of_built client.headers client.built entry.1 (List.mem_map_of_mem inside)
    have other : ∀ name ∈ headerNames, Idempotency.lower name ≠ "idempotency-key".toList := by decide
    simpa using other entry.1 known
  rw [Idempotency.guarded, httpRequest, absent]
  simp

theorem store_process (call : Call) (id : Nat) (s : Server) (e : Execution) :
    (process d call (httpRequest encoding client call) id s e).store = handle d call s.store e := by
  simp only [process, not_guarded, Bool.false_eq_true, if_false]

/-- These are the executions in the attempts that the loop makes. -/
def executed (client : Client) (attempts : Nat → Attempt) : Nat → Nat → List Execution
  | 0, _ => []
  | fuel + 1, n => (attempts n).execution.toList ++
      if shouldRetry (attempts n).status n client.maxRetries then executed client attempts fuel (n + 1)
      else []

theorem store_arrive (call : Call) (s : Server) (n : Nat) :
    (arrive d encoding client call attempts s n).store =
      Run.final (handle d call) s.store (attempts n).execution.toList := by
  unfold arrive
  split
  · rename_i lost
    rw [lost]
    rfl
  · rename_i e reached
    rw [reached, store_process]
    rfl

variable (d encoding client attempts) in
/-- The loop ends, and runs the handler for each execution in the attempts that it makes. -/
theorem sendLoop_final (call : Call) (fuel n : Nat) (s : Server)
    (enough : client.maxRetries < (n + fuel : Nat)) :
    ∃ s' status, sendLoop d encoding client call attempts (fuel + 1) n s = some (s', status) ∧
      s'.store = Run.final (handle d call) s.store (executed client attempts (fuel + 1) n) := by
  induction fuel generalizing n s with
  | zero =>
      have last : shouldRetry (attempts n).status n client.maxRetries = false := by
        rw [shouldRetry, if_pos (by omega)]
      refine ⟨_, _, by rw [sendLoop]; simp only [last]; rfl, ?_⟩
      rw [executed, last, store_arrive]
      simp
  | succ fuel ih =>
      rw [sendLoop, executed]
      cases again : shouldRetry (attempts n).status n client.maxRetries with
      | false =>
          refine ⟨_, _, rfl, ?_⟩
          rw [store_arrive]
          simp
      | true =>
          obtain ⟨s', status, done, final⟩ :=
            ih (n + 1) (arrive d encoding client call attempts s n) (by omega)
          refine ⟨s', status, done, ?_⟩
          rw [final, store_arrive, if_pos rfl, Run.final_append]

/-- The execution would add something to what an earlier one has done. -/
def Adds (d : Deployment) (call : Call) (s : Store) (e : Execution) : Prop :=
  match call with
  | .remember payload embedInline =>
      StoresForced d.env d.principal e.context s.db payload embedInline
  | .memoryTool scope sensitivity command _ =>
      ¬ ReplacesItself command ∧ EditsFile (backend d scope sensitivity) e.context s.db command
  | _ => False

theorem commit_of_same {A : Type} (s : Store) (result : Except ServiceError (A × Session))
    (same : dbAfter s.db result = s.db) : commit s result = s := by
  show { s with db := dbAfter s.db result } = s
  rw [same]

/-- A forced write adds a row or leaves the tables alone. -/
theorem remember_cases (payload : CreateMemoryInput) (embedInline : Bool) (s : Store) (e : Execution) :
    (Adds d (.remember payload embedInline) s e ∧
      (handle d (.remember payload embedInline) s e).db.memories.rows.length =
        s.db.memories.rows.length + 1) ∨
    (¬ Adds d (.remember payload embedInline) s e ∧ handle d (.remember payload embedInline) s e = s) := by
  have adds : (∃ result, write d.env d.principal e.context ⟨s.db, {}⟩ payload embedInline true =
      .ok result) ↔ StoresForced d.env d.principal e.context s.db payload embedInline :=
    write_forced_iff s.db payload embedInline
  simp only [handle, Adds]
  cases done : write d.env d.principal e.context ⟨s.db, {}⟩ payload embedInline true with
  | ok result => exact Or.inl ⟨adds.mp ⟨result, done⟩, length_of_forced s.db payload embedInline _ _ done⟩
  | error failure =>
      refine Or.inr ⟨fun stores => ?_, commit_of_same s _ rfl⟩
      obtain ⟨result, done'⟩ := adds.mpr stores
      exact absurd (done.symm.trans done') (by simp)

/-- Under a measure that every effect raises, the retries take effect once unless an execution adds. -/
theorem once_of_measure {M : Type} [Preorder M] {call : Call} (measure : Store → M)
    (raises : ∀ s e, (Adds d call s e ∧ measure s < measure (handle d call s e)) ∨
      (¬ Adds d call s e ∧ handle d call s e = s))
    (level : ∀ start e e', handle d call start e ≠ start → handle d call start e' ≠ start →
      measure (handle d call start e) = measure (handle d call start e'))
    (start : Store) (executions : List Execution) :
    Retry.OnceAtMost (handle d call) start executions (Run.final (handle d call) start executions) ↔
      Run.Each (handle d call) (fun s e => s = start ∨ ¬ Adds d call s e) start executions := by
  have still (s : Store) (e : Execution) : handle d call s e = s ↔ ¬ Adds d call s e := by
    rcases raises s e with ⟨adds, up⟩ | ⟨none, same⟩
    · refine ⟨fun same => ?_, fun none => absurd adds none⟩
      rw [same] at up
      exact absurd up (lt_irrefl _)
    · exact ⟨fun _ => none, fun _ => same⟩
  rw [Retry.onceAtMost_iff_of_measure measure
    (fun s e => (raises s e).elim (fun up => Or.inr up.2) fun none => Or.inl none.2) (level start)]
  simp only [still]

/-- Where a second execution hides the first one and none adds, the retries take effect once. -/
theorem once_of_twice {call : Call} (twice : ∀ s e e', handle d call (handle d call s e) e' =
      handle d call s e ∨ handle d call (handle d call s e) e' = handle d call s e')
    (none : ∀ s e, ¬ Adds d call s e) (start : Store) (executions : List Execution) :
    Retry.OnceAtMost (handle d call) start executions (Run.final (handle d call) start executions) ↔
      Run.Each (handle d call) (fun s e => s = start ∨ ¬ Adds d call s e) start executions := by
  refine iff_of_true (Retry.onceAtMost_of_overwrites (twice start) executions) ?_
  simp only [none, not_false_iff, or_true]
  exact Run.each_true executions

/-- A commit after a commit is the commit of the tables together. -/
theorem commit_twice (after : CallContext → Database → Database) (s : Store) (e e' : Execution)
    (twice : after e'.context (after e.context s.db) = after e.context s.db ∨
      after e'.context (after e.context s.db) = after e'.context s.db) :
    let commits (s : Store) (e : Execution) : Store := { s with db := after e.context s.db }
    commits (commits s e) e' = commits s e ∨ commits (commits s e) e' = commits s e' := by
  intro commits
  rcases twice with same | hidden
  · left
    simp only [commits, same]
  · right
    simp only [commits, hidden]

theorem register_twice (email orgName : Str) (s : Store) (e e' : Execution) :
    handle d (.register email orgName) (handle d (.register email orgName) s e) e' =
      handle d (.register email orgName) s e ∨
    handle d (.register email orgName) (handle d (.register email orgName) s e) e' =
      handle d (.register email orgName) s e' := by
  simp only [handle]
  cases done : SignupService.register d.env d.lower d.fold e.context e.hex s email orgName with
  | error failure => exact Or.inr rfl
  | ok s' =>
      left
      simp only
      rw [SignupService.register_again (SignupService.registered done)]

theorem once_memoryTool (scope : ScopeFilter) (sensitivity : Sensitivity) (command : JsonDict)
    (edits : commandOf (Dict.get? command "command".toList) ∈ [some Command.insert, some .strReplace])
    (start : Store) (executions : List Execution) :
    let call : Call := .memoryTool scope sensitivity command edits
    Retry.OnceAtMost (handle d call) start executions (Run.final (handle d call) start executions) ↔
      Run.Each (handle d call) (fun s e => s = start ∨ ¬ Adds d call s e) start executions := by
  intro call
  by_cases itself : ReplacesItself command
  · apply once_of_twice
    · intro s e e'
      exact commit_twice (toolAfter (backend d scope sensitivity) command) s e e'
        (toolAfter_twice itself e.context e'.context s.db)
    · intro s e adds
      exact adds.1 itself
  · have measured {M : Type} [Preorder M] (measure : Str → M)
        (raises : ∀ db m text front back, EditsTo (backend d scope sensitivity) db command m text →
          measure (front ++ m.body ++ back) < measure (front ++ text ++ back)) :
        Retry.OnceAtMost (handle d call) start executions (Run.final (handle d call) start executions) ↔
          Run.Each (handle d call) (fun s e => s = start ∨ ¬ Adds d call s e) start executions := by
      apply once_of_measure fun s => measure (texts s.db)
      · intro s e
        rcases raises_toolAfter measure raises edits e.context s.db with ⟨accepted, up⟩ | ⟨refused, same⟩
        · exact Or.inl ⟨⟨itself, accepted⟩, up⟩
        · exact Or.inr ⟨fun adds => refused adds.2, commit_of_same s _ same⟩
      · intro start e e' moved moved'
        have changed (e : Execution) (moved : handle d call start e ≠ start) :
            toolAfter (backend d scope sensitivity) command e.context start.db ≠ start.db :=
          fun same => moved (commit_of_same start _ same)
        exact congrArg measure (texts_toolAfter edits (changed e moved) (changed e' moved'))
    rcases toolAfter_goes edits itself with up | down
    · exact measured weight up
    · exact measured (fun text => OrderDual.toDual (weight text)) down

/-- The requests that take effect once at most are those whose executions add nothing later. -/
theorem once_iff (call : Call) (start : Store) (executions : List Execution) :
    Retry.OnceAtMost (handle d call) start executions (Run.final (handle d call) start executions) ↔
      Run.Each (handle d call) (fun s e => s = start ∨ ¬ Adds d call s e) start executions := by
  cases call with
  | remember payload embedInline =>
      apply once_of_measure fun s => s.db.memories.rows.length
      · intro s e
        rcases remember_cases payload embedInline s e with ⟨adds, longer⟩ | refused
        · refine Or.inl ⟨adds, ?_⟩
          rw [longer]
          exact Nat.lt_succ_self _
        · exact Or.inr refused
      · intro start e e' moved moved'
        have longer (e : Execution) (moved : handle d (.remember payload embedInline) start e ≠ start) :=
          (remember_cases payload embedInline start e).elim And.right fun none => absurd none.2 moved
        rw [longer e moved, longer e' moved']
  | memoryTool scope sensitivity command edits =>
      exact once_memoryTool scope sensitivity command edits start executions
  | update publicId patch =>
      apply once_of_twice _ fun _ _ => id
      intro s e e'
      exact commit_twice
        (fun ctx db => dbAfter db (MemoryService.update d.principal ctx ⟨db, {}⟩ publicId patch)) s e e'
        (update_twice e.context e'.context s.db publicId patch)
  | register email orgName =>
      exact once_of_twice (register_twice email orgName) (fun _ _ => id) start executions
  | bulk action publicIds =>
      apply once_of_twice _ fun _ _ => id
      intro s e e'
      exact commit_twice
        (fun ctx db => dbAfter db (bulkApply d.env d.principal ctx action ⟨db, {}⟩ publicIds)) s e e'
        (bulk_twice e.context e'.context action s.db publicIds)

/-- Sending ends, and its request has taken effect once at most exactly when no execution has added
something to the tables that another one had changed. -/
theorem send_once_iff (d : Deployment) (encoding : Encoding) (client : Client) (call : Call)
    (attempts : Nat → Attempt) (s : Server) :
    let executions := executed client attempts (client.maxRetries.toNat + 1) 1
    ∃ s' status, send d encoding client call attempts s = some (s', status) ∧
      (Retry.OnceAtMost (handle d call) s.store executions s'.store ↔
        Run.Each (handle d call) (fun store e => store = s.store ∨ ¬ Adds d call store e) s.store
          executions) := by
  intro executions
  obtain ⟨s', status, sent, final⟩ := sendLoop_final d encoding client attempts call
    client.maxRetries.toNat 1 s (by omega)
  refine ⟨s', status, sent, ?_⟩
  rw [final]
  exact once_iff call s.store executions

/-! A sample of a client whose first reply is lost. -/

def sampleDeployment : Deployment where
  env := sampleEnvironment
  lower := Idempotency.lower
  fold := Idempotency.lower
  bodySha256 _ := []
  principal := sampleOwner

def sampleClient : Client where
  headers := buildHeaders (some "key") none none "kortex"
  built := .init (some "key") none none "kortex"

def rememberForced : Call := .remember { scope := sampleScope, body := "x" } false

/-- Both attempts reach the server, and the reply to the first one is lost. -/
def firstReplyLost (n : Nat) : Attempt where
  execution := some { context := { now := n, newPublicId := BitVec.ofNat 128 n }
                      reply := { status := 201, body := [], mediaType := none, headers := [] } }
  status := if n = 1 then none else some 201

theorem lost_reply_doubles_memory :
    ¬ ∀ (d : Deployment) (encoding : Encoding) (client : Client) (call : Call)
      (attempts : Nat → Attempt) (s s' : Server) (status : Option Nat),
      send d encoding client call attempts s = some (s', status) →
        Retry.OnceAtMost (handle d call) s.store
          (executed client attempts (client.maxRetries.toNat + 1) 1) s'.store := by
  intro claim
  have two : (send sampleDeployment ⟨fun _ => [], fun _ => []⟩ sampleClient rememberForced
      firstReplyLost ⟨{ db := {} }, Idempotency.start⟩).map
        (fun result => result.1.store.db.memories.rows.length) = some 2 := by
    decide +kernel
  obtain ⟨⟨s', status⟩, sent, rows⟩ := Option.map_eq_some_iff.mp two
  rcases claim _ _ _ _ _ _ s' status sent with same | ⟨e, _, same⟩
  · rw [same] at rows
    exact absurd rows (by decide)
  · rw [same] at rows
    rcases remember_cases _ _ _ e with ⟨_, one⟩ | ⟨_, none⟩
    · exact absurd (rows.symm.trans one) (by decide)
    · have zero := congrArg (fun s : Store => s.db.memories.rows.length) none
      exact absurd (rows.symm.trans zero) (by decide)

end SdkClient
end Kortex
