import Kortex.Library.Run
import Kortex.Model.AuditedRequests
import Kortex.Proof.AuditStorage

/-
This file proves which requests leave their entry in the committed audit log.
-/

namespace Kortex.AuditedRequests

open Handler

variable (tools : LoginTools)

/-- The account has a password that is not this one, and a membership of an org. -/
structure WrongPassword (store : LoginStore) (call : LoginCall) (user : User) (org : Nat) : Prop where
  account : ∃ hash, credential tools.fold store call.payload.email = some (user, hash) ∧
    tools.hasher.verify hash call.payload.password = false
  member : orgForUser store.accounts user.id = some org

/-- This is the number of entries of an action that an actor has in the log of an org. -/
def entries (store : LoginStore) (org : Nat) (action : Str) (actorId : Nat) : Nat :=
  (Audit.ofOrg store.accounts.audit org).countP fun row =>
    row.action == action && row.actorId == some actorId

/-- The request leaves the entries that the log promises, each once. -/
def Recorded (store : LoginStore) : Request → Prop
  | .login call => ∀ user org, WrongPassword tools store call user org →
      entries (step tools store (.login call)) org loginFailed user.id =
        entries store org loginFailed user.id + 1
  | .exportScope call => ∀ content filename,
      (respond tools store (.exportScope call)).1 = .ok (.archive content filename) →
        entries (step tools store (.exportScope call)) call.principal.orgId scopeExported
            call.principal.actorId =
          entries store call.principal.orgId scopeExported call.principal.actorId + 1

/-- The columns of an entry accept the address and the user agent of the request. -/
def OriginAccepted (env : Environment) (ctx : CallContext) : Prop :=
  let origin := Audit.setOrigin ctx.originIp ctx.originAgent
  Audit.acceptsColumn Audit.maxUserAgent origin.2 = true ∧ ∀ ip, origin.1 = some ip → env.inet ip ≠ none

/-- The request promises no entry: it is no attempt with a wrong password at the account of a member,
and no export for a principal with an org. -/
def PromisesNone (store : LoginStore) : Request → Prop
  | .login call => ∀ user org, ¬ WrongPassword tools store call user org
  | .exportScope call => call.principal.orgId = 0 ∨ ¬ OriginAccepted tools.env call.context

variable {tools}

theorem respond_login (store : LoginStore) (call : LoginCall) :
    respond tools store (.login call) = match (loginWithPassword tools call).run store with
      | (.ok result, working) => (.ok (.tokens (tokenOut result)), working)
      | (.error e, _) => (.error e, store) := by
  have served := serve_call_commit (loginWithPassword tools call)
    (fun result => Reply.tokens (tokenOut result)) store
  rw [respond, handler, login, served]
  rcases (loginWithPassword tools call).run store with ⟨_ | result, working⟩ <;> rfl

theorem respond_exportScope (store : LoginStore) (call : ExportCall) :
    respond tools store (.exportScope call) =
      (((exportToTar tools call).run store).1.map fun body =>
        .archive body (archiveName call.scope), store) :=
  serve_call_pure (exportToTar tools call) (fun body => Reply.archive body (archiveName call.scope))
    store

/-- An export commits nothing. -/
theorem step_exportScope (store : LoginStore) (call : ExportCall) :
    step tools store (.exportScope call) = store := by
  rw [step, respond_exportScope]

/-- A wrong password raises, whatever was appended before. -/
theorem loginWithPassword_wrong (store : LoginStore) (call : LoginCall) (user : User) (org : Nat)
    (wrong : WrongPassword tools store call user org) :
    ∃ e, ((loginWithPassword tools call).run store).1 = .error e := by
  obtain ⟨hash, account, refused⟩ := wrong.account
  unfold loginWithPassword
  rw [Service.run_get_bind, account]
  simp only [refused, Bool.false_eq_true, if_false]
  rw [Service.run_bind]
  rcases (auditAuth tools.env call.context user.id loginFailed).run store with ⟨e | _, working⟩
  · exact ⟨e, rfl⟩
  · exact ⟨_, rfl⟩

/-- A login with a wrong password commits nothing. -/
theorem step_wrong (store : LoginStore) (call : LoginCall) (user : User) (org : Nat)
    (wrong : WrongPassword tools store call user org) : step tools store (.login call) = store := by
  obtain ⟨e, raised⟩ := loginWithPassword_wrong store call user org wrong
  rw [step, respond_login]
  rcases outcome : (loginWithPassword tools call).run store with ⟨_ | result, working⟩
  · rfl
  · rw [outcome] at raised
    simp at raised


theorem run_append (env : Environment) (input : Audit.AppendInput PyMetadata) (store : LoginStore) :
    (append env input).run store =
      match Audit.append (Audit.digestMemory env.sha256) (Audit.storedColumns env.inet)
        store.accounts.audit input with
      | .ok audit => (.ok (), { store with accounts := { store.accounts with audit := audit } })
      | .error (.valueError message) => (.error (.valueError message), store)
      | .error .databaseError => (.error .databaseError, store) := by
  unfold append
  rw [Service.run_get_bind]
  rcases Audit.append (Audit.digestMemory env.sha256) (Audit.storedColumns env.inet)
    store.accounts.audit input with (message | _) | audit <;> rfl

theorem effectiveOrg_exportEntry (call : ExportCall) (org : Nat) :
    Audit.effectiveOrg (exportEntry call) = .ok org ↔
      call.principal.orgId ≠ 0 ∧ org = call.principal.orgId := by
  have entry : (exportEntry call).orgId.or (exportEntry call).principalOrg =
      some call.principal.orgId := rfl
  unfold Audit.effectiveOrg
  rw [entry]
  cases call.principal.orgId with
  | zero => simp
  | succ n => simp [eq_comm]

/-- The columns accept the entry of an export exactly when they accept its origin. -/
theorem stored_exportEntry (env : Environment) (call : ExportCall) (org : Nat) :
    Audit.storedColumns env.inet (Audit.entryFields (exportEntry call) org) ≠ none ↔
      OriginAccepted env call.context := by
  set origin := Audit.setOrigin call.context.originIp call.context.originAgent with originEq
  set fields := Audit.entryFields (exportEntry call) org with fieldsEq
  have address : fields.ip = origin.1 := rfl
  have agent : fields.userAgent = origin.2 := rfl
  have sortable : PyValue.sortable (.obj fields.metadata.members) = true := rfl
  have storable : PyValue.storable (.obj fields.metadata.members) = true := rfl
  have action : Audit.acceptsColumn 64 (some fields.action) = true := by
    change Audit.acceptsColumn 64 (some scopeExported) = true
    decide
  have target : Audit.acceptsColumn 64 fields.targetType = true := by
    change Audit.acceptsColumn 64 (some call.scope.scopeType.value) = true
    cases call.scope.scopeType <;> decide
  unfold Audit.storedColumns
  rw [sortable, storable, action, target, agent, address]
  simp only [Bool.true_and, OriginAccepted, ← originEq]
  cases accepted : Audit.acceptsColumn Audit.maxUserAgent origin.2 with
  | false => simp
  | true => cases ip : origin.1 <;> simp

/-- An export returns its archive exactly when its principal has an org and the columns of the entry
accept its origin. -/
theorem exported_iff (store : LoginStore) (call : ExportCall) :
    (∃ content filename, (respond tools store (.exportScope call)).1 =
        .ok (.archive content filename)) ↔
      call.principal.orgId ≠ 0 ∧ OriginAccepted tools.env call.context := by
  have appended := Audit.append_eq_ok_iff (Audit.digestMemory tools.env.sha256)
    (Audit.storedColumns tools.env.inet) store.accounts.audit (exportEntry call)
  simp only [effectiveOrg_exportEntry, stored_exportEntry] at appended
  have both : (∃ org, (call.principal.orgId ≠ 0 ∧ org = call.principal.orgId) ∧
      OriginAccepted tools.env call.context) ↔
        call.principal.orgId ≠ 0 ∧ OriginAccepted tools.env call.context := by
    simp
  rw [← both, ← appended, respond_exportScope]
  unfold exportToTar
  simp only [Service.run_bind, run_append]
  rcases Audit.append (Audit.digestMemory tools.env.sha256) (Audit.storedColumns tools.env.inet)
    store.accounts.audit (exportEntry call) with (message | _) | audit
  · simp [Except.map]
  · simp [Except.map]
  · exact ⟨fun _ => ⟨audit, rfl⟩, fun _ => ⟨_, _, rfl⟩⟩

/-- A request leaves what it promises exactly when it promises nothing. -/
theorem recorded_iff (store : LoginStore) (request : Request) :
    Recorded tools store request ↔ PromisesNone tools store request := by
  cases request with
  | login call =>
      refine forall₂_congr fun user org => ⟨fun recorded wrong => ?_, fun none wrong => ?_⟩
      · have added := recorded wrong
        rw [step_wrong store call user org wrong] at added
        omega
      · exact absurd wrong none
  | exportScope call =>
      have none : PromisesNone tools store (.exportScope call) ↔
          ¬ ∃ content filename, (respond tools store (.exportScope call)).1 =
            .ok (.archive content filename) := by
        rw [exported_iff, PromisesNone]
        tauto
      rw [none]
      constructor
      · rintro recorded ⟨content, filename, returned⟩
        have added := recorded content filename returned
        rw [step_exportScope] at added
        omega
      · intro nothing content filename returned
        exact absurd ⟨content, filename, returned⟩ nothing

/-- Along a run every wrong password and every export is in the committed log exactly when the run
has neither of them. -/
theorem recorded_run_iff (tools : LoginTools) (store : LoginStore) (requests : List Request) :
    Run.Each (step tools) (Recorded tools) store requests ↔
      Run.Each (step tools) (PromisesNone tools) store requests := by
  have anyState : Run.Always (step tools) (fun _ => True) store requests :=
    Run.always_of_step (fun _ _ _ => trivial) requests trivial
  exact Run.each_iff_each anyState fun s request _ _ => recorded_iff s request

theorem run_touchLogin (now : Instant) (userId : Nat) (store : LoginStore) :
    ∃ touched, (touchLogin now userId).run store = (.ok (), touched) ∧
      touched.accounts = store.accounts := by
  unfold touchLogin
  rw [Service.run_get_bind]
  cases AuthService.userById store.accounts userId with
  | none => exact ⟨store, rfl, rfl⟩
  | some user => exact ⟨_, rfl, rfl⟩

theorem append_done (env : Environment) (input : Audit.AppendInput PyMetadata)
    (store appended : LoginStore) (done : (append env input).run store = (.ok (), appended)) :
    ∃ org columns, Audit.effectiveOrg input = .ok org ∧
      Audit.storedColumns env.inet (Audit.entryFields input org) = some columns ∧
      appended.accounts.audit = Audit.insert store.accounts.audit
        (Audit.sealRow (Audit.digestMemory env.sha256) (Audit.entryFields input org) columns
          (Audit.head store.accounts.audit org)) input.idGap := by
  rw [run_append, Audit.append] at done
  cases accepted : Audit.effectiveOrg input with
  | error e =>
      rw [accepted] at done
      cases e <;> exact absurd (Prod.mk.inj done).1 (by simp)
  | ok org =>
      rw [accepted] at done
      dsimp only at done
      cases stored : Audit.storedColumns env.inet (Audit.entryFields input org) with
      | none =>
          rw [stored] at done
          exact absurd (Prod.mk.inj done).1 (by simp)
      | some columns =>
          rw [stored] at done
          exact ⟨org, columns, rfl, stored, (Prod.mk.inj done).2 ▸ rfl⟩

/-- An append that succeeds adds one entry with its action and its actor. -/
theorem entries_append (env : Environment) (input : Audit.AppendInput PyMetadata)
    (store appended : LoginStore) (org actorId : Nat)
    (own : ∀ other, Audit.effectiveOrg input = .ok other → other = org)
    (actor : input.actorId = some actorId)
    (done : (append env input).run store = (.ok (), appended)) :
    entries appended org input.action actorId = entries store org input.action actorId + 1 := by
  obtain ⟨org, columns, accepted, stored, inserted⟩ := append_done env input store appended done
  obtain rfl := own org accepted
  obtain ⟨ip, rfl, _⟩ := Audit.storedColumns_cases env.inet _ columns stored
  rw [entries, inserted, Audit.ofOrg_insert, entries]
  simp [Audit.sealRow, Audit.entryFields, actor]

/-- A login that succeeds leaves one entry in the log of the org of its user. -/
theorem login_recorded (store : LoginStore) (call : LoginCall) (user : User) (hash : Str) (org : Nat)
    (account : credential tools.fold store call.payload.email = some (user, hash))
    (verified : tools.hasher.verify hash call.payload.password = true)
    (member : orgForUser store.accounts user.id = some org) (reply : Reply)
    (returned : (respond tools store (.login call)).1 = .ok reply) :
    entries (step tools store (.login call)) org "auth.login" user.id =
      entries store org "auth.login" user.id + 1 := by
  rw [step]
  rw [respond_login] at returned ⊢
  obtain ⟨touched, touch, accounts⟩ := run_touchLogin call.context.now user.id store
  have same : entries touched org "auth.login" user.id = entries store org "auth.login" user.id := by
    rw [entries, accounts, entries]
  unfold loginWithPassword at returned ⊢
  rw [Service.run_get_bind, account] at returned ⊢
  simp only [verified, if_true] at returned ⊢
  rw [Service.run_bind, touch] at returned ⊢
  dsimp only at returned ⊢
  rw [Service.run_bind] at returned ⊢
  have audited : (auditAuth tools.env call.context user.id "auth.login").run touched =
      (append tools.env (authEntry call.context user.id org "auth.login")).run touched := by
    unfold auditAuth
    rw [Service.run_get_bind, accounts, member]
  rw [audited] at returned ⊢
  have own : ∀ other, Audit.effectiveOrg (authEntry call.context user.id org "auth.login") = .ok other →
      other = org := by
    cases org <;> simp [Audit.effectiveOrg, authEntry, eq_comm]
  rcases done : (append tools.env (authEntry call.context user.id org "auth.login")).run touched with
    ⟨e | _, appended⟩
  · rw [done] at returned
    simp at returned
  · have added := entries_append tools.env _ touched appended org user.id own rfl done
    rw [← same]
    exact added

/-- The password of a hash is spelled in it. -/
def plainTools : LoginTools where
  env := .ascii Audit.markedText
  hasher := ⟨fun s => s, fun hash s => hash == s⟩
  fold := fun email => email

/-- One member of the org 1 has an account with a password. -/
def oneMember : LoginStore where
  accounts :=
    { users := Table.empty.insert ⟨1, 1, "grace@kortex.dev", [], false, none⟩ (Table.fresh_empty _)
      memberships := Table.empty.insert ⟨1, 1, ⟨.org, 1⟩, .member⟩ (Table.fresh_empty _) }
  passwordHash := fun _ => some "correct horse"
  lastLoginAt := fun _ => none

def wrongLogin : LoginCall where
  payload := ⟨"grace@kortex.dev", "battery staple", by decide, by decide⟩
  context := { now := 0, newPublicId := 0 }
  accessJti := 1
  refreshJti := 2

/-- A wrong password at the account of a member leaves no entry. -/
theorem wrong_password_leaves_no_entry :
    ¬ ∀ (tools : LoginTools) (store : LoginStore) (requests : List Request),
      Run.Each (step tools) (Recorded tools) store requests := by
  intro recorded
  have first := (recorded plainTools oneMember [.login wrongLogin]).1
  rw [recorded_iff] at first
  exact first ⟨1, 1, "grace@kortex.dev", [], false, none⟩ 1 ⟨⟨"correct horse", rfl, rfl⟩, rfl⟩

end Kortex.AuditedRequests
