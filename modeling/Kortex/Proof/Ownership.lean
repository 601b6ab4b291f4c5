import Kortex.Library.Run
import Kortex.Model.Accounts
import Kortex.Proof.MemoryService

/-
This file proves when the owners of a scope are changed by its owners only.
-/

namespace Kortex.UserService

open MemoryService

variable {env : Environment} {p : Principal} {ctx : CallContext} {fold : Str → Str}
  {store after : AccountStore}

/-- The user holds OWNER on the scope. -/
def IsOwner (store : AccountStore) (userId : Nat) (scope : ScopeRef) : Prop :=
  ∃ m ∈ store.memberships.rows, m.userId = userId ∧ m.scope = scope ∧ m.role = .owner

/-- The audit log has an org for the entry of the call, and accepts the address. -/
structure Recorded (env : Environment) (p : Principal) (ctx : CallContext) : Prop where
  org : p.orgId ≠ 0
  address : ∀ ip, (Audit.setOrigin ctx.originIp ctx.originAgent).1 = some ip → (env.inet ip).isSome

theorem recordAudit_isOk (audit : AuditTable JsonDict) (action targetType : Str) (targetId : Nat)
    (metadata : JsonDict) :
    (∃ audit', recordAudit env p ctx audit action targetType targetId metadata = .ok audit') ↔
      Recorded env p ctx := by
  have address : Audit.orElse none (Audit.setOrigin ctx.originIp ctx.originAgent).1 =
      (Audit.setOrigin ctx.originIp ctx.originAgent).1 := rfl
  cases org : p.orgId with
  | zero =>
      simp only [recordAudit, Audit.append, Audit.effectiveOrg, org]
      constructor
      · rintro ⟨_, done⟩
        exact absurd done (by simp)
      · exact fun recorded => absurd org recorded.org
  | succ n =>
      have bound : p.orgId ≠ 0 := by omega
      simp only [recordAudit, Audit.append, Audit.effectiveOrg, org, Audit.entryFields, address]
      cases ip : (Audit.setOrigin ctx.originIp ctx.originAgent).1 with
      | none => exact ⟨fun _ => ⟨bound, by simp [ip]⟩, fun _ => ⟨_, rfl⟩⟩
      | some ip' =>
          cases canonical : env.inet ip' with
          | none =>
              constructor
              · rintro ⟨_, done⟩
                simp [canonical] at done
              · exact fun recorded => absurd (recorded.address ip' ip) (by simp [canonical])
          | some _ =>
              constructor
              · exact fun _ => ⟨bound, by simp [ip, canonical]⟩
              · exact fun _ => ⟨_, by simp [canonical]; rfl⟩

/-! What a call does to the owners. -/

theorem membershipOf_some (userId : Nat) (scope : ScopeRef) (m : Membership)
    (found : membershipOf store userId scope = some m) :
    m ∈ store.memberships.rows ∧ m.userId = userId ∧ m.scope = scope := by
  have chosen := List.find?_some found
  simp only [Bool.and_eq_true, beq_iff_eq] at chosen
  exact ⟨List.mem_of_find?_eq_some found, chosen.1, chosen.2⟩

theorem membershipOf_none (userId : Nat) (scope : ScopeRef)
    (absent : membershipOf store userId scope = none) (m : Membership)
    (present : m ∈ store.memberships.rows) : ¬ (m.userId = userId ∧ m.scope = scope) := by
  have other := List.find?_eq_none.mp absent m present
  simpa using other

/-- A membership is known by its id, and by its user and scope. -/
theorem membership_ext (a b : Membership) (first : a ∈ store.memberships.rows)
    (second : b ∈ store.memberships.rows) :
    a.id = b.id ↔ a.userId = b.userId ∧ a.scope = b.scope := by
  rcases Table.eq_or_apart store.memberships a b first second with rfl | separate | separate
  · simp
  · obtain ⟨less, other⟩ := separate
    refine ⟨fun same => absurd less (by simp [same]), fun same => ?_⟩
    exact absurd (Prod.ext same.1 same.2) other
  · obtain ⟨less, other⟩ := separate
    refine ⟨fun same => absurd less (by simp [same]), fun same => ?_⟩
    exact absurd (Prod.ext same.1.symm same.2.symm) other

/-- After an upsert the user holds the role, and all other memberships stay. -/
theorem isOwner_upsert (userId : Nat) (scope : ScopeRef) (role : Role)
    (done : upsert ctx store userId scope role = some after) (other : Nat) (otherScope : ScopeRef) :
    IsOwner after other otherScope ↔
      if other = userId ∧ otherScope = scope then role = .owner else IsOwner store other otherScope := by
  rw [upsert] at done
  split at done
  · rename_i existing found
    obtain ⟨present, rfl, rfl⟩ := membershipOf_some userId scope existing found
    obtain rfl := Option.some.inj done
    have changed (m : Membership) (inside : m ∈ store.memberships.rows) :
        (m.id == existing.id) = true ↔ m.userId = existing.userId ∧ m.scope = existing.scope := by
      rw [beq_iff_eq, membership_ext m existing inside present]
    simp only [IsOwner, Table.mem_update, Table.changeRow]
    constructor
    · rintro ⟨_, ⟨m, inside, rfl⟩, rfl, rfl, owner⟩
      split at owner
      · rename_i chosen
        simp only [if_pos chosen]
        rwa [if_pos ((changed m inside).mp chosen)]
      · rename_i kept
        simp only [if_neg kept]
        rw [if_neg fun same => kept ((changed m inside).mpr same)]
        exact ⟨m, inside, rfl, rfl, owner⟩
    · intro owner
      split at owner
      · rename_i same
        refine ⟨_, ⟨existing, present, rfl⟩, ?_⟩
        simp [same.1, same.2, owner]
      · rename_i different
        obtain ⟨m, inside, rfl, rfl, owner⟩ := owner
        refine ⟨_, ⟨m, inside, rfl⟩, ?_⟩
        rw [if_neg fun chosen => different ((changed m inside).mp chosen)]
        exact ⟨rfl, rfl, owner⟩
  · rename_i absent
    split at done
    · obtain ⟨memberships, inserted, rfl⟩ := Option.map_eq_some_iff.mp done
      simp only [IsOwner, (Table.insert?_eq_some _ _ _ inserted).1, List.mem_append,
        List.mem_singleton]
      constructor
      · rintro ⟨m, old | rfl, rfl, rfl, owner⟩
        · rw [if_neg (membershipOf_none userId scope absent m old)]
          exact ⟨m, old, rfl, rfl, owner⟩
        · rwa [if_pos ⟨rfl, rfl⟩]
      · intro owner
        split at owner
        · rename_i same
          exact ⟨_, Or.inr rfl, same.1.symm, same.2.symm, owner⟩
        · obtain ⟨m, old, rfl, rfl, owner⟩ := owner
          exact ⟨m, Or.inl old, rfl, rfl, owner⟩
    · exact absurd done (by simp)

theorem isOwner_delete (m : Membership) (present : m ∈ store.memberships.rows)
    (deleted : after.memberships = store.memberships.delete fun row => row.id == m.id) (other : Nat)
    (otherScope : ScopeRef) :
    IsOwner after other otherScope ↔
      ¬ (other = m.userId ∧ otherScope = m.scope) ∧ IsOwner store other otherScope := by
  have kept (row : Membership) (inside : row ∈ store.memberships.rows) :
      (!(row.id == m.id)) = true ↔ ¬ (row.userId = m.userId ∧ row.scope = m.scope) := by
    rw [← membership_ext row m inside present]
    simp
  simp only [IsOwner, deleted, Table.delete, List.mem_filter]
  constructor
  · rintro ⟨row, ⟨inside, stays⟩, rfl, rfl, owner⟩
    exact ⟨(kept row inside).mp stays, row, inside, rfl, rfl, owner⟩
  · rintro ⟨different, row, inside, rfl, rfl, owner⟩
    exact ⟨row, ⟨inside, (kept row inside).mpr different⟩, rfl, rfl, owner⟩

/-! One call, and the membership that it addresses. -/

/-- These are the user, the scope and the new role that a call addresses; none is no role. -/
def target (p : Principal) (ctx : CallContext) (fold : Str → Str) (store : AccountStore) :
    Change → Option (Nat × ScopeRef × Option Role)
  | .grant userId scope role => some (userId, scope, some role)
  | .revoke userId scope => some (userId, scope, none)
  | .invite email role => match invitee p ctx fold store email with
      | .ok (user, _) => some (user.id, ⟨.org, p.orgId⟩, some role)
      | .error _ => none

/-- This is the decision of the service about a call. -/
def permits (p : Principal) (scope : ScopeRef) (role : Option Role) : Bool :=
  if role = some .owner then AccessControl.canOwn p scope else AccessControl.canAdmin p scope

theorem requireGrant_eq_ok (scope : ScopeRef) (role : Role) (u : Unit) :
    requireGrant p scope role = .ok u ↔ permits p scope (some role) = true := by
  simp only [requireGrant, permits, Option.some.injEq]
  split
  · rename_i allowed
    simp [allowed]
  · simp

theorem requireRevoke_eq_ok (scope : ScopeRef) (u : Unit) :
    requireRevoke p scope = .ok u ↔ permits p scope none = true := by
  simp only [requireRevoke, permits, reduceCtorEq, if_false]
  split
  · rename_i allowed
    simp [allowed]
  · rename_i denied
    simp [denied]

/-- After the call, the user owns the scope exactly when the new role is OWNER. -/
structure Sets (env : Environment) (p : Principal) (ctx : CallContext) (store after : AccountStore)
    (userId : Nat) (scope : ScopeRef) (role : Option Role) : Prop where
  permitted : permits p scope role = true
  recorded : Recorded env p ctx ∨ after.memberships = store.memberships
  owners : ∀ other otherScope, IsOwner after other otherScope ↔
    if other = userId ∧ otherScope = scope then role = some .owner
    else IsOwner store other otherScope

theorem grant_cases (userId : Nat) (scope : ScopeRef) (role : Role)
    (done : grant env p ctx store userId scope role = .ok after) :
    Sets env p ctx store after userId scope (some role) := by
  simp only [grant, bind_eq_ok, flush_eq_ok, requireGrant_eq_ok] at done
  obtain ⟨_, permitted, granted, upserted, audit, written, same⟩ := done
  obtain rfl := Except.ok.inj same
  refine ⟨permitted, Or.inl ((recordAudit_isOk ..).mp ⟨audit, written⟩), fun other otherScope => ?_⟩
  rw [Option.some.injEq]
  exact isOwner_upsert userId scope role upserted other otherScope

theorem revoke_cases (userId : Nat) (scope : ScopeRef)
    (done : revoke env p ctx store userId scope = .ok after) :
    Sets env p ctx store after userId scope none := by
  simp only [revoke, bind_eq_ok, requireRevoke_eq_ok] at done
  obtain ⟨_, permitted, done⟩ := done
  split at done
  · rename_i absent
    obtain rfl := Except.ok.inj done
    refine ⟨permitted, Or.inr rfl, fun other otherScope => ?_⟩
    split
    · rename_i same
      simp only [reduceCtorEq, iff_false]
      rintro ⟨m, present, rfl, rfl, _⟩
      exact membershipOf_none userId scope absent m present same
    · exact Iff.rfl
  · rename_i m found
    simp only [bind_eq_ok] at done
    obtain ⟨audit, written, same⟩ := done
    obtain rfl := Except.ok.inj same
    obtain ⟨present, rfl, rfl⟩ := membershipOf_some userId scope m found
    refine ⟨permitted, Or.inl ((recordAudit_isOk ..).mp ⟨audit, written⟩), fun other otherScope => ?_⟩
    rw [isOwner_delete m present rfl other otherScope]
    split
    · rename_i same
      simp [same]
    · rename_i different
      simp [different]

theorem invitee_memberships (email : Str) (user : User) (invited : AccountStore)
    (done : invitee p ctx fold store email = .ok (user, invited)) :
    invited.memberships = store.memberships := by
  rw [invitee] at done
  split at done
  · obtain ⟨_, rfl⟩ := Prod.mk.inj (Except.ok.inj done)
    rfl
  · rw [createWithPassword] at done
    split at done
    · split at done
      · exact absurd done (throw_ne_ok _ _)
      · simp only [bind_eq_ok, flush_eq_ok] at done
        obtain ⟨users, _, same⟩ := done
        obtain ⟨_, rfl⟩ := Prod.mk.inj (Except.ok.inj same)
        rfl
    · exact absurd done (throw_ne_ok _ _)

theorem isOwner_congr {other : AccountStore} (same : other.memberships = store.memberships)
    (userId : Nat) (scope : ScopeRef) : IsOwner other userId scope ↔ IsOwner store userId scope := by
  rw [IsOwner, IsOwner, same]

/-- A call that goes through sets the membership that it addresses. -/
theorem perform_cases (change : Change)
    (done : perform env p ctx fold store change = .ok after) :
    ∃ userId scope role, target p ctx fold store change = some (userId, scope, role) ∧
      Sets env p ctx store after userId scope role := by
  cases change with
  | grant userId scope role => exact ⟨userId, scope, some role, rfl, grant_cases userId scope role done⟩
  | revoke userId scope => exact ⟨userId, scope, none, rfl, revoke_cases userId scope done⟩
  | invite email role =>
      simp only [perform, inviteMember, bind_eq_ok] at done
      obtain ⟨⟨user, invited⟩, found, granted⟩ := done
      have sets := grant_cases user.id ⟨.org, p.orgId⟩ role granted
      have same := invitee_memberships email user invited found
      refine ⟨user.id, ⟨.org, p.orgId⟩, some role, by simp [target, found], sets.permitted, ?_, ?_⟩
      · exact sets.recorded.imp_right fun kept => kept.trans same
      · intro other otherScope
        rw [sets.owners, isOwner_congr same]

variable (ctx) in
theorem upsert_of_membership (userId : Nat) (scope : ScopeRef) (role : Role)
    (owner : IsOwner store userId scope) : ∃ after, upsert ctx store userId scope role = some after := by
  obtain ⟨m, present, rfl, rfl, _⟩ := owner
  rw [upsert]
  cases found : membershipOf store m.userId m.scope with
  | none => exact absurd ⟨rfl, rfl⟩ (membershipOf_none _ _ found m present)
  | some existing => exact ⟨_, rfl⟩

theorem grant_isOk (userId : Nat) (scope : ScopeRef) (role : Role)
    (owner : IsOwner store userId scope) (permitted : permits p scope (some role) = true)
    (recorded : Recorded env p ctx) : ∃ after, grant env p ctx store userId scope role = .ok after := by
  obtain ⟨granted, upserted⟩ := upsert_of_membership ctx userId scope role owner
  obtain ⟨audit, written⟩ := (recordAudit_isOk granted.audit "member.granted" "user" userId
    (auditMetadata scope (some role))).mpr recorded
  refine ⟨{ granted with audit := audit }, ?_⟩
  simp only [grant, bind_eq_ok, flush_eq_ok, requireGrant_eq_ok]
  exact ⟨(), permitted, granted, upserted, audit, written, rfl⟩

theorem revoke_isOk (userId : Nat) (scope : ScopeRef) (permitted : permits p scope none = true)
    (recorded : Recorded env p ctx) : ∃ after, revoke env p ctx store userId scope = .ok after := by
  simp only [revoke, bind_eq_ok, requireRevoke_eq_ok]
  cases found : membershipOf store userId scope with
  | none => exact ⟨store, (), permitted, rfl⟩
  | some m =>
      obtain ⟨audit, written⟩ := (recordAudit_isOk store.audit "member.revoked" "user" userId
        (auditMetadata scope none)).mpr recorded
      exact ⟨_, (), permitted, by simp only [bind_eq_ok]; exact ⟨audit, written, rfl⟩⟩

/-- A permitted call about an owner goes through. -/
theorem perform_isOk (change : Change) (userId : Nat) (scope : ScopeRef) (role : Option Role)
    (addressed : target p ctx fold store change = some (userId, scope, role))
    (owner : IsOwner store userId scope) (permitted : permits p scope role = true)
    (recorded : Recorded env p ctx) : ∃ after, perform env p ctx fold store change = .ok after := by
  cases change with
  | grant userId' scope' role' =>
      obtain ⟨rfl, rfl, rfl⟩ : userId' = userId ∧ scope' = scope ∧ some role' = role := by
        simpa [target] using addressed
      exact grant_isOk userId' scope' role' owner permitted recorded
  | revoke userId' scope' =>
      obtain ⟨rfl, rfl, rfl⟩ : userId' = userId ∧ scope' = scope ∧ none = role := by
        simpa [target] using addressed
      exact revoke_isOk userId' scope' permitted recorded
  | invite email role' =>
      rw [target] at addressed
      split at addressed
      · rename_i user invited found
        obtain ⟨rfl, rfl, rfl⟩ : user.id = userId ∧ ⟨.org, p.orgId⟩ = scope ∧ some role' = role := by
          simpa using addressed
        have same := isOwner_congr (invitee_memberships email user invited found) user.id
          ⟨.org, p.orgId⟩
        have owns : IsOwner invited user.id ⟨.org, p.orgId⟩ := same.mpr owner
        obtain ⟨after, granted⟩ := grant_isOk user.id ⟨.org, p.orgId⟩ role' owns permitted recorded
        exact ⟨after, by simp only [perform, inviteMember, bind_eq_ok]; exact ⟨_, found, granted⟩⟩
      · exact absurd addressed (by simp)

/-! Along a run the roles of the callers are derived before each call. -/

/-- Whoever changes the owners of a scope owns it. -/
def ChangesByOwners (env : Environment) (fold : Str → Str) (store : AccountStore) (call : Call) :
    Prop :=
  ∀ userId scope,
    ¬ (IsOwner (step env fold store call) userId scope ↔ IsOwner store userId scope) →
      ∃ p, principalOf store call.caller = .ok p ∧ AccessControl.canOwn p scope = true

/-- No one but an owner of the scope takes OWNER from a user, be it by another role or by none. -/
def SparesOwners (env : Environment) (fold : Str → Str) (store : AccountStore) (call : Call) : Prop :=
  ∀ p, principalOf store call.caller = .ok p → Recorded env p call.context →
    ∀ userId scope role, target p call.context fold store call.change = some (userId, scope, role) →
      role ≠ some .owner → IsOwner store userId scope → AccessControl.canAdmin p scope = true →
        AccessControl.canOwn p scope = true

theorem step_of_perform (call : Call) (loaded : principalOf store call.caller = .ok p)
    (done : perform env p call.context fold store call.change = .ok after) :
    step env fold store call = after := by
  rw [step, loaded]
  simp only [done]

theorem step_cases (env : Environment) (fold : Str → Str) (store : AccountStore) (call : Call) :
    step env fold store call = store ∨ ∃ p, principalOf store call.caller = .ok p ∧
      perform env p call.context fold store call.change = .ok (step env fold store call) := by
  cases loaded : principalOf store call.caller with
  | error e => exact Or.inl (by simp [step, loaded])
  | ok p =>
      cases done : perform env p call.context fold store call.change with
      | error e => exact Or.inl (by simp [step, loaded, done])
      | ok after => exact Or.inr ⟨p, rfl, by rw [step_of_perform call loaded done, done]⟩

/-- A call changes owners by owners only, exactly when it spares the owners. -/
theorem changesByOwners_iff (env : Environment) (fold : Str → Str) (store : AccountStore)
    (call : Call) : ChangesByOwners env fold store call ↔ SparesOwners env fold store call := by
  constructor
  · intro byOwners p loaded recorded userId scope role addressed other owner admin
    have permitted : permits p scope role = true := by
      rw [permits, if_neg other]
      exact admin
    obtain ⟨after, done⟩ :=
      perform_isOk call.change userId scope role addressed owner permitted recorded
    obtain ⟨_, _, _, addressed', sets⟩ := perform_cases call.change done
    rw [addressed] at addressed'
    simp only [Option.some.injEq, Prod.mk.injEq] at addressed'
    obtain ⟨rfl, rfl, rfl⟩ := addressed'
    -- The user owned the scope, and the new role is another one.
    have lost : ¬ (IsOwner after userId scope ↔ IsOwner store userId scope) := by
      rw [sets.owners, if_pos ⟨rfl, rfl⟩]
      exact fun same => other (same.mpr owner)
    rw [← step_of_perform call loaded done] at lost
    obtain ⟨p', loaded', owns⟩ := byOwners userId scope lost
    rw [Except.ok.inj (loaded.symm.trans loaded')]
    exact owns
  · intro spares userId scope differs
    rcases step_cases env fold store call with same | ⟨p, loaded, done⟩
    · rw [same] at differs
      exact absurd Iff.rfl differs
    · refine ⟨p, loaded, ?_⟩
      obtain ⟨userId', scope', role, addressed, sets⟩ := perform_cases call.change done
      have recorded : Recorded env p call.context := by
        apply sets.recorded.resolve_right
        exact fun same => differs (isOwner_congr same userId scope)
      rw [sets.owners] at differs
      split at differs
      · rename_i same
        obtain ⟨rfl, rfl⟩ := same
        have permitted := sets.permitted
        by_cases granted : role = some .owner
        · rwa [permits, if_pos granted] at permitted
        · rw [permits, if_neg granted] at permitted
          have owner : IsOwner store userId scope := by
            by_contra never
            exact differs (iff_of_false granted never)
          exact spares p loaded recorded userId scope role addressed granted owner permitted
      · exact absurd Iff.rfl differs

/-- In a run, the owners of every scope are changed by its owners only, exactly when no one but an
owner of the scope takes OWNER from a user. -/
theorem changesByOwners_run_iff (env : Environment) (fold : Str → Str) (store : AccountStore)
    (calls : List Call) :
    Run.Each (step env fold) (ChangesByOwners env fold) store calls ↔
      Run.Each (step env fold) (SparesOwners env fold) store calls :=
  Run.each_iff_each (Run.always_of_step (P := fun _ => True) (fun _ _ _ => trivial) calls trivial)
    fun store call _ _ => changesByOwners_iff env fold store call

/-- The org has an admin and an owner. -/
def sampleOrg : AccountStore where
  users := (Table.empty.insert ⟨1, 1, "admin@kortex.dev", [], false, none⟩ (Table.fresh_empty _)).insert
    ⟨2, 2, "owner@kortex.dev", [], false, none⟩ (by simp [Table.empty, Table.insert, keyed])
  memberships := (Table.empty.insert ⟨1, 1, ⟨.org, 1⟩, .admin⟩ (Table.fresh_empty _)).insert
    ⟨2, 2, ⟨.org, 1⟩, .owner⟩ (by simp [Table.empty, Table.insert, keyed])

/-- The admin makes the owner a member. -/
theorem admin_demotes_owner :
    ¬ ∀ (env : Environment) (fold : Str → Str) (store : AccountStore) (calls : List Call),
      Run.Each (step env fold) (ChangesByOwners env fold) store calls := by
  intro claim
  have byOwners := (claim sampleEnvironment id sampleOrg
    [⟨.user 1, { now := 0, newPublicId := 3 }, .grant 2 ⟨.org, 1⟩ .member⟩]).1
  have owns := (changesByOwners_iff _ _ _ _).mp byOwners _ rfl ⟨by decide, by decide⟩ 2 ⟨.org, 1⟩
    (some .member) rfl (by decide) ⟨⟨2, 2, ⟨.org, 1⟩, .owner⟩,
      List.mem_cons_of_mem _ List.mem_cons_self, rfl, rfl, rfl⟩ (by decide)
  exact absurd owns (by decide)

end Kortex.UserService
