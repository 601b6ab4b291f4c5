import Kortex.Library.Run
import Kortex.Model.Accounts
import Kortex.Proof.MemoryService

/-
This file proves when a chain of minted keys gains no permission.
-/

namespace Kortex.ApiKeyService

open AuthService MemoryService

/-- Everything that the first principal may do, the second may do as well. -/
structure Below (p q : Principal) : Prop where
  keyScope : ∀ name, p.hasKeyScope name = true → q.hasKeyScope name = true
  read : ∀ r, AccessControl.canRead p r = true → AccessControl.canRead q r = true
  write : ∀ r, AccessControl.canWrite p r = true → AccessControl.canWrite q r = true

variable {env : Environment} {hasher : Hasher} {c : Chain} {call : MintCall}

/-- The call mints a key, and the key is loaded. -/
def MovesOn (env : Environment) (hasher : Hasher) (c : Chain) (call : MintCall) : Prop :=
  ∃ minted store p loaded,
    mint env hasher c.principal call.context call.material c.store call.request = .ok (minted, store) ∧
      principalFromApiKey env hasher call.loadedAt store minted.plaintext = .ok (p, loaded) ∧
        p.actorId = minted.apiKey.id

/-- The request names scopes, and binds the key to no other scope than the first key. -/
structure Narrow (key : ApiKey) (r : MintRequest) : Prop where
  named : r.scopes ≠ []
  bound : boundScope r.scopeType r.scopeId = none ∨
    boundScope r.scopeType r.scopeId = boundScope key.scopeType key.scopeId

theorem hasKeyScope_iff (p : Principal) (name : Str) :
    p.hasKeyScope name = true ↔ p.keyScopes = [] ∨ name ∈ p.keyScopes := by
  simp [Principal.hasKeyScope, List.isEmpty_iff]

/-- Some name is in no finite list of scopes. -/
theorem exists_notMem (scopes : List Str) : ∃ name, name ∉ scopes := by
  obtain ⟨name, outside⟩ := Infinite.exists_notMem_finset scopes.toFinset
  exact ⟨name, fun inside => outside (List.mem_toFinset.mpr inside)⟩

/-- A key reaches the resources of its own scope, as a member. -/
theorem allows_principalOfKey (byRole : Role → Option Sensitivity) (key : ApiKey) (r : ResourceRef) :
    AccessControl.allows byRole (principalOfKey key) r = true ↔
      boundScope key.scopeType key.scopeId = some r.scope ∧
        (byRole .member).any (fun largest => decide (r.sensitivity.rank ≤ largest.rank)) = true := by
  cases bound : boundScope key.scopeType key.scopeId with
  | none => simp [AccessControl.allows, AccessControl.roleFor, principalOfKey, Principal.roleFor,
      bound, Dict.get?]
  | some scope =>
      by_cases same : scope = r.scope
      · simp [AccessControl.allows, AccessControl.roleFor, principalOfKey, Principal.roleFor, bound,
          Dict.get?, same]
      · simp [AccessControl.allows, AccessControl.roleFor, principalOfKey, Principal.roleFor, bound,
          Dict.get?, same]

theorem canRead_principalOfKey (key : ApiKey) (r : ResourceRef) :
    AccessControl.canRead (principalOfKey key) r = true ↔
      boundScope key.scopeType key.scopeId = some r.scope ∧
        r.sensitivity.rank ≤ Sensitivity.confidential.rank := by
  rw [AccessControl.canRead, allows_principalOfKey]
  simp [AccessControl.readSensitivityByRole]

theorem canWrite_principalOfKey (key : ApiKey) (r : ResourceRef) :
    AccessControl.canWrite (principalOfKey key) r = true ↔
      boundScope key.scopeType key.scopeId = some r.scope ∧
        r.sensitivity.rank ≤ Sensitivity.confidential.rank := by
  rw [AccessControl.canWrite, allows_principalOfKey]
  simp [AccessControl.writeSensitivityByRole]

/-- The scopes of the key are some of the scopes of the first key, and so is its bound scope. -/
structure Restricted (key first : ApiKey) : Prop where
  named : key.scopes ≠ []
  subset : ∀ name ∈ key.scopes, name ∈ first.scopes
  bound : boundScope key.scopeType key.scopeId = none ∨
    boundScope key.scopeType key.scopeId = boundScope first.scopeType first.scopeId

/-- A key that names scopes is above exactly the keys that are restricted to it. -/
theorem below_iff (key first : ApiKey) (named : first.scopes ≠ []) :
    Below (principalOfKey key) (principalOfKey first) ↔ Restricted key first := by
  constructor
  · intro below
    have scopes := fun name held =>
      ((hasKeyScope_iff (principalOfKey first) name).mp (below.keyScope name held)).resolve_left named
    refine ⟨?_, ?_, ?_⟩
    · -- A key without scopes is unrestricted, and holds a name that the first key lacks.
      intro unrestricted
      obtain ⟨name, outside⟩ := exists_notMem first.scopes
      exact outside (scopes name ((hasKeyScope_iff _ _).mpr (Or.inl unrestricted)))
    · intro name inside
      exact scopes name ((hasKeyScope_iff _ _).mpr (Or.inr inside))
    · cases bound : boundScope key.scopeType key.scopeId with
      | none => exact Or.inl rfl
      | some scope =>
          have reads := below.read ⟨scope, .public⟩
            ((canRead_principalOfKey key _).mpr ⟨bound, show Sensitivity.public.rank ≤ _ by decide⟩)
          exact Or.inr ((canRead_principalOfKey first _).mp reads).1.symm
  · intro restricted
    have sameScope (scope : ScopeRef) (bound : boundScope key.scopeType key.scopeId = some scope) :
        boundScope first.scopeType first.scopeId = some scope := by
      rcases restricted.bound with unbound | same
      · rw [unbound] at bound
        exact absurd bound (by simp)
      · rw [← same, bound]
    refine ⟨?_, ?_, ?_⟩
    · intro name held
      rcases (hasKeyScope_iff _ _).mp held with unrestricted | inside
      · exact absurd unrestricted restricted.named
      · exact (hasKeyScope_iff _ _).mpr (Or.inr (restricted.subset name inside))
    · intro r reads
      obtain ⟨bound, rank⟩ := (canRead_principalOfKey key r).mp reads
      exact (canRead_principalOfKey first r).mpr ⟨sameScope r.scope bound, rank⟩
    · intro r writes
      obtain ⟨bound, rank⟩ := (canWrite_principalOfKey key r).mp writes
      exact (canWrite_principalOfKey first r).mpr ⟨sameScope r.scope bound, rank⟩

/-! A chain moves on to the key that was minted, since the ids of the keys are unique. -/

theorem requireNarrower_eq_ok (p : Principal) (scopes : List Str) (u : Unit) :
    requireNarrower p scopes = .ok u ↔
      (p.actorKind = .apiKey → p.keyScopes ≠ [] → ∀ name ∈ scopes, name ∈ p.keyScopes) := by
  rw [requireNarrower]
  split
  · rename_i broader
    simp only [reduceCtorEq, false_iff]
    intro narrower
    have all : scopes.all p.keyScopes.contains = true := by
      simpa using narrower broader.1 broader.2.1
    rw [all] at broader
    exact absurd broader.2.2 (by simp)
  · rename_i narrower
    simp only [true_iff]
    intro byKey named
    by_contra broader
    exact narrower ⟨byKey, named, by simpa using broader⟩

/-- A minted key has the scopes of the request, and is stored. -/
theorem mint_cases (p : Principal) (ctx : CallContext) (material : ApiKeyMaterial)
    (store after : AccountStore) (r : MintRequest) (minted : MintedApiKey)
    (done : mint env hasher p ctx material store r = .ok (minted, after)) :
    requireNarrower p r.scopes = .ok () ∧ minted.apiKey ∈ after.apiKeys.rows ∧
      minted.apiKey.scopes = r.scopes ∧ minted.apiKey.scopeType = r.scopeType ∧
        minted.apiKey.scopeId = r.scopeId := by
  simp only [mint, bind_eq_ok, flush_eq_ok] at done
  obtain ⟨_, narrower, expiresAt, _, ⟨key, created⟩, stored, audit, _, same⟩ := done
  obtain ⟨rfl, rfl⟩ := Prod.mk.inj (Except.ok.inj same)
  rw [create] at stored
  split at stored
  · obtain ⟨keys, inserted, pair⟩ := Option.map_eq_some_iff.mp stored
    obtain ⟨rfl, rfl⟩ := Prod.mk.inj pair
    refine ⟨narrower, ?_, rfl, rfl, rfl⟩
    show _ ∈ keys.rows
    rw [(Table.insert?_eq_some _ _ _ inserted).1]
    exact List.mem_append_right _ (List.mem_singleton.mpr rfl)
  · exact absurd stored (by simp)

theorem getActiveByPrefix_mem (now : Instant) (store : AccountStore) (start : Str) (key : ApiKey)
    (found : getActiveByPrefix now store start = .ok (some key)) : key ∈ store.apiKeys.rows := by
  rw [getActiveByPrefix] at found
  split at found
  · exact absurd found (by simp)
  · rename_i only single
    obtain rfl : only = key := Option.some.inj (Except.ok.inj found)
    exact List.mem_of_mem_filter (single.symm ▸ List.mem_singleton.mpr rfl)
  · exact absurd found (by simp)

theorem principalFromApiKey_cases (now : Instant) (store loaded : AccountStore) (plaintext : Str)
    (p : Principal) (done : principalFromApiKey env hasher now store plaintext = .ok (p, loaded)) :
    ∃ key ∈ store.apiKeys.rows, p = principalOfKey key := by
  rw [principalFromApiKey] at done
  split at done
  · exact absurd done (throw_ne_ok _ _)
  · simp only [bind_eq_ok] at done
    obtain ⟨found, looked, done⟩ := done
    split at done
    · exact absurd done (throw_ne_ok _ _)
    · rename_i key
      split at done
      · exact ⟨key, getActiveByPrefix_mem now store _ key looked,
          (Prod.mk.inj (Except.ok.inj done)).1.symm⟩
      · exact absurd done (throw_ne_ok _ _)

theorem eq_of_id {keys : ApiKeyTable} {a b : ApiKey} (first : a ∈ keys.rows) (second : b ∈ keys.rows)
    (same : a.id = b.id) : a = b := by
  rcases Table.eq_or_apart keys a b first second with equal | before | later
  · exact equal
  · exact absurd before.1 (by simp [same])
  · exact absurd later.1 (by simp [same])

/-- The key of the next principal is the minted one. -/
structure Moves (env : Environment) (hasher : Hasher) (c : Chain) (call : MintCall) (key : ApiKey) :
    Prop where
  movesOn : MovesOn env hasher c call
  next : (mintStep env hasher c call).principal = principalOfKey key
  narrower : requireNarrower c.principal call.request.scopes = .ok ()
  scopes : key.scopes = call.request.scopes
  scopeType : key.scopeType = call.request.scopeType
  scopeId : key.scopeId = call.request.scopeId

theorem mintStep_cases (env : Environment) (hasher : Hasher) (c : Chain) (call : MintCall) :
    (¬ MovesOn env hasher c call ∧ (mintStep env hasher c call).principal = c.principal) ∨
      ∃ key, Moves env hasher c call key := by
  rw [mintStep]
  cases outcome : mint env hasher c.principal call.context call.material c.store call.request with
  | error e =>
      refine Or.inl ⟨?_, rfl⟩
      rintro ⟨_, _, _, _, done, _⟩
      rw [outcome] at done
      exact absurd done (by simp)
  | ok result =>
      obtain ⟨minted, store⟩ := result
      cases load : principalFromApiKey env hasher call.loadedAt store minted.plaintext with
      | error e =>
          refine Or.inl ⟨?_, by simp [load]⟩
          rintro ⟨_, _, _, _, done, loads, _⟩
          obtain ⟨rfl, rfl⟩ := Prod.mk.inj (Except.ok.inj (outcome.symm.trans done))
          rw [load] at loads
          exact absurd loads (by simp)
      | ok result =>
          obtain ⟨p, loaded⟩ := result
          by_cases own : p.actorId = minted.apiKey.id
          · obtain ⟨narrower, inside, scopes, scopeType, scopeId⟩ := mint_cases _ _ _ _ _ _ _ outcome
            obtain ⟨key, present, rfl⟩ := principalFromApiKey_cases _ _ _ _ _ load
            obtain rfl : key = minted.apiKey := eq_of_id present inside own
            refine Or.inr ⟨minted.apiKey, ⟨minted, store, _, loaded, outcome, load, rfl⟩, ?_,
              narrower, scopes, scopeType, scopeId⟩
            rw [mintStep]
            simp only [outcome, load, own, if_true]
          · refine Or.inl ⟨?_, by simp [load, own]⟩
            rintro ⟨_, _, _, _, done, loads, same⟩
            obtain ⟨rfl, rfl⟩ := Prod.mk.inj (Except.ok.inj (outcome.symm.trans done))
            obtain ⟨rfl, rfl⟩ := Prod.mk.inj (Except.ok.inj (load.symm.trans loads))
            exact absurd same own

/-- The chain is at a key that is restricted to the first one. -/
def AtRestricted (first : ApiKey) (c : Chain) : Prop :=
  ∃ key, c.principal = principalOfKey key ∧ Restricted key first

/-- A step of a chain keeps below the first key exactly when a key that it moves on to names scopes,
and is bound to no new scope. -/
theorem atRestricted_mintStep (first : ApiKey) (c : Chain) (at_key : AtRestricted first c)
    (call : MintCall) : AtRestricted first (mintStep env hasher c call) ↔
      (MovesOn env hasher c call → Narrow first call.request) := by
  obtain ⟨key, principal, restricted⟩ := at_key
  rcases mintStep_cases env hasher c call with ⟨stays, same⟩ | ⟨next, moves⟩
  · constructor
    · exact fun _ on => absurd on stays
    · exact fun _ => ⟨key, same.trans principal, restricted⟩
  · have subset := (requireNarrower_eq_ok _ _ _).mp moves.narrower
    rw [principal] at subset
    constructor
    · rintro ⟨key', equal, restricted'⟩ _
      -- The principal of a key determines its scopes and its bound scope.
      have same := moves.next.symm.trans equal
      have scopes : next.scopes = key'.scopes := congrArg Principal.keyScopes same
      have bound : boundScope next.scopeType next.scopeId = boundScope key'.scopeType key'.scopeId :=
        congrArg Principal.scope same
      rw [moves.scopes] at scopes
      rw [moves.scopeType, moves.scopeId] at bound
      exact ⟨scopes ▸ restricted'.named, bound ▸ restricted'.bound⟩
    · intro narrow
      obtain ⟨named, bound⟩ := narrow moves.movesOn
      refine ⟨next, moves.next, ?_, ?_, ?_⟩
      · rw [moves.scopes]
        exact named
      · intro name inside
        rw [moves.scopes] at inside
        exact restricted.subset name (subset rfl restricted.named name inside)
      · rw [moves.scopeType, moves.scopeId]
        exact bound

/-- Along a chain of minted keys, every principal is a principal of a key, and to be below the first
key is to be restricted to it. -/
theorem below_iff_atRestricted (first : ApiKey) (named : first.scopes ≠ []) (c : Chain)
    (of_key : ∃ key, c.principal = principalOfKey key) :
    Below c.principal (principalOfKey first) ↔ AtRestricted first c := by
  obtain ⟨key, principal⟩ := of_key
  rw [principal, below_iff key first named]
  constructor
  · exact fun restricted => ⟨key, principal, restricted⟩
  · rintro ⟨key', principal', restricted⟩
    rw [← below_iff key' first named, ← principal', principal, below_iff key first named] at restricted
    exact restricted

theorem of_key_mintStep (c : Chain) (call : MintCall)
    (of_key : ∃ key, c.principal = principalOfKey key) :
    ∃ key, (mintStep env hasher c call).principal = principalOfKey key := by
  rcases mintStep_cases env hasher c call with ⟨_, same⟩ | ⟨next, moves⟩
  · rwa [same]
  · exact ⟨next, moves.next⟩

theorem always_below_iff (first : ApiKey) (named : first.scopes ≠ []) (store : AccountStore)
    (calls : List MintCall) :
    Run.Always (mintStep env hasher) (fun c => Below c.principal (principalOfKey first))
        ⟨store, principalOfKey first⟩ calls ↔
      Run.Each (mintStep env hasher)
        (fun c call => MovesOn env hasher c call → Narrow first call.request)
        ⟨store, principalOfKey first⟩ calls := by
  have of_key : Run.Always (mintStep env hasher) (fun c => ∃ key, c.principal = principalOfKey key)
      ⟨store, principalOfKey first⟩ calls :=
    Run.always_of_step of_key_mintStep calls ⟨first, rfl⟩
  rw [← Run.always_iff_each calls (fun c call _ at_key => atRestricted_mintStep first c at_key call)
    ⟨first, rfl, named, fun _ inside => inside, Or.inr rfl⟩]
  constructor
  · intro below
    apply (below.and of_key).imp
    intro c both
    exact (below_iff_atRestricted first named c both.2).mp both.1
  · intro restricted
    apply (restricted.and of_key).imp
    intro c both
    exact (below_iff_atRestricted first named c both.2).mpr both.1

theorem movesOn_of_actorId (moved : (mintStep env hasher c call).principal.actorId ≠ c.principal.actorId) :
    MovesOn env hasher c call := by
  rcases mintStep_cases env hasher c call with ⟨_, same⟩ | ⟨key, moves⟩
  · exact absurd (congrArg Principal.actorId same) moved
  · exact moves.movesOn

def sampleHasher : Hasher where
  hash secret := "$argon2id$" ++ secret
  verify keyHash secret := keyHash == "$argon2id$" ++ secret

def sampleMaterial : ApiKeyMaterial where
  start := "k2k2k2k2"
  secret := List.replicate 43 's'

/-- The first key of the samples may only read. -/
def sampleKey : ApiKey where
  id := 1
  publicId := 1
  orgId := 1
  keyPrefix := "k1k1k1k1"
  keyHash := "$argon2id$" ++ List.replicate 43 'r'
  name := "reader"
  scopes := ["read:memory"]
  scopeType := none
  scopeId := none
  createdBy := some 1
  expiresAt := none
  lastUsedAt := none
  revokedAt := none

def sampleKeys : AccountStore where
  apiKeys := Table.empty.insert sampleKey (Table.fresh_empty _)

def sampleCall (scopes : List Str) : MintCall where
  request := { name := "copy", scopes := scopes }
  context := { now := 0, newPublicId := 2 }
  material := sampleMaterial
  loadedAt := 1

theorem sampleCall_movesOn :
    MovesOn sampleEnvironment sampleHasher ⟨sampleKeys, principalOfKey sampleKey⟩
        (sampleCall ["read:memory"]) ∧
      MovesOn sampleEnvironment sampleHasher ⟨sampleKeys, principalOfKey sampleKey⟩ (sampleCall []) := by
  constructor
  · apply movesOn_of_actorId
    decide +kernel
  · apply movesOn_of_actorId
    decide +kernel

/-- No key of a chain has a permission that the first key lacks, exactly when every request on the
way names a scope, and binds its key to no scope or to the scope of the first key. -/
theorem chain_below_iff (env : Environment) (hasher : Hasher) (first : ApiKey)
    (named : first.scopes ≠ []) (store : AccountStore) (calls : List MintCall)
    (chain : Run.Each (mintStep env hasher) (MovesOn env hasher) ⟨store, principalOfKey first⟩ calls) :
    Run.Always (mintStep env hasher) (fun c => Below c.principal (principalOfKey first))
        ⟨store, principalOfKey first⟩ calls ↔
      ∀ call ∈ calls, Narrow first call.request := by
  rw [always_below_iff first named store calls]
  exact Run.each_imp_iff_forall (R := fun call => Narrow first call.request) chain

/-- A copy of the reading key has no more permissions than the key. -/
theorem chain_below_copy :
    Run.Always (mintStep sampleEnvironment sampleHasher)
      (fun c => Below c.principal (principalOfKey sampleKey))
      ⟨sampleKeys, principalOfKey sampleKey⟩ [sampleCall ["read:memory"]] := by
  apply (chain_below_iff sampleEnvironment sampleHasher sampleKey (by decide) sampleKeys
    [sampleCall ["read:memory"]] ⟨sampleCall_movesOn.1, trivial⟩).mpr
  intro call inside
  rw [List.mem_singleton.mp inside]
  exact ⟨by decide, by decide⟩

/-- The reading key mints a key without scopes, which may do everything. -/
theorem empty_scopes_escape :
    ¬ ∀ (env : Environment) (hasher : Hasher) (first : ApiKey), first.scopes ≠ [] →
      ∀ (store : AccountStore) (calls : List MintCall),
        Run.Each (mintStep env hasher) (MovesOn env hasher) ⟨store, principalOfKey first⟩ calls →
          Run.Always (mintStep env hasher) (fun c => Below c.principal (principalOfKey first))
            ⟨store, principalOfKey first⟩ calls := by
  intro claim
  have below := claim sampleEnvironment sampleHasher sampleKey (by decide) sampleKeys
    [sampleCall []] ⟨sampleCall_movesOn.2, trivial⟩
  rw [always_below_iff sampleKey (by decide)] at below
  exact (below.1 sampleCall_movesOn.2).named rfl

end Kortex.ApiKeyService
