import Kortex.Model.ApiKeyRequests
import Kortex.Proof.ApiKeys

/-
This file proves which keys open the API, and what the audit log tells about them.
-/

namespace Kortex.ApiKeyService

open AuthService MemoryService

variable {d : Deployment} {env : Environment} {hasher : Hasher} {p : Principal} {ctx : CallContext}
  {store after : AccountStore} {s : Service}

/-- These are the keys that the history has handed out. -/
def mintedKeys (history : List Exchange) : List MintedApiKey :=
  history.filterMap fun x => match x.response with
    | .minted m => some m
    | _ => none

def revokedIds (history : List Exchange) : List Uuid :=
  history.filterMap fun x => match x.response with
    | .revoked key => some key.publicId
    | _ => none

/-- The key was minted, and has neither been revoked nor expired. -/
structure Live (history : List Exchange) (now : Instant) (m : MintedApiKey) : Prop where
  minted : m ∈ mintedKeys history
  kept : m.apiKey.publicId ∉ revokedIds history
  inTime : ∀ expiry, m.apiKey.expiresAt = some expiry → now < expiry

/-- A key is handed out before its first use. -/
def blank (key : ApiKey) : ApiKey := { key with lastUsedAt := none, revokedAt := none }

/-- A key is minted for the org of its principal, and is revoked from within its org. -/
def Rightful (history : List Exchange) : Exchange → Prop
  | ⟨some p, .minted m⟩ => m.apiKey.orgId = p.orgId ∧
      (p.actorKind = .apiKey → p.keyScopes ≠ [] → ∀ name ∈ m.apiKey.scopes, name ∈ p.keyScopes)
  | ⟨some p, .revoked key⟩ => (p.isSuperuser = true ∨ key.orgId = p.orgId) ∧
      ∃ m ∈ mintedKeys history, m.apiKey = blank key
  | ⟨none, .minted _⟩ | ⟨none, .revoked _⟩ => False
  | _ => True

/-- This is what the audit log tells about an exchange. -/
def entryOf : Exchange → Option KeyEntry
  | ⟨some p, .minted m⟩ => some ⟨p.orgId, p.actorKind, some p.actorId, "api_key.created", some m.apiKey.id,
      [("name", .str m.apiKey.name), ("prefix", .str m.apiKey.keyPrefix),
        ("scopes", .arr ((m.apiKey.scopes.insertionSort fun a b => Str.le a b = true).map fun s => .str s))]⟩
  | ⟨some p, .revoked key⟩ => some ⟨p.orgId, p.actorKind, some p.actorId, "api_key.revoked", some key.id,
      [("name", .str key.name), ("prefix", .str key.keyPrefix)]⟩
  | _ => none

/-! The text of a key is read back as its two tokens. -/

theorem splitOnce_append (c : Char) (front rest : Str) (absent : c ∉ front) :
    splitOnce c (front ++ c :: rest) = some (front, rest) := by
  have pass : ∀ x ∈ front, (x != c) = true := fun x inside => by
    rw [bne_iff_ne]
    rintro rfl
    exact absent inside
  rw [splitOnce, if_pos (List.mem_append_right _ List.mem_cons_self), List.takeWhile_append_of_pos pass,
    List.dropWhile_append_of_pos pass, List.takeWhile_cons, List.dropWhile_cons]
  simp

theorem eq_of_splitOnce (c : Char) (text front rest : Str)
    (split : splitOnce c text = some (front, rest)) : text = front ++ c :: rest := by
  rw [splitOnce] at split
  split at split
  · rename_i inside
    obtain ⟨rfl, rfl⟩ := Prod.mk.inj (Option.some.inj split)
    have nonempty : text.dropWhile (· != c) ≠ [] := by
      intro none
      have all := List.dropWhile_eq_nil_iff.mp none c inside
      simp at all
    obtain ⟨x, tail, whole⟩ := List.exists_cons_of_ne_nil nonempty
    have stops := List.head_dropWhile_not (p := (· != c)) nonempty
    simp only [whole, List.head_cons] at stops
    have same : x = c := by simpa using stops
    conv_lhs => rw [← List.takeWhile_append_dropWhile (p := (· != c)) (l := text)]
    rw [whole, same]
    rfl
  · cases split

theorem underscore_notMem (text : Str) (drawn : ∀ c ∈ text, c ∈ alphabet) : '_' ∉ text :=
  fun inside => absurd (drawn '_' inside) (by decide +kernel)

theorem plaintext_eq_iff (settings : Settings) (material : Generated settings) (plaintext : Str) :
    material.plaintext = plaintext ↔
      parseApiKey settings plaintext = some (material.start, material.secret) := by
  constructor
  · rintro rfl
    have whole : material.plaintext =
        "kx".toList ++ '_' :: (material.start ++ '_' :: material.secret) := by
      simp [ApiKeyMaterial.plaintext]
    rw [parseApiKey, whole, splitOnce_append '_' _ _ (by decide), Option.bind_eq_bind, Option.bind_some]
    dsimp only
    rw [splitOnce_append '_' _ _ (underscore_notMem _ material.startChars), Option.bind_some]
    exact if_pos ⟨rfl, material.startLength, material.secretLength⟩
  · intro parsed
    rw [parseApiKey] at parsed
    obtain ⟨⟨mark, rest⟩, first, parsed⟩ := Option.bind_eq_some_iff.mp parsed
    obtain ⟨⟨start, secret⟩, second, parsed⟩ := Option.bind_eq_some_iff.mp parsed
    dsimp only at second parsed
    split at parsed
    · rename_i shape
      obtain ⟨same, same'⟩ := Prod.mk.inj (Option.some.inj parsed)
      rw [eq_of_splitOnce _ _ _ _ first, eq_of_splitOnce _ _ _ _ second, shape.1, same, same']
      simp [ApiKeyMaterial.plaintext]
    · cases parsed

/-! What a mint and a revocation leave in the tables. -/

/-- An append writes one entry at the end. -/
theorem append_cases {M S : Type} [EmptyCollection M] (digest : AuditFields M → Str → Str)
    (stored : AuditFields M → Option (AuditFields S)) (table table' : AuditTable S)
    (input : Audit.AppendInput M) (done : Audit.append digest stored table input = .ok table') :
    ∃ org columns row, Audit.effectiveOrg input = .ok org ∧
      stored (Audit.entryFields input org) = some columns ∧ row.toAuditFields = columns ∧
        table'.rows = table.rows ++ [row] := by
  rw [Audit.append] at done
  split at done
  · cases done
  · rename_i org named
    dsimp only at done
    split at done
    · cases done
    · rename_i columns kept
      rw [← Except.ok.inj done]
      exact ⟨org, columns, _, named, kept, rfl, rfl⟩

theorem keyEntries_recordAudit (audit audit' : AuditTable JsonDict) (action targetType : Str)
    (targetId : Nat) (metadata : JsonDict) (about : action ∈ keyActions)
    (written : recordAudit env p ctx audit action targetType targetId metadata = .ok audit') :
    keyEntries audit' =
      keyEntries audit ++ [⟨p.orgId, p.actorKind, some p.actorId, action, some targetId, metadata⟩] := by
  rw [recordAudit] at written
  split at written
  · rename_i table appended
    obtain rfl := Except.ok.inj written
    obtain ⟨org, columns, row, named, kept, same, rows⟩ := append_cases _ _ _ _ _ appended
    have own : org = p.orgId := by
      simp only [Audit.effectiveOrg, Option.none_or] at named
      split at named
      · rename_i n some_
        exact (Except.ok.inj named).symm.trans (Option.some.inj some_).symm
      · cases named
    have said : columns.orgId = p.orgId ∧ columns.actorKind = p.actorKind ∧
        columns.actorId = some p.actorId ∧ columns.action = action ∧
        columns.targetId = some targetId ∧ columns.metadata = metadata := by
      rw [← own]
      split at kept
      · rw [← Option.some.inj kept]
        exact ⟨rfl, rfl, rfl, rfl, rfl, rfl⟩
      · obtain ⟨canonical, _, kept⟩ := Option.map_eq_some_iff.mp kept
        rw [← kept]
        exact ⟨rfl, rfl, rfl, rfl, rfl, rfl⟩
    obtain ⟨org', kind, actor, action', target, data⟩ := said
    rw [keyEntries, rows, List.filter_append, List.map_append, keyEntries]
    congr 1
    rw [List.filter_singleton, same, action', List.contains_iff_mem.mpr about, cond_true,
      List.map_singleton, same, org', kind, actor, action', target, data]
  · cases written
  · cases written

/-- These are the keys of the table, where the flag tells which are revoked. -/
def marks (store : AccountStore) : List (ApiKey × Bool) :=
  store.apiKeys.rows.map fun key => (blank key, key.revokedAt.isSome)

/-- This is what the history tells about the keys. -/
def told (history : List Exchange) : List (ApiKey × Bool) :=
  (mintedKeys history).map fun m => (m.apiKey, (revokedIds history).contains m.apiKey.publicId)

/-- This is what `mint` leaves. -/
structure MintLeaves (d : Deployment) (p : Principal) (material : Generated d.env.settings)
    (r : MintRequest) (store : AccountStore) (m : MintedApiKey) (after : AccountStore) : Prop where
  marks : marks after = marks store ++ [(m.apiKey, false)]
  isNew : ∀ mark ∈ ApiKeyService.marks store, mark.1.publicId ≠ m.apiKey.publicId
  plaintext : m.plaintext = material.plaintext
  start : m.apiKey.keyPrefix = material.start
  hash : m.apiKey.keyHash = d.hasher.hash material.secret
  rightful : ∀ history, Rightful history ⟨some p, .minted m⟩
  entries : keyEntries after.audit = keyEntries store.audit ++ (entryOf ⟨some p, .minted m⟩).toList

theorem mint_leaves (material : Generated d.env.settings) (r : MintRequest) (m : MintedApiKey)
    (done : mint d.env d.hasher p ctx material.toApiKeyMaterial store r = .ok (m, after)) :
    MintLeaves d p material r store m after := by
  simp only [mint, bind_eq_ok, flush_eq_ok] at done
  obtain ⟨_, narrower, expiresAt, _, ⟨key, created⟩, stored, audit, written, same⟩ := done
  obtain ⟨rfl, rfl⟩ := Prod.mk.inj (Except.ok.inj same)
  rw [create] at stored
  split at stored
  · obtain ⟨keys, inserted, pair⟩ := Option.map_eq_some_iff.mp stored
    obtain ⟨rfl, rfl⟩ := Prod.mk.inj pair
    obtain ⟨rows, isNew⟩ := Table.insert?_eq_some _ _ _ inserted
    refine ⟨?_, ?_, rfl, rfl, rfl, fun _ => ⟨rfl, ?_⟩, ?_⟩
    · exact (congrArg (List.map _) rows).trans (List.map_append ..)
    · rw [marks, List.forall_mem_map]
      exact fun key inside => (isNew key inside).2
    · exact (requireNarrower_eq_ok _ _ _).mp narrower
    · exact keyEntries_recordAudit _ _ _ _ _ _ (by decide) written
  · cases stored

/-- This is what `revoke` leaves. -/
structure RevokeLeaves (p : Principal) (store : AccountStore) (key : ApiKey) (after : AccountStore) :
    Prop where
  stored : ∃ mark ∈ marks store, mark.1 = blank key
  marks : marks after = (marks store).map fun mark => (mark.1, mark.2 || mark.1.publicId == key.publicId)
  inside : p.isSuperuser = true ∨ key.orgId = p.orgId
  entries : keyEntries after.audit = keyEntries store.audit ++ (entryOf ⟨some p, .revoked key⟩).toList

theorem eq_of_publicId {keys : ApiKeyTable} {a b : ApiKey} (first : a ∈ keys.rows)
    (second : b ∈ keys.rows) (same : a.publicId = b.publicId) : a = b := by
  rcases Table.eq_or_apart keys a b first second with equal | before | later
  · exact equal
  · exact absurd same before.2
  · exact absurd same.symm later.2

theorem marks_revokeKey (now : Instant) (publicId : Uuid) (key : ApiKey)
    (done : revokeKey now p store publicId = some (key, after)) :
    (∃ row ∈ store.apiKeys.rows, blank row = blank key) ∧ (p.isSuperuser = true ∨ key.orgId = p.orgId) ∧
      after.audit = store.audit ∧ marks after =
        (marks store).map fun mark => (mark.1, mark.2 || mark.1.publicId == key.publicId) := by
  obtain ⟨row, found, outcome⟩ := Option.map_eq_some_iff.mp done
  have inside := List.mem_of_find?_eq_some found
  have asked := List.find?_some found
  simp only [Bool.and_eq_true, Bool.or_eq_true, beq_iff_eq] at asked
  split at outcome
  · obtain ⟨rfl, rfl⟩ := Prod.mk.inj outcome
    refine ⟨⟨row, inside, rfl⟩, asked.1, rfl, ?_⟩
    change (store.apiKeys.rows.map _).map _ = (store.apiKeys.rows.map _).map _
    rw [List.map_map, List.map_map]
    apply List.map_congr_left
    intro other present
    rw [Function.comp_apply, Function.comp_apply, Table.changeRow]
    by_cases same : other = row
    · rw [same, if_pos (beq_self_eq_true _)]
      simp [withRevokedAt, blank]
    · rw [if_neg fun equal => same (eq_of_id present inside (beq_iff_eq.mp equal))]
      have apart : other.publicId ≠ row.publicId := fun equal => same (eq_of_publicId present inside equal)
      simp [withRevokedAt, blank, apart]
  · rename_i revoked
    obtain ⟨rfl, rfl⟩ := Prod.mk.inj outcome
    refine ⟨⟨row, inside, rfl⟩, asked.1, rfl, ?_⟩
    rw [marks, List.map_map]
    apply List.map_congr_left
    intro other present
    rw [Function.comp_apply]
    by_cases same : other.publicId = row.publicId
    · have marked : row.revokedAt.isSome = true := by
        rwa [Option.isNone_iff_eq_none, ← ne_eq, Option.ne_none_iff_isSome] at revoked
      rw [eq_of_publicId present inside same, marked]
      rfl
    · simp [blank, same]

theorem revoke_leaves (publicId : Uuid) (key : ApiKey)
    (done : revoke env p ctx store publicId = .ok (some (key, after))) :
    RevokeLeaves p store key after := by
  rw [revoke] at done
  split at done
  · cases done
  · rename_i key' store' revoked
    simp only [bind_eq_ok] at done
    obtain ⟨audit, written, same⟩ := done
    obtain ⟨rfl, rfl⟩ := Prod.mk.inj (Option.some.inj (Except.ok.inj same))
    obtain ⟨⟨row, inside, stored⟩, own, audited, marked⟩ := marks_revokeKey _ _ _ revoked
    refine ⟨⟨_, List.mem_map_of_mem inside, stored⟩, marked, own, ?_⟩
    rw [← audited]
    exact keyEntries_recordAudit _ _ _ _ _ _ (by decide) written

/-! The history tells at any time what stands in the tables. -/

structure Tracks (d : Deployment) (s : Service) : Prop where
  marks : marks s.store = told s.history
  known : ∀ id ∈ revokedIds s.history, ∃ m ∈ mintedKeys s.history, m.apiKey.publicId = id
  material : ∀ m ∈ mintedKeys s.history, ∃ material : Generated d.env.settings,
    m.plaintext = material.plaintext ∧ m.apiKey.keyPrefix = material.start ∧
      m.apiKey.keyHash = d.hasher.hash material.secret
  rightful : ∀ x ∈ s.history, Rightful s.history x
  entries : keyEntries s.store.audit = s.history.filterMap entryOf

theorem Rightful.mono (history later : List Exchange) (x : Exchange) (rightful : Rightful history x) :
    Rightful (history ++ later) x := by
  rcases x with ⟨p | p, response⟩ <;> cases response with
  | revoked key =>
      first
      | exact rightful
      | refine ⟨rightful.1, ?_⟩
        obtain ⟨m, minted, same⟩ := rightful.2
        refine ⟨m, ?_, same⟩
        rw [mintedKeys, List.filterMap_append]
        exact List.mem_append_left _ minted
  | _ => exact rightful

namespace Tracks

variable (tracks : Tracks d s)

include tracks

/-- An exchange that tells nothing about keys leaves them alone. -/
theorem idle (x : Exchange) (store : AccountStore)
    (keys : ApiKeyService.marks store = ApiKeyService.marks s.store)
    (audit : keyEntries store.audit = keyEntries s.store.audit)
    (mints : mintedKeys [x] = []) (revokes : revokedIds [x] = []) (silent : entryOf x = none)
    (rightful : ∀ history, Rightful history x) : Tracks d ⟨store, s.history ++ [x]⟩ := by
  have minted : mintedKeys (s.history ++ [x]) = mintedKeys s.history := by
    rw [mintedKeys, List.filterMap_append, ← mintedKeys, ← mintedKeys, mints, List.append_nil]
  have revoked : revokedIds (s.history ++ [x]) = revokedIds s.history := by
    rw [revokedIds, List.filterMap_append, ← revokedIds, ← revokedIds, revokes, List.append_nil]
  refine ⟨?_, ?_, ?_, ?_, ?_⟩
  · rw [keys, tracks.marks, told, told, minted, revoked]
  · rw [minted, revoked]
    exact tracks.known
  · rw [minted]
    exact tracks.material
  · rw [List.forall_mem_append, List.forall_mem_singleton]
    exact ⟨fun y inside => Rightful.mono _ [x] y (tracks.rightful y inside), rightful _⟩
  · rw [audit, tracks.entries, List.filterMap_append, List.filterMap_cons_none silent, List.filterMap_nil,
      List.append_nil]

theorem unchanged (x : Exchange) (mints : mintedKeys [x] = []) (revokes : revokedIds [x] = [])
    (silent : entryOf x = none) (rightful : ∀ history, Rightful history x) :
    Tracks d ⟨s.store, s.history ++ [x]⟩ :=
  tracks.idle x s.store rfl rfl mints revokes silent rightful

/-- A key that is minted is one that nobody has revoked. -/
theorem minted (loaded after : AccountStore) (material : Generated d.env.settings) (r : MintRequest)
    (m : MintedApiKey) (keys : ApiKeyService.marks loaded = ApiKeyService.marks s.store)
    (audit : loaded.audit = s.store.audit) (leaves : MintLeaves d p material r loaded m after) :
    Tracks d ⟨after, s.history ++ [⟨some p, .minted m⟩]⟩ := by
  have minted : mintedKeys (s.history ++ [⟨some p, .minted m⟩]) = mintedKeys s.history ++ [m] :=
    List.filterMap_append
  have revoked : revokedIds (s.history ++ [⟨some p, .minted m⟩]) = revokedIds s.history := by
    rw [revokedIds, List.filterMap_append]
    exact List.append_nil _
  have isNew : m.apiKey.publicId ∉ revokedIds s.history := by
    intro inside
    obtain ⟨earlier, present, same⟩ := tracks.known _ inside
    refine leaves.isNew (earlier.apiKey, (revokedIds s.history).contains earlier.apiKey.publicId) ?_ same
    rw [keys, tracks.marks]
    exact List.mem_map_of_mem present
  have live : (revokedIds s.history).contains m.apiKey.publicId = false := by simpa using isNew
  refine ⟨?_, ?_, ?_, ?_, ?_⟩
  · rw [leaves.marks, keys, tracks.marks, told, told, minted, revoked, List.map_append,
      List.map_singleton, live]
  · rw [minted, revoked]
    intro id inside
    obtain ⟨earlier, present, same⟩ := tracks.known id inside
    exact ⟨earlier, List.mem_append_left _ present, same⟩
  · rw [minted, List.forall_mem_append, List.forall_mem_singleton]
    exact ⟨tracks.material, material, leaves.plaintext, leaves.start, leaves.hash⟩
  · rw [List.forall_mem_append, List.forall_mem_singleton]
    exact ⟨fun y inside => Rightful.mono _ _ y (tracks.rightful y inside), leaves.rightful _⟩
  · rw [leaves.entries, audit, tracks.entries, List.filterMap_append]
    rfl

theorem revoked (loaded after : AccountStore) (key : ApiKey)
    (keys : ApiKeyService.marks loaded = ApiKeyService.marks s.store)
    (audit : loaded.audit = s.store.audit) (leaves : RevokeLeaves p loaded key after) :
    Tracks d ⟨after, s.history ++ [⟨some p, .revoked key⟩]⟩ := by
  have minted : mintedKeys (s.history ++ [⟨some p, .revoked key⟩]) = mintedKeys s.history := by
    rw [mintedKeys, List.filterMap_append]
    exact List.append_nil _
  have revoked : revokedIds (s.history ++ [⟨some p, .revoked key⟩]) =
      revokedIds s.history ++ [key.publicId] := List.filterMap_append
  obtain ⟨mark, stored, same⟩ := leaves.stored
  rw [keys, tracks.marks] at stored
  obtain ⟨m, present, rfl⟩ := List.mem_map.mp stored
  have known : m.apiKey.publicId = (blank key).publicId := congrArg ApiKey.publicId same
  refine ⟨?_, ?_, ?_, ?_, ?_⟩
  · rw [leaves.marks, keys, tracks.marks, told, told, minted, revoked, List.map_map]
    apply List.map_congr_left
    intro other _
    simp [Bool.decide_or, Bool.beq_eq_decide_eq]
  · rw [minted, revoked, List.forall_mem_append, List.forall_mem_singleton]
    exact ⟨tracks.known, m, present, known⟩
  · rw [minted]
    exact tracks.material
  · rw [List.forall_mem_append, List.forall_mem_singleton]
    refine ⟨fun y inside => Rightful.mono _ _ y (tracks.rightful y inside), leaves.inside, m, ?_, same⟩
    rwa [minted]
  · rw [leaves.entries, audit, tracks.entries, List.filterMap_append]
    rfl

end Tracks

theorem marks_authenticated (now : Instant) (loaded : AccountStore) (headers : Idempotency.Request)
    (done : authenticatedPrincipal d now store headers = .ok (p, loaded)) :
    marks loaded = marks store ∧ loaded.audit = store.audit := by
  rw [authenticatedPrincipal] at done
  split at done
  · rw [principalFromApiKey] at done
    split at done
    · exact absurd done (throw_ne_ok _ _)
    · simp only [bind_eq_ok] at done
      obtain ⟨found, _, done⟩ := done
      split at done
      · exact absurd done (throw_ne_ok _ _)
      · split at done
        · obtain ⟨_, rfl⟩ := Prod.mk.inj (Except.ok.inj done)
          refine ⟨?_, rfl⟩
          change (store.apiKeys.rows.map _).map _ = store.apiKeys.rows.map _
          rw [List.map_map]
          apply List.map_congr_left
          intro key _
          rw [Function.comp_apply, Table.changeRow]
          split <;> rfl
        · exact absurd done (throw_ne_ok _ _)
  · split at done
    · cases done
    · rename_i userId _
      cases user : AuthService.principalOfUser store userId with
      | error e => simp [user, Except.map] at done
      | ok q =>
          simp only [user, Except.map] at done
          obtain ⟨_, rfl⟩ := Prod.mk.inj (Except.ok.inj done)
          exact ⟨rfl, rfl⟩
  · cases done

theorem Tracks.handle (tracks : Tracks d s) (loaded : AccountStore) (context : CallContext)
    (operation : Operation d.env.settings) (keys : ApiKeyService.marks loaded = ApiKeyService.marks s.store)
    (audit : loaded.audit = s.store.audit) :
    let (response, store) := handle d p loaded s.store context operation
    Tracks d ⟨store, s.history ++ [⟨some p, response⟩]⟩ := by
  cases operation with
  | mint material arguments =>
      dsimp only [ApiKeyService.handle]
      split
      · cases done : mint d.env d.hasher p context material.toApiKeyMaterial loaded arguments with
        | ok outcome =>
            obtain ⟨m, after⟩ := outcome
            exact tracks.minted loaded after material arguments m keys audit
              (mint_leaves material arguments m done)
        | error e => exact tracks.unchanged _ rfl rfl rfl fun _ => trivial
      · exact tracks.unchanged _ rfl rfl rfl fun _ => trivial
  | revoke publicId =>
      dsimp only [ApiKeyService.handle]
      cases done : revoke d.env p context loaded publicId with
      | ok outcome =>
          cases outcome with
          | some found => exact tracks.revoked loaded found.2 found.1 keys audit (revoke_leaves _ _ done)
          | none => exact tracks.unchanged _ rfl rfl rfl fun _ => trivial
      | error e => exact tracks.unchanged _ rfl rfl rfl fun _ => trivial
  | other commits work =>
      dsimp only [ApiKeyService.handle]
      cases commits with
      | true =>
          refine tracks.idle ⟨some p, .other⟩ (work.run (some p) loaded) ?_ ?_ rfl rfl rfl fun _ => trivial
          · rw [← keys]
            exact congrArg (fun keys => List.map _ (Table.rows keys)) (work.apiKeys (some p) loaded)
          · rw [work.audit, audit]
      | false => exact tracks.unchanged _ rfl rfl rfl fun _ => trivial

theorem Tracks.step (tracks : Tracks d s) (r : KeyRequest d.env.settings) : Tracks d (step d s r) := by
  rw [ApiKeyService.step]
  cases r with
  | anonymous work =>
      refine tracks.idle ⟨none, .other⟩ (work.run none s.store) ?_ ?_ rfl rfl rfl fun _ => trivial
      · exact congrArg (fun keys => List.map _ (Table.rows keys)) (work.apiKeys none s.store)
      · exact work.audit none s.store
  | guarded headers context operation =>
      rw [serve]
      cases entered : authenticatedPrincipal d context.now s.store headers with
      | error e =>
          cases e with
          | refused message =>
              exact tracks.unchanged ⟨none, .unauthorized message⟩ rfl rfl rfl fun _ => trivial
          | multipleResults => exact tracks.unchanged ⟨none, .multipleResults⟩ rfl rfl rfl fun _ => trivial
      | ok outcome =>
          obtain ⟨p, loaded⟩ := outcome
          obtain ⟨keys, audit⟩ := marks_authenticated _ _ _ entered
          exact tracks.handle loaded context operation keys audit

theorem tracks_final (d : Deployment) (requests : List (KeyRequest d.env.settings)) :
    Tracks d (Run.final (step d) {} requests) := by
  have begins : Tracks d {} := by
    refine ⟨rfl, ?_, ?_, ?_, rfl⟩
    all_goals
      intro x inside
      cases inside
  exact (Run.always_of_step (P := Tracks d) (fun s r tracks => tracks.step r) requests begins).final

/-! The key that a text opens is the only live one with its prefix. -/

/-- The query of `get_active_by_prefix` chooses these keys. -/
def active (now : Instant) (start : Str) (mark : ApiKey × Bool) : Bool :=
  mark.1.keyPrefix == start && !mark.2 && mark.1.expiresAt.all fun expiry => decide (now < expiry)

/-- These are the live keys with a prefix. -/
def liveKeys (history : List Exchange) (now : Instant) (start : Str) : List MintedApiKey :=
  (mintedKeys history).filter fun m =>
    active now start (m.apiKey, (revokedIds history).contains m.apiKey.publicId)

theorem mem_liveKeys (history : List Exchange) (now : Instant) (start : Str) (m : MintedApiKey) :
    m ∈ liveKeys history now start ↔ Live history now m ∧ m.apiKey.keyPrefix = start := by
  rw [liveKeys, List.mem_filter, active]
  simp only [Bool.and_eq_true, beq_iff_eq, Bool.not_eq_true', List.contains_eq_mem,
    decide_eq_false_iff_not, Option.all_eq_true, decide_eq_true_eq]
  constructor
  · rintro ⟨minted, ⟨same, kept⟩, inTime⟩
    exact ⟨⟨minted, kept, inTime⟩, same⟩
  · rintro ⟨live, same⟩
    exact ⟨live.minted, ⟨same, live.kept⟩, live.inTime⟩

theorem getActiveByPrefix_eq (now : Instant) (start : Str) (key : ApiKey) :
    getActiveByPrefix now store start = .ok (some key) ↔ store.apiKeys.rows.filter (fun key =>
      active now start (blank key, key.revokedAt.isSome)) = [key] := by
  have same : (fun key : ApiKey => active now start (blank key, key.revokedAt.isSome)) = fun key =>
      key.keyPrefix == start && key.revokedAt.isNone &&
        key.expiresAt.all fun expiry => decide (now < expiry) := by
    funext key
    rw [active, Option.not_isSome]
    rfl
  rw [same, getActiveByPrefix]
  split
  · rename_i none
    rw [none]
    exact iff_of_false (by simp) (by simp)
  · rename_i only single
    rw [single]
    simp
  · rename_i rows several single
    refine iff_of_false (by simp) fun equal => ?_
    exact single key equal

namespace Tracks

variable (tracks : Tracks d s)

include tracks

theorem liveKeys_eq (now : Instant) (start : Str) :
    (s.store.apiKeys.rows.filter fun key => active now start (blank key, key.revokedAt.isSome)).map blank =
      (liveKeys s.history now start).map MintedApiKey.apiKey := by
  have both := congrArg (fun marks => (marks.filter (active now start)).map Prod.fst) tracks.marks
  simp only [ApiKeyService.marks, told, List.filter_map, List.map_map] at both
  exact both

theorem nodup_mintedKeys : (mintedKeys s.history).Nodup := by
  have ids : ((ApiKeyService.marks s.store).map fun mark => mark.1.publicId).Nodup := by
    rw [ApiKeyService.marks, List.map_map, List.Nodup, List.pairwise_map]
    exact s.store.apiKeys.pairwise.imp fun apart => apart.2
  rw [tracks.marks, told, List.map_map] at ids
  exact List.Nodup.of_map _ ids

/-- A row that is found under a prefix was minted, and no other live key has the prefix. -/
theorem live_of_found (now : Instant) (start : Str) (key : ApiKey)
    (found : getActiveByPrefix now s.store start = .ok (some key)) :
    ∃ m, m.apiKey = blank key ∧ Live s.history now m ∧ m.apiKey.keyPrefix = start ∧
      ∀ other, Live s.history now other → other.apiKey.keyPrefix = start → other = m := by
  have same := tracks.liveKeys_eq now start
  rw [getActiveByPrefix_eq] at found
  rw [found, List.map_singleton] at same
  obtain ⟨m, single, equal⟩ := List.map_eq_singleton_iff.mp same.symm
  have own : m ∈ liveKeys s.history now start := by
    rw [single]
    exact List.mem_singleton_self _
  obtain ⟨live, named⟩ := (mem_liveKeys _ now start m).mp own
  refine ⟨m, equal, live, named, fun other live named => ?_⟩
  have inside := (mem_liveKeys _ now start other).mpr ⟨live, named⟩
  rwa [single, List.mem_singleton] at inside

theorem found_of_live (now : Instant) (start : Str) (m : MintedApiKey) (live : Live s.history now m)
    (named : m.apiKey.keyPrefix = start)
    (only : ∀ other, Live s.history now other → other.apiKey.keyPrefix = start → other = m) :
    ∃ key, getActiveByPrefix now s.store start = .ok (some key) ∧ blank key = m.apiKey := by
  have same := tracks.liveKeys_eq now start
  have inside := (mem_liveKeys _ now start m).mpr ⟨live, named⟩
  have single : liveKeys s.history now start = [m] := by
    have nodup : (liveKeys s.history now start).Nodup := tracks.nodup_mintedKeys.filter _
    cases keys : liveKeys s.history now start with
    | nil =>
        rw [keys] at inside
        cases inside
    | cons first rest =>
        have equal (other : MintedApiKey) (present : other ∈ first :: rest) : other = m := by
          rw [← keys, mem_liveKeys] at present
          exact only other present.1 present.2
        cases rest with
        | nil => rw [equal first List.mem_cons_self]
        | cons second rest =>
            rw [keys, equal first List.mem_cons_self,
              equal second (List.mem_cons_of_mem _ List.mem_cons_self)] at nodup
            exact absurd List.mem_cons_self (List.nodup_cons.mp nodup).1
  rw [single, List.map_singleton] at same
  obtain ⟨key, found, blanked⟩ := List.map_eq_singleton_iff.mp same
  exact ⟨key, (getActiveByPrefix_eq ..).mpr found, blanked⟩

end Tracks

theorem principalFromApiKey_iff (now : Instant) (plaintext : Str) :
    (∃ loaded, principalFromApiKey env hasher now store plaintext = .ok (p, loaded)) ↔
      ∃ start secret key, parseApiKey env.settings plaintext = some (start, secret) ∧
        getActiveByPrefix now store start = .ok (some key) ∧ hasher.verify key.keyHash secret = true ∧
          p = principalOfKey key := by
  constructor
  · rintro ⟨loaded, done⟩
    rw [principalFromApiKey] at done
    split at done
    · exact absurd done (throw_ne_ok _ _)
    · rename_i start secret parsed
      simp only [bind_eq_ok] at done
      obtain ⟨found, looked, done⟩ := done
      split at done
      · exact absurd done (throw_ne_ok _ _)
      · rename_i key
        split at done
        · rename_i verified
          exact ⟨start, secret, key, parsed, looked, verified, (Prod.mk.inj (Except.ok.inj done)).1.symm⟩
        · exact absurd done (throw_ne_ok _ _)
  · rintro ⟨start, secret, key, parsed, looked, verified, rfl⟩
    refine ⟨touchUsed now store key, ?_⟩
    rw [principalFromApiKey]
    simp only [parsed, looked]
    exact if_pos verified

/-- In every run, a text opens the API exactly when it is that of a key that was minted before, has neither
been revoked nor expired, and shares its prefix with no other such key; it acts as the minted key. -/
theorem opens_iff (d : Deployment) (faithful : ∀ secret other,
    d.hasher.verify (d.hasher.hash secret) other = true ↔ other = secret)
    (requests : List (KeyRequest d.env.settings)) (now : Instant) (headers : Idempotency.Request)
    (plaintext : Str) (presented : Idempotency.credential headers = .apiKey plaintext) (p : Principal) :
    let s := Run.final (step d) {} requests
    (∃ loaded, authenticatedPrincipal d now s.store headers = .ok (p, loaded)) ↔
      ∃ m, Live s.history now m ∧ m.plaintext = plaintext ∧ p = principalOfKey m.apiKey ∧
        ∀ other, Live s.history now other → other.apiKey.keyPrefix = m.apiKey.keyPrefix → other = m := by
  intro s
  have tracks : Tracks d s := tracks_final d requests
  rw [authenticatedPrincipal, presented]
  dsimp only
  rw [principalFromApiKey_iff]
  constructor
  · rintro ⟨start, secret, key, parsed, looked, verified, rfl⟩
    obtain ⟨m, blanked, live, rfl, only⟩ := tracks.live_of_found now start key looked
    obtain ⟨material, text, named, hash⟩ := tracks.material m live.minted
    have hashed : key.keyHash = m.apiKey.keyHash := by rw [blanked]; rfl
    rw [hashed, hash, faithful] at verified
    rw [named, verified, ← plaintext_eq_iff] at parsed
    refine ⟨m, live, text.trans parsed, ?_, only⟩
    rw [blanked]
    rfl
  · rintro ⟨m, live, rfl, rfl, only⟩
    obtain ⟨material, text, named, hash⟩ := tracks.material m live.minted
    obtain ⟨key, looked, blanked⟩ := tracks.found_of_live now _ m live rfl only
    have hashed : key.keyHash = m.apiKey.keyHash := by rw [← blanked]; rfl
    refine ⟨m.apiKey.keyPrefix, material.secret, key, ?_, looked, ?_, ?_⟩
    · rw [named]
      exact (plaintext_eq_iff _ material _).mp text.symm
    · rw [hashed, hash, faithful]
    · rw [← blanked]
      rfl

/-- The owner of the samples signs up without a principal. -/
def sampleSignup : Work where
  run _ store := { store with
    users := Table.empty.insert ⟨1, 1, "a@b.c", [], false, none⟩ (Table.fresh_empty _)
    memberships := Table.empty.insert ⟨1, 1, ⟨.org, 1⟩, .owner⟩ (Table.fresh_empty _) }
  apiKeys _ _ := rfl
  audit _ _ := rfl

def sampleDeployment : Deployment where
  env := sampleEnvironment
  hasher := sampleHasher
  accessSubject _ _ := .ok 1

theorem mem_alphabet_of_all {s : Str} (all : s.all (List.contains alphabet) = true) :
    ∀ c ∈ s, c ∈ alphabet := by
  intro c inside
  exact List.contains_iff_mem.mp (List.all_eq_true.mp all c inside)

def sampleGenerated : Generated sampleDeployment.env.settings where
  toApiKeyMaterial := sampleMaterial
  startLength := rfl
  secretLength := rfl
  startChars := mem_alphabet_of_all (by decide +kernel)
  secretChars := mem_alphabet_of_all (by decide +kernel)

def sampleHeaders (xApiKey authorization : Option Str) : Idempotency.Request where
  method := "GET"
  path := "/v1/api_keys"
  query := []
  xApiKey := xApiKey
  authorization := authorization
  idempotencyKey := none
  body := []

def bearer : Idempotency.Request := sampleHeaders none (some "Bearer token".toList)

def sampleMint : List (KeyRequest sampleDeployment.env.settings) :=
  [.anonymous sampleSignup,
    .guarded bearer { now := 0, newPublicId := 2 } (.mint sampleGenerated { name := "agent", scopes := [] })]

def sampleRevoke : List (KeyRequest sampleDeployment.env.settings) :=
  sampleMint ++ [.guarded bearer { now := 1, newPublicId := 3 } (.revoke 2)]

def sampleRun (requests : List (KeyRequest sampleDeployment.env.settings)) : Service :=
  Run.final (step sampleDeployment) {} requests

def presenting : Idempotency.Request := sampleHeaders (some sampleMaterial.plaintext) none

theorem sampleHasher_faithful (secret other : Str) :
    sampleHasher.verify (sampleHasher.hash secret) other = true ↔ other = secret :=
  beq_iff_eq.trans ((List.append_right_inj _).trans eq_comm)

/-- The key opens the API until it is revoked. -/
theorem opens_iff_sample :
    (authenticatedPrincipal sampleDeployment 5 (sampleRun sampleMint).store presenting).toOption.isSome =
        true ∧
      ∀ p loaded, authenticatedPrincipal sampleDeployment 5 (sampleRun sampleRevoke).store presenting ≠
        .ok (p, loaded) := by
  refine ⟨by decide +kernel, fun p loaded entered => ?_⟩
  have opened := (opens_iff sampleDeployment sampleHasher_faithful sampleRevoke 5 presenting
    sampleMaterial.plaintext (by decide +kernel) p).mp
  obtain ⟨m, live, _⟩ := opened ⟨loaded, entered⟩
  have all : ∀ m ∈ mintedKeys (sampleRun sampleRevoke).history,
      m.apiKey.publicId ∈ revokedIds (sampleRun sampleRevoke).history := by
    decide +kernel
  exact live.kept (all m live.minted)

end Kortex.ApiKeyService
