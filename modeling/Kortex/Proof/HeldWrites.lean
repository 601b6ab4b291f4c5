import Kortex.Proof.ToolHeld

/-
This file proves when a write that is held for review is reported as held.
-/

namespace Kortex

namespace MemoryService

/-- A write says that it is held exactly when the memory that it returns is not approved. -/
def ReportsHeld (env : Environment) (p : Principal) (ctx : CallContext) (s : Session)
    (payload : CreateMemoryInput) (embed force : Bool) : Prop :=
  ∀ result s', write env p ctx s payload embed force = .ok (result, s') →
    (result.pendingReview = true ↔ result.memory.reviewStatus ≠ .approved)

variable {env : Environment} {p : Principal} {ctx : CallContext} {s s' : Session}
variable {payload : CreateMemoryInput} {embed force : Bool} {existing : Memory}

theorem decideReview_status (twoDecimals : PyFloat → Str) (mode : ReviewMode)
    (confidence : Option PyFloat) (threshold : PyFloat) (suspiciousReason : Str) :
    (decideReview twoDecimals mode confidence threshold suspiciousReason).held = true ↔
      (decideReview twoDecimals mode confidence threshold suspiciousReason).status ≠ .approved := by
  unfold decideReview
  split
  · simp [ReviewDecision.held]
  · split
    · simp [ReviewDecision.held]
    · split
      · split <;> simp [ReviewDecision.held]
      · simp [ReviewDecision.held]

/-- A write that stores a row reports its own review. -/
theorem reported_of_stores (screened : Screened) (mode : ReviewMode) (tsConfig : Str)
    (result : MemoryWrite) (stores : Stores env p ctx s s' payload embed screened
      (reviewDecision env payload screened mode) tsConfig result) :
    result.pendingReview = true ↔ result.memory.reviewStatus ≠ .approved := by
  obtain ⟨embedding, _, inserted⟩ := stores.inserted
  obtain ⟨row, _⟩ := insertMemory_cases _ _ _ _ _ inserted
  rw [stores.pendingReview, row]
  exact decideReview_status _ _ _ _ _

/-- A write reports whether it is held exactly when it folds into no memory but an approved one. -/
theorem reportsHeld_iff : ReportsHeld env p ctx s payload embed force ↔
    ∀ existing, FoldsInto env p ctx s.db payload force existing → existing.reviewStatus = .approved := by
  constructor
  · intro reports existing folds
    obtain ⟨service, done⟩ := write_of_foldsInto payload embed force existing folds
    by_contra held
    exact absurd ((reports _ _ done).mpr held) (by simp [folded])
  · intro approved result s' done
    rcases write_cases payload embed force result done with
      ⟨existing, folds⟩ | ⟨_, mode, tsConfig, _, stores⟩
    · have status := approved existing (foldsInto_of_folds payload embed force result existing done folds)
      rw [folds.pendingReview, folds.memory]
      simp [Memory.duplicated, status]
    · exact reported_of_stores _ mode tsConfig result stores

end MemoryService

namespace MemoryTool

open MemoryService

/-- This is the reply that refuses to show a file. -/
def heldReply (path : Str) (m : Memory) : ToolResult where
  content := "The file " ++ path ++ " exists but is held for human review (" ++
    Audit.orDefault m.reviewReason "awaiting review" ++ ") and cannot be read until it is approved."

/-- A view of the path is refused. -/
def Refused (b : Backend) (s : Session) (path : Str) : Prop :=
  ∃ ctx command m, Views command path ∧ execute b ctx s command = .ok (heldReply path m, s)

/-- This is the reply of a create that has nothing to add. -/
def bareReply (path : Str) : ToolResult where
  content := "File created successfully at: " ++ path

/-- A create never answers with the bare reply for a file that is not shown. -/
def NamesHeld (b : Backend) (ctx : CallContext) (s : Session) (command : JsonDict) (path : Str) : Prop :=
  ∀ s', execute b ctx s command = .ok (bareReply path, s') → ¬ Refused b s' path

/-- The create overwrites a pending file, or folds into a pending memory. -/
inductive CreatesHeld (b : Backend) (ctx : CallContext) (s : Session) (path text : Str) : Prop
  | overwrites (m : Memory) (below : path ≠ memoryRoot) (found : file b s.db path = .ok (some m))
      (held : m.reviewStatus = .pending)
      (edits : Edits b.principal ctx.now s.db m.publicId { body := some text, title := some path } m)
  | folds (existing : Memory) (below : path ≠ memoryRoot) (free : file b s.db path = .ok none)
      (into : FoldsInto b.env b.principal ctx s.db (filePayload b path text) false existing)
      (held : existing.reviewStatus = .pending)

variable {b : Backend} {ctx : CallContext} {s s' : Session} {command : JsonDict} {path text : Str}

/-- A reply that shows files or text starts with another letter than one that refuses. -/
theorem head_listing (db : Database) (shown : listing b db path = some text) :
    text.head? = some 'H' := by
  rw [listing] at shown
  simp only at shown
  split at shown
  · exact absurd shown (by simp)
  · rw [← Option.some.inj shown]
    rfl

theorem head_viewText (u : Unicode) (body : Str) (range : Option Json) (reply : ToolResult)
    (shown : viewText u path body range = .ok reply) :
    reply.isError = true ∨ reply.content.head? = some 'H' := by
  rw [viewText_eq] at shown
  split at shown
  · exact Or.inl (Except.ok.inj shown ▸ rfl)
  · split at shown
    · exact Or.inr (Except.ok.inj shown ▸ rfl)
    · exact absurd shown (by simp)

theorem head_heldReply (m : Memory) : (heldReply path m).content.head? = some 'T' := rfl

/-- A view of a path says that its file is held exactly when it finds a pending file. -/
theorem view_held (views : Views command path) (m : Memory)
    (done : execute b ctx s command = .ok (heldReply path m, s)) :
    ∃ m', file b s.db path = .ok (some m') ∧ m'.reviewStatus = .pending := by
  rcases execute_cases command _ done with ⟨_, failed⟩ | ⟨plan, ⟨name, known, decided⟩, carried⟩
  · have wrong : false = true := failed
    exact absurd wrong (by decide)
  · obtain rfl := Option.some.inj (known.symm.trans views.known)
    simp only [handler, view, views.normal, bind_eq_ok, Except.ok.injEq, exists_eq_left'] at decided
    obtain ⟨found, looked, decided⟩ := decided
    split at decided
    · rename_i m'
      simp only [bind_eq_ok] at decided
      obtain ⟨reply, shown, same⟩ := decided
      rw [← Except.ok.inj same] at carried
      obtain ⟨rfl, _⟩ := Prod.mk.inj (Except.ok.inj carried)
      rw [viewFile] at shown
      split at shown
      · rename_i held
        exact ⟨m', looked, held⟩
      · rcases head_viewText _ _ _ _ shown with failed | head
        · have wrong : false = true := failed
          exact absurd wrong (by decide)
        · rw [head_heldReply] at head
          exact absurd head (by decide)
    · split at decided
      · rename_i listed
        rw [← Except.ok.inj decided] at carried
        obtain ⟨same, _⟩ := Prod.mk.inj (Except.ok.inj carried)
        have head := head_listing s.db listed
        have content := congrArg (fun reply => reply.content.head?) same
        simp only [head, head_heldReply] at content
        exact absurd content (by decide)
      · rw [← Except.ok.inj decided] at carried
        obtain ⟨same, _⟩ := Prod.mk.inj (Except.ok.inj carried)
        have wrong : true = false := congrArg ToolResult.isError same
        exact absurd wrong (by decide)

/-- A view is refused exactly when it finds a pending file. -/
theorem refused_iff (raw : Json) (normal : normalisePath (some raw) = .ok path) :
    Refused b s path ↔ ∃ m, file b s.db path = .ok (some m) ∧ m.reviewStatus = .pending := by
  constructor
  · rintro ⟨ctx, command, m, views, done⟩
    exact view_held views m done
  · rintro ⟨m, found, held⟩
    have views : Views [("command".toList, .str "view"), ("path".toList, raw)] path := ⟨rfl, normal⟩
    refine ⟨⟨0, 0, 0, 0, none, none⟩, _, m, views, ?_⟩
    have planned : Plans b s.db [("command".toList, .str "view"), ("path".toList, raw)]
        (.reply (heldReply path m)) := by
      refine ⟨.view, views.known, ?_⟩
      simp only [handler, view, views.normal, found, bind, Except.bind, viewFile, if_pos held]
      rfl
    rw [execute_of_plans _ _ planned]
    rfl

/-! Where a file lies after a create. -/

/-- The memory is in the scope of the backend, under the path. -/
def named (b : Backend) (path : Str) (m : Memory) : Bool :=
  m.inScope b.scope && (Dict.get? m.metadata pathKey).bind Json.astext == some path

theorem findByMetadata_of_only (db : Database) (m : Memory)
    (live : m ∈ MemoryRepo.liveRows b.principal db) (own : named b path m = true)
    (only : ∀ x ∈ MemoryRepo.liveRows b.principal db, named b path x = true → x = m) :
    MemoryRepo.findByMetadata b.principal db b.scope pathKey path = some m := by
  cases found : MemoryRepo.findByMetadata b.principal db b.scope pathKey path with
  | none => exact absurd own (List.find?_eq_none.mp found m live)
  | some x => rw [only x (List.mem_of_find?_eq_some found) (List.find?_some found)]

theorem not_named_of_free (free : file b s.db path = .ok none) (x : Memory)
    (live : x ∈ MemoryRepo.liveRows b.principal s.db) : named b path x = false := by
  have none := ((file_eq_ok path none).mp free).2
  have other := List.find?_eq_none.mp none x live
  exact Bool.eq_false_iff.mpr other

/-- A change of a row that keeps its place keeps the order of the search. -/
theorem findByMetadata_updateMemory (db : Database) (id : Nat) (change : Memory → Memory)
    (keeps : ∀ m, ((change m).id, (change m).publicId) = (m.id, m.publicId))
    (orgId : ∀ m, (change m).orgId = m.orgId) (live : ∀ m, (change m).live = m.live)
    (same : ∀ m, named b path (change m) = named b path m) :
    MemoryRepo.findByMetadata b.principal (db.updateMemory id change keeps) b.scope pathKey path =
      (MemoryRepo.findByMetadata b.principal db b.scope pathKey path).map
        (Table.changeRow (fun m => m.id == id) change) := by
  have kept {A : Type} (f : Memory → A) (stays : ∀ m, f (change m) = f m) (m : Memory) :
      f (Table.changeRow (fun m => m.id == id) change m) = f m := by
    rw [Table.changeRow]
    split
    · exact stays m
    · rfl
  have rows : MemoryRepo.liveRows b.principal (db.updateMemory id change keeps) =
      (MemoryRepo.liveRows b.principal db).map (Table.changeRow (fun m => m.id == id) change) := by
    rw [MemoryRepo.liveRows, MemoryRepo.liveRows, tenantQuery, tenantQuery, Database.updateMemory,
      Table.update, List.filter_map, List.filter_map]
    simp only [Function.comp_def, kept Memory.orgId orgId, kept Memory.live live]
  have chosen : named b path ∘ Table.changeRow (fun m => m.id == id) change = named b path :=
    funext fun m => kept (named b path) same m
  change List.find? (named b path) _ = Option.map _ (List.find? (named b path) _)
  rw [rows, List.find?_map, chosen]

theorem file_of_patched (m : Memory) (found : file b s.db path = .ok (some m)) (patch : MemoryPatch)
    (still : patch.metadata = none) : file b (s.db.updateMemory m.id (Memory.patched ctx.now patch)
      (Memory.patched_ident ctx.now patch)) path = .ok (some (m.patched ctx.now patch)) := by
  rw [file_eq_ok] at found ⊢
  refine ⟨found.1, ?_⟩
  have same (x : Memory) : named b path (x.patched ctx.now patch) = named b path x := by
    simp only [named, Memory.patched, still, Option.getD_none]
    rfl
  rw [findByMetadata_updateMemory s.db m.id (Memory.patched ctx.now patch)
    (Memory.patched_ident ctx.now patch) (fun _ => rfl) (fun _ => rfl) same, found.2, Option.map_some,
    Table.changeRow, if_pos (by simp)]

theorem named_duplicated (existing : Memory) (inScope : existing.inScope b.scope = true) :
    named b path (existing.duplicated ctx.now (filePayload b path text).metadata) = true := by
  have own : Dict.get? (Dict.merge existing.metadata (fileMetadata path)) pathKey = some (.str path) :=
    Dict.get?_merge_of_mem _ _ _ _ (fileMetadata_distinct path) List.mem_cons_self
  rw [named, Bool.and_eq_true]
  refine ⟨inScope, ?_⟩
  change ((Dict.get? (Dict.merge existing.metadata (fileMetadata path)) pathKey).bind Json.astext ==
    some path) = true
  rw [own]
  simp [Json.astext]

/-- A create that folds leaves the duplicate under the path. -/
theorem file_of_folds (existing : Memory) (written : MemoryWrite) (free : file b s.db path = .ok none)
    (folds : Folds b.env b.principal ctx s s' (filePayload b path text) false written existing) :
    file b s'.db path = .ok (some written.memory) := by
  obtain ⟨live, ours, _⟩ := duplicateOf_some _ _ _ _ _ _ folds.duplicate
  have inside := live
  rw [MemoryRepo.mem_liveRows] at inside
  rw [file_eq_ok]
  refine ⟨((file_eq_ok path none).mp free).1, findByMetadata_of_only _ _ ?_ ?_ fun x present own => ?_⟩
  · rw [MemoryRepo.mem_liveRows, folds.updated, folds.memory, mem_updateMemory s.db existing inside.1]
    exact ⟨Or.inr rfl, inside.2⟩
  · rw [folds.memory]
    exact named_duplicated existing ours
  · rw [MemoryRepo.mem_liveRows, folds.updated, mem_updateMemory s.db existing inside.1] at present
    rcases present with ⟨⟨old, _⟩ | rfl, visible⟩
    · have other := not_named_of_free free x ((MemoryRepo.mem_liveRows _ _ x).mpr ⟨old, visible⟩)
      rw [own] at other
      exact absurd other (by simp)
    · exact folds.memory.symm

/-- A create that stores leaves the new memory under the path. -/
theorem file_of_stores (screened : Screened) (review : ReviewDecision) (tsConfig : Str)
    (written : MemoryWrite) (free : file b s.db path = .ok none)
    (stores : Stores b.env b.principal ctx s s' (filePayload b path text) false screened review
      tsConfig written) : file b s'.db path = .ok (some written.memory) := by
  obtain ⟨embedding, _, inserted⟩ := stores.inserted
  obtain ⟨row, _, _, members⟩ := insertMemory_cases _ _ _ _ _ inserted
  rw [file_eq_ok]
  refine ⟨((file_eq_ok path none).mp free).1, findByMetadata_of_only _ _ ?_ ?_ fun x present own => ?_⟩
  · rw [MemoryRepo.mem_liveRows, members]
    refine ⟨Or.inr rfl, ?_⟩
    rw [row]
    exact ⟨Or.inr rfl, rfl⟩
  · rw [row]
    simp [named, Memory.inScope, newRow, filePayload, Dict.get?, Json.astext]
  · rw [MemoryRepo.mem_liveRows, members] at present
    rcases present with ⟨old | rfl, visible⟩
    · have other := not_named_of_free free x ((MemoryRepo.mem_liveRows _ _ x).mpr ⟨old, visible⟩)
      rw [own] at other
      exact absurd other (by simp)
    · rfl

/-! The replies to a create. -/

theorem append_ne_self (start middle rest : Str) (filled : 0 < middle.length) :
    start ++ middle ++ rest ≠ start := by
  intro same
  have length := congrArg List.length same
  rw [List.length_append, List.length_append] at length
  omega

theorem stored_eq_bare (result : MemoryWrite) :
    stored "File created successfully at" path result = (bareReply path).content ↔
      result.pendingReview = false ∧ result.redacted = false := by
  have bare : (bareReply path).content = "File created successfully at" ++ ": " ++ path := rfl
  rw [stored, bare]
  cases result.pendingReview with
  | true =>
      rw [if_pos rfl, List.append_assoc]
      refine ⟨fun same => absurd same (append_ne_self _ _ _ (by decide)), fun wrong => ?_⟩
      exact absurd wrong.1 (by decide)
  | false =>
      rw [if_neg (by decide)]
      cases result.redacted with
      | true =>
          rw [if_pos rfl]
          refine ⟨fun same => ?_, fun wrong => absurd wrong.2 (by decide)⟩
          rw [← List.append_nil (_ ++ _ ++ _)] at same
          exact absurd same (append_ne_self _ _ _ (by decide))
      | false => simp

theorem raw_of_creates (creates : Creates command path text) :
    ∃ raw, normalisePath (some raw) = .ok path := by
  have normal := creates.normal
  cases given : Dict.get? command "path".toList with
  | none =>
      rw [given] at normal
      exact absurd normal (by simp [normalisePath])
  | some raw => exact ⟨raw, given ▸ normal⟩

theorem not_namesHeld (creates : Creates command path text) (held : CreatesHeld b ctx s path text) :
    ¬ NamesHeld b ctx s command path := by
  obtain ⟨raw, normal⟩ := raw_of_creates creates
  intro names
  cases held with
  | overwrites m below found held edits =>
      have runs : execute b ctx s command = _ := execute_of_overwrites creates below found
      rw [update_of_edits _ _ _ edits] at runs
      refine names _ runs ((refused_iff raw normal).mpr ⟨_, file_of_patched m found _ rfl, held⟩)
  | folds existing below free into held =>
      obtain ⟨s', wrote⟩ : ∃ s', MemoryService.write b.env b.principal ctx s (filePayload b path text)
          false false = .ok (folded ctx (filePayload b path text) existing, s') := by
        obtain ⟨service, wrote⟩ := write_of_foldsInto _ false _ existing into
        exact ⟨_, wrote⟩
      have runs : execute b ctx s command = _ :=
        execute_of_plans command _ (plans_of_asksFor _ (.creates creates below free))
      rw [carryOut, wrote] at runs
      have bare : stored "File created successfully at" path
          (folded ctx (filePayload b path text) existing) = (bareReply path).content := (stored_eq_bare _).mpr ⟨rfl, rfl⟩
      refine names s' ?_ ((refused_iff raw normal).mpr ?_)
      · rw [runs]
        simp only [bind, Except.bind, pure, Except.pure, bare]
        rfl
      · rcases write_cases _ _ _ _ wrote with ⟨existing', folds⟩ | ⟨fresh, _⟩
        · refine ⟨_, file_of_folds existing' _ free folds, ?_⟩
          exact held
        · exact absurd (into.duplicate.symm.trans fresh) (by simp)

/-- A create names no held file with the bare reply exactly when it neither overwrites a pending file
nor folds into a pending memory. -/
theorem namesHeld_iff (creates : Creates command path text) :
    NamesHeld b ctx s command path ↔ ¬ CreatesHeld b ctx s path text := by
  constructor
  · exact fun names held => not_namesHeld creates held names
  · intro free s' done refused
    obtain ⟨raw, normal⟩ := raw_of_creates creates
    obtain ⟨m', found', pending⟩ := (refused_iff raw normal).mp refused
    rcases execute_cases command _ done with ⟨_, failed⟩ | ⟨plan, plans, carried⟩
    · have wrong : false = true := failed
      exact absurd wrong (by decide)
    · obtain ⟨below, ⟨m, found, rfl⟩ | ⟨absent, rfl⟩⟩ :=
        plans_of_creates command path text creates plan plans
      · obtain ⟨_, row, updated⟩ := carryOut_update m _ _ _ carried
        have edits := (edits_of_update found _ row updated).1
        have after := update_of_edits _ _ _ edits
        rw [updated] at after
        obtain ⟨_, rfl⟩ := Prod.mk.inj (Except.ok.inj after)
        rw [file_of_patched m found _ rfl] at found'
        obtain rfl := Option.some.inj (Except.ok.inj found')
        exact free (.overwrites m below found pending edits)
      · obtain ⟨written, wrote, same⟩ := carryOut_write path text _ carried
        have content := (stored_eq_bare written).mp (congrArg ToolResult.content same).symm
        rcases write_cases _ _ _ written wrote with ⟨existing, folds⟩ | ⟨_, mode, tsConfig, _, stores⟩
        · rw [file_of_folds existing written absent folds, folds.memory] at found'
          obtain rfl := Option.some.inj (Except.ok.inj found')
          exact free (.folds existing below absent
            (foldsInto_of_folds _ _ _ written existing wrote folds) pending)
        · rw [file_of_stores _ _ _ written absent stores] at found'
          obtain rfl := Option.some.inj (Except.ok.inj found')
          have reported := (reported_of_stores _ mode tsConfig written stores).mpr (by simp [pending])
          rw [content.1] at reported
          exact absurd reported (by decide)

/-- Writes report exactly what is held when they fold into approved memories only, and creates name no
held file when they reach no pending one. -/
theorem held_writes_are_reported_iff (ctx : CallContext) (s : Session) :
    (∀ (env : Environment) (p : Principal) (payload : CreateMemoryInput) (embed force : Bool),
      ReportsHeld env p ctx s payload embed force ↔
        ∀ existing, FoldsInto env p ctx s.db payload force existing →
          existing.reviewStatus = .approved) ∧
    ∀ (b : Backend) (command : JsonDict) (path text : Str), Creates command path text →
      (NamesHeld b ctx s command path ↔ ¬ CreatesHeld b ctx s path text) :=
  ⟨fun _ _ _ _ _ => reportsHeld_iff, fun _ _ _ _ creates => namesHeld_iff creates⟩

def overwriteCommand (text : Str) : JsonDict :=
  [("command", .str "create"), ("path", .str "/memories/a"), ("file_text", .str text)]

theorem creates_overwriteCommand (text : Str) : Creates (overwriteCommand text) "/memories/a" text :=
  ⟨rfl, rfl, rfl⟩

theorem held_writes_are_reported_for_b :
    NamesHeld sampleBackend { now := 1, newPublicId := 2 } (oneFile "a" .approved) (overwriteCommand "b")
        "/memories/a" ↔
      ¬ CreatesHeld sampleBackend { now := 1, newPublicId := 2 } (oneFile "a" .approved)
        "/memories/a" "b" :=
  (held_writes_are_reported_iff _ _).2 _ _ _ "b" (creates_overwriteCommand "b")

/-- A write into a pending memory is not reported as held, and neither is a create over one. -/
theorem held_writes_are_not_reported :
    (¬ ∀ (env : Environment) (p : Principal) (ctx : CallContext) (s : Session)
      (payload : CreateMemoryInput) (embed force : Bool), ReportsHeld env p ctx s payload embed force) ∧
    ¬ ∀ (b : Backend) (ctx : CallContext) (s : Session) (command : JsonDict) (path text : Str),
      Creates command path text → NamesHeld b ctx s command path := by
  constructor
  · intro claim
    have reports := claim sampleEnvironment sampleOwner { now := 1, newPublicId := 2 }
      (oneFile "a" .pending) (filePayload sampleBackend "/memories/a" "a") false false
    have folds : FoldsInto sampleEnvironment sampleOwner { now := 1, newPublicId := 2 }
        (oneFile "a" .pending).db (filePayload sampleBackend "/memories/a" "a") false
          (fileRow "a" .pending) := ⟨rfl, rfl, by rfl, by decide⟩
    exact absurd (reportsHeld_iff.mp reports _ folds) (by decide)
  · intro claim
    have names := claim sampleBackend { now := 1, newPublicId := 2 } (oneFile "a" .pending)
      (overwriteCommand "b") "/memories/a" "b" (creates_overwriteCommand "b")
    refine not_namesHeld (creates_overwriteCommand "b") (.overwrites (fileRow "a" .pending) (by decide) rfl
      rfl ⟨rfl, rfl, rfl, rfl, by decide⟩) names

end MemoryTool
end Kortex
