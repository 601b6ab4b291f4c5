import Kortex.Proof.ToolFiles

/-
This file proves what each command does to the map from paths to texts.
-/

namespace Kortex.MemoryTool

open MemoryService

variable {b : Backend} {ctx : CallContext} {s s' : Session}

/-- An update of a file of the scope edits this file. -/
theorem update_inScope (m : Memory) (inside : InScope b s.db m) (patch : MemoryPatch)
    (row : Option Memory)
    (done : MemoryService.update b.principal ctx s m.publicId patch = .ok (row, s')) :
    s'.db = s.db.updateMemory m.id (Memory.patched ctx.now patch)
      (Memory.patched_ident ctx.now patch) := by
  have found := MemoryRepo.getByPublicId_of_mem b.principal s.db m inside.1
  rcases update_cases m.publicId patch row done with ⟨absent, _⟩ | ⟨m', edits, updated⟩
  · rw [found] at absent
    exact absurd absent (by simp)
  · rw [Option.some.inj (found.symm.trans edits.found)]
    exact updated

/-- The patched file replaces the file under its path or under the new one. -/
theorem replaces_update (filed : Filed b s.db) (command : JsonDict) (m : Memory) (patch : MemoryPatch)
    (content : Str) (fits : Fits b s.db command (.update m patch content)) (row : Option Memory)
    (done : MemoryService.update b.principal ctx s m.publicId patch = .ok (row, s')) :
    ∃ path path', AtPath b s.db path m ∧ Addresses b s.db command path ∧
      Addresses b s.db command path' ∧ (patch.metadata = none → path' = path) ∧
      Replaces b s.db s'.db (· = m) (m.patched ctx.now patch) path' := by
  obtain ⟨path, own, addressed, moved⟩ := fits
  have rows := inScope_updateMemory m own.1 (Memory.patched ctx.now patch)
    (Memory.patched_ident ctx.now patch) ⟨id, rfl⟩
  rw [← update_inScope m own.1 patch row done] at rows
  obtain ⟨named, accepted⟩ : pathOf m = some path ∧ PyValue.accepts path = true := by
    obtain ⟨path', named, accepted⟩ := filed.path m own.1
    rw [own.2] at named
    rw [Option.some.inj named]
    exact ⟨Option.some.inj named ▸ own.2, accepted⟩
  rcases moved with still | ⟨path', addressed', accepted', free, moved⟩
  · refine ⟨path, path, own, addressed, addressed, fun _ => rfl, rows, ?_, accepted, ?_⟩
    · rw [pathOf, Memory.patched]
      simp only [still, Option.getD_none]
      rw [← pathOf, named]
    · intro x inside kept same
      exact kept (filed.distinct x m inside own.1 (same.trans named.symm))
  · refine ⟨path, path', own, addressed, addressed', fun still => ?_, rows, ?_, accepted', ?_⟩
    · rw [moved] at still
      exact absurd still (by simp)
    · rw [pathOf_eq_some, Memory.patched]
      simp only [moved, Option.getD_some]
      rw [Dict.get?_set, if_pos rfl]
    · exact fun x inside _ same => free x ⟨inside, same⟩

/-- This is the metadata of a file. -/
def fileMetadata (path : Str) : JsonDict :=
  [(pathKey, .str path), ("memory_tool".toList, .bool true)]

theorem fileMetadata_distinct (path : Str) : ((fileMetadata path).map Prod.fst).Nodup := by
  change [pathKey, "memory_tool".toList].Nodup
  decide

/-- A write that folds moves the duplicate to the new path. -/
theorem replaces_fold (path text : Str) (written : MemoryWrite) (existing : Memory)
    (accepted : PyValue.accepts path = true) (free : ∀ x, ¬ AtPath b s.db path x)
    (folds : Folds b.env b.principal ctx s s' (filePayload b path text) false written existing) :
    InScope b s.db existing ∧ Replaces b s.db s'.db (· = existing)
      (existing.duplicated ctx.now (filePayload b path text).metadata) path := by
  obtain ⟨live, ours, _⟩ := duplicateOf_some _ _ _ _ _ _ folds.duplicate
  have inside : InScope b s.db existing := ⟨live, ours⟩
  have rows := inScope_updateMemory existing inside
    (Memory.duplicated ctx.now (filePayload b path text).metadata)
    (Memory.duplicated_ident ctx.now (filePayload b path text).metadata) ⟨id, rfl⟩
  rw [← folds.updated] at rows
  refine ⟨inside, rows, ?_, accepted, fun x old _ same => free x ⟨old, same⟩⟩
  have own : Dict.get? (Dict.merge existing.metadata (fileMetadata path)) pathKey = some (.str path) := by
    apply Dict.get?_merge_of_mem
    · exact fileMetadata_distinct path
    · exact List.mem_cons_self
  rw [pathOf_eq_some]
  exact own

/-- A write that stores adds the file under the new path. -/
theorem replaces_store (path text : Str) (screened : Screened) (review : ReviewDecision)
    (tsConfig : Str) (written : MemoryWrite) (accepted : PyValue.accepts path = true)
    (free : ∀ x, ¬ AtPath b s.db path x)
    (stores : Stores b.env b.principal ctx s s' (filePayload b path text) false screened review
      tsConfig written) :
    written.memory.body = screened.body ∧
      Replaces b s.db s'.db (fun _ => False) written.memory path := by
  obtain ⟨embedding, _, inserted⟩ := stores.inserted
  obtain ⟨row, _, _, members⟩ := insertMemory_cases _ _ _ _ _ inserted
  have visible : Visible b.principal written.memory := by
    rw [row]
    exact ⟨Or.inr rfl, rfl⟩
  have ours : written.memory.inScope b.scope = true := by
    rw [row]
    simp [Memory.inScope, newRow, filePayload]
  refine ⟨by rw [row]; rfl, fun x => ?_, ?_, accepted, fun x old _ same => free x ⟨old, same⟩⟩
  · simp only [InScope, MemoryRepo.mem_liveRows, members, not_false_eq_true, and_true]
    constructor
    · rintro ⟨⟨old | new, seen⟩, inside⟩
      · exact Or.inl ⟨⟨old, seen⟩, inside⟩
      · exact Or.inr new
    · rintro (⟨⟨old, seen⟩, inside⟩ | rfl)
      · exact ⟨⟨Or.inl old, seen⟩, inside⟩
      · exact ⟨⟨Or.inr rfl, visible⟩, ours⟩
  · rw [pathOf_eq_some, row]
    rfl

/-- A command keeps every memory of the scope a file, and no command but a fold touches another
path than its own. -/
theorem filed_carryOut (filed : Filed b s.db) (command : JsonDict) (plan : Plan)
    (fits : Fits b s.db command plan) (reply : ToolResult)
    (done : carryOut b ctx s plan = .ok (reply, s')) :
    Filed b s'.db ∧ ((∀ path text, plan = .write path text →
        duplicateOf b.env b.principal s.db b.scope (screen b.env (filePayload b path text)) false =
          none) →
      ∀ other, ¬ Addresses b s.db command other → files b s'.db other = files b s.db other) := by
  cases plan with
  | reply answer =>
      obtain ⟨_, rfl⟩ := Prod.mk.inj (Except.ok.inj done)
      exact ⟨filed, fun _ _ _ => rfl⟩
  | update m patch content =>
      obtain ⟨_, row, updated⟩ := carryOut_update m patch content reply done
      obtain ⟨path, path', own, addressed, addressed', _, replaces⟩ :=
        replaces_update filed command m patch content fits row updated
      refine ⟨replaces.filed filed, fun _ other unaddressed => ?_⟩
      apply replaces.frame filed other
      · exact fun same => unaddressed (same ▸ addressed')
      · rintro x rfl named
        rw [own.2] at named
        exact unaddressed (Option.some.inj named ▸ addressed)
  | write path text =>
      obtain ⟨written, wrote, _⟩ := carryOut_write path text reply done
      obtain ⟨creates, accepted, free⟩ := fits
      have addressed : Addresses b s.db command path := by
        simp only [Addresses, creates.known]
        exact creates.normal
      rcases write_cases _ false false written wrote with ⟨existing, folds⟩ | ⟨_, _, _, _, stores⟩
      · obtain ⟨_, replaces⟩ := replaces_fold path text written existing accepted free folds
        refine ⟨replaces.filed filed, fun fresh => ?_⟩
        have duplicate := folds.duplicate
        rw [show (filePayload b path text).scope = b.scope from rfl, fresh path text rfl] at duplicate
        exact absurd duplicate (by simp)
      · obtain ⟨_, replaces⟩ := replaces_store path text _ _ _ written accepted free stores
        refine ⟨replaces.filed filed, fun _ other unaddressed => ?_⟩
        exact replaces.frame filed other (fun same => unaddressed (same ▸ addressed)) fun _ lost =>
          lost.elim
  | delete found content =>
      have deleted := carryOut_delete found content reply done
      obtain ⟨filed', frame⟩ := files_deleteAll found filed deleted
      refine ⟨filed', fun _ other unaddressed => frame other fun m inside => ?_⟩
      obtain ⟨owned, addressed⟩ := fits m inside
      exact ⟨owned, fun named => unaddressed (addressed other named)⟩

/-! What the commands show of the map. -/

/-- No memory of the scope is held for review. -/
def NoneHeld (b : Backend) (s : Session) : Prop :=
  ∀ m ∈ MemoryRepo.liveRows b.principal s.db, m.inScope b.scope = true → m.reviewStatus ≠ .pending

/-- The command asks to see the path. -/
structure Views (command : JsonDict) (path : Str) : Prop where
  known : commandOf (Dict.get? command "command".toList) = some .view
  normal : normalisePath (Dict.get? command "path".toList) = .ok path

/-- This is what a command shows of a session. -/
def shown (b : Backend) (ctx : CallContext) (s : Session) (command : JsonDict) :
    Except ServiceError ToolResult :=
  (execute b ctx s command).map Prod.fst

/-- This is how a text reads through the window that a command asks for. -/
def reading (u : Unicode) (path text : Str) (command : JsonDict) : Except ServiceError ToolResult :=
  match viewText u path text (Dict.get? command "view_range".toList) with
  | .ok result => .ok result
  | .error (.rejected message) => .ok (.failure message)
  | .error (.service error) => .error error

/-- A view shows the text of the map under its path. -/
theorem shown_of_files (filed : Filed b s.db) (noneHeld : NoneHeld b s) (path text : Str)
    (present : files b s.db path = some text) (command : JsonDict) (views : Views command path) :
    shown b ctx s command = reading b.env.unicode path text command := by
  obtain ⟨m, found, rfl⟩ := Option.map_eq_some_iff.mp present
  obtain ⟨inside, own⟩ := (findByMetadata_eq_some filed path m).mp found
  obtain ⟨path', named, accepted⟩ := filed.path m inside
  rw [own] at named
  have looked : file b s.db path = .ok (some m) :=
    (file_eq_ok path (some m)).mpr ⟨Option.some.inj named ▸ accepted, found⟩
  have read : viewFile b path m (Dict.get? command "view_range".toList) =
      viewText b.env.unicode path m.body (Dict.get? command "view_range".toList) := by
    rw [viewFile, if_neg (noneHeld m inside.1 inside.2)]
  have planned : view b s.db command = (viewText b.env.unicode path m.body
      (Dict.get? command "view_range".toList)).map Plan.reply := by
    simp only [view, views.normal, looked, bind, Except.bind, read]
    cases viewText b.env.unicode path m.body (Dict.get? command "view_range".toList) <;> rfl
  simp only [shown, reading, execute, views.known, handler, planned]
  rcases viewText b.env.unicode path m.body (Dict.get? command "view_range".toList) with
    (message | error) | result
  · rfl
  · rfl
  · rfl

/-- The command keeps the other files, and after a create the files read as they should. -/
structure KeepsFiles (b : Backend) (s : Session) (c : ToolCall) : Prop where
  frame : ∀ path, ¬ Addresses b s.db c.command path →
    files b (toolStep b s c).db path = files b s.db path
  created : ∀ path text reply s', Creates c.command path text →
    execute b c.context (MemoryService.Session.renew s c.newService) c.command = .ok (reply, s') →
      reply.isError = false → files b s'.db path = some text ∧
        ∀ ctx command other, Views command other →
          (other = path → shown b ctx s' command = reading b.env.unicode other text command) ∧
          (other ≠ path → ∀ before, files b s.db other = some before →
            shown b ctx s' command = reading b.env.unicode other before command)

/-- The plan of a create overwrites the file under its path, or writes a new one. -/
theorem plans_of_creates (command : JsonDict) (path text : Str) (creates : Creates command path text)
    (plan : Plan) (plans : Plans b s.db command plan) : path ≠ memoryRoot ∧
      ((∃ m, file b s.db path = .ok (some m) ∧ plan = overwrite path text m) ∨
        file b s.db path = .ok none ∧ plan = .write path text) := by
  obtain ⟨name, known, decided⟩ := plans
  rw [creates.known] at known
  obtain rfl := Option.some.inj known
  simp only [handler, create, bind_eq_ok, creates.normal, creates.given, Except.ok.injEq] at decided
  obtain ⟨_, rfl, _, required, found, looked, decided⟩ := decided
  refine ⟨fun root => absurd required (by simp [requireFilePath, root]), ?_⟩
  split at decided
  · rename_i m
    exact Or.inl ⟨m, looked, (Except.ok.inj decided).symm⟩
  · exact Or.inr ⟨looked, (Except.ok.inj decided).symm⟩

/-- A write that goes through has no duplicate and stores the text that it is given. -/
def WritesNew (b : Backend) (ctx : CallContext) (s : Session) (command : JsonDict) : Prop :=
  ∀ path text written s', Plans b s.db command (.write path text) →
    MemoryService.write b.env b.principal ctx s (filePayload b path text) false false =
      .ok (written, s') →
        duplicateOf b.env b.principal s.db b.scope (screen b.env (filePayload b path text)) false =
          none ∧ (screen b.env (filePayload b path text)).body = text

/-- A command keeps every memory of the scope a file. -/
theorem filed_execute (filed : Filed b s.db) (command : JsonDict) (reply : ToolResult)
    (done : execute b ctx s command = .ok (reply, s')) :
    Filed b s'.db ∧ (WritesNew b ctx s command →
      ∀ other, ¬ Addresses b s.db command other → files b s'.db other = files b s.db other) := by
  rcases execute_cases command reply done with ⟨rfl, _⟩ | ⟨plan, plans, carried⟩
  · exact ⟨filed, fun _ _ _ => rfl⟩
  · obtain ⟨filed', frame⟩ :=
      filed_carryOut filed command plan (fits_of_plans filed command plan plans) reply carried
    refine ⟨filed', fun writesNew => frame fun path text same => ?_⟩
    subst same
    obtain ⟨written, wrote, _⟩ := carryOut_write path text reply carried
    exact (writesNew path text written s' plans wrote).1

/-- A create leaves its text under its path. -/
theorem files_create (filed : Filed b s.db) (command : JsonDict) (path text : Str)
    (creates : Creates command path text) (writesNew : WritesNew b ctx s command)
    (reply : ToolResult) (done : execute b ctx s command = .ok (reply, s'))
    (success : reply.isError = false) : files b s'.db path = some text := by
  rcases execute_cases command reply done with ⟨_, failed⟩ | ⟨plan, plans, carried⟩
  · rw [success] at failed
    exact absurd failed (by simp)
  · have fits := fits_of_plans filed command plan plans
    rcases (plans_of_creates command path text creates plan plans).2 with ⟨m, looked, rfl⟩ | ⟨_, rfl⟩
    · obtain ⟨_, row, updated⟩ := carryOut_update m _ _ reply carried
      obtain ⟨old, new, own, _, _, still, replaces⟩ :=
        replaces_update filed command m _ _ fits row updated
      have here := (findByMetadata_eq_some filed path m).mp ((file_eq_ok path (some m)).mp looked).2
      obtain rfl : old = path := Option.some.inj (own.2.symm.trans here.2)
      obtain rfl : new = old := still rfl
      rw [files_of_atPath (replaces.filed filed) new _ replaces.atPath]
      rfl
    · obtain ⟨written, wrote, _⟩ := carryOut_write path text reply carried
      obtain ⟨fresh, unchanged⟩ := writesNew path text written s' plans wrote
      obtain ⟨_, accepted, free⟩ := fits
      rcases write_cases _ false false written wrote with ⟨existing, folds⟩ | ⟨_, _, _, _, stores⟩
      · have duplicate := folds.duplicate
        rw [show (filePayload b path text).scope = b.scope from rfl, fresh] at duplicate
        exact absurd duplicate (by simp)
      · obtain ⟨body, replaces⟩ := replaces_store path text _ _ _ written accepted free stores
        rw [files_of_atPath (replaces.filed filed) path written.memory replaces.atPath, body,
          unchanged]

/-- A create that goes through and keeps the files is a new one. -/
theorem writesNew_of_keeps (filed : Filed b s.db) (command : JsonDict)
    (frame : ∀ reply s', execute b ctx s command = .ok (reply, s') →
      ∀ other, ¬ Addresses b s.db command other → files b s'.db other = files b s.db other)
    (created : ∀ path text reply s', Creates command path text →
      execute b ctx s command = .ok (reply, s') → reply.isError = false →
        files b s'.db path = some text) : WritesNew b ctx s command := by
  intro path text written s' plans wrote
  obtain ⟨creates, accepted, free⟩ := fits_of_plans filed command _ plans
  have done : execute b ctx s command =
      .ok ({ content := stored "File created successfully at" path written }, s') := by
    rw [execute_of_plans command _ plans, carryOut, wrote]
    rfl
  have present := created path text _ s' creates done rfl
  rcases write_cases _ false false written wrote with ⟨existing, folds⟩ | ⟨fresh, _, _, _, stores⟩
  · obtain ⟨inside, replaces⟩ := replaces_fold path text written existing accepted free folds
    obtain ⟨old, own, _⟩ := filed.path existing inside
    have different : old ≠ path := fun same => free existing ⟨inside, same ▸ own⟩
    have unaddressed : ¬ Addresses b s.db command old := by
      simp only [Addresses, creates.known, creates.normal, Except.ok.injEq]
      exact different.symm
    have kept := frame _ s' done old unaddressed
    rw [files_of_atPath filed old existing ⟨inside, own⟩] at kept
    have gone : files b s'.db old = none := by
      apply files_eq_none (replaces.filed filed)
      rintro x ⟨now, named⟩
      rcases (replaces.rows x).mp now with ⟨before, other⟩ | rfl
      · exact other (filed.distinct x existing before inside (named.trans own.symm))
      · rw [replaces.named] at named
        exact different (Option.some.inj named).symm
    rw [gone] at kept
    exact absurd kept (by simp)
  · obtain ⟨body, replaces⟩ := replaces_store path text _ _ _ written accepted free stores
    rw [files_of_atPath (replaces.filed filed) path written.memory replaces.atPath, body] at present
    exact ⟨fresh, Option.some.inj present⟩

/-- A step of the tool keeps the files exactly when no new file is folded or changed on its way. -/
theorem keepsFiles_iff (s : Session) (c : ToolCall) (filed : Filed b s.db)
    (next : NoneHeld b (toolStep b s c)) :
    KeepsFiles b s c ↔
      WritesNew b c.context (MemoryService.Session.renew s c.newService) c.command := by
  have same := renew_db s c.newService
  rw [← same] at filed
  constructor
  · rintro ⟨frame, created⟩
    apply writesNew_of_keeps filed
    · intro reply s' done other unaddressed
      have kept := frame other (same ▸ unaddressed)
      rw [toolStep, done, ← same] at kept
      exact kept
    · exact fun path text reply s' creates done success =>
        (created path text reply s' creates done success).1
  · intro writesNew
    rw [toolStep] at next
    have frame : ∀ path, ¬ Addresses b s.db c.command path →
        files b (toolStep b s c).db path = files b s.db path := by
      intro path unaddressed
      cases done : execute b c.context (MemoryService.Session.renew s c.newService) c.command with
      | error e => rw [toolStep, done, afterCall]
      | ok result =>
          have kept := (filed_execute filed c.command result.1 done).2 writesNew path
            (same ▸ unaddressed)
          rw [toolStep, done, afterCall, kept, same]
    refine ⟨frame, fun path text reply s' creates done success => ?_⟩
    have filed' := (filed_execute filed c.command reply done).1
    have present := files_create filed c.command path text creates writesNew reply done success
    rw [done, afterCall] at next
    refine ⟨present, fun ctx command other views => ⟨?_, fun different before old => ?_⟩⟩
    · rintro rfl
      exact shown_of_files filed' next other text present command views
    · have unaddressed : ¬ Addresses b s.db c.command other := by
        simp only [Addresses, creates.known, creates.normal, Except.ok.injEq]
        exact different.symm
      have kept := frame other unaddressed
      rw [toolStep, done, old] at kept
      exact shown_of_files filed' next other before kept command views

theorem filed_toolStep (s : Session) (c : ToolCall) (filed : Filed b s.db) :
    Filed b (toolStep b s c).db := by
  rw [toolStep]
  cases done : execute b c.context (MemoryService.Session.renew s c.newService) c.command with
  | error e => exact filed
  | ok result =>
      rw [← renew_db s c.newService] at filed
      exact (filed_execute filed c.command result.1 done).1

/-- The scope has no memory yet. -/
def EmptyScope (b : Backend) (s : Session) : Prop :=
  ∀ m ∈ MemoryRepo.liveRows b.principal s.db, m.inScope b.scope = false

theorem filed_of_emptyScope (s : Session) (empty : EmptyScope b s) : Filed b s.db where
  path m inside := by
    have outside := empty m inside.1
    rw [inside.2] at outside
    exact absurd outside (by simp)
  distinct m _ inside := by
    have outside := empty m inside.1
    rw [inside.2] at outside
    exact absurd outside (by simp)

/-- The store behaves as a map from paths to texts along a run of commands exactly when every new
file of the run has a new fingerprint and is stored with the text it is given. -/
theorem keepsFiles_run_iff (b : Backend) (s : Session) (empty : EmptyScope b s)
    (commands : List ToolCall) (noneHeld : Run.Always (toolStep b) (NoneHeld b) s commands) :
    Run.Each (toolStep b) (KeepsFiles b) s commands ↔
      Run.Each (toolStep b) (fun s c =>
        WritesNew b c.context (MemoryService.Session.renew s c.newService) c.command) s commands := by
  have filed : Run.Always (toolStep b) (fun s => Filed b s.db) s commands :=
    Run.always_of_step filed_toolStep commands (filed_of_emptyScope s empty)
  apply Run.each_iff_each (filed.and noneHeld)
  rintro s c ⟨filed, _⟩ ⟨_, next⟩
  exact keepsFiles_iff s c filed next

/-! Samples of runs. -/

def sampleBackend : Backend where
  env := sampleEnvironment
  principal := sampleOwner
  scope := sampleScope

def fileRow (text : Str) (status : ReviewStatus) : Memory :=
  { newRow sampleEnvironment sampleOwner { now := 0, newPublicId := 1 }
      (filePayload sampleBackend "/memories/a" text)
      { title := "/memories/a", body := text, sensitivity := .internal } ⟨status, []⟩ "english" none
    with id := 1 }

/-- The only memory of this session is the file `/memories/a`. -/
def oneFile (text : Str) (status : ReviewStatus) : Session where
  db := { memories := Table.empty.insert (fileRow text status) (Table.fresh_empty _) }

/-- A command of the samples uses its number as the clock and as the next public id. -/
def sampleToolCall (key : Nat) (command : JsonDict) : ToolCall where
  context := { now := key, newPublicId := BitVec.ofNat 128 key }
  newService := false
  command := command

def createCall (key : Nat) (path text : Str) : ToolCall :=
  sampleToolCall key [("command", .str "create"), ("path", .str path), ("file_text", .str text)]

def renameCall (key : Nat) (oldPath newPath : Str) : ToolCall :=
  sampleToolCall key
    [("command", .str "rename"), ("old_path", .str oldPath), ("new_path", .str newPath)]

theorem emptyScope_empty (b : Backend) : EmptyScope b ⟨{}, {}⟩ := by
  intro m present
  exact absurd (MemoryRepo.mem_liveRows _ _ m |>.mp present).1 List.not_mem_nil

/-- A file is created, renamed and created again. -/
def recreated : List ToolCall :=
  [createCall 1 "/memories/a" "x", renameCall 2 "/memories/a" "/memories/b",
    createCall 3 "/memories/a" "x"]

theorem recreated_files :
    (recreated.scanl (toolStep sampleBackend) ⟨{}, {}⟩).map (fun s =>
      (files sampleBackend s.db "/memories/a", files sampleBackend s.db "/memories/b")) =
      [(none, none), (some "x".toList, none), (none, some "x".toList), (some "x".toList, none)] := by
  decide +kernel

theorem recreated_noneHeld :
    Run.Always (toolStep sampleBackend) (NoneHeld sampleBackend) ⟨{}, {}⟩ recreated := by
  refine ⟨?_, ?_, ?_, ?_⟩
  · unfold NoneHeld
    decide +kernel
  · unfold NoneHeld
    decide +kernel
  · unfold NoneHeld
    decide +kernel
  · unfold NoneHeld Run.Always
    decide +kernel

theorem keepsFiles_run_iff_recreated :
    Run.Each (toolStep sampleBackend) (KeepsFiles sampleBackend) ⟨{}, {}⟩ recreated ↔
      Run.Each (toolStep sampleBackend) (fun s c => WritesNew sampleBackend c.context
        (MemoryService.Session.renew s c.newService) c.command) ⟨{}, {}⟩ recreated :=
  keepsFiles_run_iff sampleBackend ⟨{}, {}⟩ (emptyScope_empty sampleBackend) recreated
    recreated_noneHeld

/-- The second create folds into the renamed file, and takes it away from its path. -/
theorem create_takes_renamed_file :
    ¬ ∀ (b : Backend) (s : Session) (commands : List ToolCall), EmptyScope b s →
      b.env.settings.dedupOnWrite = true → Run.Always (toolStep b) (NoneHeld b) s commands →
        Run.Each (toolStep b) (KeepsFiles b) s commands := by
  intro claim
  have keeps := claim sampleBackend ⟨{}, {}⟩ recreated (emptyScope_empty sampleBackend) rfl
    recreated_noneHeld
  have frame := keeps.2.2.1.frame "/memories/b" (by
    rintro (normal : normalisePath (some (.str "/memories/a")) = .ok _)
    have own : normalisePath (some (.str "/memories/a")) = .ok "/memories/a" := by rfl
    rw [own] at normal
    exact absurd (Except.ok.inj normal) (by decide))
  have texts := recreated_files
  simp only [recreated, List.scanl_cons, List.scanl_nil, List.map_cons, List.cons.injEq,
    Prod.mk.injEq] at texts
  rw [texts.2.2.1.2, texts.2.2.2.1.2] at frame
  exact absurd frame (by simp)

end Kortex.MemoryTool
