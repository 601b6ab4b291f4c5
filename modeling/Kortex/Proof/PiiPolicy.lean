import Kortex.Library.Run
import Kortex.Proof.Governance
import Kortex.Proof.PiiDetector

/-
This file proves when all stored memories obey the PII policy.
-/

namespace Kortex.MemoryTool

open MemoryService PiiDetector

variable (env : Environment)

/-- The policy allows a memory with this text, sensitivity and record of findings. -/
def Allows (title body : Str) (sensitivity : Sensitivity) (piiFlags : Dict Str Nat) : Prop :=
  match env.settings.piiPolicy with
  | .redact => scan env.unicode title = [] ∧ scan env.unicode body = []
  | .escalate => (scan env.unicode (title ++ "\n" ++ body) ≠ [] →
      sensitivity = .confidential ∨ sensitivity = .secret) ∧
        piiFlags = summarise (scan env.unicode (title ++ "\n" ++ body))
  | .tag => piiFlags = summarise (scan env.unicode (title ++ "\n" ++ body))

/-- A live memory is one that the policy allows. -/
def Compliant (m : Memory) : Prop :=
  m.live = true → Allows env m.title m.body m.sensitivity m.piiFlags

/-- No piece of the text between its findings holds, read on its own, another one. -/
def LeavesNothing (text : Str) : Prop :=
  ∀ piece ∈ pieces text (scan env.unicode text), scan env.unicode piece = []

/-- The policy allows the edited text with the findings of the text before. -/
def EditsCompliantly (s : Session) (t : Turn) : Prop :=
  ∀ publicId patch m, Asks env s t publicId patch →
    Edits t.principal t.context.now s.db publicId patch m →
      Allows env (patch.title.getD m.title) (patch.body.getD m.body)
        (patch.sensitivity.getD m.sensitivity) m.piiFlags

/-- Redaction finds everything in the text of a new memory. -/
def RedactsFully (s : Session) (t : Turn) : Prop :=
  env.settings.piiPolicy = .redact → ∀ payload embed, Writes env s t payload embed →
    LeavesNothing env payload.title ∧ LeavesNothing env payload.body

variable {env}

theorem scan_joined (standard : env.unicode.Standard) (title body : Str) :
    scan env.unicode (title ++ "\n" ++ body) = [] ↔
      scan env.unicode title = [] ∧ scan env.unicode body = [] := by
  rw [List.append_assoc]
  exact scan_append_eq_nil standard '\n' (by decide) title body

theorem leavesNothing_of_clean (text : Str) (clean : scan env.unicode text = []) :
    LeavesNothing env text := by
  intro piece inside
  rw [clean] at inside
  rw [List.mem_singleton.mp inside]
  exact clean

/-- Under the policy of redaction the stored text is clean exactly when redaction finds everything. -/
theorem allows_screen_redact (standard : env.unicode.Standard)
    (detects : env.settings.piiDetection = true) (redacts : env.settings.piiPolicy = .redact)
    (payload : CreateMemoryInput) :
    scan env.unicode (screen env payload).title = [] ∧ scan env.unicode (screen env payload).body = [] ↔
      LeavesNothing env payload.title ∧ LeavesNothing env payload.body := by
  by_cases clean : scan env.unicode (payload.title ++ "\n" ++ payload.body) = []
  · obtain ⟨title, body⟩ := (scan_joined standard _ _).mp clean
    rw [screen, if_neg fun found => found.2 clean]
    exact iff_of_true ⟨title, body⟩ ⟨leavesNothing_of_clean _ title, leavesNothing_of_clean _ body⟩
  · rw [screen, if_pos ⟨detects, clean⟩]
    simp only [redacts]
    rw [scan_redact_eq_nil standard, scan_redact_eq_nil standard]
    exact Iff.rfl

/-- The other policies keep the text, and record what the scan finds in it. -/
theorem screen_keeps (detects : env.settings.piiDetection = true)
    (keeps : env.settings.piiPolicy ≠ .redact) (payload : CreateMemoryInput) :
    (screen env payload).title = payload.title ∧ (screen env payload).body = payload.body ∧
      (screen env payload).findings =
        summarise (scan env.unicode (payload.title ++ "\n" ++ payload.body)) := by
  by_cases clean : scan env.unicode (payload.title ++ "\n" ++ payload.body) = []
  · rw [screen, if_neg fun found => found.2 clean, clean]
    exact ⟨rfl, rfl, rfl⟩
  · rw [screen, if_pos ⟨detects, clean⟩]
    cases policy : env.settings.piiPolicy with
    | redact => exact absurd policy keeps
    | escalate => exact ⟨rfl, rfl, rfl⟩
    | tag => exact ⟨rfl, rfl, rfl⟩

theorem screen_escalates (detects : env.settings.piiDetection = true)
    (escalates : env.settings.piiPolicy = .escalate) (payload : CreateMemoryInput)
    (found : scan env.unicode (payload.title ++ "\n" ++ payload.body) ≠ []) :
    (screen env payload).sensitivity = .confidential ∨ (screen env payload).sensitivity = .secret := by
  rw [screen, if_pos ⟨detects, found⟩]
  simp only [escalates]
  cases payload.sensitivity <;> decide

/-- A new memory is one that the policy allows, exactly when redaction finds everything. -/
theorem allows_screen (standard : env.unicode.Standard) (detects : env.settings.piiDetection = true)
    (payload : CreateMemoryInput) :
    Allows env (screen env payload).title (screen env payload).body (screen env payload).sensitivity
        (screen env payload).findings ↔
      (env.settings.piiPolicy = .redact →
        LeavesNothing env payload.title ∧ LeavesNothing env payload.body) := by
  cases policy : env.settings.piiPolicy with
  | redact =>
      simp only [Allows, policy, forall_const]
      exact allows_screen_redact standard detects policy payload
  | escalate =>
      obtain ⟨title, body, findings⟩ := screen_keeps detects (by simp [policy]) payload
      simp only [Allows, policy, title, body, findings, reduceCtorEq, false_imp_iff, and_true, iff_true]
      exact screen_escalates detects policy payload
  | tag =>
      obtain ⟨title, body, findings⟩ := screen_keeps detects (by simp [policy]) payload
      simp only [Allows, policy, title, body, findings, reduceCtorEq, false_imp_iff]

theorem stableFor_compliant (standard : env.unicode.Standard)
    (detects : env.settings.piiDetection = true) :
    StableFor env (Compliant env) fun payload _ => env.settings.piiPolicy = .redact →
      LeavesNothing env payload.title ∧ LeavesNothing env payload.body where
  duplicated _ _ _ own := own
  softDeleted _ _ _ live := by simp [Memory.live, Memory.softDeleted] at live
  withPinned _ _ _ own := own
  created p ctx payload embed mode tsConfig embedding id _ := by
    rw [← allows_screen standard detects payload]
    exact ⟨fun own => own rfl, fun own _ => own⟩

theorem edits_live (t : Turn) (s : Session) (publicId : Uuid) (patch : MemoryPatch) (m : Memory)
    (edits : Edits t.principal t.context.now s.db publicId patch m) : m.live = true :=
  (visible_of_getByPublicId t.principal s.db publicId m edits.found).2

/-- Along a run all memories obey the policy, exactly when the policy allows every edited text, and
redaction finds everything in every text that is written. -/
theorem compliant_run_iff (standard : env.unicode.Standard)
    (detects : env.settings.piiDetection = true) (s : Session)
    (good : EveryMemory (Compliant env) s.db) (turns : List Turn) :
    Run.Always (turn env) (fun s => EveryMemory (Compliant env) s.db) s turns ↔
      Run.Each (turn env) (fun s t => EditsCompliantly env s t ∧ RedactsFully env s t) s turns := by
  refine Run.always_iff_each (P := fun s : Session => EveryMemory (Compliant env) s.db) turns
    ?_ good
  intro s t _ all
  rw [everyMemory_turn_iff (stableFor_compliant standard detects) t (fun _ _ _ _ _ own => own) all]
  constructor
  · rintro ⟨edits, writes⟩
    refine ⟨fun publicId patch m asks edited => ?_, fun redacts payload embed stores => ?_⟩
    · exact edits publicId patch m asks edited (edits_live t s publicId patch m edited)
    · exact writes payload embed stores redacts
  · rintro ⟨edits, writes⟩
    exact ⟨fun publicId patch m asks edited _ => edits publicId patch m asks edited,
      fun payload embed stores redacts => writes redacts payload embed stores⟩

theorem standard_ascii : Unicode.ascii.Standard := fun _ _ => ⟨rfl, rfl⟩

theorem compliant_empty (env : Environment) : EveryMemory (Compliant env) {} := by
  intro m present
  exact absurd present List.not_mem_nil

/-- A file is overwritten with another text without findings. -/
theorem compliant_run_overwritten :
    Run.Always (turn sampleEnvironment) (fun s => EveryMemory (Compliant sampleEnvironment) s.db)
        ⟨{}, {}⟩ (overwrittenFile "y") ↔
      Run.Each (turn sampleEnvironment)
        (fun s t => EditsCompliantly sampleEnvironment s t ∧ RedactsFully sampleEnvironment s t)
        ⟨{}, {}⟩ (overwrittenFile "y") :=
  compliant_run_iff standard_ascii rfl ⟨{}, {}⟩ (compliant_empty _) _

/-- The second text of the file holds an address, which the memory does not record. -/
theorem overwrittenFile_flags :
    (Run.final (turn sampleEnvironment) ⟨{}, {}⟩ (overwrittenFile "a@b.io")).db.memories.rows.map
      (fun m => (m.live, m.piiFlags, summarise (scan Unicode.ascii (m.title ++ "\n" ++ m.body)))) =
      [(true, [], [("email".toList, 1)])] := by decide +kernel

theorem overwrite_escapes_scan :
    ¬ ∀ env : Environment, env.unicode.Standard → env.settings.piiDetection = true →
      ∀ turns : List Turn,
        Run.Always (turn env) (fun s => EveryMemory (Compliant env) s.db) ⟨{}, {}⟩ turns := by
  intro claim
  have final := (claim sampleEnvironment standard_ascii rfl (overwrittenFile "a@b.io")).final
  have row : (true, ([] : Dict Str Nat), [("email".toList, 1)]) ∈ _ :=
    overwrittenFile_flags ▸ List.mem_singleton_self _
  obtain ⟨m, inside, values⟩ := List.mem_map.mp row
  simp only [Prod.mk.injEq] at values
  have flags : m.piiFlags = summarise (scan Unicode.ascii (m.title ++ "\n" ++ m.body)) :=
    final m inside values.1
  rw [values.2.1, values.2.2] at flags
  exact absurd flags (by simp)

end Kortex.MemoryTool
