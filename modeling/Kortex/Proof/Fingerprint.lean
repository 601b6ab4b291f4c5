import Kortex.Library.Run
import Kortex.Library.Strip
import Kortex.Proof.MemoryService

/-
This file proves when the stored fingerprints still describe the memories they stand on, and that the
fingerprint tells apart exactly the normalised contents.
-/

namespace Kortex

/-- The only whitespace of a collapsed text is the space. -/
theorem mem_collapseFrom (inSpace : Bool) (s : Str) (c : Char) (present : c ∈ collapseFrom inSpace s)
    (space : Str.isSpace c = true) : c = ' ' := by
  induction s generalizing inSpace with
  | nil => simp [collapseFrom] at present
  | cons d rest ih =>
      rw [collapseFrom] at present
      by_cases first : Str.isSpace d = true
      · rw [if_pos first] at present
        cases inSpace with
        | true => exact ih true present
        | false =>
            rcases List.mem_cons.mp present with same | later
            · exact same
            · exact ih true later
      · rw [if_neg first] at present
        rcases List.mem_cons.mp present with same | later
        · exact absurd (same ▸ space) first
        · exact ih false later

variable (env : Environment)

/-- The separator of the fields does not occur in normalised text. -/
theorem fieldSeparator_notMem (text : Str) : fieldSeparator ∉ normalizeContent env text := by
  intro present
  have space := mem_collapseFrom false _ _ ((Str.strip_sublist _).subset present) (by decide)
  exact absurd space (by decide)

/-- A separator splits a text in one way only. -/
theorem append_separator_inj (separator : Char) (a a' b b' : Str) (first : separator ∉ a)
    (second : separator ∉ a') (same : a ++ separator :: b = a' ++ separator :: b') :
    a = a' ∧ b = b' := by
  induction a generalizing a' with
  | nil =>
      cases a' with
      | nil => exact ⟨rfl, (List.cons.inj same).2⟩
      | cons c a' => exact absurd ((List.cons.inj same).1 ▸ List.mem_cons_self) second
  | cons c a ih =>
      cases a' with
      | nil => exact absurd ((List.cons.inj same).1 ▸ List.mem_cons_self) first
      | cons c' a' =>
          obtain ⟨rfl, tail⟩ := List.cons.inj same
          simp only [List.mem_cons, not_or] at first second
          obtain ⟨rfl, rest⟩ := ih a' first.2 second.2 tail
          exact ⟨rfl, rest⟩

/-- Equal fingerprints have equal normalised titles and bodies. -/
theorem contentHash_inj (injective : Function.Injective env.sha256) (title body title' body' : Str)
    (same : contentHash env title body = contentHash env title' body') :
    normalizeContent env title = normalizeContent env title' ∧
      normalizeContent env body = normalizeContent env body' := by
  have texts := injective same
  rw [List.append_assoc, List.append_assoc] at texts
  exact append_separator_inj fieldSeparator _ _ _ _ (fieldSeparator_notMem env title)
    (fieldSeparator_notMem env title') texts

namespace MemoryService

/-- The fingerprint of a memory is the one of its title and body. -/
def Sealed (m : Memory) : Prop := m.contentHash = some (contentHash env m.title m.body)

/-- Every live memory carries the fingerprint of what it says. -/
def Fingerprinted (db : Database) : Prop :=
  EveryMemory (fun m => m.live = true → Sealed env m) db

/-- A write that folds returns a live memory that says what the write would have stored. -/
def FoldsFaithfully (s : Session) (r : Request) : Prop :=
  ∀ payload embed force result s', r.call = .write payload embed force →
    respond env s r = .ok (.written result, s') → result.deduped = true →
      result.memory ∈ s'.db.memories.rows ∧ result.memory.live = true ∧
        normalizeContent env result.memory.title = normalizeContent env (screen env payload).title ∧
        normalizeContent env result.memory.body = normalizeContent env (screen env payload).body

/-- An update that goes through leaves the fingerprint of the text as it was. -/
def KeepsFingerprint (s : Session) (r : Request) : Prop :=
  ∀ publicId patch m, r.call = .update publicId patch →
    Edits r.principal r.context.now s.db publicId patch m →
      contentHash env (patch.title.getD m.title) (patch.body.getD m.body) =
        contentHash env m.title m.body

variable {env}

/-- A fold into a memory with the right fingerprint loses nothing. -/
theorem foldsFaithfully_of_fingerprinted (injective : Function.Injective env.sha256) (s : Session)
    (r : Request) (good : Fingerprinted env s.db) : FoldsFaithfully env s r := by
  rw [← renew_db s r.newService] at good
  intro payload embed force result s' call done deduped
  simp only [respond, call, perform, mapFst_eq_ok] at done
  obtain ⟨written, done, same⟩ := done
  rw [Outcome.written.inj same] at done
  rcases write_cases payload embed force result done with ⟨existing, folds⟩ | ⟨_, _, _, _, stores⟩
  · obtain ⟨inside, _, hash⟩ := duplicateOf_some _ _ _ _ _ _ folds.duplicate
    rw [MemoryRepo.mem_liveRows] at inside
    have own := good existing inside.1 inside.2.2
    rw [Sealed, hash, Option.some.injEq] at own
    rw [folds.memory, folds.updated]
    refine ⟨?_, inside.2.2, contentHash_inj env injective _ _ _ _ own.symm⟩
    exact (mem_updateMemory _ existing inside.1 _ _ _).mpr (Or.inr rfl)
  · rw [stores.deduped] at deduped
    exact absurd deduped (by decide)

/-- An update keeps every fingerprint exactly when it leaves that of the text it edits. -/
theorem fingerprinted_update (p : Principal) (ctx : CallContext) (s s' : Session)
    (good : Fingerprinted env s.db) (publicId : Uuid) (patch : MemoryPatch) (result : Option Memory)
    (done : update p ctx s publicId patch = .ok (result, s')) :
    Fingerprinted env s'.db ↔ ∀ m, Edits p ctx.now s.db publicId patch m →
      contentHash env (patch.title.getD m.title) (patch.body.getD m.body) =
        contentHash env m.title m.body := by
  rw [Fingerprinted, everyMemory_update good publicId patch result done]
  apply forall_congr'
  intro m
  apply imp_congr_right
  intro edits
  obtain ⟨inside, live⟩ := visible_of_getByPublicId p s.db publicId m edits.found
  have own : m.contentHash = some _ := good m inside live
  change (m.live = true → m.contentHash = some _) ↔ _
  rw [own, Option.some.injEq]
  exact ⟨fun after => (after live).symm, fun same _ => same.symm⟩

/-- A call keeps every fingerprint exactly when it is no update that changes one. -/
theorem fingerprinted_step (dedup : env.settings.dedupOnWrite = true) (s : Session) (r : Request)
    (good : Fingerprinted env s.db) :
    Fingerprinted env (step env s r).db ↔ KeepsFingerprint env s r := by
  rw [KeepsFingerprint, ← renew_db s r.newService]
  rw [← renew_db s r.newService] at good
  cases done : respond env s r with
  | error e =>
      rw [step, done]
      refine ⟨fun _ publicId patch m call edits => ?_, fun _ => by rwa [renew_db] at good⟩
      have succeeds := update_of_edits publicId patch m edits
      simp [respond, call, perform, succeeds, Except.map] at done
  | ok result =>
      obtain ⟨outcome, s'⟩ := result
      rw [step, done]
      change Fingerprinted env s'.db ↔ _
      rw [respond] at done
      cases call : r.call with
      | write payload embed force =>
          simp only [call, perform, mapFst_eq_ok] at done
          obtain ⟨written, done, _⟩ := done
          have kept : Fingerprinted env s'.db :=
            everyMemory_write good payload embed force written done (fun _ own => own)
              fun _ _ _ _ _ => by simp only [Sealed, newRow, fingerprint, if_pos dedup]
          simp [kept]
      | update publicId patch =>
          simp only [call, perform, mapFst_eq_ok] at done
          obtain ⟨row, done, _⟩ := done
          rw [fingerprinted_update _ _ _ _ good publicId patch row done]
          constructor
          · rintro same publicId' patch' m call' edits
            obtain ⟨rfl, rfl⟩ := Call.update.inj call'
            exact same m edits
          · exact fun same m edits => same publicId patch m rfl edits
      | setPinned publicId pinned =>
          simp only [call, perform, mapFst_eq_ok] at done
          obtain ⟨row, done, _⟩ := done
          have kept : Fingerprinted env s'.db :=
            everyMemory_setPinned good publicId pinned row done fun _ own => own
          simp [kept]
      | review publicId approve =>
          simp only [call, perform, mapFst_eq_ok] at done
          obtain ⟨row, done, _⟩ := done
          have kept : Fingerprinted env s'.db :=
            everyMemory_review good publicId approve row done fun _ _ own => own
          simp [kept]
      | delete publicId =>
          simp only [call, perform, mapFst_eq_ok] at done
          obtain ⟨row, done, _⟩ := done
          have kept : Fingerprinted env s'.db :=
            everyMemory_delete good publicId row done fun _ own live => by
              simp [Memory.live, Memory.softDeleted] at live
          simp [kept]

/-- Along every run all live memories keep their fingerprints and all folds are faithful, exactly
when no update of the run changes the fingerprint of the text that it edits. -/
theorem fingerprinted_iff (injective : Function.Injective env.sha256)
    (dedup : env.settings.dedupOnWrite = true) (s : Session) (good : Fingerprinted env s.db)
    (requests : List Request) :
    (Run.Always (step env) (fun s => Fingerprinted env s.db) s requests ∧
        Run.Each (step env) (FoldsFaithfully env) s requests) ↔
      Run.Each (step env) (KeepsFingerprint env) s requests := by
  have exactly : Run.Always (step env) (fun s => Fingerprinted env s.db) s requests ↔
      Run.Each (step env) (KeepsFingerprint env) s requests :=
    Run.always_iff_each requests (fun s r _ good => fingerprinted_step dedup s r good) good
  constructor
  · exact fun holds => exactly.mp holds.1
  · intro keeps
    have always := exactly.mpr keeps
    exact ⟨always, Run.Each.imp always
      (fun s r good _ _ => foldsFaithfully_of_fingerprinted injective s r good) keeps⟩

/-- A request of the samples uses its number as the clock and as the next public id. -/
def sampleRequest (key : Nat) (call : Call) : Request where
  principal := sampleOwner
  context := { now := key, newPublicId := BitVec.ofNat 128 key }
  newService := true
  call := call

/-- The body of a memory is written, edited and written again. -/
def rewrittenBody : List Request :=
  [sampleRequest 1 (.write { scope := sampleScope, body := "x" } false false),
    sampleRequest 2 (.update 1 { body := some "y".toList }),
    sampleRequest 3 (.write { scope := sampleScope, body := "x" } false false)]

theorem fingerprinted_empty (env : Environment) : Fingerprinted env {} := by
  intro m present
  exact absurd present List.not_mem_nil

/-- An update of the importance alone keeps the fingerprints. -/
theorem fingerprinted_iff_importance :
    let requests := [sampleRequest 1 (.write { scope := sampleScope, body := "x" } false false),
      sampleRequest 2 (.update 1 { importance := some onePointZero })]
    (Run.Always (step sampleEnvironment) (fun s => Fingerprinted sampleEnvironment s.db) ⟨{}, {}⟩
        requests ∧
      Run.Each (step sampleEnvironment) (FoldsFaithfully sampleEnvironment) ⟨{}, {}⟩ requests) ↔
      Run.Each (step sampleEnvironment) (KeepsFingerprint sampleEnvironment) ⟨{}, {}⟩ requests :=
  fingerprinted_iff sampleHashes_injective rfl ⟨{}, {}⟩ (fingerprinted_empty _) _

/-- The memory that the last write folds into says something else than its fingerprint. -/
theorem rewrittenBody_rows :
    (Run.final (step sampleEnvironment) ⟨{}, {}⟩ rewrittenBody).db.memories.rows.map (fun m =>
      (m.live, m.body, m.accessCount,
        m.contentHash == some (contentHash sampleEnvironment m.title m.body))) =
      [(true, "y".toList, 1, false)] := by decide +kernel

theorem edited_memory_loses_fingerprint :
    ¬ ∀ env : Environment, Function.Injective env.sha256 → env.settings.dedupOnWrite = true →
      ∀ requests, Run.Always (step env) (fun s => Fingerprinted env s.db) ⟨{}, {}⟩ requests ∧
        Run.Each (step env) (FoldsFaithfully env) ⟨{}, {}⟩ requests := by
  intro claim
  have final := (claim sampleEnvironment sampleHashes_injective rfl rewrittenBody).1.final
  have row : (true, "y".toList, 1, false) ∈ _ := rewrittenBody_rows ▸ List.mem_singleton_self _
  obtain ⟨m, inside, values⟩ := List.mem_map.mp row
  simp only [Prod.mk.injEq, beq_eq_false_iff_ne] at values
  exact values.2.2.2 (final m inside values.1)

end MemoryService
end Kortex

namespace Kortex

/-- At most one of two neighbours is whitespace. -/
def SingleSpaced (c d : Char) : Prop := ¬ (Str.isSpace c = true ∧ Str.isSpace d = true)

/-- A collapsed text has single spaces only, and none at its start if the text before ends in one. -/
theorem isChain_collapseFrom (inSpace : Bool) (s : Str) : (collapseFrom inSpace s).IsChain SingleSpaced ∧
    (inSpace = true → ∀ c ∈ (collapseFrom inSpace s).head?, Str.isSpace c = false) := by
  induction s generalizing inSpace with
  | nil => exact ⟨List.isChain_nil, fun _ c none => absurd none (by simp [collapseFrom])⟩
  | cons c rest ih =>
      rw [collapseFrom]
      by_cases space : Str.isSpace c = true
      · rw [if_pos space]
        cases inSpace with
        | true => exact ih true
        | false =>
            obtain ⟨chain, filled⟩ := ih true
            refine ⟨chain.cons ?_, fun none => absurd none Bool.false_ne_true⟩
            rintro d first ⟨_, other⟩
            rw [filled rfl d first] at other
            exact absurd other Bool.false_ne_true
      · rw [if_neg space]
        refine ⟨(ih false).1.cons fun d _ both => space both.1, fun _ d first => ?_⟩
        obtain rfl := Option.some.inj first
        exact Bool.not_eq_true _ ▸ space

/-- A text with single spaces only is collapsed. -/
theorem collapseFrom_eq_self (inSpace : Bool) (s : Str) (chain : s.IsChain SingleSpaced)
    (spaces : ∀ c ∈ s, Str.isSpace c = true → c = ' ')
    (start : inSpace = true → ∀ c ∈ s.head?, Str.isSpace c = false) : collapseFrom inSpace s = s := by
  induction s generalizing inSpace with
  | nil => rfl
  | cons c rest ih =>
      rw [List.forall_mem_cons] at spaces
      obtain ⟨next, chain⟩ := List.isChain_cons.mp chain
      rw [collapseFrom]
      by_cases space : Str.isSpace c = true
      · have before : inSpace = false := by
          by_contra other
          rw [start (Bool.not_eq_false _ ▸ other) c rfl] at space
          exact absurd space Bool.false_ne_true
        rw [if_pos space, before, if_neg Bool.false_ne_true, spaces.1 space,
          ih true chain spaces.2 fun _ d first => by simpa [SingleSpaced, space] using next d first]
      · rw [if_neg space, ih false chain spaces.2 fun none => absurd none Bool.false_ne_true]

theorem collapseFrom_true_append (run after : Str) (blank : ∀ c ∈ run, Str.isSpace c = true) :
    collapseFrom true (run ++ after) = collapseFrom true after := by
  induction run with
  | nil => rfl
  | cons c run ih =>
      rw [List.forall_mem_cons] at blank
      rw [List.cons_append, collapseFrom, if_pos blank.1, if_pos rfl, ih blank.2]

theorem collapseFrom_true_eq (after : Str) (start : ∀ c ∈ after.head?, Str.isSpace c = false) :
    collapseFrom true after = collapse after := by
  cases after with
  | nil => rfl
  | cons c rest =>
      have filled : ¬ Str.isSpace c = true := by
        rw [start c rfl]
        exact Bool.false_ne_true
      rw [collapse, collapseFrom, collapseFrom, if_neg filled, if_neg filled]

/-- A run of whitespace becomes one space. -/
theorem collapse_run (run after : Str) (some : run ≠ []) (blank : ∀ c ∈ run, Str.isSpace c = true)
    (start : ∀ c ∈ after.head?, Str.isSpace c = false) :
    collapse (run ++ after) = ' ' :: collapse after := by
  cases run with
  | nil => exact absurd rfl some
  | cons c run =>
      rw [List.forall_mem_cons] at blank
      rw [collapse, List.cons_append, collapseFrom, if_pos blank.1, if_neg Bool.false_ne_true,
        collapseFrom_true_append run after blank.2, collapseFrom_true_eq after start]

/-- These are the assumptions on NFKC: it is idempotent, and a text that it leaves alone is left alone
when one run of whitespace becomes a space or is cut off at an end. -/
structure FoldsSpaces (nfkc : Str → Str) : Prop where
  idempotent : ∀ text, nfkc (nfkc text) = nfkc text
  inside : ∀ before run after : Str, run ≠ [] → (∀ c ∈ run, Str.isSpace c = true) →
    (∀ c ∈ before.getLast?, Str.isSpace c = false) → (∀ c ∈ after.head?, Str.isSpace c = false) →
    nfkc (before ++ run ++ after) = before ++ run ++ after →
      nfkc (before ++ ' ' :: after) = before ++ ' ' :: after
  front : ∀ run rest : Str, (∀ c ∈ run, Str.isSpace c = true) →
    (∀ c ∈ rest.head?, Str.isSpace c = false) → nfkc (run ++ rest) = run ++ rest → nfkc rest = rest
  back : ∀ rest run : Str, (∀ c ∈ run, Str.isSpace c = true) →
    (∀ c ∈ rest.getLast?, Str.isSpace c = false) → nfkc (rest ++ run) = rest ++ run → nfkc rest = rest

theorem collapse_cons (c : Char) (rest : Str) (filled : Str.isSpace c = false) :
    collapse (c :: rest) = c :: collapse rest := by
  rw [collapse, collapseFrom, if_neg (by simp [filled]), collapse]

variable {nfkc : Str → Str}

/-- The runs are replaced one after the other: the one that has been read stands behind a part that
stays. -/
theorem FoldsSpaces.collapse (folds : FoldsSpaces nfkc) (before run rest : Str)
    (ending : ∀ c ∈ before.getLast?, Str.isSpace c = false) (blank : ∀ c ∈ run, Str.isSpace c = true)
    (fixed : nfkc (before ++ run ++ rest) = before ++ run ++ rest) :
    nfkc (before ++ Kortex.collapse (run ++ rest)) = before ++ Kortex.collapse (run ++ rest) := by
  induction rest generalizing before run with
  | nil =>
      by_cases none : run = []
      · simpa [none, Kortex.collapse, collapseFrom] using fixed
      · have nothing : ∀ c ∈ ([] : Str).head?, Str.isSpace c = false := fun c first => absurd first (by simp)
        rw [collapse_run run [] none blank nothing]
        exact folds.inside before run [] none blank ending nothing fixed
  | cons c rest ih =>
      cases space : Str.isSpace c with
      | true =>
          have longer : ∀ d ∈ run ++ [c], Str.isSpace d = true := by
            rw [List.forall_mem_append, List.forall_mem_singleton]
            exact ⟨blank, space⟩
          have joined : run ++ c :: rest = run ++ [c] ++ rest := by simp
          rw [joined]
          exact ih before (run ++ [c]) ending longer (by simpa using fixed)
      | false =>
          have start : ∀ d ∈ (c :: rest).head?, Str.isSpace d = false := by simpa using space
          by_cases none : run = []
          · have later := ih (before ++ [c]) [] (by simpa using space) (by simp)
              (by simpa [none] using fixed)
            rw [none, List.nil_append, collapse_cons c rest space]
            simpa using later
          · have one := folds.inside before run (c :: rest) none blank ending start fixed
            have later := ih (before ++ [' ', c]) [] (by simpa using space) (by simp) (by simpa using one)
            rw [collapse_run run (c :: rest) none blank start, collapse_cons c rest space]
            simpa using later

theorem FoldsSpaces.strip (folds : FoldsSpaces nfkc) (s : Str) (fixed : nfkc s = s) :
    nfkc (Str.strip s) = Str.strip s := by
  have left : nfkc (Str.lstrip s) = Str.lstrip s := by
    apply folds.front (s.takeWhile Str.isSpace) (Str.lstrip s)
    · exact fun c present => List.mem_takeWhile_imp present
    · intro c first
      have other := List.head?_dropWhile_not Str.isSpace s
      rw [Str.lstrip] at first
      rw [first] at other
      exact other
    · rw [Str.lstrip, List.takeWhile_append_dropWhile]
      exact fixed
  obtain ⟨run, whole, blank⟩ := Str.rstrip_append_spaces (Str.lstrip s)
  apply folds.back (Str.strip s) run blank (fun c last => Str.strip_last s c last)
  rw [Str.strip, ← whole]
  exact left

/-- A text in normal form has no whitespace at its ends, single spaces as its only whitespace, and so no
separator. -/
structure NormalContent (s : Str) : Prop where
  head : ∀ c ∈ s.head?, Str.isSpace c = false
  last : ∀ c ∈ s.getLast?, Str.isSpace c = false
  single : s.IsChain SingleSpaced
  spaces : ∀ c ∈ s, Str.isSpace c = true → c = ' '
  separator : fieldSeparator ∉ s

variable (env : Environment)

theorem normal_normalizeContent (text : Str) : NormalContent (normalizeContent env text) where
  head c first := Str.strip_head _ c first
  last c ending := Str.strip_last _ c ending
  single := by
    obtain ⟨before, after, whole⟩ := Str.strip_infix_self (collapseFrom false (env.nfkc text))
    have chain := (isChain_collapseFrom false (env.nfkc text)).1
    rw [← whole] at chain
    exact chain.left_of_append.right_of_append
  spaces c present space := mem_collapseFrom false _ c ((Str.strip_sublist _).subset present) space
  separator := fieldSeparator_notMem env text

/-- Normalised text is left as it is. -/
theorem normalizeContent_idempotent (folds : FoldsSpaces env.nfkc) (text : Str) :
    normalizeContent env (normalizeContent env text) = normalizeContent env text := by
  have normal := normal_normalizeContent env text
  have collapsed := folds.collapse [] [] (env.nfkc text) (by simp) (by simp) (folds.idempotent text)
  have fixed : env.nfkc (normalizeContent env text) = normalizeContent env text :=
    folds.strip _ collapsed
  have same : collapse (normalizeContent env text) = normalizeContent env text :=
    collapseFrom_eq_self false _ normal.single normal.spaces fun none => absurd none Bool.false_ne_true
  conv_lhs => rw [normalizeContent, fixed, same]
  exact Str.strip_eq_self _ normal.head normal.last

/-- The fingerprints of two contents are equal exactly when the normalised titles and bodies are, and
what is normalised is in normal form. -/
theorem contentHash_eq_iff (injective : Function.Injective env.sha256) (folds : FoldsSpaces env.nfkc) :
    (∀ title body title' body', contentHash env title body = contentHash env title' body' ↔
      normalizeContent env title = normalizeContent env title' ∧
        normalizeContent env body = normalizeContent env body') ∧
    ∀ text, normalizeContent env (normalizeContent env text) = normalizeContent env text ∧
      NormalContent (normalizeContent env text) := by
  constructor
  · intro title body title' body'
    constructor
    · exact contentHash_inj env injective title body title' body'
    · rintro ⟨titles, bodies⟩
      rw [contentHash, contentHash, titles, bodies]
  · intro text
    exact ⟨normalizeContent_idempotent env folds text, normal_normalizeContent env text⟩

/-- ASCII text is in NFKC. -/
theorem foldsSpaces_id : FoldsSpaces id :=
  ⟨fun _ => rfl, fun _ _ _ _ _ _ _ _ => rfl, fun _ _ _ _ _ => rfl, fun _ _ _ _ _ => rfl⟩

/-- The samples are told apart by what stands on each side of the separator. -/
theorem contentHash_eq_iff_ascii :
    (contentHash MemoryService.sampleEnvironment "ab" [] =
        contentHash MemoryService.sampleEnvironment "a" "b" ↔
      normalizeContent MemoryService.sampleEnvironment "ab" =
          normalizeContent MemoryService.sampleEnvironment "a" ∧
        normalizeContent MemoryService.sampleEnvironment [] =
          normalizeContent MemoryService.sampleEnvironment "b") ∧
    normalizeContent MemoryService.sampleEnvironment " a \n b" = "a b".toList ∧
      NormalContent (normalizeContent MemoryService.sampleEnvironment " a \n b") := by
  obtain ⟨separates, normal⟩ := contentHash_eq_iff MemoryService.sampleEnvironment
    MemoryService.sampleHashes_injective foldsSpaces_id
  exact ⟨separates "ab" [] "a" "b", by decide, (normal " a \n b").2⟩

end Kortex
