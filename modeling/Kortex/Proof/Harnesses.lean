import Kortex.Library.Strip
import Kortex.Model.Harnesses

/-
This file proves when a merge keeps a configuration, can be repeated and raises nothing but `HarnessError`.
-/

namespace Kortex.Harnesses

open Json

/-! Values that can be written and read again. -/

/-- The encoder writes the value and the decoder reads it back. -/
def Sound (decoder : Decoder) (value : Json) : Prop :=
  Proper decoder.round value ∧ Short maxDigits value

variable {decoder : Decoder}

theorem sound_get? (doc : JsonDict) (sound : Sound decoder (.obj doc)) (key : Str) (value : Json)
    (found : Dict.get? doc key = some value) : Sound decoder value := by
  have inside := Dict.mem_of_get? doc key value found
  exact ⟨(properMembers_iff doc).mp sound.1.2 _ inside, (shortMembers_iff doc).mp sound.2 _ inside⟩

theorem sound_set (doc : JsonDict) (sound : Sound decoder (.obj doc)) (key : Str) (value : Json)
    (new : Sound decoder value) : Sound decoder (.obj (Dict.set doc key value)) := by
  refine ⟨⟨Dict.nodup_set doc key value sound.1.1, (properMembers_iff _).mpr ?_⟩, (shortMembers_iff _).mpr ?_⟩
  · intro m inside
    rcases Dict.mem_set doc key value m inside with rfl | old
    · exact new.1
    · exact (properMembers_iff doc).mp sound.1.2 m old
  · intro m inside
    rcases Dict.mem_set doc key value m inside with rfl | old
    · exact new.2
    · exact (shortMembers_iff doc).mp sound.2 m old

theorem sound_obj (members : JsonDict) (distinct : (members.map Prod.fst).Nodup)
    (sound : ∀ m ∈ members, Sound decoder m.2) : Sound decoder (.obj members) :=
  ⟨⟨distinct, (properMembers_iff members).mpr fun m inside => (sound m inside).1⟩,
    (shortMembers_iff members).mpr fun m inside => (sound m inside).2⟩

theorem sound_arr (items : List Json) (sound : ∀ item ∈ items, Sound decoder item) :
    Sound decoder (.arr items) :=
  ⟨(properItems_iff items).mpr fun item inside => (sound item inside).1,
    (shortItems_iff items).mpr fun item inside => (sound item inside).2⟩

theorem sound_append (items : List Json) (sound : Sound decoder (.arr items)) (value : Json)
    (new : Sound decoder value) : Sound decoder (.arr (items ++ [value])) := by
  apply sound_arr
  intro item inside
  rcases List.mem_append.mp inside with old | last
  · exact ⟨(properItems_iff items).mp sound.1 item old, (shortItems_iff items).mp sound.2 item old⟩
  · exact List.mem_singleton.mp last ▸ new

theorem sound_str (text : Str) : Sound decoder (.str text) := ⟨trivial, trivial⟩

theorem sound_bool (b : Bool) : Sound decoder (.bool b) := ⟨trivial, trivial⟩

theorem sound_texts (texts : List Str) : Sound decoder (.arr (texts.map .str)) := by
  apply sound_arr
  intro item inside
  obtain ⟨text, _, rfl⟩ := List.mem_map.mp inside
  exact sound_str text

theorem sound_envValues (server : McpServer) : Sound decoder (.obj server.envValues) := by
  have keys : server.envValues.map Prod.fst = server.env.map Prod.fst := by
    rw [McpServer.envValues, List.map_map]
    rfl
  apply sound_obj _ (keys ▸ server.distinct)
  intro m inside
  obtain ⟨entry, _, rfl⟩ := List.mem_map.mp inside
  exact sound_str entry.2

theorem sound_headers (server : McpServer) : Sound decoder (.obj server.headers) :=
  sound_obj _ (List.nodup_singleton _) (List.forall_mem_singleton.mpr (sound_str _))

theorem sound_mcpServersEntry (server : McpServer) (remote : Bool) :
    Sound decoder (.obj (mcpServersEntry server remote)) := by
  cases remote with
  | true =>
      apply sound_obj _ (by simp [mcpServersEntry])
      simp only [mcpServersEntry, if_true, List.forall_mem_cons]
      exact ⟨sound_str _, sound_str _, sound_headers server, fun _ none => absurd none List.not_mem_nil⟩
  | false =>
      apply sound_obj _ (by simp [mcpServersEntry])
      simp only [mcpServersEntry, Bool.false_eq_true, if_false, List.forall_mem_cons]
      exact ⟨sound_str _, sound_texts _, sound_envValues server, fun _ none => absurd none List.not_mem_nil⟩

theorem sound_opencodeEntry (server : McpServer) (remote : Bool) :
    Sound decoder (.obj (opencodeEntry server remote)) := by
  cases remote with
  | true =>
      apply sound_obj _ (by simp [opencodeEntry])
      simp only [opencodeEntry, if_true, List.forall_mem_cons]
      exact ⟨sound_str _, sound_str _, sound_headers server, sound_bool true,
        fun _ none => absurd none List.not_mem_nil⟩
  | false =>
      apply sound_obj _ (by simp [opencodeEntry])
      simp only [opencodeEntry, Bool.false_eq_true, if_false, List.forall_mem_cons]
      exact ⟨sound_str _, sound_texts _, sound_envValues server, sound_bool true,
        fun _ none => absurd none List.not_mem_nil⟩

theorem sound_hookGroup (command : Str) : Sound decoder (hookGroup command) := by
  simp [Sound, hookGroup, Proper, ProperMembers, ProperItems, Short, ShortMembers, ShortItems]

/-! A text is read, and the document that was written is read again. -/

/-- This is the document that a text stands for. -/
def documentOf (decoder : Decoder) : Option Str → Option JsonDict
  | none => some []
  | some text =>
      if Str.strip text = [] then some []
      else match loads decoder.round text with
        | some (.obj doc) => some doc
        | _ => none

/-- `int()` takes every integer that the decoder meets in a text that is not blank. -/
def Readable (decoder : Decoder) (text : Option Str) : Prop :=
  ∀ s, text = some s → Str.strip s ≠ [] → overlong decoder.round maxDigits s = false

theorem loadJson_ok (path : Str) (text : Option Str) (doc : JsonDict)
    (loaded : loadJson decoder path text = .ok doc) :
    Readable decoder text ∧ documentOf decoder text = some doc ∧ Sound decoder (.obj doc) := by
  have empty : Sound decoder (.obj []) := sound_obj [] List.nodup_nil (by simp)
  cases text with
  | none =>
      obtain rfl := Except.ok.inj loaded
      exact ⟨fun s none => (by cases none), rfl, empty⟩
  | some text =>
      rw [loadJson] at loaded
      rw [documentOf]
      split at loaded
      · rename_i blank
        obtain rfl := Except.ok.inj loaded
        exact ⟨fun s same filled => absurd (Option.some.inj same ▸ blank) filled, if_pos blank, empty⟩
      · rename_i filled
        rw [if_neg filled]
        split at loaded
        · cases loaded
        · rename_i short
          split at loaded
          · cases loaded
          · rename_i doc' read
            obtain rfl := Except.ok.inj loaded
            have short := Bool.eq_false_of_not_eq_true short
            rw [read]
            exact ⟨fun s same _ => Option.some.inj same ▸ short, rfl,
              proper_short_of_loads decoder.stable text _ short read⟩
          · cases loaded

/-- A text that cannot be read raises `HarnessError`, but for an integer that `int()` refuses. -/
theorem loadJson_error (path : Str) (text : Option Str) (e : Raised)
    (refused : loadJson decoder path text = .error e) :
    (e = .valueError ∧ ¬ Readable decoder text) ∨
      ((∃ message, e = .harnessError message) ∧ Readable decoder text ∧ documentOf decoder text = none) := by
  cases text with
  | none => cases refused
  | some text =>
      rw [loadJson] at refused
      rw [documentOf]
      split at refused
      · cases refused
      · rename_i filled
        rw [if_neg filled]
        split at refused
        · rename_i long
          refine Or.inl ⟨(Except.error.inj refused).symm, fun readable => ?_⟩
          rw [readable text rfl filled] at long
          cases long
        · rename_i short
          have readable : Readable decoder (some text) := by
            intro s same _
            exact Option.some.inj same ▸ Bool.eq_false_of_not_eq_true short
          split at refused
          · rename_i failed
            exact Or.inr ⟨⟨_, (Except.error.inj refused).symm⟩, readable, by rw [failed]⟩
          · cases refused
          · rename_i other read
            refine Or.inr ⟨⟨_, (Except.error.inj refused).symm⟩, readable, ?_⟩
            split
            · rename_i doc again
              exact (other doc (Option.some.inj (read.symm.trans again))).elim
            · rfl

theorem line_spaces : ∀ c ∈ "\n".toList, isWhitespace c = true := by
  intro c inside
  have same : c = '\n' := by simpa using inside
  rw [same]
  rfl

theorem loads_dumpJson (doc : JsonDict) (sound : Sound decoder (.obj doc)) :
    loads decoder.round (dumpJson doc) = some (.obj doc) :=
  loads_encode (indented false 2) (.obj doc) sound.1 "\n" line_spaces

example : dumpJson [("a", .arr [.int 1, .obj []])] =
    "\x7b\n  \"a\": [\n    1,\n    \x7b\x7d\n  ]\n\x7d\n".toList := by
  decide +kernel

/-- The document that is written is read again. -/
theorem loadJson_dumpJson (path : Str) (doc : JsonDict) (sound : Sound decoder (.obj doc)) :
    loadJson decoder path (some (dumpJson doc)) = .ok doc := by
  have filled : Str.strip (dumpJson doc) ≠ [] := by
    intro blank
    obtain ⟨body, text⟩ : ∃ body, dumpJson doc = '{' :: body := by
      cases doc with
      | nil => exact ⟨_, rfl⟩
      | cons member rest => exact ⟨_, by rw [dumpJson, encode, List.cons_append]⟩
    have space := (Str.strip_eq_nil_iff _).mp blank '{' (by rw [text]; exact List.mem_cons_self)
    exact absurd space (by decide)
  have short : overlong decoder.round maxDigits (dumpJson doc) = false :=
    overlong_encode (indented false 2) (.obj doc) sound.1 sound.2 "\n" line_spaces
  rw [loadJson, if_neg filled, if_neg (by rw [short]; exact Bool.false_ne_true), loads_dumpJson doc sound]

/-! The merges as edits of a document. -/

/-- These are the three merges. -/
inductive Merge where
  | mcpServers (server : McpServer) (remote : Bool)
  | opencode (server : McpServer) (remote : Bool)
  | sessionStart (command : Str)

def Merge.run (decoder : Decoder) (path : Str) : Merge → Option Str → Except Raised Str
  | .mcpServers server remote, text => mergeMcpServers decoder text path server remote
  | .opencode server remote, text => mergeOpencode decoder text path server remote
  | .sessionStart command, text => mergeSessionStartHook decoder text path command

/-- The entry of the server is set in the table. -/
def setEntry (path : Str) (doc : JsonDict) (key : Str) (entry : JsonDict) : Except Raised JsonDict := do
  let servers ← table doc key path
  return Dict.set doc key (.obj (Dict.set servers serverName (.obj entry)))

/-- The command is installed in the hooks. -/
def install (path : Str) (doc : JsonDict) (command : Str) : Except Raised JsonDict := do
  let hooks ← table doc "hooks" path
  let groups ← sessionStart hooks path
  let found ← installed command groups
  return withGroups doc hooks (if found then groups else groups ++ [hookGroup command])

/-- This is what a merge does with a document. -/
def Merge.edit (path : Str) : Merge → JsonDict → Except Raised JsonDict
  | .mcpServers server remote, doc => setEntry path doc "mcpServers" (mcpServersEntry server remote)
  | .opencode server remote, doc =>
      setEntry path (setDefault doc schemaKey schemaUrl) "mcp" (opencodeEntry server remote)
  | .sessionStart command, doc => install path doc command

theorem run_eq (path : Str) (merge : Merge) (text : Option Str) :
    merge.run decoder path text =
      (loadJson decoder path text).bind fun doc => (merge.edit path doc).map dumpJson := by
  cases loaded : loadJson decoder path text with
  | error e => cases merge <;>
      simp [Merge.run, mergeMcpServers, mergeOpencode, mergeSessionStartHook, loaded] <;> rfl
  | ok doc =>
      cases merge with
      | mcpServers server remote =>
          rw [Merge.run, mergeMcpServers, loaded]
          change _ = (setEntry path doc _ _).map dumpJson
          rw [setEntry]
          change (table doc "mcpServers" path).bind _ = ((table doc "mcpServers" path).bind _).map _
          cases table doc "mcpServers" path <;> rfl
      | opencode server remote =>
          rw [Merge.run, mergeOpencode, loaded]
          change (table (setDefault doc schemaKey schemaUrl) "mcp" path).bind _ =
            ((table (setDefault doc schemaKey schemaUrl) "mcp" path).bind _).map _
          cases table (setDefault doc schemaKey schemaUrl) "mcp" path <;> rfl
      | sessionStart command =>
          rw [Merge.run, mergeSessionStartHook, loaded]
          change (table doc "hooks" path).bind _ = ((table doc "hooks" path).bind _).map _
          cases table doc "hooks" path with
          | error e => rfl
          | ok hooks =>
              change (sessionStart hooks path).bind _ = ((sessionStart hooks path).bind _).map _
              cases sessionStart hooks path with
              | error e => rfl
              | ok groups =>
                  change (installed command groups).bind _ = ((installed command groups).bind _).map _
                  cases installed command groups with
                  | error e => rfl
                  | ok found => cases found <;> rfl

/-! What an edit changes. -/

/-- The table stands at the key; an absent one and a null count as empty. -/
def HoldsTable (doc : JsonDict) (key : Str) (t : JsonDict) : Prop :=
  Dict.get? doc key = some (.obj t) ∨ (t = [] ∧ (Dict.get? doc key = none ∨ Dict.get? doc key = some .null))

/-- The groups stand in the hooks; an absent list and a null count as empty. -/
def HoldsGroups (hooks : JsonDict) (groups : List Json) : Prop :=
  Dict.get? hooks "SessionStart" = some (.arr groups) ∨
    (groups = [] ∧ (Dict.get? hooks "SessionStart" = none ∨ Dict.get? hooks "SessionStart" = some .null))

/-- Only the entry of the server is another one, in the table at the key. -/
def EntrySet (doc : JsonDict) (key : Str) (entry : JsonDict) (doc' : JsonDict) : Prop :=
  ∃ servers servers', HoldsTable doc key servers ∧ Dict.Sets servers serverName (.obj entry) servers' ∧
    Dict.Sets doc key (.obj servers') doc'

/-- The schema is added behind all other keys unless the document has one. -/
def SchemaDefault (doc doc' : JsonDict) : Prop :=
  (schemaKey ∈ doc.map Prod.fst ∧ doc' = doc) ∨
    (schemaKey ∉ doc.map Prod.fst ∧ doc' = doc ++ [(schemaKey, schemaUrl)])

/-- A hook of the group runs the command. -/
def hasCommand (command : Str) : Json → Bool
  | .obj group =>
      match hooksOf group with
      | .ok hooks => hooks.any (runs command)
      | .error _ => false
  | _ => false

/-- One group is appended, unless another one already runs the command. -/
def HookInstalled (doc : JsonDict) (command : Str) (doc' : JsonDict) : Prop :=
  ∃ hooks groups, HoldsTable doc "hooks" hooks ∧ HoldsGroups hooks groups ∧
    if groups.any (hasCommand command) then doc' = doc
    else ∃ hooks', Dict.Sets hooks "SessionStart" (.arr (groups ++ [hookGroup command])) hooks' ∧
      Dict.Sets doc "hooks" (.obj hooks') doc'

/-- This is all that a merge changes. -/
def Merge.Changed : Merge → JsonDict → JsonDict → Prop
  | .mcpServers server remote, doc, doc' => EntrySet doc "mcpServers" (mcpServersEntry server remote) doc'
  | .opencode server remote, doc, doc' =>
      ∃ withSchema, SchemaDefault doc withSchema ∧
        EntrySet withSchema "mcp" (opencodeEntry server remote) doc'
  | .sessionStart command, doc, doc' => HookInstalled doc command doc'

theorem table_ok (path : Str) (doc : JsonDict) (key : Str) (t : JsonDict) :
    table doc key path = .ok t ↔ HoldsTable doc key t := by
  constructor
  · intro ok
    rw [table] at ok
    split at ok
    · rename_i absent
      exact Or.inr ⟨(Except.ok.inj ok).symm, Or.inl absent⟩
    · rename_i null
      exact Or.inr ⟨(Except.ok.inj ok).symm, Or.inr null⟩
    · rename_i existing
      exact Or.inl (Except.ok.inj ok ▸ existing)
    · cases ok
  · rintro (existing | ⟨rfl, absent | null⟩)
    · rw [table, existing]
    · rw [table, absent]
    · rw [table, null]

theorem table_error (path : Str) (doc : JsonDict) (key : Str) (e : Raised)
    (refused : table doc key path = .error e) : ∃ message, e = .harnessError message := by
  rw [table] at refused
  split at refused
  · cases refused
  · cases refused
  · cases refused
  · exact ⟨_, (Except.error.inj refused).symm⟩

theorem sessionStart_ok (path : Str) (hooks : JsonDict) (groups : List Json) :
    sessionStart hooks path = .ok groups ↔ HoldsGroups hooks groups := by
  constructor
  · intro ok
    rw [sessionStart] at ok
    split at ok
    · rename_i absent
      exact Or.inr ⟨(Except.ok.inj ok).symm, Or.inl absent⟩
    · rename_i null
      exact Or.inr ⟨(Except.ok.inj ok).symm, Or.inr null⟩
    · rename_i existing
      exact Or.inl (Except.ok.inj ok ▸ existing)
    · cases ok
  · rintro (existing | ⟨rfl, absent | null⟩)
    · rw [sessionStart, existing]
    · rw [sessionStart, absent]
    · rw [sessionStart, null]

theorem sessionStart_error (path : Str) (hooks : JsonDict) (e : Raised)
    (refused : sessionStart hooks path = .error e) : ∃ message, e = .harnessError message := by
  rw [sessionStart] at refused
  split at refused
  · cases refused
  · cases refused
  · cases refused
  · exact ⟨_, (Except.error.inj refused).symm⟩

/-- Python can iterate over the value. -/
def iterable : Json → Bool
  | .arr _ | .obj _ | .str _ => true
  | _ => false

/-- Python can iterate over the hooks of the group, if it has any. -/
def Iterable (group : Json) : Prop :=
  ∀ members : JsonDict, group = .obj members → ∀ hooks, Dict.get? members "hooks" = some hooks →
    iterable hooks = true

/-- Python can iterate over the hooks of every group up to the first one that runs the command. -/
def Loops (command : Str) (groups : List Json) : Prop :=
  ∀ before group after, groups = before ++ group :: after →
    (∀ earlier ∈ before, hasCommand command earlier = false) → Iterable group

theorem loops_cons (command : Str) (first : Json) (rest : List Json) :
    Loops command (first :: rest) ↔
      Iterable first ∧ (hasCommand command first = false → Loops command rest) := by
  constructor
  · intro loops
    refine ⟨loops [] first rest rfl (by simp), fun without => ?_⟩
    intro before group after split earlier
    exact loops (first :: before) group after (by rw [split]; rfl)
      (List.forall_mem_cons.mpr ⟨without, earlier⟩)
  · rintro ⟨own, later⟩ before group after split earlier
    cases before with
    | nil => exact (List.cons.inj split).1 ▸ own
    | cons g before =>
        obtain ⟨rfl, tail⟩ := List.cons.inj split
        rw [List.forall_mem_cons] at earlier
        exact later earlier.1 before group after tail earlier.2

theorem hooksOf_cases (members : JsonDict) :
    (Iterable (.obj members) ∧ ∃ hooks, hooksOf members = .ok hooks) ∨
      (¬ Iterable (.obj members) ∧ hooksOf members = .error .typeError) := by
  have own (hooks : Json) (found : Dict.get? members "hooks" = some hooks) :
      Iterable (.obj members) ↔ iterable hooks = true := by
    constructor
    · exact fun fine => fine members rfl hooks found
    · rintro fine _ same hooks' found'
      obtain rfl := Value.obj.inj same
      exact Option.some.inj (found.symm.trans found') ▸ fine
  rw [hooksOf]
  cases found : Dict.get? members "hooks" with
  | none =>
      refine Or.inl ⟨?_, _, rfl⟩
      rintro _ same hooks found'
      obtain rfl := Value.obj.inj same
      cases found.symm.trans found'
  | some hooks =>
      rw [own hooks found]
      cases hooks with
      | arr items => exact Or.inl ⟨rfl, _, rfl⟩
      | obj inner => exact Or.inl ⟨rfl, _, rfl⟩
      | str s => exact Or.inl ⟨rfl, _, rfl⟩
      | null => exact Or.inr ⟨Bool.false_ne_true, rfl⟩
      | bool b => exact Or.inr ⟨Bool.false_ne_true, rfl⟩
      | int i => exact Or.inr ⟨Bool.false_ne_true, rfl⟩
      | float x => exact Or.inr ⟨Bool.false_ne_true, rfl⟩

theorem iterable_of_ne (group : Json) (other : ∀ members, group ≠ .obj members) : Iterable group :=
  fun members same => absurd same (other members)

/-- The loop stops at a group that runs the command, and raises at one that it cannot go through. -/
theorem installed_cons (command : Str) (first : Json) (rest : List Json) :
    (Iterable first ∧ installed command (first :: rest) =
        if hasCommand command first then .ok true else installed command rest) ∨
      (¬ Iterable first ∧ installed command (first :: rest) = .error .typeError) := by
  cases first with
  | obj members =>
      rw [installed, hasCommand]
      rcases hooksOf_cases members with ⟨fine, hooks, found⟩ | ⟨broken, raised⟩
      · rw [found]
        exact Or.inl ⟨fine, rfl⟩
      · rw [raised]
        exact Or.inr ⟨broken, rfl⟩
  | _ => exact Or.inl ⟨iterable_of_ne _ (by simp), rfl⟩

/-- The loop finds the command, or raises `TypeError`. -/
theorem installed_cases (command : Str) (groups : List Json) :
    (Loops command groups ∧ installed command groups = .ok (groups.any (hasCommand command))) ∨
      (¬ Loops command groups ∧ installed command groups = .error .typeError) := by
  induction groups with
  | nil => exact Or.inl ⟨fun before group after split => by simp at split, rfl⟩
  | cons first rest ih =>
      rw [loops_cons, List.any_cons]
      rcases installed_cons command first rest with ⟨own, next⟩ | ⟨broken, raised⟩
      · rw [next]
        cases hasCommand command first with
        | true => exact Or.inl ⟨⟨own, fun without => absurd without (by simp)⟩, rfl⟩
        | false =>
            exact ih.imp (fun both => ⟨⟨own, fun _ => both.1⟩, both.2⟩)
              (fun both => ⟨fun fine => both.1 (fine.2 rfl), both.2⟩)
      · exact Or.inr ⟨fun fine => broken fine.1, raised⟩

/-! What each edit does. -/

theorem sound_table (doc : JsonDict) (sound : Sound decoder (.obj doc)) (key : Str) (t : JsonDict)
    (holds : HoldsTable doc key t) : Sound decoder (.obj t) := by
  rcases holds with existing | ⟨rfl, _⟩
  · exact sound_get? doc sound key _ existing
  · exact sound_obj [] List.nodup_nil (by simp)

theorem sound_groups (hooks : JsonDict) (sound : Sound decoder (.obj hooks)) (groups : List Json)
    (holds : HoldsGroups hooks groups) : Sound decoder (.arr groups) := by
  rcases holds with existing | ⟨rfl, _⟩
  · exact sound_get? hooks sound _ _ existing
  · exact sound_arr [] (by simp)

theorem get?_set_self (doc : JsonDict) (key : Str) (value : Json) :
    Dict.get? (Dict.set doc key value) key = some value := by
  rw [Dict.get?_set, if_pos rfl]

section Entries

variable (path : Str) (doc : JsonDict) (key : Str) (entry : JsonDict)

theorem setEntry_cases :
    (∃ servers, HoldsTable doc key servers ∧ setEntry path doc key entry =
        .ok (Dict.set doc key (.obj (Dict.set servers serverName (.obj entry))))) ∨
      ∃ message, setEntry path doc key entry = .error (.harnessError message) := by
  cases found : table doc key path with
  | error e =>
      obtain ⟨message, rfl⟩ := table_error path doc key e found
      exact Or.inr ⟨message, by rw [setEntry, found]; rfl⟩
  | ok servers =>
      exact Or.inl ⟨servers, (table_ok path doc key servers).mp found, by rw [setEntry, found]; rfl⟩

theorem entrySet_set (servers : JsonDict) (holds : HoldsTable doc key servers) :
    EntrySet doc key entry (Dict.set doc key (.obj (Dict.set servers serverName (.obj entry)))) :=
  ⟨servers, _, holds, Dict.sets_set servers serverName (.obj entry), Dict.sets_set doc key _⟩

/-- The entry that is set again is the same. -/
theorem setEntry_again (servers : JsonDict) :
    setEntry path (Dict.set doc key (.obj (Dict.set servers serverName (.obj entry)))) key entry =
      .ok (Dict.set doc key (.obj (Dict.set servers serverName (.obj entry)))) := by
  have found := get?_set_self doc key (.obj (Dict.set servers serverName (.obj entry)))
  have holds := (table_ok path _ key _).mpr (Or.inl found)
  have same := Dict.set_of_get? _ _ _ (get?_set_self servers serverName (.obj entry))
  rw [setEntry, holds]
  change Except.ok (Dict.set _ key (Value.obj (Dict.set (Dict.set servers serverName _) serverName _))) = _
  rw [same, Dict.set_of_get? _ _ _ found]

theorem sound_setEntry (sound : Sound decoder (.obj doc)) (new : Sound decoder (.obj entry))
    (servers : JsonDict) (holds : HoldsTable doc key servers) :
    Sound decoder (.obj (Dict.set doc key (.obj (Dict.set servers serverName (.obj entry))))) :=
  sound_set doc sound key _ (sound_set servers (sound_table doc sound key servers holds) serverName _ new)

end Entries

theorem schemaDefault_setDefault (doc : JsonDict) :
    SchemaDefault doc (setDefault doc schemaKey schemaUrl) := by
  rw [setDefault]
  by_cases present : schemaKey ∈ doc.map Prod.fst
  · rw [if_pos ((Dict.isSome_get? doc schemaKey).mpr present)]
    exact Or.inl ⟨present, rfl⟩
  · rw [if_neg fun some => present ((Dict.isSome_get? doc schemaKey).mp some)]
    exact Or.inr ⟨present, Dict.set_eq_append doc schemaKey schemaUrl present⟩

theorem sound_setDefault (doc : JsonDict) (sound : Sound decoder (.obj doc)) :
    Sound decoder (.obj (setDefault doc schemaKey schemaUrl)) := by
  rw [setDefault]
  split
  · exact sound
  · exact sound_set doc sound schemaKey schemaUrl (sound_str _)

/-- The default stands in the document after any other key is set. -/
theorem setDefault_again (doc : JsonDict) (key : Str) (value : Json) :
    setDefault (Dict.set (setDefault doc schemaKey schemaUrl) key value) schemaKey schemaUrl =
      Dict.set (setDefault doc schemaKey schemaUrl) key value := by
  have present : (Dict.get? (setDefault doc schemaKey schemaUrl) schemaKey).isSome = true := by
    rw [setDefault]
    split
    · assumption
    · rw [get?_set_self]
      rfl
  rw [setDefault, if_pos]
  rw [Dict.get?_set]
  split
  · rfl
  · exact present

/-! The hook. -/

theorem hasCommand_hookGroup (command : Str) : hasCommand command (hookGroup command) = true := by
  simp [hasCommand, hookGroup, hooksOf, runs, Dict.get?]

theorem iterable_hookGroup (command : Str) : Iterable (hookGroup command) := by
  rintro members same hooks found
  obtain rfl := Value.obj.inj same
  rw [← Option.some.inj found]
  rfl

/-- The loop goes through the groups and then the new one. -/
theorem loops_append (command : Str) (groups : List Json) (loops : Loops command groups) :
    Loops command (groups ++ [hookGroup command]) := by
  induction groups with
  | nil =>
      rw [List.nil_append, loops_cons]
      exact ⟨iterable_hookGroup command, fun without => absurd without (by simp [hasCommand_hookGroup])⟩
  | cons first rest ih =>
      rw [List.cons_append, loops_cons]
      rw [loops_cons] at loops
      exact ⟨loops.1, fun without => ih (loops.2 without)⟩

section Hooks

variable (path : Str) (doc : JsonDict) (command : Str)

/-- These are the groups after the merge. -/
def installedGroups (groups : List Json) : List Json :=
  if groups.any (hasCommand command) then groups else groups ++ [hookGroup command]

theorem loops_installedGroups (groups : List Json) (loops : Loops command groups) :
    Loops command (installedGroups command groups) ∧
      (installedGroups command groups).any (hasCommand command) = true := by
  rw [installedGroups]
  split
  · rename_i present
    exact ⟨loops, present⟩
  · refine ⟨loops_append command groups loops, ?_⟩
    rw [List.any_append, List.any_cons, hasCommand_hookGroup, Bool.true_or, Bool.or_true]

theorem install_eq (hooks : JsonDict) (groups : List Json) (holds : HoldsTable doc "hooks" hooks)
    (listed : HoldsGroups hooks groups) :
    install path doc command = (installed command groups).bind fun found =>
      .ok (withGroups doc hooks (if found then groups else groups ++ [hookGroup command])) := by
  rw [install, (table_ok path doc _ hooks).mpr holds]
  change (sessionStart hooks path).bind _ = _
  rw [(sessionStart_ok path hooks groups).mpr listed]
  rfl

theorem install_cases :
    (∃ hooks groups, HoldsTable doc "hooks" hooks ∧ HoldsGroups hooks groups ∧
      ((Loops command groups ∧
          install path doc command = .ok (withGroups doc hooks (installedGroups command groups))) ∨
        (¬ Loops command groups ∧ install path doc command = .error .typeError))) ∨
      ((∃ message, install path doc command = .error (.harnessError message)) ∧
        ∀ hooks groups, HoldsTable doc "hooks" hooks → ¬ HoldsGroups hooks groups) := by
  cases found : table doc "hooks" path with
  | error e =>
      obtain ⟨message, rfl⟩ := table_error path doc _ e found
      refine Or.inr ⟨⟨message, by rw [install, found]; rfl⟩, fun hooks groups holds => ?_⟩
      rw [← table_ok path, found] at holds
      cases holds
  | ok hooks =>
      have holds := (table_ok path doc _ hooks).mp found
      cases listed : sessionStart hooks path with
      | error e =>
          obtain ⟨message, rfl⟩ := sessionStart_error path hooks e listed
          refine Or.inr ⟨⟨message, ?_⟩, fun hooks' groups holds' listed' => ?_⟩
          · rw [install, found]
            change (sessionStart hooks path).bind _ = _
            rw [listed]
            rfl
          · rw [← table_ok path, found] at holds'
            obtain rfl := Except.ok.inj holds'
            rw [← sessionStart_ok path, listed] at listed'
            cases listed'
      | ok groups =>
          have listed := (sessionStart_ok path hooks groups).mp listed
          refine Or.inl ⟨hooks, groups, holds, listed, ?_⟩
          rw [install_eq path doc command hooks groups holds listed]
          rcases installed_cases command groups with ⟨loops, done⟩ | ⟨broken, raised⟩
          · rw [done]
            exact Or.inl ⟨loops, rfl⟩
          · rw [raised]
            exact Or.inr ⟨broken, rfl⟩

variable (hooks : JsonDict) (groups : List Json)

theorem hookInstalled (holds : HoldsTable doc "hooks" hooks) (listed : HoldsGroups hooks groups) :
    HookInstalled doc command (withGroups doc hooks (installedGroups command groups)) := by
  refine ⟨hooks, groups, holds, listed, ?_⟩
  rw [installedGroups]
  split
  · rename_i present
    -- A group that runs the command stands in the document, so nothing was missing.
    have filled : groups ≠ [] := by
      rintro rfl
      cases present
    have existing : Dict.get? hooks "SessionStart" = some (.arr groups) :=
      listed.resolve_right fun empty => filled empty.1
    have stands : Dict.get? doc "hooks" = some (.obj hooks) := by
      refine holds.resolve_right fun empty => ?_
      rw [empty.1] at existing
      cases existing
    rw [withGroups, Dict.set_of_get? _ _ _ existing, Dict.set_of_get? _ _ _ stands]
  · exact ⟨_, Dict.sets_set hooks _ _, Dict.sets_set doc _ _⟩

/-- The hook that is installed again is found. -/
theorem install_again (loops : Loops command groups) :
    install path (withGroups doc hooks (installedGroups command groups)) command =
      .ok (withGroups doc hooks (installedGroups command groups)) := by
  obtain ⟨loops, present⟩ := loops_installedGroups command groups loops
  have stands := get?_set_self doc "hooks"
    (.obj (Dict.set hooks "SessionStart" (.arr (installedGroups command groups))))
  have existing := get?_set_self hooks "SessionStart" (.arr (installedGroups command groups))
  rw [install_eq path (withGroups doc hooks (installedGroups command groups)) command _ _
    (Or.inl stands) (Or.inl existing)]
  rcases installed_cases command (installedGroups command groups) with ⟨_, done⟩ | ⟨broken, _⟩
  · rw [done, present]
    change Except.ok (Dict.set _ _ (Value.obj (Dict.set _ _ (.arr (installedGroups command groups))))) = _
    rw [Dict.set_of_get? _ _ _ existing]
    exact congrArg _ (Dict.set_of_get? _ _ _ stands)
  · exact absurd loops broken

theorem sound_withGroups (sound : Sound decoder (.obj doc)) (holds : HoldsTable doc "hooks" hooks)
    (listed : HoldsGroups hooks groups) :
    Sound decoder (.obj (withGroups doc hooks (installedGroups command groups))) := by
  have inner := sound_table doc sound _ hooks holds
  have all := sound_groups hooks inner groups listed
  have after : Sound decoder (.arr (installedGroups command groups)) := by
    rw [installedGroups]
    split
    · exact all
    · exact sound_append groups all _ (sound_hookGroup command)
  exact sound_set doc sound _ _ (sound_set hooks inner _ _ after)

end Hooks

/-! The merges. -/

/-- Python can go through the groups of the hooks as far as the merge does. -/
def Merge.Fits : Merge → JsonDict → Prop
  | .mcpServers _ _, _ | .opencode _ _, _ => True
  | .sessionStart command, doc => ∀ hooks groups, HoldsTable doc "hooks" hooks → HoldsGroups hooks groups →
      Loops command groups

/-- The edit changes what it should, and nothing when it is repeated. -/
structure Edits (decoder : Decoder) (path : Str) (merge : Merge) (doc doc' : JsonDict) : Prop where
  done : merge.edit path doc = .ok doc'
  changed : merge.Changed doc doc'
  again : merge.edit path doc' = .ok doc'
  sound : Sound decoder (.obj doc) → Sound decoder (.obj doc')

theorem holdsTable_unique (doc : JsonDict) (key : Str) (t t' : JsonDict) (holds : HoldsTable doc key t)
    (holds' : HoldsTable doc key t') : t' = t := by
  have first := (table_ok [] doc key t).mpr holds
  have second := (table_ok [] doc key t').mpr holds'
  exact Except.ok.inj (second.symm.trans first)

theorem holdsGroups_unique (hooks : JsonDict) (groups groups' : List Json) (listed : HoldsGroups hooks groups)
    (listed' : HoldsGroups hooks groups') : groups' = groups := by
  have first := (sessionStart_ok [] hooks groups).mpr listed
  have second := (sessionStart_ok [] hooks groups').mpr listed'
  exact Except.ok.inj (second.symm.trans first)

/-- An edit is done, refused with `HarnessError`, or raises `TypeError` where Python cannot go on. -/
theorem edit_cases (path : Str) (merge : Merge) (doc : JsonDict) :
    (merge.Fits doc ∧ ((∃ doc', Edits decoder path merge doc doc') ∨
        ∃ message, merge.edit path doc = .error (.harnessError message))) ∨
      (¬ merge.Fits doc ∧ merge.edit path doc = .error .typeError) := by
  cases merge with
  | mcpServers server remote =>
      refine Or.inl ⟨trivial, ?_⟩
      rcases setEntry_cases path doc "mcpServers" (mcpServersEntry server remote) with
        ⟨servers, holds, done⟩ | refused
      · exact Or.inl ⟨_, done, entrySet_set doc _ _ servers holds, setEntry_again path doc _ _ servers,
          fun sound => sound_setEntry doc _ _ sound (sound_mcpServersEntry server remote) servers holds⟩
      · exact Or.inr refused
  | opencode server remote =>
      refine Or.inl ⟨trivial, ?_⟩
      rcases setEntry_cases path (setDefault doc schemaKey schemaUrl) "mcp" (opencodeEntry server remote) with
        ⟨servers, holds, done⟩ | refused
      · refine Or.inl ⟨_, done, ⟨_, schemaDefault_setDefault doc, entrySet_set _ _ _ servers holds⟩, ?_,
          fun sound => sound_setEntry _ _ _ (sound_setDefault doc sound) (sound_opencodeEntry server remote)
            servers holds⟩
        rw [Merge.edit, setDefault_again]
        exact setEntry_again path _ _ _ servers
      · exact Or.inr refused
  | sessionStart command =>
      rcases install_cases path doc command with ⟨hooks, groups, holds, listed, result⟩ | ⟨refused, none⟩
      · have fits : (Merge.sessionStart command).Fits doc ↔ Loops command groups := by
          constructor
          · exact fun fits => fits hooks groups holds listed
          · intro loops hooks' groups' holds' listed'
            obtain rfl := holdsTable_unique doc _ hooks hooks' holds holds'
            exact holdsGroups_unique hooks' groups groups' listed listed' ▸ loops
        rw [fits]
        refine result.imp (fun ⟨loops, done⟩ => ⟨loops, Or.inl ⟨_, done, ?_, ?_, ?_⟩⟩) id
        · exact hookInstalled doc command hooks groups holds listed
        · exact install_again path doc command hooks groups loops
        · exact fun sound => sound_withGroups doc command hooks groups sound holds listed
      · exact Or.inl
          ⟨fun hooks groups holds listed => absurd listed (none hooks groups holds), Or.inr refused⟩

/-- The merge raises `HarnessError`, or it writes a text that parses to the document with these changes alone
and that it does not change again. -/
def Safe (decoder : Decoder) (path : Str) (merge : Merge) (text : Option Str) : Prop :=
  (∃ message, merge.run decoder path text = .error (.harnessError message)) ∨
    ∃ out doc doc', merge.run decoder path text = .ok out ∧ documentOf decoder text = some doc ∧
      loads decoder.round out = some (.obj doc') ∧ merge.Changed doc doc' ∧
      merge.run decoder path (some out) = .ok out

/-- A group has null under `hooks`. -/
def nullHooks : Str :=
  "\x7b\"hooks\": \x7b\"SessionStart\": [\x7b\"hooks\": null\x7d]\x7d\x7d"

end Kortex.Harnesses
