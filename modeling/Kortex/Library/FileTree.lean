import Mathlib.Data.List.Infix
import Mathlib.Data.List.Induction
import Kortex.Library.Dict

/-
This file models a tree of directories and files with the system calls on paths.
-/

namespace Kortex

inductive FileNode (Body : Type)
  | dir
  | file (body : Body)

inductive PathStep (Name : Type)
  | down (name : Name)
  | up

inductive FileError
  | missing
  | notDirectory
  | isDirectory
  | present
deriving DecidableEq

/-- The nodes below the root stand under their paths from it, and the parent of a node is a directory. -/
structure FileTree (Name Body : Type) [DecidableEq Name] where
  nodes : Dict (List Name) (FileNode Body)
  closed : ∀ path name node, Dict.get? nodes (path ++ [name]) = some node →
    path = [] ∨ Dict.get? nodes path = some .dir

namespace FileTree

variable {Name Body : Type} [DecidableEq Name] (t : FileTree Name Body)

def empty : FileTree Name Body := ⟨[], fun _ _ _ found => by cases found⟩

/-- The root is a directory. -/
def lookup (path : List Name) : Option (FileNode Body) :=
  if path = [] then some .dir else Dict.get? t.nodes path

def isDir (path : List Name) : Bool :=
  match t.lookup path with
  | some .dir => true
  | _ => false

theorem isDir_iff (path : List Name) : t.isDir path = true ↔ t.lookup path = some .dir := by
  unfold isDir
  split
  · next same => simp [same]
  · next other => simpa using fun same => other same

@[simp] theorem isDir_nil : t.isDir [] = true := rfl

theorem isDir_parent (path : List Name) (name : Name) (node : FileNode Body)
    (found : t.lookup (path ++ [name]) = some node) : t.isDir path = true := by
  rw [lookup, if_neg (by simp)] at found
  rw [isDir_iff, lookup]
  rcases t.closed path name node found with rfl | dir
  · rfl
  · split
    · rfl
    · exact dir

/-- The directories above a node are directories. -/
theorem isDir_above (path rest : List Name) (node : FileNode Body) (above : rest ≠ [])
    (found : t.lookup (path ++ rest) = some node) : t.isDir path = true := by
  induction rest using List.reverseRecOn generalizing node with
  | nil => exact absurd rfl above
  | append_singleton front name ih =>
      rw [← List.append_assoc] at found
      have parent := t.isDir_parent _ name node found
      by_cases last : front = []
      · rwa [last, List.append_nil] at parent
      · exact ih .dir last ((t.isDir_iff _).mp parent)

/-- Files have no nodes below them. -/
theorem lookup_below (path rest : List Name) (below : rest ≠ []) (noDir : t.isDir path = false) :
    t.lookup (path ++ rest) = none := by
  cases found : t.lookup (path ++ rest) with
  | none => rfl
  | some node =>
      rw [t.isDir_above path rest node below found] at noDir
      cases noDir

/-- This puts a node where there is no directory. -/
def put (path : List Name) (node : FileNode Body) (parent : t.isDir path.dropLast = true)
    (free : t.isDir path = false) : FileTree Name Body where
  nodes := Dict.set t.nodes path node
  closed := by
    intro above name found here
    rw [Dict.get?_set] at here ⊢
    by_cases top : above = []
    · exact Or.inl top
    · by_cases same : path = above
      · rw [if_neg (by rw [same]; simp)] at here
        have lost := t.lookup_below path [name] (by simp) free
        rw [same, lookup, if_neg (by simp), here] at lost
        cases lost
      · rw [if_neg same]
        by_cases child : path = above ++ [name]
        · rw [child, List.dropLast_concat, isDir_iff, lookup, if_neg top] at parent
          exact Or.inr parent
        · rw [if_neg child] at here
          exact t.closed above name found here

theorem lookup_put (path : List Name) (node : FileNode Body) (parent : t.isDir path.dropLast = true)
    (free : t.isDir path = false) (query : List Name) :
    (t.put path node parent free).lookup query = if path = query then some node else t.lookup query := by
  have nonempty : path ≠ [] := fun empty => by rw [empty] at free; cases free
  rw [lookup, lookup, put, Dict.get?_set]
  by_cases top : query = []
  · rw [if_pos top, if_pos top, if_neg (by rw [top]; exact nonempty)]
  · rw [if_neg top, if_neg top]

theorem get?_filter_ne {K V : Type} [DecidableEq K] (d : Dict K V) (key query : K) :
    Dict.get? (d.filter fun entry => !decide (entry.1 = key)) query =
      if key = query then none else Dict.get? d query := by
  induction d with
  | nil => split <;> rfl
  | cons entry rest ih =>
      obtain ⟨k, v⟩ := entry
      rw [List.filter_cons]
      by_cases gone : k = key
      · rw [if_neg (by simp [gone]), ih, Dict.get?]
        by_cases same : key = query
        · rw [if_pos same, if_pos same]
        · rw [if_neg same, if_neg same, if_neg (by rw [gone]; exact same)]
      · rw [if_pos (by simp [gone]), Dict.get?, Dict.get?, ih]
        by_cases here : k = query
        · rw [if_pos here, if_pos here, if_neg (fun same => gone (here.trans same.symm))]
        · rw [if_neg here, if_neg here]

/-- This removes a node that is no directory. -/
def drop (path : List Name) (free : t.isDir path = false) : FileTree Name Body where
  nodes := t.nodes.filter fun entry => !decide (entry.1 = path)
  closed := by
    intro above name node found
    rw [get?_filter_ne] at found ⊢
    split at found
    · cases found
    · rcases t.closed above name node found with top | dir
      · exact Or.inl top
      · by_cases top : above = []
        · exact Or.inl top
        · have kept : path ≠ above := by
            rintro rfl
            rw [(t.isDir_iff path).mpr (by rw [lookup, if_neg top, dir])] at free
            cases free
          exact Or.inr (by rw [if_neg kept, dir])

theorem lookup_drop (path : List Name) (free : t.isDir path = false) (query : List Name) :
    (t.drop path free).lookup query = if path = query then none else t.lookup query := by
  have nonempty : path ≠ [] := fun empty => by rw [empty] at free; cases free
  rw [lookup, lookup, drop, get?_filter_ne]
  by_cases top : query = []
  · rw [if_pos top, if_pos top, if_neg (by rw [top]; exact nonempty)]
  · rw [if_neg top, if_neg top]

/-! The walk of a path. -/

def move (here : List Name) : PathStep Name → List Name
  | .down name => here ++ [name]
  | .up => here.dropLast

/-- This finds the node that a path names; each step starts from a directory. -/
def resolve (here : List Name) : List (PathStep Name) → Except FileError (List Name)
  | [] => .ok here
  | step :: rest =>
      match t.lookup here with
      | some .dir => resolve (move here step) rest
      | some (.file _) => .error .notDirectory
      | none => .error .missing

/-- This is `stat`, which is `none` where the path names nothing. -/
def stat (path : List (PathStep Name)) : Option (FileNode Body) :=
  match t.resolve [] path with
  | .ok target => t.lookup target
  | .error _ => none

/-- This is a path that only goes down. -/
def downs (names : List Name) : List (PathStep Name) := names.map .down

omit [DecidableEq Name] in
theorem downs_concat (names : List Name) (name : Name) :
    downs (names ++ [name]) = downs names ++ [.down name] := List.map_append

theorem resolve_downs (here names : List Name)
    (dirs : ∀ front, front <+: names → front ≠ names → t.isDir (here ++ front) = true) :
    t.resolve here (downs names) = .ok (here ++ names) := by
  induction names generalizing here with
  | nil => simp [downs, resolve]
  | cons name rest ih =>
      have first := dirs [] List.nil_prefix (by simp)
      rw [List.append_nil, isDir_iff] at first
      change t.resolve here (.down name :: downs rest) = _
      rw [resolve, first]
      dsimp only [move]
      rw [ih (here ++ [name]), List.append_assoc, List.singleton_append]
      intro front start other
      rw [List.append_assoc, List.singleton_append]
      exact dirs (name :: front) ((List.prefix_cons_inj name).mpr start) (by simpa using other)

theorem resolve_downs_error (here names : List Name) (error : FileError)
    (failed : t.resolve here (downs names) = .error error) : t.lookup (here ++ names) = none := by
  induction names generalizing here with
  | nil => cases failed
  | cons name rest ih =>
      change t.resolve here (.down name :: downs rest) = _ at failed
      rw [resolve] at failed
      split at failed
      · have lost := ih _ failed
        rwa [move, List.append_assoc, List.singleton_append] at lost
      · next found => exact t.lookup_below here (name :: rest) (by simp) (by rw [isDir, found])
      · next found => exact t.lookup_below here (name :: rest) (by simp) (by rw [isDir, found])

theorem resolve_downs_ok (here names target : List Name)
    (done : t.resolve here (downs names) = .ok target) : target = here ++ names := by
  induction names generalizing here with
  | nil =>
      rw [List.append_nil]
      exact (Except.ok.inj done).symm
  | cons name rest ih =>
      change t.resolve here (.down name :: downs rest) = _ at done
      rw [resolve] at done
      split at done
      · rw [ih _ done, move, List.append_assoc, List.singleton_append]
      · cases done
      · cases done

@[simp] theorem stat_downs (names : List Name) : t.stat (downs names) = t.lookup names := by
  rw [stat]
  cases walked : t.resolve [] (downs names) with
  | ok target => rw [t.resolve_downs_ok [] names target walked, List.nil_append]
  | error error =>
      have lost := t.resolve_downs_error [] names error walked
      rw [List.nil_append] at lost
      exact lost.symm

/-! The system calls. -/

/-- This makes one directory. -/
def mkdir (path : List (PathStep Name)) : Except FileError (FileTree Name Body) :=
  match t.resolve [] path with
  | .error e => .error e
  | .ok target =>
      if (t.lookup target).isSome then .error .present
      else if room : t.isDir target.dropLast = true ∧ t.isDir target = false then
        .ok (t.put target .dir room.1 room.2)
      else .error .missing

def namesDir (path : List (PathStep Name)) : Bool :=
  match t.stat path with
  | some .dir => true
  | _ => false

/-- This makes a directory, whose path is read from its end, with those above it; it may be there. -/
def makeDirsFrom (t : FileTree Name Body) :
    List (PathStep Name) → Except FileError Unit × FileTree Name Body
  | [] => (.ok (), t)
  | step :: above =>
      match t.mkdir (step :: above).reverse with
      | .ok t => (.ok (), t)
      | .error .missing =>
          match makeDirsFrom t above with
          | (.error e, t) => (.error e, t)
          | (.ok (), t) =>
              match t.mkdir (step :: above).reverse with
              | .ok t => (.ok (), t)
              | .error e => if t.namesDir (step :: above).reverse then (.ok (), t) else (.error e, t)
      | .error e => if t.namesDir (step :: above).reverse then (.ok (), t) else (.error e, t)

def makeDirs (path : List (PathStep Name)) : Except FileError Unit × FileTree Name Body :=
  t.makeDirsFrom path.reverse

/-- This opens a file to write it anew. -/
def write (path : List (PathStep Name)) (body : Body) : Except FileError (FileTree Name Body) :=
  match t.resolve [] path with
  | .error e => .error e
  | .ok target =>
      if free : t.isDir target = false then
        if parent : t.isDir target.dropLast = true then .ok (t.put target (.file body) parent free)
        else .error .missing
      else .error .isDirectory

def read (path : List (PathStep Name)) : Except FileError Body :=
  match t.resolve [] path with
  | .error e => .error e
  | .ok target =>
      match t.lookup target with
      | some (.file body) => .ok body
      | some .dir => .error .isDirectory
      | none => .error .missing

def unlink (path : List (PathStep Name)) : Except FileError (FileTree Name Body) :=
  match t.resolve [] path with
  | .error e => .error e
  | .ok target =>
      if free : t.isDir target = false then
        if (t.lookup target).isSome then .ok (t.drop target free) else .error .missing
      else .error .isDirectory

/-- All that the second tree has beside the first one are directories on a way. -/
def Grown (t t' : FileTree Name Body) (names : List Name) : Prop :=
  ∀ query, t'.lookup query = t.lookup query ∨
    (query <+: names ∧ t.lookup query = none ∧ t'.lookup query = some .dir)

variable {t}

theorem Grown.refl (names : List Name) : Grown t t names := fun _ => Or.inl rfl

theorem Grown.trans {t' t'' : FileTree Name Body} {names : List Name} (first : Grown t t' names)
    (second : Grown t' t'' names) : Grown t t'' names := by
  intro query
  rcases second query with kept | ⟨way, free, made⟩
  · rw [kept]
    exact first query
  · rcases first query with before | ⟨_, _, dir⟩
    · rw [before] at free
      exact Or.inr ⟨way, free, made⟩
    · rw [dir] at free
      cases free

theorem Grown.longer {t' : FileTree Name Body} {names : List Name} (grown : Grown t t' names)
    (more : List Name) : Grown t t' (names ++ more) := by
  intro query
  rcases grown query with kept | ⟨way, free, made⟩
  · exact Or.inl kept
  · exact Or.inr ⟨way.trans (List.prefix_append names more), free, made⟩

theorem mkdir_downs {t' : FileTree Name Body} (names : List Name) (done : t.mkdir (downs names) = .ok t') :
    t.isDir names.dropLast = true ∧ t.lookup names = none ∧
      ∀ query, t'.lookup query = if names = query then some .dir else t.lookup query := by
  rw [mkdir] at done
  split at done
  · cases done
  · next target walked =>
      obtain rfl : target = names := t.resolve_downs_ok [] names target walked
      split at done
      · cases done
      · next free =>
          split at done
          · next room =>
              rw [← Except.ok.inj done]
              exact ⟨room.1, by simpa using free, t.lookup_put _ _ _ _⟩
          · cases done

theorem mkdir_grown {t' : FileTree Name Body} (names : List Name)
    (done : t.mkdir (downs names) = .ok t') : Grown t t' names := by
  obtain ⟨_, free, here⟩ := mkdir_downs names done
  intro query
  by_cases same : names = query
  · rw [here, if_pos same, ← same]
    exact Or.inr ⟨List.prefix_rfl, free, rfl⟩
  · rw [here, if_neg same]
    exact Or.inl rfl

@[simp] theorem namesDir_downs (names : List Name) : t.namesDir (downs names) = t.isDir names := by
  rw [namesDir, stat_downs]
  rfl

theorem makeDirs_concat (front : List Name) (name : Name) : t.makeDirs (downs (front ++ [name])) =
    match t.mkdir (downs (front ++ [name])) with
    | .ok t => (.ok (), t)
    | .error .missing =>
        match t.makeDirs (downs front) with
        | (.error e, t) => (.error e, t)
        | (.ok (), t) =>
            match t.mkdir (downs (front ++ [name])) with
            | .ok t => (.ok (), t)
            | .error e => if t.isDir (front ++ [name]) then (.ok (), t) else (.error e, t)
    | .error e => if t.isDir (front ++ [name]) then (.ok (), t) else (.error e, t) := by
  have whole : (downs (front ++ [name])).reverse = .down name :: (downs front).reverse := by
    rw [downs_concat, List.reverse_append, List.reverse_singleton, List.singleton_append]
  have back : (PathStep.down name :: (downs front).reverse).reverse = downs (front ++ [name]) := by
    rw [← whole, List.reverse_reverse]
  rw [makeDirs, whole, makeDirsFrom, back]
  simp only [namesDir_downs]
  rfl

/-- Only directories on the way are made, and then the last one is there. -/
theorem makeDirs_cases (names : List Name) :
    Grown t (t.makeDirs (downs names)).2 names ∧
      ((t.makeDirs (downs names)).1 = .ok () → (t.makeDirs (downs names)).2.isDir names = true) := by
  have made {t t' : FileTree Name Body} {names : List Name} (done : t.mkdir (downs names) = .ok t') :
      t'.isDir names = true := by
    rw [isDir_iff, (mkdir_downs names done).2.2, if_pos rfl]
  induction names using List.reverseRecOn with
  | nil => exact ⟨Grown.refl [], fun _ => rfl⟩
  | append_singleton front name ih =>
      rw [makeDirs_concat]
      split
      · next t' done => exact ⟨mkdir_grown _ done, fun _ => made done⟩
      · generalize t.makeDirs (downs front) = first at ih ⊢
        obtain ⟨result, t'⟩ := first
        obtain ⟨grown, _⟩ := ih
        have longer := grown.longer [name]
        split
        · next same =>
            obtain ⟨rfl, rfl⟩ := Prod.mk.inj same
            exact ⟨longer, fun done => by cases done⟩
        · next same =>
            obtain ⟨rfl, rfl⟩ := Prod.mk.inj same
            split
            · next t'' done => exact ⟨longer.trans (mkdir_grown _ done), fun _ => made done⟩
            · split
              · next dir => exact ⟨longer, fun _ => dir⟩
              · exact ⟨longer, fun done => by cases done⟩
      · split
        · next dir => exact ⟨Grown.refl _, fun _ => dir⟩
        · exact ⟨Grown.refl _, fun done => by cases done⟩

/-- No file stands on the way. -/
def Clear (t : FileTree Name Body) (names : List Name) : Prop :=
  ∀ front, front <+: names → ∀ body, t.lookup front ≠ some (.file body)

theorem Clear.shorter {names front : List Name} (clear : Clear t names) (start : front <+: names) :
    Clear t front := fun first inside => clear first (inside.trans start)

theorem Clear.grown {t' : FileTree Name Body} {names : List Name} (clear : Clear t names)
    (grown : Grown t t' names) : Clear t' names := by
  intro front start body
  rcases grown front with kept | ⟨_, _, dir⟩
  · rw [kept]
    exact clear front start body
  · rw [dir]
    simp

/-- A path whose last step starts from a directory names its node. -/
theorem resolve_of_parent (front : List Name) (name : Name) (parent : t.isDir front = true) :
    t.resolve [] (downs (front ++ [name])) = .ok (front ++ [name]) := by
  rw [t.resolve_downs, List.nil_append]
  intro first start other
  rw [List.nil_append]
  have inside : first <+: front := by
    rcases List.prefix_concat_iff.mp start with same | before
    · exact absurd same other
    · exact before
  obtain ⟨rest, rfl⟩ := inside
  by_cases whole : rest = []
  · rwa [whole, List.append_nil] at parent
  · exact t.isDir_above first rest .dir whole ((t.isDir_iff _).mp parent)

theorem mkdir_of_parent (front : List Name) (name : Name) (parent : t.isDir front = true)
    (clear : Clear t (front ++ [name])) :
    (∃ t', t.mkdir (downs (front ++ [name])) = .ok t') ∨ t.isDir (front ++ [name]) = true := by
  rw [mkdir, resolve_of_parent front name parent]
  dsimp only
  cases found : t.lookup (front ++ [name]) with
  | none =>
      have free : t.isDir (front ++ [name]) = false := by rw [isDir, found]
      have room : t.isDir (front ++ [name]).dropLast = true := by rwa [List.dropLast_concat]
      left
      rw [if_neg (by simp), dif_pos ⟨room, free⟩]
      exact ⟨_, rfl⟩
  | some node =>
      right
      cases node with
      | dir => exact (t.isDir_iff _).mpr found
      | file body => exact absurd found (clear _ List.prefix_rfl body)

/-- On a clear way the walk fails only where something is missing. -/
theorem resolve_clear (here names : List Name) (error : FileError)
    (clear : ∀ front, front <+: names → ∀ body, t.lookup (here ++ front) ≠ some (.file body))
    (failed : t.resolve here (downs names) = .error error) : error = .missing := by
  induction names generalizing here with
  | nil => cases failed
  | cons name rest ih =>
      change t.resolve here (.down name :: downs rest) = _ at failed
      rw [resolve] at failed
      split at failed
      · refine ih (here ++ [name]) (fun front start body => ?_) failed
        rw [List.append_assoc, List.singleton_append]
        exact clear (name :: front) ((List.prefix_cons_inj name).mpr start) body
      · next body found =>
          have first := clear [] List.nil_prefix body
          rw [List.append_nil] at first
          exact absurd found first
      · exact (Except.error.inj failed).symm

/-- The last step of a walk starts from a directory. -/
theorem resolve_concat (here : List Name) (path : List (PathStep Name)) (last : PathStep Name)
    (names : List Name) (walked : t.resolve here (path ++ [last]) = .ok names) :
    ∃ middle, t.isDir middle = true ∧ names = move middle last := by
  induction path generalizing here with
  | nil =>
      rw [List.nil_append, resolve] at walked
      split at walked
      · next dir => exact ⟨here, (t.isDir_iff here).mpr dir, (Except.ok.inj walked).symm⟩
      · cases walked
      · cases walked
  | cons step rest ih =>
      rw [List.cons_append, resolve] at walked
      split at walked
      · exact ih _ walked
      · cases walked
      · cases walked

/-- A way up leads to a directory. -/
theorem isDir_of_up (path : List (PathStep Name)) (names : List Name)
    (walked : t.resolve [] (path ++ [.up]) = .ok names) : t.isDir names = true := by
  obtain ⟨middle, dir, rfl⟩ := resolve_concat [] path .up names walked
  cases middle using List.reverseRecOn with
  | nil => rfl
  | append_singleton front name =>
      rw [move, List.dropLast_concat]
      exact t.isDir_parent front name .dir ((t.isDir_iff _).mp dir)

theorem mkdir_error (names : List Name) (clear : Clear t names) (error : FileError)
    (failed : t.mkdir (downs names) = .error error) : error = .missing ∨ t.isDir names = true := by
  rw [mkdir] at failed
  split at failed
  · next walked =>
      left
      rw [← Except.error.inj failed]
      exact resolve_clear [] names _ (fun front start body => clear front start body) walked
  · next target walked =>
      obtain rfl : target = names := t.resolve_downs_ok [] names target walked
      split at failed
      · next there =>
          right
          obtain ⟨node, found⟩ := Option.isSome_iff_exists.mp there
          cases node with
          | dir => exact (t.isDir_iff _).mpr found
          | file body => exact absurd found (clear _ List.prefix_rfl body)
      · split at failed
        · cases failed
        · exact Or.inl (Except.error.inj failed).symm

theorem makeDirs_ok (names : List Name) (clear : Clear t names) :
    (t.makeDirs (downs names)).1 = .ok () := by
  induction names using List.reverseRecOn with
  | nil => rfl
  | append_singleton front name ih =>
      have first := ih (clear.shorter (List.prefix_append front [name]))
      have cases' := @makeDirs_cases Name Body _ t front
      rw [makeDirs_concat]
      split
      · rfl
      · generalize t.makeDirs (downs front) = outcome at first cases' ⊢
        obtain ⟨result, t'⟩ := outcome
        obtain rfl : result = .ok () := first
        have parent : t'.isDir front = true := cases'.2 rfl
        have clear' : Clear t' (front ++ [name]) := clear.grown (cases'.1.longer [name])
        dsimp only
        rcases mkdir_of_parent front name parent clear' with ⟨t'', done⟩ | dir
        · rw [done]
        · split
          · rfl
          · rw [if_pos dir]
      · next error other failed =>
          rcases mkdir_error _ clear _ failed with missing | dir
          · exact absurd missing other
          · rw [if_pos dir]

/-- What is there after a directory was made. -/
theorem makeDirs_spec (names : List Name) (clear : Clear t names) :
    ∃ t', t.makeDirs (downs names) = (.ok (), t') ∧ ∀ query, t'.lookup query =
      if query <+: names then some .dir else t.lookup query := by
  refine ⟨_, Prod.ext (makeDirs_ok names clear) rfl, fun query => ?_⟩
  obtain ⟨grown, made⟩ := @makeDirs_cases Name Body _ t names
  have dir := made (makeDirs_ok names clear)
  split
  · next way =>
      obtain ⟨rest, rfl⟩ := way
      rw [isDir_iff] at dir
      by_cases whole : rest = []
      · rwa [whole, List.append_nil] at dir ⊢
      · exact (isDir_iff _ _).mp (isDir_above _ query rest .dir whole dir)
  · next off =>
      rcases grown query with kept | ⟨way, _⟩
      · exact kept
      · exact absurd way off

/-- What is there after a file was written. -/
theorem write_spec (front : List Name) (name : Name) (body : Body) (parent : t.isDir front = true)
    (free : t.isDir (front ++ [name]) = false) :
    ∃ t', t.write (downs (front ++ [name])) body = .ok t' ∧ ∀ query, t'.lookup query =
      if front ++ [name] = query then some (.file body) else t.lookup query := by
  have above : t.isDir (front ++ [name]).dropLast = true := by rwa [List.dropLast_concat]
  refine ⟨t.put (front ++ [name]) (.file body) above free, ?_, t.lookup_put _ _ _ _⟩
  rw [write, resolve_of_parent front name parent]
  dsimp only
  rw [dif_pos free, dif_pos above]

theorem resolve_of_lookup (names : List Name) (node : FileNode Body) (found : t.lookup names = some node) :
    t.resolve [] (downs names) = .ok names := by
  cases walked : t.resolve [] (downs names) with
  | ok target => rw [t.resolve_downs_ok [] names target walked, List.nil_append]
  | error error =>
      have lost := t.resolve_downs_error [] names error walked
      rw [List.nil_append, found] at lost
      cases lost

theorem read_file (names : List Name) (body : Body) (found : t.lookup names = some (.file body)) :
    t.read (downs names) = .ok body := by
  rw [read, resolve_of_lookup names _ found]
  dsimp only
  rw [found]

/-- What is there after a file was removed. -/
theorem unlink_spec (names : List Name) (body : Body) (found : t.lookup names = some (.file body)) :
    ∃ t', t.unlink (downs names) = .ok t' ∧ ∀ query, t'.lookup query =
      if names = query then none else t.lookup query := by
  have free : t.isDir names = false := by rw [isDir, found]
  refine ⟨t.drop names free, ?_, t.lookup_drop names free⟩
  rw [unlink, resolve_of_lookup names _ found]
  dsimp only
  rw [dif_pos free, if_pos (by rw [found]; rfl)]

/-! What a call on any path can change. -/

/-- This is where a path leads if it can be walked. -/
def target (path : List (PathStep Name)) : List Name := path.foldl move []

theorem resolve_from (here : List Name) (path : List (PathStep Name)) (names : List Name)
    (walked : t.resolve here path = .ok names) : names = path.foldl move here := by
  induction path generalizing here with
  | nil => exact (Except.ok.inj walked).symm
  | cons step rest ih =>
      rw [resolve] at walked
      split at walked
      · exact ih _ walked
      · cases walked
      · cases walked

theorem resolve_ok (path : List (PathStep Name)) (names : List Name)
    (walked : t.resolve [] path = .ok names) : names = target path := resolve_from [] path names walked

/-- A write changes nothing but the file at the end of its path. -/
theorem write_frame {t' : FileTree Name Body} (path : List (PathStep Name)) (body : Body)
    (done : t.write path body = .ok t') : t.isDir (target path) = false ∧
      t.resolve [] path = .ok (target path) ∧
      ∀ query, target path ≠ query → t'.lookup query = t.lookup query := by
  rw [write] at done
  split at done
  · cases done
  · next names walked =>
      obtain rfl := resolve_ok path names walked
      split at done
      · next free =>
          split at done
          · refine ⟨free, walked, fun query other => ?_⟩
            rw [← Except.ok.inj done, lookup_put, if_neg other]
          · cases done
      · cases done

/-- Nothing is gone but the file at the end of the path. -/
theorem unlink_frame {t' : FileTree Name Body} (path : List (PathStep Name))
    (done : t.unlink path = .ok t') : t.isDir (target path) = false ∧
      t.resolve [] path = .ok (target path) ∧
      ∀ query, target path ≠ query → t'.lookup query = t.lookup query := by
  rw [unlink] at done
  split at done
  · cases done
  · next names walked =>
      obtain rfl := resolve_ok path names walked
      split at done
      · next free =>
          split at done
          · refine ⟨free, walked, fun query other => ?_⟩
            rw [← Except.ok.inj done, lookup_drop, if_neg other]
          · cases done
      · cases done

theorem read_ok (path : List (PathStep Name)) (body : Body) (done : t.read path = .ok body) :
    t.resolve [] path = .ok (target path) ∧ t.lookup (target path) = some (.file body) := by
  rw [read] at done
  split at done
  · cases done
  · next names walked =>
      obtain rfl := resolve_ok path names walked
      split at done
      · next found =>
          rw [← Except.ok.inj done]
          exact ⟨walked, found⟩
      · cases done
      · cases done

omit [DecidableEq Name] in
theorem foldl_downs (here names : List Name) : (downs names).foldl move here = here ++ names := by
  induction names generalizing here with
  | nil => exact (List.append_nil here).symm
  | cons name rest ih =>
      change (downs rest).foldl move (here ++ [name]) = _
      rw [ih, List.append_assoc, List.singleton_append]

end FileTree
end Kortex
