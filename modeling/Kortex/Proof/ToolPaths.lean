import Kortex.Library.Regex
import Kortex.Library.Sorted
import Kortex.Library.Split
import Kortex.Proof.ToolFiles

/-
This file proves when a canonical path is its own canonical path.
-/

namespace Kortex.MemoryTool

/-- This is a component that `normpath` keeps. -/
def kept (part : Str) : Bool := part != [] && part != ['.']

/-- These are the components of a path under the root. -/
def under (parts : List Str) : Str := memoryRoot ++ parts.flatMap fun part => '/' :: part

/-- The path is the root with proper components under it. -/
def Canonical (path : Str) : Prop :=
  ∃ parts : List Str, path = under parts ∧
    ∀ part ∈ parts, part ≠ [] ∧ '/' ∉ part ∧ part ≠ ['.'] ∧ part ≠ ['.', '.']

/-- The last component that is kept does not end with whitespace. -/
def EndsClean (raw : Str) : Prop :=
  ∀ part ∈ ((Str.split '/' (Str.strip raw)).filter kept).getLast?, ∀ c ∈ part.getLast?,
    Str.isSpace c = false

theorem foldl_normComponent (rooted : Bool) (parts done : List Str) (free : ['.', '.'] ∉ parts) :
    parts.foldl (normComponent rooted) done = done ++ parts.filter kept := by
  induction parts generalizing done with
  | nil => simp
  | cons part rest ih =>
      rw [List.mem_cons, not_or] at free
      rw [List.foldl_cons, ih _ free.2, normComponent, List.filter_cons]
      by_cases skipped : part = [] ∨ part = ['.']
      · have dropped : kept part = false := by
          rcases skipped with rfl | rfl <;> rfl
        rw [if_pos skipped, dropped]
        simp
      · have stays : kept part = true := by
          rw [not_or] at skipped
          simp [kept, skipped]
        rw [if_neg skipped, if_pos (Or.inl (Ne.symm free.1)), stays]
        simp

theorem slash_notMem (text part : Str) (inside : part ∈ Str.split '/' text) : '/' ∉ part :=
  Split.separator_notMem text part inside

/-- POSIX keeps two slashes at the start of a path, where these are all. -/
def doubled (path : Str) : Bool := Str.startsWith path "//" && !Str.startsWith path "///"

theorem normpath_rooted (rest : Str) (single : doubled ('/' :: rest) = false)
    (free : ['.', '.'] ∉ Str.split '/' rest) :
    normpath ('/' :: rest) = '/' :: Str.join ['/'] ((Str.split '/' rest).filter kept) := by
  have parts : Str.split '/' ('/' :: rest) = [] :: Str.split '/' rest := by
    simp [Str.split, List.splitOn_cons_eq_if_modifyHead]
  rw [doubled] at single
  simp only [normpath, List.head?_cons, single, parts, List.foldl_cons]
  rw [foldl_normComponent _ _ _ free]
  simp [normComponent]

/-- A path that stays under the root starts with one slash. -/
theorem rooted_start (path : Str)
    (rooted : path = memoryRoot ∨ Str.startsWith path (memoryRoot ++ ['/']) = true) :
    ∃ tail, path = '/' :: 'm' :: tail := by
  rcases rooted with rfl | start
  · exact ⟨_, rfl⟩
  · rw [Str.startsWith, List.isPrefixOf_iff_prefix] at start
    obtain ⟨tail, rfl⟩ := start
    exact ⟨_, rfl⟩

theorem join_start (parts : List Str) (proper : ∀ part ∈ parts, part ≠ [] ∧ '/' ∉ part) :
    (Str.join ['/'] parts).head? ≠ some '/' := by
  cases parts with
  | nil => simp [Str.join]
  | cons part rest =>
      obtain ⟨filled, free⟩ := proper part List.mem_cons_self
      obtain ⟨c, text, rfl⟩ := List.exists_cons_of_ne_nil filled
      have other : c ≠ '/' := fun same => free (by simp [same])
      cases rest <;> simp [Str.join, List.intercalate_cons_cons, other]

theorem kept_proper (text part : Str) (inside : part ∈ (Str.split '/' text).filter kept) :
    part ≠ [] ∧ '/' ∉ part := by
  rw [List.mem_filter] at inside
  refine ⟨fun none => ?_, slash_notMem text part inside.1⟩
  rw [none] at inside
  exact absurd inside.2 (by decide)

/-- A path that `normpath` takes under the root starts with a slash, and not with two. -/
theorem single_slash (path : Str) (free : ['.', '.'] ∉ Str.split '/' path)
    (rooted : normpath path = memoryRoot ∨ Str.startsWith (normpath path) (memoryRoot ++ ['/']) = true) :
    ∃ rest, path = '/' :: rest ∧ doubled path = false := by
  obtain ⟨tail, start⟩ := rooted_start _ rooted
  have relative := join_start _ (kept_proper path)
  simp only [normpath] at start
  rw [foldl_normComponent _ _ _ free, List.nil_append] at start
  cases path with
  | nil => exact absurd start (by simp [Str.split, kept, Str.join])
  | cons c rest =>
      by_cases slash : c = '/'
      · subst slash
        refine ⟨rest, rfl, ?_⟩
        by_contra twice
        rw [Bool.not_eq_false, doubled] at twice
        simp only [List.head?_cons, ne_eq, not_true_eq_false, if_false, twice, if_true] at start
        simp [List.replicate] at start
      · simp only [List.head?_cons, ne_eq, Option.some.injEq, slash, not_false_eq_true, if_true,
          List.replicate_zero, List.nil_append] at start
        split at start
        · exact absurd start (by simp)
        · rw [start] at relative
          exact absurd rfl relative

/-- These are the checks of `normalise_path` before the last one. -/
structure Permitted (path : Str) : Prop where
  plain : encoded.search path = false
  free : ['.', '.'] ∉ Str.split '/' path
  slashes : '\\' ∉ path

theorem normalisePath_eq_ok (raw path : Str) :
    normalisePath (some (.str raw)) = .ok path ↔ Str.strip raw ≠ [] ∧ Permitted (Str.strip raw) ∧
      normpath (Str.strip raw) = path ∧
      (path = memoryRoot ∨ Str.startsWith path (memoryRoot ++ ['/']) = true) := by
  simp only [normalisePath]
  constructor
  · intro done
    split at done
    · exact absurd done (by simp)
    · rename_i filled
      split at done
      · exact absurd done (by simp)
      · rename_i plain
        split at done
        · exact absurd done (by simp)
        · rename_i clear
          split at done
          · exact absurd done (by simp)
          · rename_i inside
            obtain rfl := Except.ok.inj done
            simp only [traversal, Bool.or_eq_true, List.contains_iff_mem, decide_eq_true_eq,
              not_or] at clear
            refine ⟨filled, ⟨by simpa using plain, clear.1, clear.2⟩, rfl, ?_⟩
            by_contra outside
            rw [not_or, Bool.not_eq_true] at outside
            exact inside outside
  · rintro ⟨filled, ⟨plain, free, slashes⟩, rfl, rooted⟩
    have clear : (traversal (Str.strip raw) || decide ('\\' ∈ Str.strip raw)) = false := by
      simp [traversal, free, slashes]
    have inside : ¬ (normpath (Str.strip raw) ≠ memoryRoot ∧
        Str.startsWith (normpath (Str.strip raw)) (memoryRoot ++ ['/']) = false) := by
      rintro ⟨other, outside⟩
      rcases rooted with same | start
      · exact other same
      · rw [start] at outside
        exact absurd outside (by simp)
    rw [if_neg filled, plain, clear, if_neg inside]
    rfl

/-- These are the words of `_ENCODED`. -/
def encodedWords : List Str := ["%2e", "%2f", "%5c"]

theorem encoded_search (text : Str) :
    encoded.search text = true ↔
      ∃ word ∈ encodedWords, ∃ part, Regex.Spells word part ∧ part <:+: text := by
  simp [encoded, encodedWords, Regex.alts, Regex.search_alt, Regex.search_word_iff]

theorem spells_free (word part : Str) (free : ∀ c ∈ word, Regex.ignoresCase c '/' = false)
    (spells : Regex.Spells word part) : '/' ∉ part := by
  induction spells with
  | nil => exact List.not_mem_nil
  | @cons c d word part same _ ih =>
      rw [List.mem_cons, not_or]
      refine ⟨fun slash => ?_, ih fun c inside => free c (List.mem_cons_of_mem _ inside)⟩
      rw [← slash, free c List.mem_cons_self] at same
      exact absurd same (by simp)

/-- A word of `_ENCODED` lies within one component. -/
theorem encoded_join (parts : List Str) :
    encoded.search (Str.join ['/'] parts) = true ↔ ∃ part ∈ parts, encoded.search part = true := by
  have proper : ∀ word ∈ encodedWords, word ≠ [] ∧ ∀ c ∈ word, Regex.ignoresCase c '/' = false := by
    have checked : (encodedWords.all fun word => word != [] &&
        word.all fun c => Regex.ignoresCase c '/' == false) = true := by decide
    simpa only [List.all_eq_true, Bool.and_eq_true, bne_iff_ne, beq_iff_eq] using checked
  have within (word part : Str) (member : word ∈ encodedWords) (spells : Regex.Spells word part) :
      part <:+: Str.join ['/'] parts ↔ ∃ whole ∈ parts, part <:+: whole := by
    apply Split.infix_intercalate_iff
    · rintro rfl
      cases spells
      exact (proper [] member).1 rfl
    · exact spells_free word part (proper word member).2 spells
  simp only [encoded_search]
  constructor
  · rintro ⟨word, member, part, spells, inside⟩
    obtain ⟨whole, owned, inside⟩ := (within word part member spells).mp inside
    exact ⟨whole, owned, word, member, part, spells, inside⟩
  · rintro ⟨whole, owned, word, member, part, spells, inside⟩
    exact ⟨word, member, part, spells, (within word part member spells).mpr ⟨whole, owned, inside⟩⟩

theorem split_rooted (path : Str)
    (rooted : path = memoryRoot ∨ Str.startsWith path (memoryRoot ++ ['/']) = true) :
    ∃ parts : List Str, Str.split '/' path = [] :: "memories" :: parts := by
  rcases rooted with rfl | start
  · exact ⟨[], by decide⟩
  · rw [Str.startsWith, List.isPrefixOf_iff_prefix] at start
    obtain ⟨tail, rfl⟩ := start
    refine ⟨Str.split '/' tail, ?_⟩
    rw [List.append_assoc, List.singleton_append, Str.split, List.splitOn_append_cons_self]
    rfl

/-- The canonical path of an accepted text has the components that `normpath` keeps. -/
theorem accepted_spec (raw path : Str) (accepted : normalisePath (some (.str raw)) = .ok path) :
    ∃ parts : List Str, (Str.split '/' (Str.strip raw)).filter kept = "memories".toList :: parts ∧
      path = Str.join ['/'] ([] :: "memories" :: parts) ∧ Permitted (Str.strip raw) ∧
      ∃ others, Str.split '/' (Str.strip raw) = [] :: others := by
  obtain ⟨_, permitted, rfl, rooted⟩ := (normalisePath_eq_ok raw path).mp accepted
  obtain ⟨rest, text, single⟩ := single_slash _ permitted.free rooted
  have parts : Str.split '/' (Str.strip raw) = [] :: Str.split '/' rest := by
    rw [text]
    simp [Str.split, List.splitOn_cons_eq_if_modifyHead]
  have keeps : (Str.split '/' (Str.strip raw)).filter kept = (Str.split '/' rest).filter kept := by
    rw [parts, List.filter_cons_of_neg (by decide)]
  have proper := kept_proper rest
  have normal : normpath (Str.strip raw) = '/' :: Str.join ['/'] ((Str.split '/' rest).filter kept) := by
    rw [text] at single ⊢
    apply normpath_rooted rest single
    have free := permitted.free
    rw [parts] at free
    exact fun inside => free (List.mem_cons_of_mem _ inside)
  rw [normal] at rooted ⊢
  rw [keeps]
  generalize (Str.split '/' rest).filter kept = components at *
  obtain ⟨names, split⟩ := split_rooted _ rooted
  cases components with
  | nil =>
      have short : Str.split '/' ('/' :: Str.join ['/'] []) = [[], []] := by decide
      rw [short] at split
      exact absurd split (by simp)
  | cons first others =>
      have joined : '/' :: Str.join ['/'] (first :: others) =
          Str.join ['/'] ([] :: first :: others) := by
        simp [Str.join, List.intercalate_cons_cons]
      rw [joined] at split ⊢
      rw [Str.split, Str.join, List.splitOn_intercalate '/' ?_ (by simp)] at split
      · simp only [List.cons.injEq, true_and] at split
        obtain ⟨rfl, rfl⟩ := split
        exact ⟨others, rfl, rfl, permitted, _, parts⟩
      · intro part inside
        rcases List.mem_cons.mp inside with rfl | member
        · exact List.not_mem_nil
        · exact (proper part member).2

theorem join_memories (parts : List Str) :
    Str.join ['/'] ([] :: "memories" :: parts) = under parts := by
  rw [Str.join, Split.intercalate_cons, List.flatMap_cons, under]
  rfl

theorem under_eq (parts : List Str) :
    under parts = '/' :: Str.join ['/'] ("memories" :: parts) := by
  rw [← join_memories]
  simp [Str.join, List.intercalate_cons_cons]

theorem split_memories (parts : List Str) (free : ∀ part ∈ parts, '/' ∉ part) :
    Str.split '/' (Str.join ['/'] ("memories" :: parts)) = "memories".toList :: parts := by
  apply List.splitOn_intercalate _ _ (by simp)
  intro part inside
  rcases List.mem_cons.mp inside with rfl | member
  · decide
  · exact free part member

theorem split_under (parts : List Str) (free : ∀ part ∈ parts, '/' ∉ part) :
    Str.split '/' (under parts) = [] :: "memories" :: parts := by
  rw [under_eq, Str.split, List.splitOn_cons_eq_if_modifyHead, if_pos (by simp)]
  exact congrArg _ (split_memories parts free)

theorem rooted_under (parts : List Str) :
    under parts = memoryRoot ∨ Str.startsWith (under parts) (memoryRoot ++ ['/']) = true := by
  cases parts with
  | nil => exact Or.inl rfl
  | cons part rest =>
      right
      rw [Str.startsWith, List.isPrefixOf_iff_prefix]
      exact ⟨part ++ rest.flatMap fun part => '/' :: part, by simp [under]⟩

/-- A path of proper components is what `normpath` makes of it. -/
theorem normpath_under (parts : List Str)
    (proper : ∀ part ∈ parts, part ≠ [] ∧ '/' ∉ part ∧ part ≠ ['.'] ∧ part ≠ ['.', '.']) :
    normpath (under parts) = under parts := by
  have split := split_memories parts fun part inside => (proper part inside).2.1
  have single : doubled (under parts) = false := rfl
  rw [under_eq] at single ⊢
  rw [normpath_rooted _ single]
  · rw [split, List.filter_eq_self.mpr]
    intro part inside
    rcases List.mem_cons.mp inside with rfl | member
    · decide
    · have own := proper part member
      simp [kept, own]
  · rw [split, List.mem_cons, not_or]
    exact ⟨by decide, fun inside => (proper _ inside).2.2.2 rfl⟩

/-- A canonical path that ends clean is accepted as it is. -/
theorem canonical_accepted (path : Str) (canonical : Canonical path)
    (clean : ∀ c ∈ path.getLast?, Str.isSpace c = false) (plain : encoded.search path = false)
    (slashes : '\\' ∉ path) : normalisePath (some (.str path)) = .ok path := by
  obtain ⟨parts, rfl, proper⟩ := canonical
  have stripped : Str.strip (under parts) = under parts := by
    apply Str.strip_eq_self _ _ clean
    rw [under_eq]
    intro c first
    cases first
    decide
  have free : ['.', '.'] ∉ Str.split '/' (under parts) := by
    rw [split_under parts fun part inside => (proper part inside).2.1]
    simp only [List.mem_cons, not_or]
    exact ⟨by simp, by decide, fun inside => (proper _ inside).2.2.2 rfl⟩
  rw [normalisePath_eq_ok, stripped]
  exact ⟨by simp [under_eq], ⟨plain, free, slashes⟩, normpath_under parts proper, rooted_under parts⟩

theorem canonical_of_accepted (raw path : Str) (accepted : normalisePath (some (.str raw)) = .ok path) :
    Canonical path := by
  obtain ⟨parts, keeps, rfl, permitted, _⟩ := accepted_spec raw path accepted
  refine ⟨parts, join_memories parts, fun part inside => ?_⟩
  have member : part ∈ (Str.split '/' (Str.strip raw)).filter kept := by
    rw [keeps]
    exact List.mem_cons_of_mem _ inside
  obtain ⟨filled, free⟩ := kept_proper _ part member
  rw [List.mem_filter] at member
  refine ⟨filled, free, ?_, ?_⟩
  · rintro rfl
    exact absurd member.2 (by decide)
  · rintro rfl
    exact permitted.free member.1

/-- A canonical path is no longer than the text it was made of. -/
theorem length_accepted (raw path : Str) (accepted : normalisePath (some (.str raw)) = .ok path) :
    path.length ≤ (Str.strip raw).length := by
  obtain ⟨parts, keeps, rfl, _, others, split⟩ := accepted_spec raw path accepted
  have fewer : ([] :: "memories" :: parts : List Str).Sublist (Str.split '/' (Str.strip raw)) := by
    rw [split, List.filter_cons_of_neg (by decide)] at keeps
    rw [split, ← keeps]
    exact List.filter_sublist.cons_cons []
  have whole : Str.join ['/'] (Str.split '/' (Str.strip raw)) = Str.strip raw :=
    List.intercalate_splitOn '/'
  conv_rhs => rw [← whole]
  exact Split.length_intercalate_le _ _ fewer

theorem strip_of_again (path : Str) (again : normalisePath (some (.str path)) = .ok path) :
    Str.strip path = path :=
  (Str.strip_sublist path).eq_of_length_le (length_accepted path path again)

theorem endsClean_iff (raw path : Str) (accepted : normalisePath (some (.str raw)) = .ok path) :
    EndsClean raw ↔ ∀ c ∈ path.getLast?, Str.isSpace c = false := by
  obtain ⟨parts, keeps, rfl, _⟩ := accepted_spec raw path accepted
  have proper := kept_proper (Str.strip raw)
  rw [EndsClean, keeps]
  rw [keeps] at proper
  obtain ⟨last, final⟩ : ∃ last, ("memories".toList :: parts).getLast? = some last :=
    ⟨_, List.getLast?_cons⟩
  have filled := (proper last (List.mem_of_getLast? final)).1
  have whole : (Str.join ['/'] ([] :: "memories" :: parts)).getLast? = last.getLast? := by
    apply Split.getLast?_intercalate _ _ _ filled
    rw [List.getLast?_cons_cons]
    exact final
  rw [whole, final]
  simp

/-- A text has the same canonical path as its canonical path exactly when it ends clean. -/
theorem canonical_again_iff (raw path : Str) (accepted : normalisePath (some (.str raw)) = .ok path) :
    normalisePath (some (.str path)) = .ok path ↔ EndsClean raw := by
  rw [endsClean_iff raw path accepted]
  constructor
  · intro again c last
    rw [← strip_of_again path again] at last
    exact Str.strip_last path c last
  · intro clean
    obtain ⟨parts, keeps, rfl, permitted, _⟩ := accepted_spec raw path accepted
    have whole : Str.join ['/'] (Str.split '/' (Str.strip raw)) = Str.strip raw :=
      List.intercalate_splitOn '/'
    have member (part : Str) (inside : part ∈ "memories".toList :: parts) :
        part ∈ Str.split '/' (Str.strip raw) := by
      rw [← keeps] at inside
      exact List.mem_of_mem_filter inside
    apply canonical_accepted _ (canonical_of_accepted raw _ accepted) clean
    · by_contra found
      rw [Bool.not_eq_false, encoded_join] at found
      obtain ⟨part, inside, found⟩ := found
      rcases List.mem_cons.mp inside with rfl | inside
      · exact absurd found (by decide)
      · have again := (encoded_join _).mpr ⟨part, member part inside, found⟩
        rw [whole, permitted.plain] at again
        exact absurd again (by simp)
    · intro slash
      obtain ⟨part, inside, slash⟩ := (Split.mem_intercalate _ (by decide) _).mp slash
      rcases List.mem_cons.mp inside with rfl | inside
      · exact absurd slash List.not_mem_nil
      · apply permitted.slashes
        rw [← whole]
        exact (Split.mem_intercalate _ (by decide) _).mpr ⟨part, member part inside, slash⟩

/-- A path in this form is its own canonical path. -/
structure Normal (path : Str) : Prop where
  canonical : Canonical path
  clean : ∀ c ∈ path.getLast?, Str.isSpace c = false
  plain : encoded.search path = false
  slashes : '\\' ∉ path

theorem normal_iff (path : Str) : normalisePath (some (.str path)) = .ok path ↔ Normal path := by
  constructor
  · intro again
    have same := strip_of_again path again
    obtain ⟨_, _, _, permitted, _⟩ := accepted_spec path path again
    rw [same] at permitted
    refine ⟨canonical_of_accepted path path again, fun c last => ?_, permitted.plain,
      permitted.slashes⟩
    rw [← same] at last
    exact Str.strip_last path c last
  · exact fun normal => canonical_accepted path normal.canonical normal.clean normal.plain normal.slashes

/-! Paths of a listing. -/

/-- A view of the path finds the file. -/
def Reaches (b : Backend) (db : Database) (path : Str) (m : Memory) : Prop :=
  ∃ canonical, normalisePath (some (.str path)) = .ok canonical ∧ file b db canonical = .ok (some m)

/-- No older memory of the scope has the path. -/
def Oldest (b : Backend) (db : Database) (path : Str) (m : Memory) : Prop :=
  ∀ other, InScope b db other → (Dict.get? other.metadata pathKey).bind Json.astext = some path →
    m.id ≤ other.id

variable {b : Backend} {db : Database}

theorem inScope_of_children (directory : Str) (m : Memory) (listed : m ∈ children b db directory) :
    InScope b db m := by
  rw [children, List.mem_filter] at listed
  have member := List.mem_of_mem_take listed.1
  rw [List.mem_filter] at member
  simp only [Bool.and_eq_true] at member
  exact ⟨member.1, member.2.1⟩

theorem findByMetadata_iff_oldest (path : Str) (m : Memory) (inside : InScope b db m)
    (own : pathOf m = some path) :
    MemoryRepo.findByMetadata b.principal db b.scope pathKey path = some m ↔ Oldest b db path m := by
  have rises : (MemoryRepo.liveRows b.principal db).Pairwise fun x y => x.id < y.id :=
    (db.memories.pairwise.imp fun apart => apart.1).sublist
      (List.filter_sublist.trans List.filter_sublist)
  have accepted : (m.inScope b.scope &&
      (Dict.get? m.metadata pathKey).bind Json.astext == some path) = true := by
    rw [inside.2, astext_of_pathOf m path own]
    simp
  rw [MemoryRepo.findByMetadata, find?_eq_some_of_rises Memory.id _ _ rises m inside.1 accepted]
  simp only [Bool.and_eq_true, beq_iff_eq]
  exact ⟨fun least other inside named => least other inside.1 ⟨inside.2, named⟩,
    fun oldest other live accepted => oldest other ⟨live, accepted.1⟩ accepted.2⟩

/-- A canonical path is its own canonical path exactly when its text ends clean, and a listing prints a
path that reaches its file exactly when the path is in normal form. -/
theorem normal_form_iff (b : Backend) (db : Database) :
    (∀ raw path, normalisePath (some (.str raw)) = .ok path →
      Canonical path ∧ (normalisePath (some (.str path)) = .ok path ↔ EndsClean raw)) ∧
    ∀ directory m path, m ∈ children b db directory → pathOf m = some path →
      (Reaches b db path m ↔ Normal path ∧ PyValue.accepts path = true ∧ Oldest b db path m) := by
  refine ⟨fun raw path accepted => ⟨canonical_of_accepted raw path accepted,
    canonical_again_iff raw path accepted⟩, fun directory m path listed own => ?_⟩
  have inside := inScope_of_children directory m listed
  constructor
  · rintro ⟨canonical, normal, found⟩
    rw [file_eq_ok] at found
    have text := List.find?_some found.2
    simp only [Bool.and_eq_true, beq_iff_eq, astext_of_pathOf m path own, Option.some.injEq] at text
    obtain rfl := text.2
    exact ⟨(normal_iff path).mp normal, found.1, (findByMetadata_iff_oldest path m inside own).mp found.2⟩
  · rintro ⟨normal, accepted, oldest⟩
    exact ⟨path, (normal_iff path).mpr normal, (file_eq_ok path (some m)).mpr
      ⟨accepted, (findByMetadata_iff_oldest path m inside own).mpr oldest⟩⟩

/-- The space at the end of a component is stripped off the canonical path. -/
theorem trailing_slash_keeps_space :
    ¬ ∀ raw path, normalisePath (some (.str raw)) = .ok path →
      Canonical path ∧ normalisePath (some (.str path)) = .ok path := by
  intro claim
  have first : normalisePath (some (.str "/memories/a /")) = .ok "/memories/a " := by rfl
  have second : normalisePath (some (.str "/memories/a ")) = .ok "/memories/a" := by rfl
  have again := (claim "/memories/a /" "/memories/a " first).2
  rw [second] at again
  exact absurd (Except.ok.inj again) (by decide)

end Kortex.MemoryTool
