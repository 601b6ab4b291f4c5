import Kortex.Library.Dict

/-
This file gives rules for a dictionary that keeps the highest of the items of each key.
-/

namespace Kortex.Highest

variable {K A : Type} [DecidableEq K] (key : A → K) (less : A → A → Bool)

/-- An item replaces a lower one of its key. -/
def keep (d : Dict K A) (item : A) : Dict K A :=
  match Dict.get? d (key item) with
  | some old => if less old item then Dict.set d (key item) item else d
  | none => Dict.set d (key item) item

/-- What is not above an item is not above a higher one. -/
structure Ordered : Prop where
  irrefl : ∀ a, less a a = false
  lower : ∀ a b c, less a b = true → less a c = false → less b c = false

/-- The items of the key. -/
def Own (items : List A) (k : K) (a : A) : Prop := a ∈ items ∧ key a = k

/-- The dictionary has one item for each key of the items, and no item of the key is higher. -/
structure Kept (items : List A) (d : Dict K A) : Prop where
  distinct : (d.map Prod.fst).Nodup
  own : ∀ k a, Dict.get? d k = some a → Own key items k a
  all : ∀ a ∈ items, (Dict.get? d (key a)).isSome = true
  highest : ∀ k a, Dict.get? d k = some a → ∀ b, Own key items k b → less a b = false

variable {key less} {items : List A} {d : Dict K A}

theorem kept_nil : Kept key less [] ([] : Dict K A) where
  distinct := List.nodup_nil
  own k a found := absurd found (by simp [Dict.get?])
  all a inside := absurd inside List.not_mem_nil
  highest k a found := absurd found (by simp [Dict.get?])

omit [DecidableEq K] in
theorem Own.append (a item : A) (k : K) :
    Own key (items ++ [item]) k a ↔ Own key items k a ∨ (a = item ∧ key item = k) := by
  rw [Own, Own, List.mem_append, List.mem_singleton]
  constructor
  · intro ⟨inside, same⟩
    cases inside with
    | inl old => exact Or.inl ⟨old, same⟩
    | inr new => exact Or.inr ⟨new, new ▸ same⟩
  · intro own
    cases own with
    | inl old => exact ⟨Or.inl old.1, old.2⟩
    | inr new => exact ⟨Or.inr new.1, new.1 ▸ new.2⟩

/-- An item that is stored is the highest of its key if the old item of the key was lower. -/
theorem Kept.set (ordered : Ordered less) (kept : Kept key less items d) (item : A)
    (above : ∀ old, Dict.get? d (key item) = some old → less old item = true) :
    Kept key less (items ++ [item]) (Dict.set d (key item) item) where
  distinct := Dict.nodup_set _ _ _ kept.distinct
  own k a found := by
    rw [Dict.get?_set] at found
    rw [Own.append]
    split at found
    · rename_i same
      exact Or.inr ⟨(Option.some.inj found).symm, same⟩
    · exact Or.inl (kept.own k a found)
  all a inside := by
    rw [Dict.get?_set]
    split
    · rfl
    · rename_i other
      rw [List.mem_append, List.mem_singleton] at inside
      cases inside with
      | inl old => exact kept.all a old
      | inr new => exact absurd (congrArg key new.symm) other
  highest k a found b own := by
    rw [Dict.get?_set] at found
    rw [Own.append] at own
    split at found
    · rename_i same
      obtain rfl := Option.some.inj found
      cases own with
      | inr new => exact new.1 ▸ ordered.irrefl _
      | inl earlier =>
          subst same
          -- the old item of the key is lower, and nothing was above it
          cases old : Dict.get? d (key item) with
          | none =>
              have present := kept.all b earlier.1
              rw [earlier.2, old] at present
              exact absurd present (by simp)
          | some old' =>
              apply ordered.lower old' item b (above old' old)
              exact kept.highest _ old' old b earlier
    · rename_i other
      cases own with
      | inl earlier => exact kept.highest k a found b earlier
      | inr new => exact absurd new.2 other

/-- One round keeps the highest item of each key. -/
theorem Kept.keep (ordered : Ordered less) (kept : Kept key less items d) (item : A) :
    Kept key less (items ++ [item]) (keep key less d item) := by
  rw [Highest.keep]
  cases found : Dict.get? d (key item) with
  | none => exact kept.set ordered item fun old same => absurd (found.symm.trans same) (by simp)
  | some old =>
      by_cases lower : less old item = true
      · simp only [lower, if_true]
        apply kept.set ordered item
        intro other same
        rw [← Option.some.inj (found.symm.trans same)]
        exact lower
      · simp only [lower, Bool.false_eq_true, if_false]
        refine ⟨kept.distinct, ?_, ?_, ?_⟩
        · intro k a same
          exact (Own.append a item k).mpr (Or.inl (kept.own k a same))
        · intro a inside
          rw [List.mem_append, List.mem_singleton] at inside
          cases inside with
          | inl earlier => exact kept.all a earlier
          | inr new => rw [new, found, Option.isSome_some]
        · intro k a same b own
          rw [Own.append] at own
          cases own with
          | inl earlier => exact kept.highest k a same b earlier
          | inr new =>
              obtain ⟨rfl, rfl⟩ := new
              rw [← Option.some.inj (found.symm.trans same)]
              exact eq_false_of_ne_true lower

/-- All rounds keep the highest item of each key. -/
theorem kept_foldl (ordered : Ordered less) (later : List A)
    (kept : Kept key less items d) :
    Kept key less (items ++ later) (later.foldl (Highest.keep key less) d) := by
  induction later generalizing items d with
  | nil => rwa [List.append_nil]
  | cons item rest ih =>
      have next := ih (kept.keep ordered item)
      rwa [List.append_assoc] at next

theorem Kept.mem_keys (kept : Kept key less items d) (k : K) :
    k ∈ d.map Prod.fst ↔ ∃ a, Own key items k a := by
  rw [← Dict.isSome_get?]
  constructor
  · intro present
    obtain ⟨a, found⟩ := Option.isSome_iff_exists.mp present
    exact ⟨a, kept.own k a found⟩
  · intro ⟨a, inside, same⟩
    exact same ▸ kept.all a inside

/-- The values of the dictionary have the keys that they are stored under. -/
theorem Kept.map_key (kept : Kept key less items d) :
    (d.map Prod.snd).map key = d.map Prod.fst := by
  rw [List.map_map]
  apply List.map_congr_left
  intro entry inside
  exact (kept.own entry.1 entry.2 (Dict.get?_of_mem d kept.distinct entry inside)).2

end Kortex.Highest
