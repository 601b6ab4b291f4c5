import Kortex.Library.JsonRoundTrip
import Mathlib.Data.List.Sort

/-
This file develops the order in which `json.dumps` with sorted keys writes an object.
-/

namespace Kortex.Json

variable {V : Type}

/-- The members of an object in the order of their keys. -/
def sortByKey (members : List (Str × V)) : List (Str × V) :=
  members.insertionSort fun a b => Str.le a.1 b.1 = true

instance byKeyTotal : Std.Total fun a b : Str × V => Str.le a.1 b.1 = true :=
  ⟨fun a b => Str.le_total a.1 b.1⟩

instance byKeyTrans : IsTrans (Str × V) fun a b => Str.le a.1 b.1 = true :=
  ⟨fun a b c => Str.le_trans a.1 b.1 c.1⟩

theorem perm_sortByKey (members : List (Str × V)) : (sortByKey members).Perm members :=
  List.perm_insertionSort _ members

theorem pairwise_sortByKey (members : List (Str × V)) :
    (sortByKey members).Pairwise fun a b => Str.le a.1 b.1 = true :=
  List.pairwise_insertionSort _ members

theorem eq_of_mem_of_key {members : List (Str × V)} (distinct : (members.map Prod.fst).Nodup)
    {a b : Str × V} (first : a ∈ members) (second : b ∈ members) (same : a.1 = b.1) : a = b :=
  List.inj_on_of_nodup_map distinct first second same

/-- Two sorted lists of the same members with distinct keys are equal. -/
theorem eq_of_perm_of_sorted {members members' : List (Str × V)}
    (distinct : (members.map Prod.fst).Nodup) (perm : members.Perm members')
    (sorted : members.Pairwise fun a b => Str.le a.1 b.1 = true)
    (sorted' : members'.Pairwise fun a b => Str.le a.1 b.1 = true) : members = members' := by
  refine List.Perm.eq_of_pairwise (fun a b first second less greater => ?_) sorted sorted' perm
  exact eq_of_mem_of_key distinct first (perm.mem_iff.mpr second)
    (Str.le_antisymm a.1 b.1 less greater)

mutual
/-- This is a value with the members of its objects in the order of their keys. -/
def sortKeys : Json → Json
  | .arr items => .arr (sortKeysItems items)
  | .obj members => .obj (sortByKey (sortKeysMembers members))
  | value => value

def sortKeysItems : List Json → List Json
  | [] => []
  | item :: rest => sortKeys item :: sortKeysItems rest

def sortKeysMembers : List (Str × Json) → List (Str × Json)
  | [] => []
  | (key, value) :: rest => (key, sortKeys value) :: sortKeysMembers rest
end

theorem sortKeysMembers_eq (members : List (Str × Json)) :
    sortKeysMembers members = members.map fun m => (m.1, sortKeys m.2) := by
  induction members with
  | nil => rfl
  | cons member rest ih =>
      obtain ⟨key, value⟩ := member
      rw [sortKeysMembers, ih, List.map_cons]

theorem proper_of_sortByKey {round : FloatText → PyFloat} (members : List (Str × Json))
    (proper : Proper round (.obj members)) : Proper round (.obj (sortByKey members)) := by
  rw [Proper, properMembers_iff] at proper ⊢
  have perm := perm_sortByKey members
  exact ⟨(perm.map Prod.fst).nodup_iff.mpr proper.1, fun m present =>
    proper.2 m (perm.mem_iff.mp present)⟩

end Kortex.Json
