import Mathlib.Data.List.NodupEquivFin
import Mathlib.Data.List.Sort
import Mathlib.Tactic

/-
This file gives rules for the front of a sorted list and for what a stable sort keeps, tells when a list
that is cut before it is sorted still has the right front, and describes a sort of items by numbers that
leave out none of the first ones.
-/

namespace Kortex

/-- In a sorted list the values with a property that passes to smaller values stand in front. -/
theorem mem_take_of_falls {A : Type} {r : A → A → Prop} (P : A → Bool)
    (falls : ∀ a b, r a b → P b = true → P a = true) (items : List A) (sorted : items.Pairwise r)
    (n : Nat) (few : (items.filter P).length ≤ n) (a : A) (inside : a ∈ items) (own : P a = true) :
    a ∈ items.take n := by
  induction items generalizing n with
  | nil => exact absurd inside List.not_mem_nil
  | cons first rest ih =>
      obtain ⟨below, sorted⟩ := List.pairwise_cons.mp sorted
      have front : P first = true := by
        rcases List.mem_cons.mp inside with rfl | later
        · exact own
        · exact falls first a (below a later) own
      rw [List.filter_cons_of_pos front, List.length_cons] at few
      obtain ⟨n, rfl⟩ := Nat.exists_eq_succ_of_ne_zero (Nat.pos_iff_ne_zero.mp (by omega : 0 < n))
      rw [List.take_succ_cons]
      rcases List.mem_cons.mp inside with rfl | later
      · exact List.mem_cons_self
      · exact List.mem_cons_of_mem _ (ih sorted n (Nat.le_of_succ_le_succ few) later)

/-- In a rising list a search finds the smallest value that it accepts. -/
theorem find?_eq_some_of_rises {A : Type} (f : A → Nat) (accepts : A → Bool) (items : List A)
    (rises : items.Pairwise fun a b => f a < f b) (a : A) (inside : a ∈ items)
    (own : accepts a = true) :
    items.find? accepts = some a ↔ ∀ b ∈ items, accepts b = true → f a ≤ f b := by
  induction items with
  | nil => exact absurd inside List.not_mem_nil
  | cons first rest ih =>
      obtain ⟨above, rises⟩ := List.pairwise_cons.mp rises
      rw [List.forall_mem_cons]
      by_cases taken : accepts first = true
      · rw [List.find?_cons_of_pos taken, Option.some.injEq]
        constructor
        · rintro rfl
          exact ⟨fun _ => Nat.le_refl _, fun b later _ => Nat.le_of_lt (above b later)⟩
        · rintro ⟨least, _⟩
          rcases List.mem_cons.mp inside with same | later
          · exact same.symm
          · exact absurd (above a later) (Nat.not_lt.mpr (least taken))
      · have later : a ∈ rest := by
          rcases List.mem_cons.mp inside with rfl | later
          · exact absurd own taken
          · exact later
        rw [List.find?_cons_of_neg taken, ih rises later]
        exact ⟨fun least => ⟨fun contra => absurd contra taken, least⟩, fun least => least.2⟩

section Stable

variable {A : Type} (r : A → A → Prop) [DecidableRel r] {P : A → A → Prop}

/-- An item is inserted behind those that it may not precede. -/
theorem pairwise_orderedInsert_of (item : A) (items : List A) (pairs : items.Pairwise P)
    (later : ∀ a ∈ items, P item a) (earlier : ∀ a ∈ items, ¬ r item a → P a item) :
    (items.orderedInsert r item).Pairwise P := by
  induction items with
  | nil => exact List.pairwise_singleton P item
  | cons first rest ih =>
      rw [List.orderedInsert_cons]
      split
      · exact List.pairwise_cons.mpr ⟨later, pairs⟩
      · rename_i behind
        obtain ⟨above, pairs⟩ := List.pairwise_cons.mp pairs
        rw [List.forall_mem_cons] at later earlier
        have inserted := ih pairs later.2 earlier.2
        apply List.pairwise_cons.mpr
        constructor
        · intro a inside
          rw [List.mem_orderedInsert] at inside
          cases inside with
          | inl same => exact same ▸ earlier.1 behind
          | inr old => exact above a old
        · exact inserted

/-- A stable sort keeps what holds of the pairs of a list, where it holds of the pairs that the order
separates. -/
theorem pairwise_insertionSort_of (items : List A) (pairs : items.Pairwise P)
    (separates : ∀ a ∈ items, ∀ b ∈ items, ¬ r b a → P a b) :
    (items.insertionSort r).Pairwise P := by
  induction items with
  | nil => exact List.Pairwise.nil
  | cons first rest ih =>
      obtain ⟨above, pairs⟩ := List.pairwise_cons.mp pairs
      have sorted := ih pairs fun a inside b other =>
        separates a (List.mem_cons_of_mem _ inside) b (List.mem_cons_of_mem _ other)
      rw [List.insertionSort_cons]
      apply pairwise_orderedInsert_of r first _ sorted
      · intro a inside
        exact above a ((List.mem_insertionSort r).mp inside)
      · intro a inside behind
        exact separates a (List.mem_cons_of_mem _ ((List.mem_insertionSort r).mp inside)) first
          List.mem_cons_self behind

/-- An item goes to the front part, when the others stay behind it. -/
theorem orderedInsert_append_of_front (item : A) (front rest : List A) (later : ∀ a ∈ rest, r item a) :
    (front ++ rest).orderedInsert r item = front.orderedInsert r item ++ rest := by
  induction front with
  | nil =>
      cases rest with
      | nil => rfl
      | cons first rest => exact List.orderedInsert_cons_of_le r rest (later first List.mem_cons_self)
  | cons first front ih =>
      rw [List.cons_append, List.orderedInsert_cons, List.orderedInsert_cons]
      split
      · rfl
      · rw [ih, List.cons_append]

/-- An item goes to the rest, when it may not precede the front part. -/
theorem orderedInsert_append_of_rest (item : A) (front rest : List A)
    (earlier : ∀ a ∈ front, ¬ r item a) :
    (front ++ rest).orderedInsert r item = front ++ rest.orderedInsert r item := by
  induction front with
  | nil => rfl
  | cons first front ih =>
      rw [List.forall_mem_cons] at earlier
      rw [List.cons_append, List.orderedInsert_cons, if_neg earlier.1, ih earlier.2, List.cons_append]

/-- A sort keeps two parts of a list apart, when every item of one precedes every item of the other. -/
theorem insertionSort_filter (front : A → Bool) (items : List A)
    (precedes : ∀ a ∈ items, ∀ b ∈ items, front a = true → front b = false → r a b ∧ ¬ r b a) :
    items.insertionSort r = (items.filter front).insertionSort r ++
      (items.filter fun a => !front a).insertionSort r := by
  induction items with
  | nil => rfl
  | cons first rest ih =>
      have sorted := ih fun a inside b inside' =>
        precedes a (List.mem_cons_of_mem first inside) b (List.mem_cons_of_mem first inside')
      rw [List.insertionSort_cons, sorted]
      cases own : front first with
      | true =>
          rw [List.filter_cons_of_pos own, List.filter_cons_of_neg (by simp [own]),
            List.insertionSort_cons]
          apply orderedInsert_append_of_front
          intro b inside
          rw [List.mem_insertionSort, List.mem_filter] at inside
          exact (precedes first List.mem_cons_self b (List.mem_cons_of_mem first inside.1) own
            (by simpa using inside.2)).1
      | false =>
          rw [List.filter_cons_of_neg (by simp [own]), List.filter_cons_of_pos (by simp [own]),
            List.insertionSort_cons]
          apply orderedInsert_append_of_rest
          intro a inside
          rw [List.mem_insertionSort, List.mem_filter] at inside
          exact (precedes a (List.mem_cons_of_mem first inside.1) first List.mem_cons_self inside.2 own).2

/-- A stable sort keeps the order of items that it does not tell apart. -/
theorem filter_insertionSort (alike : A → Bool) (items : List A)
    (ties : ∀ a b, alike a = true → alike b = true → r a b) :
    (items.insertionSort r).filter alike = items.filter alike := by
  have tied : (items.filter alike).Pairwise r :=
    List.pairwise_of_forall_mem_list fun a inside b inside' =>
      ties a b (List.mem_filter.mp inside).2 (List.mem_filter.mp inside').2
  have kept := (List.sublist_insertionSort tied List.filter_sublist).filter alike
  rw [List.filter_filter] at kept
  simp only [Bool.and_self] at kept
  have moved := (List.perm_insertionSort r items).filter alike
  exact (kept.eq_of_length moved.length_eq.symm).symm

/-- It is enough that the relation orders the items with a property, when all items have it. -/
theorem pairwise_insertionSort_on (own : A → Prop) (items : List A) (all : ∀ a ∈ items, own a)
    (total : ∀ a b, own a → own b → r a b ∨ r b a)
    (trans : ∀ a b c, own a → own b → own c → r a b → r b c → r a c) :
    (items.insertionSort r).Pairwise r := by
  let below (a b : { a // own a }) : Prop := r a.val b.val
  let decides : DecidableRel below := fun a b => inferInstanceAs (Decidable (r a.val b.val))
  have total : Std.Total below := ⟨fun a b => total a b a.property b.property⟩
  have trans : IsTrans { a // own a } below := ⟨fun a b c => trans a b c a.property b.property c.property⟩
  have sorted := List.pairwise_insertionSort below (items.attachWith own all)
  have values : (items.attachWith own all).map Subtype.val = items := List.attachWith_map_subtype_val _
  have same : ((items.attachWith own all).insertionSort below).map Subtype.val =
      items.insertionSort r := by
    rw [List.map_insertionSort below r Subtype.val _ fun _ _ _ _ => Iff.rfl, values]
  rw [← same, List.pairwise_map]
  exact sorted

end Stable

/-- In a linear order a part of a list is sorted as in the whole list. -/
theorem insertionSort_filter_of_linear {K : Type} [LinearOrder K] (part : K → Bool) (items : List K) :
    (items.filter part).insertionSort (· ≤ ·) = (items.insertionSort (· ≤ ·)).filter part := by
  have sorted := List.pairwise_insertionSort (· ≤ ·) (items.filter part)
  have kept := (List.pairwise_insertionSort (· ≤ ·) items).filter part
  have same := (List.perm_insertionSort (· ≤ ·) (items.filter part)).trans
    ((List.perm_insertionSort (· ≤ ·) items).symm.filter part)
  exact same.eq_of_pairwise (fun _ _ _ _ => le_antisymm) sorted kept

section Fronts

variable {A B C : Type}

/-- Where every item has a value, the values of a front are a front of the values. -/
theorem filterMap_take (f : A → Option B) (items : List A) (all : ∀ a ∈ items, ∃ b, f a = some b) (n : Nat) :
    (items.take n).filterMap f = (items.filterMap f).take n := by
  induction items generalizing n with
  | nil => rw [List.take_nil, List.filterMap_nil, List.take_nil]
  | cons item rest ih =>
      obtain ⟨value, own⟩ := all item List.mem_cons_self
      cases n with
      | zero => rfl
      | succ n =>
          rw [List.take_succ_cons, List.filterMap_cons_some own, List.filterMap_cons_some own,
            List.take_succ_cons, ih fun a inside => all a (List.mem_cons_of_mem _ inside)]

theorem map_filterMap_of_forall (f : A → Option B) (g : B → C) (h : A → C) (items : List A)
    (all : ∀ a ∈ items, ∃ b, f a = some b ∧ g b = h a) : (items.filterMap f).map g = items.map h := by
  induction items with
  | nil => rfl
  | cons item rest ih =>
      obtain ⟨value, own, same⟩ := all item List.mem_cons_self
      rw [List.filterMap_cons_some own, List.map_cons, List.map_cons, same,
        ih fun a inside => all a (List.mem_cons_of_mem _ inside)]

end Fronts

section Chains

variable {A : Type} {r : A → A → Prop} [DecidableRel r]

/-- A sort keeps a list in which each item may stand before the next one. -/
theorem insertionSort_of_isChain (items : List A) (chain : items.IsChain r) :
    items.insertionSort r = items := by
  induction items with
  | nil => rfl
  | cons item rest ih =>
      rw [List.insertionSort_cons, ih chain.tail]
      cases rest with
      | nil => rfl
      | cons next rest => exact List.orderedInsert_cons_of_le r rest (List.isChain_cons_cons.mp chain).1

theorem isChain_orderedInsert (total : ∀ a b, r a b ∨ r b a) (item : A) (items : List A)
    (chain : items.IsChain r) : (items.orderedInsert r item).IsChain r := by
  induction items with
  | nil => exact List.isChain_singleton item
  | cons first rest ih =>
      by_cases before : r item first
      · rw [List.orderedInsert_cons_of_le r rest before]
        exact List.isChain_cons_cons.mpr ⟨before, chain⟩
      · rw [List.orderedInsert_of_not_le r rest before]
        have after : r first item := (total item first).resolve_left before
        cases rest with
        | nil => exact List.isChain_cons_cons.mpr ⟨after, List.isChain_singleton item⟩
        | cons next rest =>
            have later := ih chain.tail
            by_cases here : r item next
            · rw [List.orderedInsert_cons_of_le r rest here] at later ⊢
              exact List.isChain_cons_cons.mpr ⟨after, later⟩
            · rw [List.orderedInsert_of_not_le r rest here] at later ⊢
              exact List.isChain_cons_cons.mpr ⟨(List.isChain_cons_cons.mp chain).1, later⟩

/-- A sort by a relation that decides every pair needs no transitivity for this. -/
theorem isChain_insertionSort (total : ∀ a b, r a b ∨ r b a) (items : List A) :
    (items.insertionSort r).IsChain r := by
  induction items with
  | nil => exact List.isChain_nil
  | cons item rest ih => exact isChain_orderedInsert total item _ ih

end Chains

end Kortex

namespace Kortex.Cut

variable {A : Type} (r : A → A → Prop)

/-- The list is the front of all items in a sorted order. -/
def IsFront (front all : List A) (m : Nat) : Prop :=
  ∃ sorted : List A, sorted.Perm all ∧ sorted.Pairwise r ∧ front = sorted.take m

variable [DecidableRel r]

/-- Of the items in front of the cut, enough may come before each item behind it. -/
def Suffices (items : List A) (n m : Nat) : Prop :=
  ∀ c ∈ items.drop n, m ≤ (items.take n).countP fun a => r a c

variable {r}

/-- In a sorted list with enough items before another one, all items of the front are before it. -/
theorem front_before [IsTrans A r] (items : List A) (sorted : items.Pairwise r) (c : A) (m : Nat)
    (enough : m ≤ items.countP fun a => r a c) : ∀ a ∈ items.take m, r a c := by
  induction items generalizing m with
  | nil => exact fun a inside => absurd inside (by simp)
  | cons first rest ih =>
      obtain ⟨after, sorted⟩ := List.pairwise_cons.mp sorted
      cases m with
      | zero => exact fun a inside => absurd inside (by simp)
      | succ m =>
          have leads : r first c := by
            obtain ⟨a, inside, before⟩ := List.countP_pos_iff.mp (Nat.lt_of_lt_of_le m.succ_pos enough)
            rcases List.mem_cons.mp inside with rfl | later
            · exact of_decide_eq_true before
            · exact IsTrans.trans first a c (after a later) (of_decide_eq_true before)
          rw [List.countP_cons, if_pos (decide_eq_true leads)] at enough
          intro a inside
          rw [List.take_succ_cons] at inside
          rcases List.mem_cons.mp inside with rfl | later
          · exact leads
          · exact ih sorted m (Nat.le_of_succ_le_succ enough) a later

/-- The cut leaves the front of the sorted items as it is exactly when enough items in front of the cut
may come before each item behind it. -/
theorem isFront_iff [Std.Total r] [IsTrans A r] (items : List A) (n m : Nat) (few : m ≤ n) :
    IsFront r (((items.take n).insertionSort r).take m) items m ↔ Suffices r items n m := by
  have parted := List.take_append_drop m ((items.take n).insertionSort r)
  have inner := List.perm_insertionSort r (items.take n)
  have ordered : ((items.take n).insertionSort r).Pairwise r := List.pairwise_insertionSort r _
  constructor
  · intro ⟨sorted, same, rising, front⟩ c behind
    have split : (sorted.take m ++ sorted.drop m).Perm
        (sorted.take m ++ (((items.take n).insertionSort r).drop m ++ items.drop n)) := by
      rw [List.take_append_drop, ← front, ← List.append_assoc, parted]
      have whole := inner.symm.append_right (items.drop n)
      rw [List.take_append_drop] at whole
      exact same.trans whole
    have later : c ∈ sorted.drop m := by
      rw [((List.perm_append_left_iff _).mp split).mem_iff]
      exact List.mem_append_right _ behind
    rw [← List.take_append_drop m sorted, List.pairwise_append] at rising
    have full : (sorted.take m).length = m := by
      have long : n < items.length := by
        by_contra short
        rw [List.drop_eq_nil_of_le (Nat.le_of_not_lt short)] at behind
        exact absurd behind List.not_mem_nil
      rw [List.length_take, same.length_eq]
      omega
    calc m = ((sorted.take m).countP fun a => r a c) := by
          rw [List.countP_eq_length.mpr fun a inside => decide_eq_true (rising.2.2 a inside c later), full]
      _ ≤ (((items.take n).insertionSort r).countP fun a => r a c) := by
          rw [← front]
          exact (List.take_sublist m _).countP_le
      _ = (items.take n).countP fun a => r a c := inner.countP_eq _
  · intro enough
    refine ⟨((items.take n).insertionSort r).take m ++
      (((items.take n).insertionSort r).drop m ++ items.drop n).insertionSort r, ?_, ?_, ?_⟩
    · refine ((List.perm_insertionSort r _).append_left _).trans ?_
      rw [← List.append_assoc, parted]
      refine (inner.append_right _).trans ?_
      rw [List.take_append_drop]
    · rw [List.pairwise_append]
      refine ⟨ordered.sublist (List.take_sublist m _), List.pairwise_insertionSort r _, ?_⟩
      intro a first c later
      rw [List.mem_insertionSort, List.mem_append] at later
      rcases later with inside | behind
      · rw [← parted, List.pairwise_append] at ordered
        exact ordered.2.2 a first c inside
      · apply front_before _ ordered c m _ a first
        rw [inner.countP_eq]
        exact enough c behind
    · by_cases long : m ≤ ((items.take n).insertionSort r).length
      · rw [List.take_left' (by rw [List.length_take]; omega)]
      · have short : items.length < m := by
          rw [List.length_insertionSort, List.length_take] at long
          omega
        have none : (((items.take n).insertionSort r).drop m ++ items.drop n).insertionSort r = [] := by
          rw [List.drop_eq_nil_of_le (by omega), List.drop_eq_nil_of_le (by omega)]
          rfl
        rw [none, List.append_nil, List.take_take, Nat.min_self]

end Kortex.Cut

namespace Kortex.Ranked

variable {A : Type}

/-- As many numbers as there are places are these places, when none is left out. -/
theorem perm_range (numbers : List Int) (n : Nat) (same : numbers.length = n)
    (all : ∀ i < n, (i : Int) ∈ numbers) : numbers.Perm ((List.range n).map Int.ofNat) := by
  have distinct : ((List.range n).map Int.ofNat).Nodup :=
    List.nodup_range.map Int.ofNat_injective
  have inside : (List.range n).map Int.ofNat ⊆ numbers := by
    intro number present
    obtain ⟨i, small, rfl⟩ := List.mem_map.mp present
    exact all i (List.mem_range.mp small)
  have fewer := List.subperm_of_subset distinct inside
  exact (fewer.perm_of_length_le (by simp [same])).symm

def sortPairs (pairs : List (Int × A)) : List (Int × A) := pairs.insertionSort fun a b => a.1 ≤ b.1

instance instTrans : IsTrans (Int × A) fun a b => a.1 ≤ b.1 := ⟨fun _ _ _ => le_trans⟩

instance instTotal : Std.Total fun a b : Int × A => a.1 ≤ b.1 := ⟨fun a b => le_total a.1 b.1⟩

/-- The sort puts the item with the number `i` at the place `i`. -/
theorem map_fst_sortPairs (pairs : List (Int × A))
    (all : ∀ i < pairs.length, (i : Int) ∈ pairs.map Prod.fst) :
    (sortPairs pairs).map Prod.fst = (List.range pairs.length).map Int.ofNat := by
  have sorted : ((sortPairs pairs).map Prod.fst).Pairwise (· ≤ ·) := by
    rw [List.pairwise_map]
    exact List.pairwise_insertionSort (fun a b : Int × A => a.1 ≤ b.1) pairs
  have ranged : ((List.range pairs.length).map Int.ofNat).Pairwise (· ≤ ·) := by
    rw [List.pairwise_map]
    exact List.pairwise_lt_range.imp fun less => Int.ofNat_le.mpr (Nat.le_of_lt less)
  have same := perm_range (pairs.map Prod.fst) pairs.length (List.length_map _) all
  have moved := (List.perm_insertionSort (fun a b : Int × A => a.1 ≤ b.1) pairs).map Prod.fst
  exact (moved.trans same).eq_of_pairwise (fun _ _ _ _ => le_antisymm) sorted ranged

end Kortex.Ranked
