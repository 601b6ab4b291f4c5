import Mathlib.Data.Fintype.Defs
import Mathlib.Data.Set.Basic
import Mathlib.Logic.Relation
import Mathlib.Order.WellFounded
import Mathlib.Tactic

/-
This file relates a search by rounds to the nodes within a number of steps, and gives the rules for relations
that never lead back to where they started.
-/

namespace Kortex.Closure

variable {Node : Type} (step : Node → Node → Prop)

/-- The second node lies within the number of steps of the first. -/
inductive Within : Nat → Node → Node → Prop where
  | refl (n : Nat) (a : Node) : Within n a a
  | tail {n : Nat} {a b c : Node} (head : Within n a b) (last : step b c) : Within (n + 1) a c

/-- These are the nodes within the number of steps of a seed. -/
def ball (seeds : Set Node) (n : Nat) : Set Node := {x | ∃ seed ∈ seeds, Within step n seed x}

variable {step} {seeds : Set Node} {n : Nat} {seen frontier seen' frontier' : Set Node}

theorem Within.succ {a b : Node} (within : Within step n a b) : Within step (n + 1) a b := by
  induction within with
  | refl n a => exact Within.refl (n + 1) a
  | tail head last ih => exact Within.tail ih last

theorem ball_zero : ball step seeds 0 = seeds := by
  ext x
  constructor
  · rintro ⟨seed, inside, within⟩
    cases within
    exact inside
  · exact fun inside => ⟨x, inside, Within.refl 0 x⟩

/-- A larger ball also has the successors of the smaller one. -/
theorem mem_ball_succ (x : Node) :
    x ∈ ball step seeds (n + 1) ↔ x ∈ ball step seeds n ∨ ∃ y ∈ ball step seeds n, step y x := by
  constructor
  · rintro ⟨seed, inside, within⟩
    cases within with
    | refl => exact Or.inl ⟨x, inside, Within.refl n x⟩
    | tail head last => exact Or.inr ⟨_, ⟨seed, inside, head⟩, last⟩
  · rintro (⟨seed, inside, within⟩ | ⟨y, ⟨seed, inside, within⟩, last⟩)
    · exact ⟨seed, inside, within.succ⟩
    · exact ⟨seed, inside, Within.tail within last⟩

/-- No ball is larger than seeds whose successors are seeds. -/
theorem ball_of_closed (closed : ∀ y ∈ seeds, ∀ x, step y x → x ∈ seeds) (n : Nat) :
    ball step seeds n = seeds := by
  induction n with
  | zero => exact ball_zero
  | succ n ih =>
      ext x
      rw [mem_ball_succ, ih]
      constructor
      · intro reached
        cases reached with
        | inl old => exact old
        | inr next =>
            obtain ⟨y, inside, last⟩ := next
            exact closed y inside x last
      · exact Or.inl

variable (step seeds n seen frontier) in
/-- A search has seen the ball, and the successors of all seen nodes outside its frontier. -/
structure Searched : Prop where
  seen_eq : seen = ball step seeds n
  closed : ∀ y ∈ seen, y ∉ frontier → ∀ x, step y x → x ∈ seen

theorem searched_start : Searched step seeds 0 seeds seeds where
  seen_eq := ball_zero.symm
  closed _ inside outside := absurd inside outside

/-- A round sees the successors of the frontier, and the new nodes are the next frontier. -/
theorem Searched.round (searched : Searched step seeds n seen frontier)
    (inside : frontier ⊆ seen)
    (grows : ∀ x, x ∈ seen' ↔ x ∈ seen ∨ ∃ y ∈ frontier, step y x)
    (fresh : ∀ x, x ∈ seen' → x ∉ frontier' → x ∈ seen) :
    Searched step seeds (n + 1) seen' frontier' where
  seen_eq := by
    ext x
    rw [grows, mem_ball_succ, ← searched.seen_eq]
    constructor
    · rintro (old | ⟨y, ahead, last⟩)
      · exact Or.inl old
      · exact Or.inr ⟨y, inside ahead, last⟩
    · rintro (old | ⟨y, present, last⟩)
      · exact Or.inl old
      · by_cases ahead : y ∈ frontier
        · exact Or.inr ⟨y, ahead, last⟩
        · exact Or.inl (searched.closed y present ahead x last)
  closed y present outside x last := by
    have old := fresh y present outside
    rw [grows]
    by_cases ahead : y ∈ frontier
    · exact Or.inr ⟨y, ahead, last⟩
    · exact Or.inl (searched.closed y old ahead x last)

/-- A search with an empty frontier has seen every larger ball. -/
theorem Searched.stop (searched : Searched step seeds n seen ∅) (more : Nat) :
    seen = ball step seeds (n + more) := by
  induction more with
  | zero => exact searched.seen_eq
  | succ more ih =>
      ext x
      rw [← Nat.add_assoc, mem_ball_succ, ← ih]
      constructor
      · exact Or.inl
      · rintro (old | ⟨y, present, last⟩)
        · exact old
        · exact searched.closed y present (Set.notMem_empty y) x last

end Kortex.Closure

namespace Kortex

open Relation

variable {A B : Type} {r r' : A → A → Prop}

/-- No chain of the relation leads from a value to itself. -/
def Acyclic (r : A → A → Prop) : Prop := ∀ a, ¬ TransGen r a a

namespace Acyclic

theorem mono (smaller : ∀ a b, r a b → r' a b) (acyclic : Acyclic r') : Acyclic r :=
  fun a cycle => acyclic a (TransGen.mono smaller a a cycle)

/-- A relation that is mapped into an acyclic one is acyclic. -/
theorem of_map {s : B → B → Prop} (f : A → B) (into : ∀ a b, r a b → s (f a) (f b))
    (acyclic : Acyclic s) : Acyclic r :=
  fun a cycle => acyclic (f a) (TransGen.lift f into a a cycle)

end Acyclic

section Ranked

variable {Rank : Type} [PartialOrder Rank] (rank : A → Rank)

/-- The rank never grows along a chain, and a chain that keeps it consists of steps that keep it. -/
theorem transGen_ties (falls : ∀ a b, r a b → rank b ≤ rank a) {a b : A} (chain : TransGen r a b) :
    rank b ≤ rank a ∧
      (rank a = rank b → TransGen (fun a b => r a b ∧ rank a = rank b) a b) := by
  induction chain with
  | single step => exact ⟨falls _ _ step, fun tie => TransGen.single ⟨step, tie⟩⟩
  | tail chain step ih =>
      rename_i b c
      have last := falls b c step
      refine ⟨le_trans last ih.1, fun tie => ?_⟩
      have first : rank a = rank b := le_antisymm (tie ▸ last) ih.1
      exact TransGen.tail (ih.2 first) ⟨step, first.symm.trans tie⟩

/-- A relation that never raises the rank is acyclic exactly when it is so between equal ranks. -/
theorem acyclic_iff_ties (falls : ∀ a b, r a b → rank b ≤ rank a) :
    Acyclic r ↔ Acyclic fun a b => r a b ∧ rank a = rank b := by
  constructor
  · exact Acyclic.mono fun _ _ both => both.1
  · exact fun ties a cycle => ties a ((transGen_ties rank falls cycle).2 rfl)

/-- Between distinct ranks, a relation that never raises the rank is acyclic. -/
theorem acyclic_distinct (falls : ∀ a b, r a b → rank b ≤ rank a) :
    Acyclic fun a b => r a b ∧ rank a ≠ rank b := by
  rw [acyclic_iff_ties rank fun a b both => falls a b both.1]
  intro a cycle
  obtain ⟨b, ⟨⟨_, distinct⟩, tie⟩, _⟩ := TransGen.head'_iff.mp cycle
  exact distinct tie

end Ranked

/-- Among finitely many values, an acyclic relation has one that no other leads to. -/
theorem Acyclic.exists_source (acyclic : Acyclic r) (nodes : List A) (a : A) (inside : a ∈ nodes) :
    ∃ a ∈ nodes, ∀ b ∈ nodes, ¬ r b a := by
  have finite : Finite {x // x ∈ nodes} := List.finite_toSet nodes
  let chained (x y : {x // x ∈ nodes}) : Prop := TransGen r x.1 y.1
  have transitive : IsTrans _ chained := ⟨fun _ _ _ first second => first.trans second⟩
  have irreflexive : Std.Irrefl chained := ⟨fun x cycle => acyclic x.1 cycle⟩
  have founded := Finite.wellFounded_of_trans_of_irrefl chained
  obtain ⟨source, _, minimal⟩ := founded.has_min Set.univ ⟨⟨a, inside⟩, trivial⟩
  exact ⟨source.1, source.2, fun b other step => minimal ⟨b, other⟩ trivial (TransGen.single step)⟩

/-- The values of a cycle are finitely many, and each has one of them that leads to it. -/
theorem exists_nodes_of_cycle (a : A) (cycle : TransGen r a a) :
    ∃ nodes : List A, a ∈ nodes ∧ ∀ b ∈ nodes, ∃ c ∈ nodes, r c b := by
  have along {b : A} (chain : TransGen r a b) : ∃ nodes : List A, a ∈ nodes ∧ b ∈ nodes ∧
      ∀ x ∈ nodes, x ≠ a → ∃ c ∈ nodes, r c x := by
    induction chain with
    | single step =>
        rename_i b
        refine ⟨[a, b], List.mem_cons_self, by simp, fun x inside other => ?_⟩
        rcases List.mem_cons.mp inside with same | last
        · exact absurd same other
        · exact ⟨a, List.mem_cons_self, List.mem_singleton.mp last ▸ step⟩
    | tail chain step ih =>
        rename_i b c
        obtain ⟨nodes, start, last, led⟩ := ih
        refine ⟨c :: nodes, List.mem_cons_of_mem c start, List.mem_cons_self, fun x inside other => ?_⟩
        rcases List.mem_cons.mp inside with rfl | old
        · exact ⟨b, List.mem_cons_of_mem x last, step⟩
        · obtain ⟨y, before, leads⟩ := led x old other
          exact ⟨y, List.mem_cons_of_mem c before, leads⟩
  obtain ⟨b, before, step⟩ := TransGen.tail'_iff.mp cycle
  rcases Relation.reflTransGen_iff_eq_or_transGen.mp before with rfl | chain
  · exact ⟨[b], by simp, by simpa using step⟩
  · obtain ⟨nodes, start, last, led⟩ := along chain
    refine ⟨nodes, start, fun x inside => ?_⟩
    by_cases same : x = a
    · exact ⟨b, last, same ▸ step⟩
    · exact led x inside same

end Kortex
