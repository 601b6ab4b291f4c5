import Mathlib.Data.List.Infix
import Mathlib.Tactic

/-
This file develops hash chains: which parts of a chain are chains themselves.
-/

namespace Kortex

/-- A hash chain digests the entry of a link with the hash that the link points back at. -/
structure HashChain (L E H : Type) where
  digest : E → H → H
  entry : L → E
  prev : L → H
  hash : L → H

namespace HashChain

variable {L L' E H : Type} (c : HashChain L E H)

/-- An ideal digest has no collision and never returns the genesis mark. -/
structure Ideal (digest : E → H → H) (genesis : H) : Prop where
  injective : ∀ e p e' p', digest e p = digest e' p' → e = e' ∧ p = p'
  fresh : ∀ e p, digest e p ≠ genesis

/-- A pointing digest determines the hash it was taken over and never returns the genesis mark. -/
structure Pointing (digest : E → H → H) (genesis : H) : Prop where
  prev_eq : ∀ e p e' p', digest e p = digest e' p' → p = p'
  fresh : ∀ e p, digest e p ≠ genesis

theorem Ideal.pointing {digest : E → H → H} {genesis : H} (ideal : Ideal digest genesis) :
    Pointing digest genesis :=
  ⟨fun e p e' p' same => (ideal.injective e p e' p' same).2, ideal.fresh⟩

def Sealed (l : L) : Prop := c.digest (c.entry l) (c.prev l) = c.hash l

/-- In a chain each hash seals its own link and is what the next link points at. -/
def Chained : List L → Prop
  | [] => True
  | l :: rest => c.Sealed l ∧ (∀ next ∈ rest.head?, c.prev next = c.hash l) ∧ Chained rest

/-- The depth of a hash is the number of digests between it and the genesis mark. -/
inductive Depth (digest : E → H → H) (genesis : H) : H → Nat → Prop where
  | genesis : Depth digest genesis genesis 0
  | digest (e : E) (p : H) (n : Nat) : Depth digest genesis p n →
      Depth digest genesis (digest e p) (n + 1)

/-- The chain starts at the given depth. -/
def StartsAt (genesis : H) (n : Nat) (log : List L) : Prop :=
  ∀ l ∈ log.head?, Depth c.digest genesis (c.prev l) n

variable {c} {genesis : H}

theorem depth_unique {digest : E → H → H} (pointing : Pointing digest genesis) {h : H} {n m : Nat}
    (first : Depth digest genesis h n) (second : Depth digest genesis h m) : n = m := by
  induction first generalizing m with
  | genesis =>
      generalize same : genesis = g at second
      cases second with
      | genesis => rfl
      | digest e p n depth => exact absurd same.symm (same ▸ pointing.fresh e p)
  | digest e p n depth ih =>
      generalize same : digest e p = h at second
      cases second with
      | genesis => exact absurd same (pointing.fresh e p)
      | digest e' p' n' depth' =>
          obtain rfl := pointing.prev_eq e p e' p' same
          rw [ih depth']

/-- The hash of a sealed link lies one digest deeper than the hash it points at. -/
theorem Sealed.depth {l : L} {n : Nat} (isSealed : c.Sealed l)
    (depth : Depth c.digest genesis (c.prev l) n) : Depth c.digest genesis (c.hash l) (n + 1) :=
  isSealed ▸ .digest _ _ n depth

theorem Chained.startsAt_tail {first : L} {rest : List L} {n : Nat}
    (chained : c.Chained (first :: rest)) (start : c.StartsAt genesis n (first :: rest)) :
    c.StartsAt genesis (n + 1) rest := by
  intro r head
  rw [chained.2.1 r head]
  exact chained.1.depth (start first rfl)

theorem chained_append_iff (log : List L) (l : L) :
    c.Chained (log ++ [l]) ↔ c.Chained log ∧ c.Sealed l ∧
      ∀ last ∈ log.getLast?, c.prev l = c.hash last := by
  induction log with
  | nil => simp [Chained]
  | cons first rest ih =>
      cases rest with
      | nil =>
          simp only [List.cons_append, List.nil_append, Chained, List.head?_cons, Option.mem_def,
            Option.some.injEq, forall_eq', List.head?_nil, List.getLast?_singleton]
          simp
          tauto
      | cons second rest =>
          rw [List.cons_append, Chained, ih, List.getLast?_cons_cons]
          simp only [List.cons_append, List.head?_cons]
          constructor
          · rintro ⟨own, joined, chained, new, last⟩
            exact ⟨⟨own, joined, chained⟩, new, last⟩
          · rintro ⟨⟨own, joined, chained⟩, new, last⟩
            exact ⟨own, joined, chained, new, last⟩

theorem chained_of_append (first second : List L) (chained : c.Chained (first ++ second)) :
    c.Chained first ∧ c.Chained second := by
  induction first with
  | nil => exact ⟨trivial, chained⟩
  | cons l rest ih =>
      obtain ⟨own, joined, tail⟩ := chained
      refine ⟨⟨own, fun next head => joined next ?_, (ih tail).1⟩, (ih tail).2⟩
      cases rest with
      | nil => simp at head
      | cons r rest => exact head

/-- A contiguous run of a chain is a chain. -/
theorem chained_of_isInfix {part log : List L} (run : part <:+: log) (chained : c.Chained log) :
    c.Chained part := by
  obtain ⟨before, after, rfl⟩ := run
  exact (chained_of_append before part (chained_of_append (before ++ part) after chained).1).2

theorem Chained.sealed {log : List L} (chained : c.Chained log) (l : L) (present : l ∈ log) :
    c.Sealed l := by
  obtain ⟨before, after, rfl⟩ := List.append_of_mem present
  exact (chained_of_append before _ chained).2.1

theorem chained_map (f : L' → L) (log : List L') :
    c.Chained (log.map f) ↔
      (⟨c.digest, c.entry ∘ f, c.prev ∘ f, c.hash ∘ f⟩ : HashChain L' E H).Chained log := by
  induction log with
  | nil => exact Iff.rfl
  | cons l rest ih =>
      rw [List.map_cons, Chained, Chained, ih, List.head?_map]
      simp only [Option.mem_def, Option.map_eq_some_iff, forall_exists_index, and_imp,
        forall_apply_eq_imp_iff₂]
      exact Iff.rfl

/-- Along a chain the depth of the predecessor grows. -/
theorem depth_of_mem {log : List L} {n : Nat} (chained : c.Chained log)
    (start : c.StartsAt genesis n log) (l : L) (present : l ∈ log) :
    ∃ m, n ≤ m ∧ Depth c.digest genesis (c.prev l) m := by
  induction log generalizing n with
  | nil => simp at present
  | cons first rest ih =>
      rcases List.mem_cons.mp present with rfl | present
      · exact ⟨n, le_rfl, start l rfl⟩
      · obtain ⟨m, deep, depth⟩ := ih chained.2.2 (chained.startsAt_tail start) present
        exact ⟨m, by omega, depth⟩

theorem depth_of_mem_tail {first : L} {rest : List L} {n : Nat}
    (chained : c.Chained (first :: rest)) (start : c.StartsAt genesis n (first :: rest)) :
    ∀ l ∈ rest, ∃ m, n < m ∧ Depth c.digest genesis (c.prev l) m := by
  intro l present
  obtain ⟨m, deep, depth⟩ := depth_of_mem chained.2.2 (chained.startsAt_tail start) l present
  exact ⟨m, by omega, depth⟩

/-- No two links of a chain have the same predecessor. -/
theorem distinct_prev (pointing : Pointing c.digest genesis) {log : List L} {n : Nat}
    (chained : c.Chained log) (start : c.StartsAt genesis n log) :
    log.Pairwise fun a b => c.prev a ≠ c.prev b := by
  induction log generalizing n with
  | nil => exact List.Pairwise.nil
  | cons first rest ih =>
      refine List.Pairwise.cons ?_ (@ih (n + 1) chained.2.2 (chained.startsAt_tail start))
      intro l present same
      obtain ⟨m, deep, depth⟩ := depth_of_mem_tail chained start l present
      rw [← same] at depth
      have := depth_unique pointing (start first rfl) depth
      omega

/-- In a chain from the genesis mark only the first link points at the mark. -/
theorem prev_ne_genesis (pointing : Pointing c.digest genesis) {first : L} {rest : List L}
    (chained : c.Chained (first :: rest)) (start : c.StartsAt genesis 0 (first :: rest)) :
    ∀ l ∈ rest, c.prev l ≠ genesis := by
  intro l present same
  obtain ⟨m, deep, depth⟩ := depth_of_mem_tail chained start l present
  rw [same] at depth
  have := depth_unique pointing .genesis depth
  omega

/-- A subchain that starts where the chain starts is a prefix of it. -/
theorem prefix_of_chained (pointing : Pointing c.digest genesis) {part log : List L} {n : Nat}
    (chained : c.Chained log) (start : c.StartsAt genesis n log) (sub : part.Sublist log)
    (subchain : c.Chained part) (startPart : c.StartsAt genesis n part) : part <+: log := by
  induction log generalizing part n with
  | nil => rw [List.sublist_nil.mp sub]
  | cons first rest ih =>
      cases part with
      | nil => exact List.nil_prefix
      | cons l part =>
          cases sub with
          | cons _ sub =>
              have present : l ∈ rest := sub.subset (by simp)
              obtain ⟨m, deep, depth⟩ := depth_of_mem_tail chained start l present
              have := depth_unique pointing (startPart l rfl) depth
              omega
          | cons_cons _ sub =>
              exact List.cons_prefix_cons.mpr ⟨rfl, ih chained.2.2 (chained.startsAt_tail start) sub
                subchain.2.2 (subchain.startsAt_tail startPart)⟩

/-- The subchains of a chain are its contiguous runs. -/
theorem infix_of_chained (pointing : Pointing c.digest genesis) {part log : List L} {n : Nat}
    (chained : c.Chained log) (start : c.StartsAt genesis n log) (sub : part.Sublist log)
    (subchain : c.Chained part) : part <:+: log := by
  induction log generalizing part n with
  | nil => rw [List.sublist_nil.mp sub]
  | cons first rest ih =>
      cases sub with
      | cons _ sub =>
          exact (ih chained.2.2 (chained.startsAt_tail start) sub subchain).trans
            (List.suffix_cons first rest).isInfix
      | cons_cons _ sub =>
          exact (prefix_of_chained pointing chained start (sub.cons_cons first) subchain
            fun l head => start l head).isInfix

/-- A chain is one under every digest that seals its links. -/
theorem Chained.reseal {E' : Type} {c' : HashChain L E' H} {log : List L} (chained : c'.Chained log)
    (prev : c'.prev = c.prev) (hash : c'.hash = c.hash) (isSealed : ∀ l ∈ log, c.Sealed l) :
    c.Chained log := by
  induction log with
  | nil => trivial
  | cons first rest ih =>
      obtain ⟨own, others⟩ := List.forall_mem_cons.mp isSealed
      refine ⟨own, fun next head => ?_, ih chained.2.2 others⟩
      rw [← prev, ← hash]
      exact chained.2.1 next head

/-- The surviving links of a chain are a chain under another digest exactly when this digest seals
them and they are a contiguous run. -/
theorem chained_survivors_iff {E' : Type} (pointing : Pointing c.digest genesis) {part log : List L}
    {n : Nat} (chained : c.Chained log) (start : c.StartsAt genesis n log) (sub : part.Sublist log)
    (c' : HashChain L E' H) (prev : c'.prev = c.prev) (hash : c'.hash = c.hash) :
    c'.Chained part ↔ (∀ l ∈ part, c'.Sealed l) ∧ part <:+: log := by
  constructor
  · intro subchain
    have original : c.Chained part := subchain.reseal prev hash fun l present =>
      chained.sealed l (sub.subset present)
    exact ⟨subchain.sealed, infix_of_chained pointing chained start sub original⟩
  · rintro ⟨isSealed, run⟩
    exact (chained_of_isInfix run chained).reseal prev.symm hash.symm isSealed

/-- After edits, the surviving links of a chain are a chain exactly when none of them was edited
and they are a contiguous run. -/
theorem chained_edited_iff (ideal : Ideal c.digest genesis) {part log : List L} {n : Nat}
    (chained : c.Chained log) (start : c.StartsAt genesis n log) (sub : part.Sublist log)
    (edit : L → E) :
    { c with entry := edit }.Chained part ↔ (∀ l ∈ part, edit l = c.entry l) ∧ part <:+: log := by
  have unedited : ∀ l ∈ part, { c with entry := edit }.Sealed l ↔ edit l = c.entry l := by
    intro l present
    have own : c.digest (c.entry l) (c.prev l) = c.hash l := chained.sealed l (sub.subset present)
    constructor
    · intro edited
      exact (ideal.injective _ _ _ _ (Eq.trans edited own.symm)).1
    · intro same
      change c.digest (edit l) (c.prev l) = c.hash l
      rw [same, own]
  rw [chained_survivors_iff ideal.pointing chained start sub { c with entry := edit } rfl rfl]
  exact and_congr_left fun _ => forall₂_congr unedited

end HashChain
end Kortex
