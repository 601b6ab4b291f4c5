import Mathlib.Data.List.Sort
import Mathlib.Tactic

/-
This file is about intervals that a sweep from left to right chooses so that they do not overlap.
-/

namespace Kortex.Sweep

variable {A : Type} (start stop : A → Nat)

/-- An interval is taken when it does not start before the end of the last one. -/
def keep (kept : List A) (a : A) : List A :=
  if kept.getLast?.any (fun last => decide (start a < stop last)) then kept else kept ++ [a]

/-- This is the sweep from a position on. -/
def sweep : Nat → List A → List A
  | _, [] => []
  | position, a :: rest =>
      if start a < position then sweep position rest else a :: sweep (stop a) rest

/-- An interval is ahead of those that start later, and of those at its start that are no longer. -/
def Ahead (a b : A) : Prop := start a < start b ∨ (start a = start b ∧ stop b ≤ stop a)

/-- The interval has the position. -/
def Holds (a : A) (position : Nat) : Prop := start a ≤ position ∧ position < stop a

/-- Some interval has the position. -/
def Covered (found : List A) (position : Nat) : Prop := ∃ a ∈ found, Holds start stop a position

/-- From the position on, no interval is ahead of this one. -/
structure First (found : List A) (position : Nat) (a : A) : Prop where
  inside : a ∈ found
  nonempty : start a < stop a
  behind : position ≤ start a
  ahead : ∀ b ∈ found, start b < stop b → position ≤ start b → Ahead start stop a b

/-- The sweep comes to rest at the start of the text, and at the end of each interval that is the first
one from such a place on. -/
inductive Rests (found : List A) : Nat → Prop
  | zero : Rests found 0
  | next (position : Nat) (a : A) (rests : Rests found position)
      (first : First start stop found position a) : Rests found (stop a)

/-- The sweep takes the interval, or one with its ends. -/
def Taken (found : List A) (a : A) : Prop :=
  ∃ position, Rests start stop found position ∧ First start stop found position a

/-- No interval starts in the gap, which lies between a place where the sweep rests and the start of the
next interval, or the end of the text. -/
structure Gap (found : List A) (length first last : Nat) : Prop where
  rests : Rests start stop found first
  ordered : first ≤ last
  free : ∀ a ∈ found, first ≤ start a → last ≤ start a
  closed : last = length ∨ ∃ a ∈ found, start a = last

/-- These intervals are apart, and each of the others overlaps one that is ahead of it. -/
structure Chosen (found kept : List A) : Prop where
  subset : ∀ k ∈ kept, k ∈ found
  apart : kept.Pairwise fun a b => stop a ≤ start b
  ahead : ∀ a ∈ found, ∃ k ∈ kept, Ahead start stop k a ∧ (k = a ∨ start a < stop k)

variable {start stop} {found kept : List A}

theorem Ahead.trans {a b c : A} (first : Ahead start stop a b) (second : Ahead start stop b c) :
    Ahead start stop a c := by
  unfold Ahead at *
  omega

theorem foldl_keep (found kept : List A) : found.foldl (keep start stop) kept =
    kept ++ sweep start stop (kept.getLast?.elim 0 stop) found := by
  induction found generalizing kept with
  | nil => rw [List.foldl_nil, sweep, List.append_nil]
  | cons a rest ih =>
      rw [List.foldl_cons, ih, sweep, keep]
      have same : kept.getLast?.any (fun last => decide (start a < stop last)) =
          decide (start a < kept.getLast?.elim 0 stop) := by
        cases kept.getLast? with
        | none => rfl
        | some last => rfl
      rw [same]
      by_cases blocked : start a < kept.getLast?.elim 0 stop
      · rw [if_pos blocked, if_pos (decide_eq_true blocked)]
      · rw [if_neg blocked, if_neg (by simpa using blocked)]
        simp

/-- What the sweep takes starts at its position or later. -/
theorem le_of_mem_sweep (position : Nat) (found : List A) (proper : ∀ a ∈ found, start a ≤ stop a)
    (k : A) (inside : k ∈ sweep start stop position found) : k ∈ found ∧ position ≤ start k := by
  induction found generalizing position with
  | nil => exact absurd inside List.not_mem_nil
  | cons a rest ih =>
      rw [List.forall_mem_cons] at proper
      rw [sweep] at inside
      split at inside
      · obtain ⟨member, later⟩ := ih position proper.2 inside
        exact ⟨List.mem_cons_of_mem a member, later⟩
      · rename_i free
        rcases List.mem_cons.mp inside with rfl | others
        · exact ⟨List.mem_cons_self, not_lt.mp free⟩
        · obtain ⟨member, later⟩ := ih (stop a) proper.2 others
          exact ⟨List.mem_cons_of_mem a member, (not_lt.mp free).trans (proper.1.trans later)⟩

theorem sweep_sublist (position : Nat) (found : List A) :
    (sweep start stop position found).Sublist found := by
  induction found generalizing position with
  | nil => exact List.Sublist.refl _
  | cons a rest ih =>
      rw [sweep]
      split
      · exact (ih position).cons a
      · exact (ih (stop a)).cons_cons a

/-- The sweep may start anywhere before the first interval. -/
theorem sweep_eq_of_le (position later : Nat) (found : List A) (before : position ≤ later)
    (behind : ∀ a ∈ found, later ≤ start a) :
    sweep start stop position found = sweep start stop later found := by
  cases found with
  | nil => rfl
  | cons a rest =>
      have own := behind a List.mem_cons_self
      rw [sweep, sweep, if_neg (by omega), if_neg (by omega)]

/-- Intervals before a place and behind it are swept alone. -/
theorem sweep_append (position middle : Nat) (front rest : List A) (start_le : position ≤ middle)
    (within : ∀ a ∈ front, stop a ≤ middle) (behind : ∀ a ∈ rest, middle ≤ start a) :
    sweep start stop position (front ++ rest) =
      sweep start stop position front ++ sweep start stop middle rest := by
  induction front generalizing position with
  | nil => exact sweep_eq_of_le position middle rest start_le behind
  | cons a front ih =>
      rw [List.forall_mem_cons] at within
      rw [List.cons_append, sweep, sweep]
      split
      · exact ih position start_le within.2
      · rw [ih (stop a) within.1 within.2, List.cons_append]

/-- The sweep of intervals that are moved is moved. -/
theorem sweep_map {B : Type} (start' stop' : B → Nat) (move : A → B) (offset : Nat)
    (moved : ∀ a, start' (move a) = offset + start a ∧ stop' (move a) = offset + stop a)
    (position : Nat) (found : List A) :
    sweep start' stop' (offset + position) (found.map move) =
      (sweep start stop position found).map move := by
  induction found generalizing position with
  | nil => rfl
  | cons a rest ih =>
      rw [List.map_cons, sweep, sweep, (moved a).1, (moved a).2]
      by_cases blocked : start a < position
      · rw [if_pos blocked, if_pos (by omega), ih]
      · rw [if_neg blocked, if_neg (by omega), ih, List.map_cons]

theorem apart_sweep (position : Nat) (found : List A) (proper : ∀ a ∈ found, start a ≤ stop a) :
    (sweep start stop position found).Pairwise fun a b => stop a ≤ start b := by
  induction found generalizing position with
  | nil => exact List.Pairwise.nil
  | cons a rest ih =>
      rw [List.forall_mem_cons] at proper
      rw [sweep]
      split
      · exact ih position proper.2
      · apply List.Pairwise.cons _ (ih (stop a) proper.2)
        exact fun b inside => (le_of_mem_sweep (stop a) rest proper.2 b inside).2

theorem ahead_sweep (position : Nat) (found : List A) (sorted : found.Pairwise (Ahead start stop)) (a : A)
    (inside : a ∈ found) : start a < position ∨ ∃ k ∈ sweep start stop position found,
      Ahead start stop k a ∧ (k = a ∨ start a < stop k) := by
  induction found generalizing position with
  | nil => exact absurd inside List.not_mem_nil
  | cons b rest ih =>
      obtain ⟨least, others⟩ := List.pairwise_cons.mp sorted
      rw [sweep]
      split
      · rename_i blocked
        rcases List.mem_cons.mp inside with rfl | later
        · exact Or.inl blocked
        · exact ih position others later
      · right
        rcases List.mem_cons.mp inside with rfl | later
        · exact ⟨a, List.mem_cons_self, Or.inr ⟨rfl, le_rfl⟩, Or.inl rfl⟩
        · rcases ih (stop b) others later with overlaps | ⟨k, taken, ahead⟩
          · exact ⟨b, List.mem_cons_self, least a later, Or.inr overlaps⟩
          · exact ⟨k, List.mem_cons_of_mem b taken, ahead⟩

theorem chosen_sweep (found : List A) (proper : ∀ a ∈ found, start a ≤ stop a)
    (sorted : found.Pairwise (Ahead start stop)) : Chosen start stop found (sweep start stop 0 found) where
  subset k inside := (le_of_mem_sweep 0 found proper k inside).1
  apart := apart_sweep 0 found proper
  ahead a inside := (ahead_sweep 0 found sorted a inside).resolve_left (Nat.not_lt_zero _)

theorem Chosen.of_mem_iff (chosen : Chosen start stop found kept) (other : List A)
    (same : ∀ a, a ∈ other ↔ a ∈ found) : Chosen start stop other kept where
  subset k inside := (same k).mpr (chosen.subset k inside)
  apart := chosen.apart
  ahead a inside := chosen.ahead a ((same a).mp inside)

/-! The intervals that are chosen are those at which the sweep rests. -/

theorem Chosen.disjoint (chosen : Chosen start stop found kept) (a b : A) (first : a ∈ kept)
    (second : b ∈ kept) : a = b ∨ stop a ≤ start b ∨ stop b ≤ start a := by
  apply List.Pairwise.forall_of_forall_of_flip (R := fun a b => a = b ∨ stop a ≤ start b ∨ stop b ≤ start a)
    (fun a _ => Or.inl rfl) ?_ ?_ first second
  · exact chosen.apart.imp fun before => Or.inr (Or.inl before)
  · exact chosen.apart.imp fun before => Or.inr (Or.inr before)

/-- This is the place where the sweep starts, or the end of an interval that it has taken. -/
def Ends (start stop : A → Nat) (kept : List A) (position : Nat) : Prop :=
  position = 0 ∨ ∃ k ∈ kept, start k < stop k ∧ stop k = position

/-- Behind a place where the sweep rests, each interval overlaps one that is chosen there. -/
theorem Chosen.ahead_of_ends (chosen : Chosen start stop found kept) (position : Nat)
    (ends : Ends start stop kept position) (a : A) (inside : a ∈ found) (nonempty : start a < stop a)
    (behind : position ≤ start a) : ∃ k ∈ kept, start k < stop k ∧ position ≤ start k ∧
      Ahead start stop k a ∧ start a < stop k := by
  obtain ⟨k, taken, ahead, overlaps⟩ := chosen.ahead a inside
  have reaches : start a < stop k := by
    rcases overlaps with rfl | overlaps
    · exact nonempty
    · exact overlaps
  have starts : start k ≤ start a := by
    unfold Ahead at ahead
    omega
  refine ⟨k, taken, by omega, ?_, ahead, reaches⟩
  rcases ends with rfl | ⟨last, kept, _, rfl⟩
  · exact Nat.zero_le _
  · rcases chosen.disjoint last k kept taken with rfl | before | after
    · omega
    · exact before
    · omega

/-- An interval that is the first one behind such a place is chosen, or one with its ends is. -/
theorem Chosen.of_first (chosen : Chosen start stop found kept) (position : Nat)
    (ends : Ends start stop kept position) (a : A) (first : First start stop found position a) :
    ∃ k ∈ kept, start k = start a ∧ stop k = stop a := by
  obtain ⟨k, taken, nonempty, behind, ahead, _⟩ :=
    chosen.ahead_of_ends position ends a first.inside first.nonempty first.behind
  have back := first.ahead k (chosen.subset k taken) nonempty behind
  refine ⟨k, taken, ?_⟩
  unfold Ahead at ahead back
  omega

theorem Chosen.ends_of_rests (chosen : Chosen start stop found kept) (position : Nat)
    (rests : Rests start stop found position) : Ends start stop kept position := by
  induction rests with
  | zero => exact Or.inl rfl
  | next position a _ first ih =>
      obtain ⟨k, taken, starts, stops⟩ := chosen.of_first position ih a first
      have nonempty := first.nonempty
      exact Or.inr ⟨k, taken, by omega, stops⟩

/-- An interval that is chosen is the first one behind a place where the sweep rests. -/
theorem Chosen.taken_of_mem (chosen : Chosen start stop found kept) (k : A) (taken : k ∈ kept)
    (nonempty : start k < stop k) : Taken start stop found k := by
  induction size : stop k using Nat.strong_induction_on generalizing k with
  | h _ ih =>
      subst size
      -- The sweep rests behind the last interval that is chosen before this one.
      have last : ∃ position, Rests start stop found position ∧ Ends start stop kept position ∧
          position ≤ start k ∧
          ∀ b ∈ kept, start b < stop b → stop b ≤ start k → stop b ≤ position := by
        by_cases any : ∃ b ∈ kept, start b < stop b ∧ stop b ≤ start k
        · classical
          obtain ⟨b, earlier, most⟩ := (List.toFinset (kept.filter fun b =>
            start b < stop b ∧ stop b ≤ start k)).exists_max_image stop (by
              obtain ⟨b, inside, before⟩ := any
              exact ⟨b, by simpa using ⟨inside, before⟩⟩)
          simp only [List.mem_toFinset, List.mem_filter, decide_eq_true_eq] at earlier most
          obtain ⟨inside, some, before⟩ := earlier
          obtain ⟨position, rests, first⟩ := ih (stop b) (by omega) b inside some rfl
          refine ⟨stop b, .next position b rests first, Or.inr ⟨b, inside, some, rfl⟩, before, ?_⟩
          exact fun c other some' before' => most c ⟨other, some', before'⟩
        · push Not at any
          refine ⟨0, .zero, Or.inl rfl, Nat.zero_le _, fun b inside some before => ?_⟩
          exact absurd before (not_le.mpr (any b inside some))
      obtain ⟨position, rests, ends, behind, most⟩ := last
      refine ⟨position, rests, chosen.subset k taken, nonempty, behind, ?_⟩
      intro b inside some behind'
      obtain ⟨c, taken', nonempty', behind'', ahead, reaches⟩ :=
        chosen.ahead_of_ends position ends b inside some behind'
      rcases chosen.disjoint k c taken taken' with rfl | before | after
      · exact ahead
      · have starts : start c ≤ start b := by
          unfold Ahead at ahead
          omega
        exact Or.inl (by omega)
      · have early := most c taken' nonempty' after
        omega

theorem Chosen.of_taken (chosen : Chosen start stop found kept) (a : A)
    (taken : Taken start stop found a) : ∃ k ∈ kept, start k = start a ∧ stop k = stop a := by
  obtain ⟨position, rests, first⟩ := taken
  exact chosen.of_first position (chosen.ends_of_rests position rests) a first

/-! The intervals that are chosen cover what all of them cover, unless one of these reaches over a place
where no other one starts. -/

theorem Chosen.starts_at_rest (chosen : Chosen start stop found kept) (position : Nat)
    (rests : Rests start stop found position) (b : A) (before : start b < position)
    (covered : Covered start stop kept position) : ∃ a ∈ found, start a = position ∧ position < stop a := by
  obtain ⟨a, taken, holds⟩ := covered
  unfold Holds at holds
  refine ⟨a, chosen.subset a taken, ?_, holds.2⟩
  rcases chosen.ends_of_rests position rests with rfl | ⟨k, taken', nonempty, rfl⟩
  · omega
  · rcases chosen.disjoint k a taken' taken with rfl | behind | ahead
    · omega
    · omega
    · omega

theorem Chosen.covered_from (chosen : Chosen start stop found kept)
    (bridged : ∀ position, Rests start stop found position → ∀ b ∈ found, start b < position →
      position < stop b → ∃ a ∈ found, start a = position ∧ position < stop a)
    (b : A) (inside : b ∈ found) (position : Nat) (holds : Holds start stop b position) (k : A)
    (taken : k ∈ kept) (nonempty : start k < stop k) (starts : start k ≤ position)
    (overlaps : start b < stop k) : Covered start stop kept position := by
  unfold Holds at holds
  induction size : position + 1 - stop k using Nat.strong_induction_on generalizing k with
  | h _ ih =>
      subst size
      by_cases reaches : position < stop k
      · exact ⟨k, taken, starts, reaches⟩
      · obtain ⟨rest, rests, first⟩ := chosen.taken_of_mem k taken nonempty
        obtain ⟨a, inside', starts', reaches'⟩ :=
          bridged (stop k) (.next rest k rests first) b inside overlaps (by omega)
        obtain ⟨c, taken', nonempty', behind, ahead, _⟩ := chosen.ahead_of_ends (stop k)
          (Or.inr ⟨k, taken, nonempty, rfl⟩) a inside' (by omega) (by omega)
        unfold Ahead at ahead
        exact ih (position + 1 - stop c) (by omega) c taken' nonempty' (by omega) (by omega) rfl

theorem Chosen.covered_iff_bridged (chosen : Chosen start stop found kept) :
    (∀ position, Covered start stop found position → Covered start stop kept position) ↔
      ∀ position, Rests start stop found position → ∀ b ∈ found, start b < position →
        position < stop b → ∃ a ∈ found, start a = position ∧ position < stop a := by
  constructor
  · intro covers position rests b inside before after
    exact chosen.starts_at_rest position rests b before (covers position ⟨b, inside, before.le, after⟩)
  · rintro bridged position ⟨b, inside, holds⟩
    obtain ⟨k, taken, ahead, overlaps⟩ := chosen.ahead b inside
    unfold Ahead at ahead
    have position_of_b := holds
    unfold Holds at position_of_b
    have reaches : start b < stop k := by
      rcases overlaps with rfl | overlaps
      · omega
      · exact overlaps
    exact chosen.covered_from bridged b inside position holds k taken (by omega) (by omega) reaches

/-! The gaps lie between neighbours among the intervals that are chosen. -/

/-- This is the place where the sweep rests after it has taken these intervals. -/
def restAfter (stop : A → Nat) (front : List A) : Nat := front.getLast?.elim 0 stop

theorem Chosen.ends_restAfter (chosen : Chosen start stop found kept)
    (nonempty : ∀ a ∈ found, start a < stop a) (front rest : List A) (split : kept = front ++ rest) :
    Ends start stop kept (restAfter stop front) := by
  rcases List.eq_nil_or_concat front with rfl | ⟨earlier, last, rfl⟩
  · exact Or.inl rfl
  · have taken : last ∈ kept := by simp [split]
    refine Or.inr ⟨last, taken, nonempty last (chosen.subset last taken), ?_⟩
    simp [restAfter]

theorem Chosen.rests_restAfter (chosen : Chosen start stop found kept)
    (nonempty : ∀ a ∈ found, start a < stop a) (front rest : List A) (split : kept = front ++ rest) :
    Rests start stop found (restAfter stop front) := by
  rcases List.eq_nil_or_concat front with rfl | ⟨earlier, last, rfl⟩
  · exact .zero
  · have taken : last ∈ kept := by simp [split]
    obtain ⟨position, rests, first⟩ :=
      chosen.taken_of_mem last taken (nonempty last (chosen.subset last taken))
    have ends := Rests.next position last rests first
    simpa [restAfter] using ends

theorem Chosen.split_of_rests (chosen : Chosen start stop found kept) (position : Nat)
    (rests : Rests start stop found position) :
    ∃ front rest, kept = front ++ rest ∧ restAfter stop front = position := by
  rcases chosen.ends_of_rests position rests with rfl | ⟨k, taken, _, rfl⟩
  · exact ⟨[], kept, rfl, rfl⟩
  · obtain ⟨earlier, rest, split⟩ := List.append_of_mem taken
    refine ⟨earlier ++ [k], rest, ?_, ?_⟩
    · rw [split, List.append_assoc]
      rfl
    · simp [restAfter]

/-- Nothing that starts behind the rest was taken before. -/
theorem Chosen.mem_rest (chosen : Chosen start stop found kept)
    (nonempty : ∀ a ∈ found, start a < stop a) (front rest : List A) (split : kept = front ++ rest)
    (k : A) (taken : k ∈ kept) (behind : restAfter stop front ≤ start k) : k ∈ rest := by
  rw [split, List.mem_append] at taken
  refine taken.resolve_left fun early => ?_
  rcases List.eq_nil_or_concat front with rfl | ⟨earlier, last, rfl⟩
  · exact absurd early List.not_mem_nil
  · have apart := chosen.apart
    rw [split, List.concat_eq_append] at apart
    simp only [restAfter, List.concat_eq_append, List.getLast?_concat, Option.elim_some] at behind
    rw [List.concat_eq_append] at early split
    have some (a : A) (member : a ∈ earlier ++ [last]) : start a < stop a := by
      apply nonempty a (chosen.subset a _)
      rw [split]
      exact List.mem_append_left rest member
    have own := some k early
    have final := some last (by simp)
    rcases List.mem_append.mp early with before | same
    · have earlier' := (List.pairwise_append.mp (List.pairwise_append.mp apart).1).2.2 k before last (by simp)
      omega
    · rw [List.mem_singleton.mp same] at behind own
      omega

theorem Chosen.restAfter_le (chosen : Chosen start stop found kept) (front rest : List A) (k : A)
    (split : kept = front ++ k :: rest) : restAfter stop front ≤ start k := by
  rcases List.eq_nil_or_concat front with rfl | ⟨earlier, last, rfl⟩
  · exact Nat.zero_le _
  · have apart := chosen.apart
    rw [split, List.concat_eq_append] at apart
    simpa [restAfter] using (List.pairwise_append.mp apart).2.2 last (by simp) k (by simp)

theorem Chosen.gap_of_split (chosen : Chosen start stop found kept)
    (nonempty : ∀ a ∈ found, start a < stop a) (length : Nat) (within : ∀ a ∈ found, stop a ≤ length)
    (front rest : List A) (split : kept = front ++ rest) :
    Gap start stop found length (restAfter stop front) (rest.head?.elim length start) := by
  have ends := chosen.ends_restAfter nonempty front rest split
  -- The next interval that is taken is ahead of all that start behind the rest.
  have later (a : A) (inside : a ∈ found) (behind : restAfter stop front ≤ start a) :
      ∃ k ∈ rest, start k ≤ start a := by
    obtain ⟨k, taken, _, behind', ahead, _⟩ :=
      chosen.ahead_of_ends _ ends a inside (nonempty a inside) behind
    refine ⟨k, chosen.mem_rest nonempty front rest split k taken behind', ?_⟩
    unfold Ahead at ahead
    omega
  cases rest with
  | nil =>
      refine ⟨chosen.rests_restAfter nonempty front [] split, ?_, fun a inside behind => ?_, Or.inl rfl⟩
      · rcases ends with zero | ⟨k, taken, _, same⟩
        · exact zero ▸ Nat.zero_le length
        · exact same ▸ within k (chosen.subset k taken)
      · obtain ⟨k, impossible, _⟩ := later a inside behind
        exact absurd impossible List.not_mem_nil
  | cons m rest =>
      have taken : m ∈ kept := by simp [split]
      refine ⟨chosen.rests_restAfter nonempty front (m :: rest) split,
        chosen.restAfter_le front rest m split, fun a inside behind => ?_,
        Or.inr ⟨m, chosen.subset m taken, rfl⟩⟩
      obtain ⟨k, member, starts⟩ := later a inside behind
      rcases List.mem_cons.mp member with rfl | after
      · exact starts
      · have apart := chosen.apart
        rw [split] at apart
        have order := (List.pairwise_cons.mp (List.pairwise_append.mp apart).2.1).1 k after
        exact ((nonempty m (chosen.subset m taken)).le.trans order).trans starts

theorem Chosen.split_of_gap (chosen : Chosen start stop found kept)
    (nonempty : ∀ a ∈ found, start a < stop a) (length : Nat) (within : ∀ a ∈ found, stop a ≤ length)
    (first last : Nat) (gap : Gap start stop found length first last) :
    ∃ front rest, kept = front ++ rest ∧ first = restAfter stop front ∧
      last = rest.head?.elim length start := by
  obtain ⟨front, rest, split, rfl⟩ := chosen.split_of_rests first gap.rests
  refine ⟨front, rest, split, rfl, ?_⟩
  have own := chosen.gap_of_split nonempty length within front rest split
  -- Two gaps behind one place end at one place.
  rcases gap.closed with rfl | ⟨a, inside, rfl⟩
  · rcases own.closed with ends | ⟨b, inside, starts⟩
    · exact ends.symm
    · have behind := gap.free b inside (starts ▸ own.ordered)
      have some := nonempty b inside
      have bound := within b inside
      omega
  · have least := own.free a inside gap.ordered
    rcases own.closed with ends | ⟨b, inside', starts⟩
    · have some := nonempty a inside
      have bound := within a inside
      omega
    · have behind := gap.free b inside' (starts ▸ own.ordered)
      omega

end Kortex.Sweep
