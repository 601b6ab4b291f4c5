import Mathlib.Tactic

/-
This file is about a worker that takes the first entries of a queue in each round and leaves those that fail.
-/

namespace Kortex.Rounds

/-- An entry is done, or it stays, or it stays and ends the round. -/
inductive Verdict where
  | done
  | skip
  | abort
deriving DecidableEq

variable {A : Type} (verdict : A → Verdict) (limit : Nat)

/-- These are the entries that a round gets done. -/
def work : List A → List A
  | [] => []
  | a :: rest =>
      match verdict a with
      | .done => a :: work rest
      | .skip => work rest
      | .abort => []

/-- What is done leaves the queue. -/
def round [DecidableEq A] (queue : List A) : List A :=
  queue.filter fun a => a ∉ work verdict (queue.take limit)

/-- An entry is not reached behind one that ends the round, or behind as many as a round takes that stay. -/
def Stuck (front : List A) : Prop :=
  (∃ a ∈ front, verdict a = .abort) ∨ limit ≤ front.countP fun a => verdict a = .skip

variable {verdict limit}

theorem mem_work (queue : List A) (a : A) (inside : a ∈ work verdict queue) :
    a ∈ queue ∧ verdict a = .done := by
  induction queue with
  | nil => exact absurd inside List.not_mem_nil
  | cons b rest ih =>
      rw [work] at inside
      cases own : verdict b with
      | done =>
          rw [own] at inside
          rcases List.mem_cons.mp inside with rfl | later
          · exact ⟨List.mem_cons_self, own⟩
          · exact ⟨List.mem_cons_of_mem b (ih later).1, (ih later).2⟩
      | skip =>
          rw [own] at inside
          exact ⟨List.mem_cons_of_mem b (ih inside).1, (ih inside).2⟩
      | abort =>
          rw [own] at inside
          exact absurd inside List.not_mem_nil

/-- A round that does not end in the front works on what is behind it. -/
theorem work_append (front rest : List A) (free : ∀ a ∈ front, verdict a ≠ .abort) :
    work verdict (front ++ rest) = front.filter (fun a => verdict a = .done) ++ work verdict rest := by
  induction front with
  | nil => rfl
  | cons a front ih =>
      rw [List.forall_mem_cons] at free
      rw [List.cons_append, work, ih free.2]
      cases own : verdict a with
      | done => rw [List.filter_cons_of_pos (by simp [own]), List.cons_append]
      | skip => rw [List.filter_cons_of_neg (by simp [own])]
      | abort => exact absurd own free.1

theorem work_abort (front rest : List A) (a : A) (inside : a ∈ front) (ends : verdict a = .abort) :
    work verdict (front ++ rest) = work verdict front := by
  induction front with
  | nil => exact absurd inside List.not_mem_nil
  | cons b front ih =>
      rw [List.cons_append, work, work]
      cases own : verdict b with
      | abort => rfl
      | done =>
          rcases List.mem_cons.mp inside with rfl | later
          · exact absurd ends (by simp [own])
          · rw [ih later]
      | skip =>
          rcases List.mem_cons.mp inside with rfl | later
          · exact absurd ends (by simp [own])
          · rw [ih later]

theorem Stuck.notMem_work {front : List A} (stuck : Stuck verdict limit front) (c : A) (back : List A)
    (fresh : c ∉ front) : c ∉ work verdict ((front ++ c :: back).take limit) := by
  intro inside
  rw [List.take_append] at inside
  by_cases reached : front.length < limit
  · rcases stuck with ⟨a, before, ends⟩ | many
    · rw [List.take_of_length_le reached.le, work_abort _ _ a before ends] at inside
      exact fresh (mem_work _ c inside).1
    · have short := List.countP_le_length (p := fun a => decide (verdict a = .skip)) (l := front)
      omega
  · rw [Nat.sub_eq_zero_of_le (not_lt.mp reached), List.take_zero, List.append_nil] at inside
    exact fresh (List.mem_of_mem_take (mem_work _ c inside).1)

theorem kept_of_not_done (queue : List A) (a : A) (other : verdict a ≠ .done) :
    a ∉ work verdict (queue.take limit) :=
  fun inside => other (mem_work _ a inside).2

section Queue

variable [DecidableEq A]

theorem round_subset (queue : List A) : round verdict limit queue ⊆ queue :=
  (List.filter_sublist).subset

theorem iterate_subset (n : Nat) (queue : List A) : (round verdict limit)^[n] queue ⊆ queue := by
  induction n generalizing queue with
  | zero => exact List.Subset.refl _
  | succ n ih => exact fun a inside => round_subset queue (ih _ inside)

theorem nodup_round (queue : List A) (nodup : queue.Nodup) : (round verdict limit queue).Nodup :=
  nodup.sublist List.filter_sublist

theorem countP_skip_round (queue front : List A) :
    (front.filter fun a => a ∉ work verdict (queue.take limit)).countP (fun a => verdict a = .skip) =
      front.countP fun a => verdict a = .skip := by
  rw [List.countP_filter]
  apply List.countP_congr
  intro a _
  simp only [decide_eq_true_eq, Bool.and_eq_true]
  exact ⟨fun both => both.1, fun skip => ⟨skip, kept_of_not_done queue a (by simp [skip])⟩⟩

/-- A front is as stuck after a round as before it. -/
theorem stuck_round (queue front : List A) : Stuck verdict limit
    (front.filter fun a => a ∉ work verdict (queue.take limit)) ↔ Stuck verdict limit front := by
  rw [Stuck, Stuck, countP_skip_round]
  apply or_congr_left
  constructor
  · rintro ⟨a, inside, ends⟩
    exact ⟨a, List.mem_of_mem_filter inside, ends⟩
  · rintro ⟨a, inside, ends⟩
    have other : verdict a ≠ .done := by simp [ends]
    have kept : a ∉ work verdict (queue.take limit) := kept_of_not_done queue a other
    exact ⟨a, List.mem_filter.mpr ⟨inside, decide_eq_true kept⟩, ends⟩

theorem round_split (front back : List A) (c : A)
    (stays : c ∉ work verdict ((front ++ c :: back).take limit)) :
    round verdict limit (front ++ c :: back) =
      (front.filter fun a => a ∉ work verdict ((front ++ c :: back).take limit)) ++
        c :: back.filter fun a => a ∉ work verdict ((front ++ c :: back).take limit) := by
  rw [round, List.filter_append, List.filter_cons_of_pos (by simpa using stays)]

/-- Behind a stuck front an entry stays for ever. -/
theorem Stuck.stays {front back : List A} {c : A} (stuck : Stuck verdict limit front)
    (nodup : (front ++ c :: back).Nodup) (n : Nat) :
    c ∈ (round verdict limit)^[n] (front ++ c :: back) := by
  induction n generalizing front back with
  | zero => exact List.mem_append_right _ List.mem_cons_self
  | succ n ih =>
      have fresh : c ∉ front := fun inside =>
        (List.nodup_append.mp nodup).2.2 c inside c List.mem_cons_self rfl
      have after := round_split front back c (stuck.notMem_work c back fresh)
      rw [Function.iterate_succ_apply, after]
      apply ih ((stuck_round _ _).mpr stuck)
      rw [← after]
      exact nodup_round _ nodup

/-- An entry that is not reached has as many done before it as a round takes without those that stay. -/
theorem done_of_unreached (front back : List A) (c : A) (good : verdict c = .done)
    (free : ¬ Stuck verdict limit front)
    (stays : c ∉ work verdict ((front ++ c :: back).take limit)) :
    (front.filter fun a => a ∉ work verdict ((front ++ c :: back).take limit)).countP
        (fun a => verdict a = .done) + (limit - front.countP fun a => verdict a = .skip) ≤
      front.countP fun a => verdict a = .done := by
  rw [Stuck, not_or, not_exists] at free
  have open' : ∀ a ∈ front, verdict a ≠ .abort := fun a inside ends => free.1 a ⟨inside, ends⟩
  by_cases reached : front.length < limit
  · have taken : c ∈ work verdict ((front ++ c :: back).take limit) := by
      obtain ⟨room, size⟩ := Nat.exists_eq_add_of_lt reached
      have more : limit - front.length = room + 1 := by omega
      rw [List.take_append, List.take_of_length_le reached.le, more, List.take_succ_cons,
        work_append _ _ open', work, good]
      exact List.mem_append_right _ List.mem_cons_self
    exact absurd taken stays
  · have window : (front ++ c :: back).take limit = front.take limit :=
      List.take_append_of_le_length (not_lt.mp reached)
    rw [window]
    have worked : work verdict (front.take limit) =
        (front.take limit).filter fun a => verdict a = .done := by
      have whole := work_append (front.take limit) [] fun a inside => open' a (List.mem_of_mem_take inside)
      rwa [work, List.append_nil, List.append_nil] at whole
    -- In the window every entry is done or stays, and what is done there goes.
    have gone : ((front.take limit).filter fun a => a ∉ work verdict (front.take limit)).countP
        (fun a => verdict a = .done) = 0 := by
      rw [List.countP_eq_zero]
      intro a inside done
      obtain ⟨member, absent⟩ := List.mem_filter.mp inside
      rw [worked] at absent
      exact of_decide_eq_true absent (List.mem_filter.mpr ⟨member, done⟩)
    have rest : ((front.drop limit).filter fun a => a ∉ work verdict (front.take limit)).countP
        (fun a => verdict a = .done) ≤ (front.drop limit).countP fun a => verdict a = .done :=
      List.filter_sublist.countP_le
    have all := List.length_eq_countP_add_countP (fun a => decide (verdict a = .done))
      (l := front.take limit)
    have others : (front.take limit).countP (fun a => ¬ decide (verdict a = .done) = true) ≤
        front.countP fun a => verdict a = .skip := by
      refine le_trans ?_ (List.take_sublist limit front).countP_le
      apply List.countP_mono_left
      intro a inside other
      have ends := open' a (List.mem_of_mem_take inside)
      simp only [decide_eq_true_eq] at other ⊢
      cases own : verdict a with
      | done => exact absurd own other
      | skip => rfl
      | abort => exact absurd own ends
    have parts (P : A → Bool) : front.countP P = (front.take limit).countP P +
        (front.drop limit).countP P := by
      rw [← List.countP_append, List.take_append_drop]
    have split : front.filter (fun a => a ∉ work verdict (front.take limit)) =
        (front.take limit).filter (fun a => a ∉ work verdict (front.take limit)) ++
          (front.drop limit).filter fun a => a ∉ work verdict (front.take limit) := by
      rw [← List.filter_append, List.take_append_drop]
    rw [split, List.countP_append, gone, parts fun a => decide (verdict a = .done)]
    rw [List.length_take, Nat.min_eq_left (not_lt.mp reached)] at all
    omega

/-- An entry is done after so many rounds, unless its front is stuck. -/
theorem removed (m : Nat) (front back : List A) (c : A) (good : verdict c = .done)
    (free : ¬ Stuck verdict limit front) (nodup : (front ++ c :: back).Nodup)
    (enough : front.countP (fun a => verdict a = .done) <
      m * (limit - front.countP fun a => verdict a = .skip)) :
    c ∉ (round verdict limit)^[m] (front ++ c :: back) := by
  induction m generalizing front back with
  | zero => exact absurd enough (by simp)
  | succ m ih =>
      rw [Function.iterate_succ_apply]
      by_cases stays : c ∈ work verdict ((front ++ c :: back).take limit)
      · have gone : c ∉ round verdict limit (front ++ c :: back) := by
          intro inside
          exact of_decide_eq_true (List.mem_filter.mp inside).2 stays
        exact fun inside => gone (iterate_subset m _ inside)
      · have after := round_split front back c stays
        have fewer := done_of_unreached front back c good free stays
        have same := @stuck_round A verdict limit _ (front ++ c :: back) front
        have nodup' := @nodup_round A verdict limit _ _ nodup
        rw [after] at nodup' ⊢
        apply ih _ _ (mt same.mp free) nodup'
        rw [countP_skip_round]
        rw [Nat.succ_mul] at enough
        omega

/-- An entry leaves the queue at some time exactly when its front is not stuck. -/
theorem exists_removed_iff (front back : List A) (c : A) (good : verdict c = .done)
    (nodup : (front ++ c :: back).Nodup) :
    (∃ n, c ∉ (round verdict limit)^[n] (front ++ c :: back)) ↔ ¬ Stuck verdict limit front := by
  constructor
  · rintro ⟨n, gone⟩ stuck
    exact gone (stuck.stays nodup n)
  · intro free
    have room : 0 < limit - front.countP fun a => verdict a = .skip := by
      rw [Stuck, not_or, not_le] at free
      exact Nat.sub_pos_of_lt free.2
    refine ⟨front.countP (fun a => verdict a = .done) + 1, removed _ front back c good free nodup ?_⟩
    exact Nat.lt_of_lt_of_le (Nat.lt_succ_self _) (Nat.le_mul_of_pos_right _ room)

end Queue

end Kortex.Rounds
