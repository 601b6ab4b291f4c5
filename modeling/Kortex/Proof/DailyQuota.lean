import Kortex.Library.Run
import Kortex.Library.Sorted
import Kortex.Library.Split
import Kortex.Model.DailyQuota

/-
This file proves which calls the daily quota grants, in every order of their commands.
-/

namespace Kortex.DailyQuota

theorem colon_notMem_ofNat (n : Nat) : ':' ∉ Str.ofNat n := by
  intro inside
  exact absurd (Json.isDigit_of_mem_ofNat n ':' inside) (by decide)

theorem colon_notMem_padZero (width : Nat) (n : Int) : ':' ∉ Instant.padZero width n := by
  intro inside
  rcases List.mem_append.mp inside with front | back
  · exact absurd (List.eq_of_mem_replicate front) (by decide)
  · cases n with
    | ofNat n => exact colon_notMem_ofNat n back
    | negSucc n =>
        rcases List.mem_cons.mp back with first | later
        · exact absurd first (by decide)
        · exact colon_notMem_ofNat _ later

theorem colon_notMem_compactDate (now : Instant) : ':' ∉ now.compactDate := by
  unfold Instant.compactDate
  simp only [List.mem_append, not_or]
  exact ⟨⟨colon_notMem_padZero _ _, colon_notMem_padZero _ _⟩, colon_notMem_padZero _ _⟩

/-- This is the day of a time. -/
def dayOf (now : Instant) : Int := now / 86400000000

/-- A key says which bucket, which org and which day it is for, whatever the bucket is called. -/
theorem key_inj {bucket bucket' : Str} {orgId orgId' : Nat} {now now' : Instant} :
    key bucket orgId now = key bucket' orgId' now' ↔
      bucket = bucket' ∧ orgId = orgId' ∧ dayOf now = dayOf now' := by
  constructor
  · intro same
    obtain ⟨front, day⟩ := Split.append_separator_inj (colon_notMem_compactDate now)
      (colon_notMem_compactDate now') same
    obtain ⟨front, org⟩ := Split.append_separator_inj (colon_notMem_ofNat orgId)
      (colon_notMem_ofNat orgId') front
    exact ⟨List.append_cancel_left front, Json.ofNat_injective org, Instant.compactDate_inj.mp day⟩
  · rintro ⟨rfl, rfl, day⟩
    exact congrArg (fun date => "quota:".toList ++ bucket ++ ':' :: Str.ofNat orgId ++ ':' :: date)
      (Instant.compactDate_inj.mpr day)

/-- The call waits for its INCR. -/
def Phase.waits : Phase → Bool
  | .increments => true
  | _ => false

/-- This is what the INCR of a call gave it. -/
def Phase.count : Phase → Option Nat
  | .increments => none
  | .expires count => some count
  | .returned _ count => count

/-- These are the calls of a key that are past their INCR. -/
def asked (s : State) (key : Str) : List Call :=
  s.calls.filter fun c => c.key == key && decide (0 < c.check.limit) && !c.phase.waits

/-- These are the counts that the calls of a key were given. -/
def countsOf (s : State) (key : Str) : List Nat :=
  s.calls.filterMap fun c => if c.key = key then c.phase.count else none

section Changes

variable {s : State} {index : Nat} {c : Call} {phase : Phase}

theorem calls_split (found : s.calls[index]? = some c) : ∃ front back, s.calls = front ++ c :: back ∧
    (s.setPhase index c phase).calls = front ++ { c with phase := phase } :: back := by
  obtain ⟨small, here⟩ := List.getElem?_eq_some_iff.mp found
  refine ⟨s.calls.take index, s.calls.drop (index + 1), ?_, ?_⟩
  · rw [← here, List.getElem_cons_drop, List.take_append_drop]
  · exact List.set_eq_take_append_cons_drop .. |>.trans (if_pos small)

/-- A call that has waited joins those that are past their INCR. -/
theorem length_asked_setPhase (found : s.calls[index]? = some c) (settled : phase.waits = false)
    (key : Str) : (asked (s.setPhase index c phase) key).length =
      (asked s key).length + if c.key = key ∧ 0 < c.check.limit ∧ c.phase.waits = true then 1 else 0 := by
  obtain ⟨front, back, before, after⟩ := @calls_split s index c phase found
  have own : ({ c with phase := phase } : Call).key = c.key := rfl
  rw [asked, asked, after, before]
  simp only [List.filter_append, List.filter_cons, List.length_append, own, settled, Bool.not_false,
    Bool.and_true]
  by_cases same : c.key = key
  · by_cases positive : 0 < c.check.limit
    · cases c.phase.waits with
      | false => simp [same, positive]
      | true =>
          simp [same, positive]
          omega
    · simp [same, positive]
  · simp [same]

theorem countsOf_setPhase (found : s.calls[index]? = some c) (key : Str) : ∃ front back,
    countsOf s key = front ++ (if c.key = key then c.phase.count.toList else []) ++ back ∧
      countsOf (s.setPhase index c phase) key =
        front ++ (if c.key = key then phase.count.toList else []) ++ back := by
  obtain ⟨front, back, before, after⟩ := @calls_split s index c phase found
  have own : ({ c with phase := phase } : Call).key = c.key := rfl
  refine ⟨front.filterMap fun c => if c.key = key then c.phase.count else none,
    back.filterMap fun c => if c.key = key then c.phase.count else none, ?_, ?_⟩
  · rw [countsOf, before, List.filterMap_append, List.filterMap_cons, List.append_assoc]
    by_cases same : c.key = key
    · cases c.phase.count <;> simp [same]
    · simp [same]
  · rw [countsOf, after, List.filterMap_append, List.filterMap_cons, List.append_assoc]
    simp only [own]
    by_cases same : c.key = key
    · cases phase.count <;> simp [same]
    · simp [same]

theorem mem_setPhase (found : s.calls[index]? = some c) (other : Call)
    (inside : other ∈ (s.setPhase index c phase).calls) :
    other ∈ s.calls ∨ other = { c with phase := phase } := by
  obtain ⟨front, back, before, after⟩ := @calls_split s index c phase found
  rw [after] at inside
  rw [before]
  simp only [List.mem_append, List.mem_cons] at inside ⊢
  rcases inside with inside | inside | inside
  · exact Or.inl (Or.inl inside)
  · exact Or.inr inside
  · exact Or.inl (Or.inr (Or.inr inside))

end Changes

/-- A call that waits has a limit, a call that was given a count over its limit is refused, and any other
call is granted. -/
def Call.Fair (c : Call) : Prop :=
  match c.phase with
  | .increments => 0 < c.check.limit
  | .expires count => count = 1 ∧ 0 < c.check.limit
  | .returned true none => True
  | .returned true (some count) => 0 < count ∧ (count : Int) ≤ c.check.limit
  | .returned false none => False
  | .returned false (some count) => c.check.limit < count

theorem fair_counted (c : Call) (positive : 0 < c.check.limit) (count : Nat) (some : 0 < count) :
    ({ c with phase := State.counted c.check.limit count } : Call).Fair := by
  unfold State.counted
  by_cases one : count = 1
  · rw [if_pos one]
    exact ⟨one, positive⟩
  · rw [if_neg one]
    by_cases within : (count : Int) ≤ c.check.limit
    · rw [decide_eq_true within]
      exact ⟨some, within⟩
    · rw [decide_eq_false within]
      exact not_le.mp within

/-- A counter has no more than the calls that are past their INCR, and no call was given more. -/
structure Justified (s : State) : Prop where
  value : ∀ key counter, s.counters key = some counter → counter.value ≤ (asked s key).length
  count : ∀ c ∈ s.calls, ∀ n, c.phase.count = some n → n ≤ (asked s c.key).length
  fair : ∀ c ∈ s.calls, c.Fair

namespace Justified

variable {s : State} {index : Nat} {c : Call} {phase : Phase}

theorem grows (found : s.calls[index]? = some c) (settled : phase.waits = false) (key : Str) :
    (asked s key).length ≤ (asked (s.setPhase index c phase) key).length := by
  rw [length_asked_setPhase found settled]
  exact Nat.le_add_right _ _

theorem setPhase (justified : Justified s) (found : s.calls[index]? = some c)
    (settled : phase.waits = false)
    (counted : ∀ n, phase.count = some n → n ≤ (asked (s.setPhase index c phase) c.key).length)
    (fair : ({ c with phase := phase } : Call).Fair) : Justified (s.setPhase index c phase) where
  value key counter present :=
    (justified.value key counter present).trans (grows found settled key)
  count other inside n given := by
    rcases mem_setPhase found other inside with before | rfl
    · exact (justified.count other before n given).trans (grows found settled _)
    · exact counted n given
  fair other inside := by
    rcases mem_setPhase found other inside with before | rfl
    · exact justified.fair other before
    · exact fair

theorem setCounter (justified : Justified s) (key : Str) (counter : Option Counter)
    (few : ∀ new ∈ counter, new.value ≤ (asked s key).length) : Justified (s.setCounter key counter) where
  value key' new present := by
    change Function.update s.counters key counter key' = some new at present
    rw [Function.update_apply] at present
    split at present
    · next same =>
        subst same
        exact few new present
    · exact justified.value key' new present
  count := justified.count
  fair := justified.fair

theorem lookup_le (justified : Justified s) (key : Str) (counter : Counter)
    (found : s.lookup key = some counter) : counter.value ≤ (asked s key).length :=
  justified.value key counter (Option.filter_eq_some_iff.mp found).1

theorem increment_le (justified : Justified s) (key : Str) :
    0 < (s.increment key).value ∧ (s.increment key).value ≤ (asked s key).length + 1 := by
  rw [State.increment]
  split
  · exact ⟨Nat.one_pos, Nat.le_add_left 1 _⟩
  · next counter found => exact ⟨Nat.succ_pos _, Nat.succ_le_succ (justified.lookup_le key counter found)⟩

theorem withExpiry (justified : Justified s) (key : Str) : Justified (s.withExpiry key) := by
  apply justified.setCounter
  intro new made
  obtain ⟨counter, found, rfl⟩ := Option.map_eq_some_iff.mp made
  exact justified.lookup_le key counter found

theorem incr (justified : Justified s) (found : s.calls[index]? = some c)
    (waiting : c.phase = .increments) (reply : Reply) : Justified (s.incr index c reply) := by
  have positive : 0 < c.check.limit := by
    have fair := justified.fair c (List.mem_of_getElem? found)
    rw [Call.Fair, waiting] at fair
    exact fair
  obtain ⟨some, few⟩ := justified.increment_le c.key
  -- The counter may count this call, since it is past its INCR now.
  have room (phase : Phase) (settled : phase.waits = false) : (s.increment c.key).value ≤
      (asked (s.setPhase index c phase) c.key).length := by
    rw [length_asked_setPhase found settled, if_pos ⟨rfl, positive, by rw [waiting]; rfl⟩]
    exact few
  have lost : Justified (s.setPhase index c (.returned true none)) :=
    justified.setPhase found rfl (by simp [Phase.count]) trivial
  cases reply with
  | answered =>
      have settled : (State.counted c.check.limit (s.increment c.key).value).waits = false := by
        rw [State.counted]
        split <;> rfl
      refine (justified.setPhase found settled ?_ (fair_counted c positive _ some)).setCounter c.key _ ?_
      · intro n given
        have same : (s.increment c.key).value = n := by
          rw [State.counted] at given
          split at given <;> exact Option.some.inj given
        exact same ▸ room _ settled
      · intro new made
        exact Option.some.inj made ▸ room _ settled
  | lost =>
      refine lost.setCounter c.key _ ?_
      intro new made
      exact Option.some.inj made ▸ room _ rfl
  | unreached => exact lost

theorem expire {count : Nat} (justified : Justified s) (found : s.calls[index]? = some c)
    (pending : c.phase = .expires count) (reply : Reply) : Justified (s.expire index c count reply) := by
  obtain ⟨rfl, positive⟩ : count = 1 ∧ 0 < c.check.limit := by
    have fair := justified.fair c (List.mem_of_getElem? found)
    rw [Call.Fair, pending] at fair
    exact fair
  have counted (within : Bool) (n : Nat) (given : (Phase.returned within (some 1)).count = some n) :
      n ≤ (asked (s.setPhase index c (.returned within (some 1))) c.key).length := by
    refine (justified.count c (List.mem_of_getElem? found) n ?_).trans (grows found rfl c.key)
    rw [pending]
    exact given
  -- One is within every limit, so a failure of EXPIRE changes no answer.
  have fair : ({ c with phase := .returned true (some 1) } : Call).Fair := ⟨Nat.one_pos, positive⟩
  cases reply with
  | answered =>
      have within : decide (((1 : Nat) : Int) ≤ c.check.limit) = true := decide_eq_true positive
      rw [State.expire, within]
      exact (justified.withExpiry c.key).setPhase found rfl (counted true) fair
  | lost => exact (justified.withExpiry c.key).setPhase found rfl (counted true) fair
  | unreached => exact justified.setPhase found rfl (counted true) fair

theorem begin_ (justified : Justified s) (check : Check) (now : Instant) (client : Bool) :
    Justified (s.begin_ check now client) := by
  have grows (key : Str) : (asked s key).length ≤ (asked (s.begin_ check now client) key).length := by
    rw [asked, asked, State.begin_, List.filter_append, List.length_append]
    exact Nat.le_add_right _ _
  refine ⟨?_, ?_, ?_⟩
  · intro key counter present
    exact (justified.value key counter present).trans (grows key)
  · intro c inside n given
    rcases List.mem_append.mp inside with before | last
    · exact (justified.count c before n given).trans (grows c.key)
    · rw [List.mem_singleton.mp last] at given
      dsimp only at given
      split at given <;> cases given
  · intro c inside
    rcases List.mem_append.mp inside with before | last
    · exact justified.fair c before
    · rw [List.mem_singleton.mp last]
      by_cases limited : check.limit ≤ 0 ∨ client = false
      · rw [if_pos limited]
        trivial
      · rw [if_neg limited]
        exact not_le.mp fun none => limited (Or.inl none)

theorem step (justified : Justified s) (event : Event) : Justified (step s event) := by
  cases event with
  | elapse duration => exact ⟨justified.value, justified.count, justified.fair⟩
  | call check now client => exact justified.begin_ check now client
  | incr index reply =>
      rw [DailyQuota.step]
      split
      · next found => exact justified.incr found rfl reply
      · exact justified
  | expire index reply =>
      rw [DailyQuota.step]
      split
      · next found => exact justified.expire found rfl reply
      · exact justified

end Justified

/-- This is when the day of a time begins. -/
def dayStart (now : Instant) : Int := dayOf now * 86400000000

/-- While the counter of a key lasts, it has at least each count that it has given, and gives each of them
once. -/
structure Lasting (key : Str) (start : Int) (s : State) : Prop where
  nodup : (countsOf s key).Nodup
  value : s.time < start + dayAndSlack → ∀ n ∈ countsOf s key, ∃ counter,
    s.counters key = some counter ∧ n ≤ counter.value
  lasts : ∀ counter, s.counters key = some counter →
    start ≤ s.time ∧ ∀ expiresAt ∈ counter.expiresAt, start + dayAndSlack ≤ expiresAt

namespace Lasting

variable {key : Str} {start : Int} {s : State} {index : Nat} {c : Call} {phase : Phase}

/-- A counter that lasts is still there. -/
theorem lookup_eq (lasting : Lasting key start s) (early : s.time < start + dayAndSlack) :
    s.lookup key = s.counters key := by
  rw [State.lookup]
  cases present : s.counters key with
  | none => rfl
  | some counter =>
      rw [Option.filter_some, if_pos]
      rw [Option.all_eq_true]
      intro expiresAt own
      exact decide_eq_true (early.trans_le ((lasting.lasts counter present).2 expiresAt own))

theorem countsOf_of_same (found : s.calls[index]? = some c)
    (same : c.key = key → phase.count = c.phase.count) :
    countsOf (s.setPhase index c phase) key = countsOf s key := by
  obtain ⟨front, back, before, after⟩ := @countsOf_setPhase s index c phase found key
  rw [before, after]
  by_cases own : c.key = key
  · rw [same own]
  · rw [if_neg own, if_neg own]

/-- Where no count of the key is new, the calls do not matter. -/
theorem of_same {s' : State} (lasting : Lasting key start s) (counts : countsOf s' key = countsOf s key)
    (time : s.time ≤ s'.time) (counters : s'.counters key = s.counters key) : Lasting key start s' where
  nodup := counts ▸ lasting.nodup
  value early n given := by
    rw [counters]
    exact lasting.value (time.trans_lt early) n (counts ▸ given)
  lasts counter present := by
    obtain ⟨begun, late⟩ := lasting.lasts counter (counters ▸ present)
    exact ⟨begun.trans time, late⟩

theorem increment (lasting : Lasting key start s) (early : s.time < start + dayAndSlack) :
    (∀ n ∈ countsOf s key, n < (s.increment key).value) ∧
      ∀ expiresAt ∈ (s.increment key).expiresAt, start + dayAndSlack ≤ expiresAt := by
  rw [State.increment, lasting.lookup_eq early]
  cases present : s.counters key with
  | none =>
      refine ⟨?_, by simp⟩
      intro n given
      obtain ⟨counter, here, _⟩ := lasting.value early n given
      rw [present] at here
      cases here
  | some counter =>
      refine ⟨?_, (lasting.lasts counter present).2⟩
      intro n given
      obtain ⟨counter', here, most⟩ := lasting.value early n given
      obtain rfl := Option.some.inj (present.symm.trans here)
      exact Nat.lt_succ_of_le most

/-- INCR gives the calls of the key a count that none of them has. -/
theorem incremented {s' : State} (lasting : Lasting key start s) (begun : start ≤ s.time)
    (early : s.time < start + dayAndSlack) (time : s'.time = s.time)
    (counters : s'.counters key = some (s.increment key))
    (counts : countsOf s' key = countsOf s key ∨ ∃ front back, countsOf s key = front ++ back ∧
      countsOf s' key = front ++ (s.increment key).value :: back) : Lasting key start s' := by
  obtain ⟨fresh, late⟩ := lasting.increment early
  have lasts : ∀ counter, s'.counters key = some counter →
      start ≤ s'.time ∧ ∀ expiresAt ∈ counter.expiresAt, start + dayAndSlack ≤ expiresAt := by
    intro counter present
    obtain rfl := Option.some.inj (counters.symm.trans present)
    exact ⟨time ▸ begun, late⟩
  rcases counts with same | ⟨front, back, before, after⟩
  · refine ⟨same ▸ lasting.nodup, ?_, lasts⟩
    intro _ n given
    exact ⟨_, counters, (fresh n (same ▸ given)).le⟩
  · have perm : (countsOf s' key).Perm ((s.increment key).value :: countsOf s key) := by
      rw [after, before]
      exact List.perm_middle
    refine ⟨?_, ?_, lasts⟩
    · rw [perm.nodup_iff, List.nodup_cons]
      exact ⟨fun inside => lt_irrefl _ (fresh _ inside), lasting.nodup⟩
    · intro _ n given
      refine ⟨_, counters, ?_⟩
      rcases List.mem_cons.mp (perm.mem_iff.mp given) with rfl | before
      · exact le_refl _
      · exact (fresh n before).le

theorem incr (lasting : Lasting key start s) (found : s.calls[index]? = some c)
    (waiting : c.phase = .increments) (reply : Reply)
    (inTime : c.key = key → start ≤ s.time ∧ s.time < start + dayAndSlack) :
    Lasting key start (s.incr index c reply) := by
  have kept : countsOf (s.setPhase index c (.returned true none)) key = countsOf s key :=
    countsOf_of_same found fun _ => by rw [waiting]; rfl
  by_cases own : c.key = key
  · subst own
    obtain ⟨begun, early⟩ := inTime rfl
    have counters : Function.update s.counters c.key (some (s.increment c.key)) c.key =
        some (s.increment c.key) := Function.update_self ..
    cases reply with
    | answered =>
        refine lasting.incremented begun early rfl counters (Or.inr ?_)
        obtain ⟨front, back, before, after⟩ := @countsOf_setPhase s index c
          (State.counted c.check.limit (s.increment c.key).value) found c.key
        have given : (State.counted c.check.limit (s.increment c.key).value).count =
            some (s.increment c.key).value := by
          rw [State.counted]
          split <;> rfl
        rw [if_pos rfl, waiting] at before
        rw [if_pos rfl, given, Option.toList_some, List.append_assoc, List.singleton_append] at after
        exact ⟨front, back, by simpa [Phase.count] using before, after⟩
    | lost => exact lasting.incremented begun early rfl counters (Or.inl kept)
    | unreached => exact lasting.of_same kept (le_refl _) rfl
  · have counters (counter : Option Counter) : Function.update s.counters c.key counter key =
        s.counters key := Function.update_of_ne (Ne.symm own) _ _
    cases reply with
    | answered =>
        exact lasting.of_same (countsOf_of_same found fun same => absurd same own) (le_refl _) (counters _)
    | lost => exact lasting.of_same kept (le_refl _) (counters _)
    | unreached => exact lasting.of_same kept (le_refl _) rfl

theorem expire {count : Nat} (lasting : Lasting key start s) (found : s.calls[index]? = some c)
    (pending : c.phase = .expires count) (reply : Reply) :
    Lasting key start (s.expire index c count reply) := by
  have kept (within : Bool) : countsOf (s.setPhase index c (.returned within (some count))) key =
      countsOf s key := countsOf_of_same found fun _ => by rw [pending]; rfl
  -- The time of the counter changes, and neither its value nor what the calls were given.
  have expiring (within : Bool) :
      Lasting key start ((s.withExpiry c.key).setPhase index c (.returned within (some count))) := by
    by_cases own : c.key = key
    · subst own
      have counters : (s.withExpiry c.key).counters c.key = (s.lookup c.key).map fun counter =>
          { counter with expiresAt := some (s.time + dayAndSlack) } := Function.update_self ..
      refine ⟨kept within ▸ lasting.nodup, ?_, ?_⟩
      · intro early n given
        obtain ⟨counter, present, most⟩ := lasting.value early n (kept within ▸ given)
        refine ⟨{ counter with expiresAt := some (s.time + dayAndSlack) }, ?_, most⟩
        change (s.withExpiry c.key).counters c.key = _
        rw [counters, lasting.lookup_eq early, present]
        rfl
      · intro new made
        change (s.withExpiry c.key).counters c.key = some new at made
        rw [counters] at made
        obtain ⟨counter, here, rfl⟩ := Option.map_eq_some_iff.mp made
        have begun := (lasting.lasts counter (Option.filter_eq_some_iff.mp here).1).1
        refine ⟨begun, ?_⟩
        intro expiresAt same
        rw [← Option.some.inj same]
        exact Int.add_le_add_right begun _
    · exact lasting.of_same (kept within) (le_refl _) (Function.update_of_ne (Ne.symm own) _ _)
  cases reply with
  | answered => exact expiring _
  | lost => exact expiring true
  | unreached => exact lasting.of_same (kept true) (le_refl _) rfl

/-- An INCR runs on the day that its key names, or in the hour after it. -/
def InTime (s : State) : Event → Prop
  | .incr index _ => ∀ c, s.calls[index]? = some c →
      dayStart c.now ≤ s.time ∧ s.time < dayStart c.now + dayAndSlack
  | _ => True

theorem step {bucket : Str} {orgId : Nat} {now : Instant} (event : Event)
    (lasting : Lasting (DailyQuota.key bucket orgId now) (dayStart now) s) (inTime : InTime s event) :
    Lasting (DailyQuota.key bucket orgId now) (dayStart now) (step s event) := by
  cases event with
  | elapse duration =>
      exact lasting.of_same rfl (Int.le_add_of_nonneg_right (Int.natCast_nonneg duration)) rfl
  | call check now' client =>
      refine lasting.of_same ?_ (le_refl _) rfl
      rw [countsOf, countsOf, DailyQuota.step, State.begin_, List.filterMap_append]
      split <;> simp [Phase.count]
  | incr index reply =>
      rw [DailyQuota.step]
      split
      · next found =>
          refine lasting.incr found rfl reply ?_
          intro own
          have day := (key_inj.mp own).2.2
          have within := inTime _ found
          rw [dayStart] at within ⊢
          exact day ▸ within
      · exact lasting
  | expire index reply =>
      rw [DailyQuota.step]
      split
      · next found => exact lasting.expire found rfl reply
      · exact lasting

end Lasting
/-- The call is for this bucket and org on the day of this time. -/
def Call.concerns (bucket : Str) (orgId : Nat) (now : Instant) (c : Call) : Bool :=
  c.check.bucket == bucket && c.check.orgId == orgId && dayOf c.now == dayOf now

theorem concerns_iff (bucket : Str) (orgId : Nat) (now : Instant) (c : Call) :
    c.concerns bucket orgId now = true ↔ c.key = key bucket orgId now := by
  rw [Call.key, key_inj, Call.concerns, Bool.and_eq_true, Bool.and_eq_true, beq_iff_eq, beq_iff_eq,
    beq_iff_eq, and_assoc]

/-- These are the calls of a day that are past their INCR. -/
def askedOn (s : State) (bucket : Str) (orgId : Nat) (now : Instant) : List Call :=
  s.calls.filter fun c => c.concerns bucket orgId now && decide (0 < c.check.limit) && !c.phase.waits

/-- These are the calls of a day that have returned with a count, granted or refused. -/
def countedOn (s : State) (bucket : Str) (orgId : Nat) (now : Instant) (within : Bool) : List Call :=
  s.calls.filter fun c => c.concerns bucket orgId now && match c.phase with
    | .returned answer (some _) => answer == within
    | _ => false

section Counted

variable {s : State} {bucket : Str} {orgId : Nat} {now : Instant} {within : Bool}

theorem askedOn_eq : askedOn s bucket orgId now = asked s (key bucket orgId now) := by
  apply List.filter_congr
  intro c _
  have same : c.concerns bucket orgId now = (c.key == key bucket orgId now) := by
    rw [Bool.eq_iff_iff, concerns_iff, beq_iff_eq]
  rw [same]

theorem mem_countedOn (c : Call) : c ∈ countedOn s bucket orgId now within ↔
    c ∈ s.calls ∧ c.key = key bucket orgId now ∧ ∃ n, c.phase = .returned within (some n) := by
  rw [countedOn, List.mem_filter, Bool.and_eq_true, concerns_iff]
  obtain ⟨check, now', phase⟩ := c
  cases phase with
  | increments => simp
  | expires count => simp
  | returned answer count =>
      cases count with
      | none => simp
      | some n => simp

/-- The counts of some calls of a day, all between two bounds, are no more than fit there. -/
theorem length_countedOn_le (distinct : (countsOf s (key bucket orgId now)).Nodup) (low high : Nat)
    (calls : List Call) (part : calls.Sublist (countedOn s bucket orgId now within))
    (bounds : ∀ c ∈ calls, ∀ n, c.phase = .returned within (some n) → low < n ∧ n ≤ high) :
    calls.length ≤ high - low := by
  have given (c : Call) (inside : c ∈ calls) : c.key = key bucket orgId now ∧
      ∃ n, c.phase = .returned within (some n) :=
    ((mem_countedOn c).mp (part.subset inside)).2
  have counts : calls.map (fun c => c.phase.count.getD 0) =
      calls.filterMap fun c => if c.key = key bucket orgId now then c.phase.count else none := by
    rw [← map_filterMap_of_forall _ id (fun c => c.phase.count.getD 0) calls, List.map_id]
    intro c inside
    obtain ⟨own, n, returned⟩ := given c inside
    exact ⟨n, by rw [if_pos own, returned]; rfl, by rw [returned]; rfl⟩
  have apart : (calls.map fun c => c.phase.count.getD 0).Nodup := by
    rw [counts]
    exact distinct.sublist ((part.trans List.filter_sublist).filterMap _)
  have between : calls.map (fun c => c.phase.count.getD 0) ⊆ List.range' (low + 1) (high - low) := by
    intro n inside
    obtain ⟨c, listed, rfl⟩ := List.mem_map.mp inside
    obtain ⟨_, n, returned⟩ := given c listed
    have bound := bounds c listed n returned
    rw [returned, List.mem_range'_1]
    change low + 1 ≤ n ∧ n < low + 1 + (high - low)
    omega
  have fits := (List.subperm_of_subset apart between).length_le
  rwa [List.length_map, List.length_range'] at fits

end Counted

theorem justified_of_run (start : Instant) (events : List Event) :
    Justified (Run.final step { time := start } events) := by
  have begins : Justified { time := start } := by
    refine ⟨?_, ?_, ?_⟩
    · intro key counter present
      cases present
    · intro c inside
      cases inside
    · intro c inside
      cases inside
  exact (Run.always_of_step (fun _ event justified => justified.step event) events begins).final

theorem lasting_of_run (start : Instant) (events : List Event) (bucket : Str) (orgId : Nat)
    (now : Instant) (inTime : Run.Each step Lasting.InTime { time := start } events) :
    Lasting (key bucket orgId now) (dayStart now) (Run.final step { time := start } events) := by
  have begins : Lasting (key bucket orgId now) (dayStart now) { time := start } := by
    refine ⟨List.nodup_nil, ?_, ?_⟩
    · intro _ n given
      cases given
    · intro counter present
      cases present
  exact (Run.always_of_each (fun _ event lasting within => lasting.step event within) begins inTime).final

/-- In every order of the commands, and whatever becomes of Redis: a call is refused only where more calls
of its bucket, org and day than its limit are past their INCR. As long as an INCR runs on its day or in the
hour after it, the counts grant at most as many calls of a day as the highest limit among them. -/
theorem granted_and_refused (start : Instant) (events : List Event) (bucket : Str) (orgId : Nat)
    (now : Instant) :
    (∀ c ∈ countedOn (Run.final step { time := start } events) bucket orgId now false,
      c.check.limit <
        ((askedOn (Run.final step { time := start } events) bucket orgId now).length : Int)) ∧
    (Run.Each step Lasting.InTime { time := start } events → ∀ limit : Nat,
      ((countedOn (Run.final step { time := start } events) bucket orgId now true).filter fun c =>
        decide (c.check.limit ≤ (limit : Int))).length ≤ limit) := by
  have justified := justified_of_run start events
  constructor
  · intro c refused
    obtain ⟨inside, own, n, returned⟩ := (mem_countedOn c).mp refused
    have most := justified.count c inside n (by rw [returned]; rfl)
    have fair := justified.fair c inside
    rw [Call.Fair, returned] at fair
    rw [askedOn_eq, ← own]
    exact lt_of_lt_of_le fair (by exact_mod_cast most)
  · intro inTime limit
    have lasting := lasting_of_run start events bucket orgId now inTime
    refine length_countedOn_le lasting.nodup 0 limit _ List.filter_sublist ?_
    intro c granted n returned
    obtain ⟨counted, low⟩ := List.mem_filter.mp granted
    have fair := justified.fair c ((mem_countedOn c).mp counted).1
    rw [Call.Fair, returned] at fair
    obtain ⟨positive, most⟩ := fair
    have high : c.check.limit ≤ (limit : Int) := of_decide_eq_true low
    omega

/-- Two calls of a day race for the only one that is granted. -/
def sampleEvents : List Event :=
  [.call ⟨"recall", 1, 1⟩ 0 true, .call ⟨"recall", 1, 1⟩ 5 true, .incr 1 .answered, .elapse 7,
    .incr 0 .answered, .expire 1 .lost]

theorem sample_inTime : Run.Each step Lasting.InTime { time := 0 } sampleEvents := by
  refine ⟨trivial, trivial, ?_, trivial, ?_, trivial, trivial⟩
  · intro c found
    obtain rfl := Option.some.inj found
    decide
  · intro c found
    obtain rfl := Option.some.inj found
    decide

theorem sample_calls : (Run.final step { time := 0 } sampleEvents).calls =
    [⟨⟨"recall", 1, 1⟩, 0, .returned false (some 2)⟩, ⟨⟨"recall", 1, 1⟩, 5, .returned true (some 1)⟩] := by
  decide +kernel

theorem granted_and_refused_sample :
    ((countedOn (Run.final step { time := 0 } sampleEvents) "recall" 1 0 true).filter fun c =>
      decide (c.check.limit ≤ ((1 : Nat) : Int))).length ≤ 1 :=
  (granted_and_refused 0 sampleEvents "recall" 1 0).2 sample_inTime 1

/-- There is a client, and Redis answers each INCR. -/
def Answering (_ : State) : Event → Prop
  | .call _ _ client => client = true
  | .incr _ reply => reply = .answered
  | _ => True

/-- Each call with a limit that is past its INCR was given a count. -/
def Heard (s : State) : Prop :=
  ∀ c ∈ s.calls, 0 < c.check.limit → c.phase.waits = false → ∃ n, c.phase.count = some n

theorem heard_setPhase {s : State} {index : Nat} {c : Call} {phase : Phase} (heard : Heard s)
    (found : s.calls[index]? = some c) (n : Nat) (given : phase.count = some n) :
    Heard (s.setPhase index c phase) := by
  intro other inside positive settled
  rcases mem_setPhase found other inside with before | rfl
  · exact heard other before positive settled
  · exact ⟨n, given⟩

theorem heard_step (s : State) (event : Event) (heard : Heard s) (answering : Answering s event) :
    Heard (step s event) := by
  cases event with
  | elapse duration => exact heard
  | call check now client =>
      intro c inside positive settled
      rcases List.mem_append.mp inside with before | last
      · exact heard c before positive settled
      · rw [List.mem_singleton.mp last] at positive settled
        have limited : ¬ (check.limit ≤ 0 ∨ client = false) :=
          not_or.mpr ⟨not_le.mpr positive, by rw [show client = true from answering]; decide⟩
        dsimp only at settled
        rw [if_neg limited] at settled
        cases settled
  | incr index reply =>
      rw [step]
      split
      · next check now found =>
          rw [show reply = .answered from answering]
          refine heard_setPhase (s := s) heard found (s.increment (key check.bucket check.orgId now)).value ?_
          rw [State.counted]
          split <;> rfl
      · exact heard
  | expire index reply =>
      rw [step]
      split
      · next check now count found =>
          cases reply with
          | answered => exact heard_setPhase (s := s) heard found count rfl
          | lost => exact heard_setPhase (s := s) heard found count rfl
          | unreached => exact heard_setPhase (s := s) heard found count rfl
      · exact heard

/-- The call has returned `True`. -/
def Phase.grants : Phase → Bool
  | .returned within _ => within
  | _ => false

/-- While Redis answers, a day with one limit grants exactly as many calls as the limit says, and all of
them where there are no more. -/
theorem exactly_limit_granted (start : Instant) (events : List Event) (bucket : Str) (orgId : Nat)
    (now : Instant) (limit : Nat) (some_ : 0 < limit)
    (inTime : Run.Each step Lasting.InTime { time := start } events)
    (answering : Run.Each step Answering { time := start } events)
    (all : ∀ c ∈ (Run.final step { time := start } events).calls, c.concerns bucket orgId now = true →
      c.check.limit = (limit : Int) ∧ ∃ within count, c.phase = .returned within count) :
    (countedOn (Run.final step { time := start } events) bucket orgId now true).length =
      min limit (askedOn (Run.final step { time := start } events) bucket orgId now).length := by
  have justified := justified_of_run start events
  have lasting := lasting_of_run start events bucket orgId now inTime
  have heard : Heard (Run.final step { time := start } events) :=
    (Run.always_of_each heard_step (by intro c inside; cases inside) answering).final
  generalize Run.final step { time := start } events = s at all justified lasting heard ⊢
  have returned (c : Call) (inside : c ∈ s.calls) (own : c.concerns bucket orgId now = true) :
      ∃ within n, c.phase = .returned within (some n) := by
    obtain ⟨limited, within, count, done⟩ := all c inside own
    obtain ⟨n, given⟩ := heard c inside (by omega) (by rw [done]; rfl)
    rw [done] at given
    exact ⟨within, n, by rw [done]; exact congrArg _ given⟩
  have split : (askedOn s bucket orgId now).length = (countedOn s bucket orgId now true).length +
      (countedOn s bucket orgId now false).length := by
    have part (within : Bool) : countedOn s bucket orgId now within =
        (askedOn s bucket orgId now).filter fun c => c.phase.grants == within := by
      rw [askedOn, List.filter_filter, countedOn]
      apply List.filter_congr
      intro c inside
      cases own : c.concerns bucket orgId now with
      | false => simp
      | true =>
          obtain ⟨answer, n, done⟩ := returned c inside own
          have positive : 0 < c.check.limit := by
            rw [(all c inside own).1]
            exact_mod_cast some_
          cases answer <;> cases within <;> simp [done, positive, Phase.waits, Phase.grants]
    simp only [part, beq_true, beq_false]
    exact List.length_eq_length_filter_add fun c : Call => c.phase.grants
  have granted : (countedOn s bucket orgId now true).length ≤ limit - 0 := by
    refine length_countedOn_le lasting.nodup 0 limit _ (List.Sublist.refl _) ?_
    intro c counted n done
    obtain ⟨inside, own, _⟩ := (mem_countedOn c).mp counted
    have fair := justified.fair c inside
    rw [Call.Fair, done, (all c inside ((concerns_iff _ _ _ c).mpr own)).1] at fair
    obtain ⟨positive, most⟩ := fair
    omega
  have refused : (countedOn s bucket orgId now false).length ≤
      (askedOn s bucket orgId now).length - limit := by
    refine length_countedOn_le lasting.nodup limit _ _ (List.Sublist.refl _) ?_
    intro c counted n done
    obtain ⟨inside, own, _⟩ := (mem_countedOn c).mp counted
    have fair := justified.fair c inside
    rw [Call.Fair, done, (all c inside ((concerns_iff _ _ _ c).mpr own)).1] at fair
    have most := justified.count c inside n (by rw [done]; rfl)
    rw [own, ← askedOn_eq] at most
    omega
  omega

theorem exactly_limit_granted_sample :
    (countedOn (Run.final step { time := 0 } sampleEvents) "recall" 1 0 true).length =
      min 1 (askedOn (Run.final step { time := 0 } sampleEvents) "recall" 1 0).length := by
  refine exactly_limit_granted 0 sampleEvents "recall" 1 0 1 Nat.one_pos sample_inTime
    ⟨rfl, rfl, rfl, trivial, rfl, trivial, trivial⟩ ?_
  intro c inside _
  rw [sample_calls, List.mem_cons, List.mem_singleton] at inside
  rcases inside with rfl | rfl
  · exact ⟨rfl, false, some 2, rfl⟩
  · exact ⟨rfl, true, some 1, rfl⟩

end Kortex.DailyQuota
