import Kortex.Library.Retry
import Kortex.Model.Billing

/-
This file proves when the deliveries of the webhook leave an org as one delivery of each event does.
-/

namespace Kortex.BillingService

/-- The event names a plan and a subscription that the columns accept. -/
def fits (event : StripeEvent) : Prop :=
  (activates event → Audit.acceptsColumn 32 (Dict.get? event.object.metadata "plan") = true ∧
    (Audit.orElse event.object.subscription event.object.id).all PyValue.accepts = true) ∧
  PyValue.accepts event.id = true

theorem seenEvents_handle (event : StripeEvent) (o : OrgColumns) :
    (handle event o).billing.seenEvents = o.billing.seenEvents := by
  unfold handle
  split
  · rfl
  · split
    · rfl
    · split <;> rfl

theorem stripeCustomerId_handle (event : StripeEvent) (o : OrgColumns) :
    (handle event o).billing.stripeCustomerId = o.billing.stripeCustomerId := by
  unfold handle
  split
  · rfl
  · split
    · rfl
    · split <;> rfl

theorem rtake_rtake {A : Type} (l : List A) (m n : Nat) (less : n ≤ m) :
    (l.rtake m).rtake n = l.rtake n := by
  simp only [List.rtake, List.drop_drop, List.length_drop]
  congr 1
  omega

theorem mem_rtake_of_le {A : Type} (l : List A) (m n : Nat) (less : n ≤ m) (a : A)
    (inside : a ∈ l.rtake n) : a ∈ l.rtake m := by
  rw [← rtake_rtake l m n less] at inside
  exact List.mem_of_mem_drop inside

theorem all_ring (accepted : Str → Bool) (seen : List Str) (id : Str) (all : seen.all accepted = true) :
    ((seen ++ [id]).rtake seenWindow).all accepted = accepted id := by
  have older : (seen.rtake 49).all accepted = true := by
    rw [List.all_eq_true] at all ⊢
    exact fun s inside => all s (List.mem_of_mem_drop inside)
  rw [show seenWindow = 49 + 1 from rfl, List.rtake_concat_succ, List.all_append, older]
  simp

theorem storable_iff (o : OrgColumns) : o.storable = true ↔
    Audit.acceptsColumn 32 (some o.plan) = true ∧ o.billing.status.all PyValue.accepts = true ∧
      o.billing.stripeSubscriptionId.all PyValue.accepts = true ∧
        o.billing.stripeCustomerId.all PyValue.accepts = true ∧
          o.billing.seenEvents.all PyValue.accepts = true := by
  simp only [OrgColumns.storable, Bool.and_eq_true, and_assoc]

theorem storable_setBilling (o : OrgColumns) (stored : o.storable = true) (plan status : Str)
    (subscriptionId : Option Str) (currentPeriodEnd : Option Int) (known : PyValue.accepts status = true) :
    (setBilling o plan status subscriptionId currentPeriodEnd).storable = true ↔
      Audit.acceptsColumn 32 (some plan) = true ∧ subscriptionId.all PyValue.accepts = true := by
  obtain ⟨_, _, subscription, customer, seen⟩ := (storable_iff o).mp stored
  rw [storable_iff]
  cases subscriptionId with
  | none => simp [setBilling, known, subscription, customer, seen]
  | some id => simp [setBilling, known, customer, seen]

theorem storable_handle (event : StripeEvent) (o : OrgColumns) (stored : o.storable = true) :
    (handle event o).storable = true ↔
      (activates event → Audit.acceptsColumn 32 (Dict.get? event.object.metadata "plan") = true ∧
          (Audit.orElse event.object.subscription event.object.id).all PyValue.accepts = true) := by
  have plan := ((storable_iff o).mp stored).1
  unfold handle
  split
  · rename_i sets
    rw [storable_setBilling o stored _ _ _ _ (by decide), imp_iff_right sets]
    cases Dict.get? event.object.metadata "plan" with
    | none =>
        rw [Option.getD_none, plan]
        rfl
    | some plan => rfl
  · rename_i other
    simp only [other, false_implies, iff_true]
    split
    · rw [storable_setBilling o stored _ _ _ _ (by decide)]
      exact ⟨plan, rfl⟩
    · split
      · rw [storable_setBilling o stored _ _ _ _ (by decide)]
        exact ⟨by decide, rfl⟩
      · exact stored

/-- Whether the columns accept what an event writes does not depend on the row. -/
theorem storable_record_iff (event : StripeEvent) (o : OrgColumns) (stored : o.storable = true) :
    (record event (handle event o)).storable = true ↔ fits event := by
  have seen := ((storable_iff o).mp stored).2.2.2.2
  rw [fits, ← storable_handle event o stored, record]
  split
  · rename_i unnamed
    simp [unnamed, PyValue.accepts]
  · rw [storable_iff, storable_iff, seenEvents_handle, all_ring _ _ _ seen, seen]
    simp only [and_true, and_assoc]

theorem applied_cases (event : StripeEvent) (o : BillingOrg) :
    (¬ fits event ∧ applied event o = o) ∨ (seen event o.toOrgColumns = true ∧ applied event o = o) ∨
      (fits event ∧ seen event o.toOrgColumns = false ∧
        (applied event o).toOrgColumns = record event (handle event o.toOrgColumns)) := by
  have stored := storable_record_iff event o.toOrgColumns o.stored
  unfold applied commit
  split
  · rename_i before
    exact Or.inr (Or.inl ⟨before, rfl⟩)
  · rename_i new
    split
    · rename_i accepted
      right
      right
      exact ⟨stored.mp accepted, by simpa using new, rfl⟩
    · rename_i refused
      left
      exact ⟨fun fitting => refused (stored.mpr fitting), rfl⟩

variable {events : List StripeEvent} {org : BillingOrg}

/-- This is one delivery to the row of an org. -/
def receive (o : BillingOrg) (event : StripeEvent) : BillingOrg := applied event o

/-- An event is kept with its id, and the ids that the org kept before move on by one. -/
theorem seenEvents_applied (event : StripeEvent) (o : BillingOrg) (named : event.id ≠ [])
    (fitting : fits event) (new : event.id ∉ o.billing.seenEvents) :
    (applied event o).billing.seenEvents = (o.billing.seenEvents ++ [event.id]).rtake seenWindow := by
  rcases applied_cases event o with ⟨refused, _⟩ | ⟨before, _⟩ | ⟨_, _, columns⟩
  · exact absurd fitting refused
  · simp only [seen, Bool.and_eq_true, List.contains_iff_mem] at before
    exact absurd before.2 new
  · rw [columns, record, if_neg named]
    change ((handle event o.toOrgColumns).billing.seenEvents ++ _).rtake _ = _
    rw [seenEvents_handle]

/-- An org keeps the ids that it kept before and those of its events. -/
theorem mem_seenEvents_final (id : Str) (inside : id ∈ (Run.final receive org
    events).billing.seenEvents) : id ∈ org.billing.seenEvents ∨ ∃ e ∈ events, e.id = id := by
  induction events generalizing org with
  | nil => exact Or.inl inside
  | cons event rest ih =>
      rcases ih inside with before | ⟨e, later, same⟩
      · change id ∈ (applied event org).billing.seenEvents at before
        rcases applied_cases event org with ⟨_, stays⟩ | ⟨_, stays⟩ | ⟨_, _, columns⟩
        · rw [stays] at before
          exact Or.inl before
        · rw [stays] at before
          exact Or.inl before
        · rw [columns, record] at before
          split at before
          · rw [seenEvents_handle] at before
            exact Or.inl before
          · rcases List.mem_append.mp (List.mem_of_mem_drop before) with old | own
            · change id ∈ (handle event org.toOrgColumns).billing.seenEvents at old
              rw [seenEvents_handle] at old
              exact Or.inl old
            · exact Or.inr ⟨event, List.mem_cons_self, (List.mem_singleton.mp own).symm⟩
      · exact Or.inr ⟨e, List.mem_cons_of_mem _ later, same⟩

/-- The id of an event stays among the ids of the events since. -/
theorem mem_rtake_final (distinct : (events.map StripeEvent.id).Nodup)
    (named : ∀ e ∈ events, e.id ≠ []) (fresh : ∀ e ∈ events, e.id ∉ org.billing.seenEvents)
    (n : Nat) (begun : n ≤ events.length) (k : Nat) (before : k < n) (recent : n ≤ k + seenWindow)
    (m : StripeEvent) (old : events[k]? = some m) (fitting : fits m) :
    m.id ∈ (Run.final receive org (events.take n)).billing.seenEvents.rtake (n - k) := by
  induction n with
  | zero => omega
  | succ n ih =>
      have grown : Run.final receive org (events.take (n + 1)) =
          applied events[n] (Run.final receive org (events.take n)) := by
        rw [List.take_succ_eq_append_getElem begun, Run.final_append]
        rfl
      have inside : events[n] ∈ events := List.getElem_mem begun
      have new : events[n].id ∉
          (Run.final receive org (events.take n)).billing.seenEvents := by
        intro kept
        rcases mem_seenEvents_final _ kept with start | ⟨e, earlier, same⟩
        · exact fresh _ inside start
        · obtain ⟨j, less, rfl⟩ := List.mem_take_iff_getElem.mp earlier
          have length : (events.map StripeEvent.id).length = events.length := List.length_map _
          have ids : (events.map StripeEvent.id)[j] = (events.map StripeEvent.id)[n] := by
            simpa using same
          have equal := distinct.getElem_inj_iff.mp ids
          omega
      rw [grown]
      by_cases latest : k = n
      · subst latest
        obtain rfl : events[k] = m := by
          rw [List.getElem?_eq_getElem begun] at old
          exact Option.some.inj old
        rw [seenEvents_applied _ _ (named _ inside) fitting new, rtake_rtake _ _ _ (by omega),
          show k + 1 - k = 0 + 1 by omega, List.rtake_concat_succ]
        exact List.mem_append_right _ List.mem_cons_self
      · have kept := ih (by omega) (by omega) (by omega)
        by_cases fitting' : fits events[n]
        · rw [seenEvents_applied _ _ (named _ inside) fitting' new, rtake_rtake _ _ _ (by omega),
            show n + 1 - k = (n - k) + 1 by omega, List.rtake_concat_succ]
          exact List.mem_append_left _ kept
        · rcases applied_cases events[n] (Run.final receive org (events.take n)) with
            ⟨_, stays⟩ | ⟨_, stays⟩ | ⟨fitting', _, _⟩
          · rw [stays]
            exact mem_rtake_of_le _ _ _ (by omega) _ kept
          · rw [stays]
            exact mem_rtake_of_le _ _ _ (by omega) _ kept
          · contradiction

/-- An org absorbs a redelivery of an event whose id it keeps. -/
theorem applied_final (distinct : (events.map StripeEvent.id).Nodup)
    (named : ∀ e ∈ events, e.id ≠ []) (fresh : ∀ e ∈ events, e.id ∉ org.billing.seenEvents)
    (n : Nat) (begun : n ≤ events.length) (k : Nat) (before : k < n) (recent : n ≤ k + seenWindow)
    (m : StripeEvent) (old : events[k]? = some m) :
    applied m (Run.final receive org (events.take n)) =
      Run.final receive org (events.take n) := by
  rcases applied_cases m (Run.final receive org (events.take n)) with
    ⟨_, stays⟩ | ⟨_, stays⟩ | ⟨fitting, new, _⟩
  · exact stays
  · exact stays
  · have kept := mem_rtake_final distinct named fresh n begun k before recent m old fitting
    have inside : m.id ∈ _ := List.mem_of_mem_drop kept
    have known : m.id ≠ [] := named m (List.mem_of_getElem? old)
    simp [seen, known, inside] at new

theorem stripeCustomerId_applied (event : StripeEvent) (o : BillingOrg) :
    (applied event o).billing.stripeCustomerId = o.billing.stripeCustomerId := by
  rcases applied_cases event o with ⟨_, stays⟩ | ⟨_, stays⟩ | ⟨_, _, columns⟩
  · rw [stays]
  · rw [stays]
  · rw [columns, record]
    split <;> exact stripeCustomerId_handle event o.toOrgColumns

theorem deletedAt_applied (event : StripeEvent) (o : BillingOrg) :
    (applied event o).deletedAt = o.deletedAt := by
  unfold applied commit
  split
  · rfl
  · split <;> rfl

theorem scalarOneOrNone_map {A B : Type} (f : A → B) (l : List A) :
    scalarOneOrNone (l.map f) = (scalarOneOrNone l).map (Option.map f) := by
  match l with
  | [] => rfl
  | [_] => rfl
  | _ :: _ :: _ => rfl

/-- A webhook finds the org of an object as before, since no event moves it. -/
theorem resolveOrg_update (u : Unicode) (orgs : OrgTable) (object : StripeObject) (id : Nat)
    (event : StripeEvent) :
    resolveOrg u (orgs.update (fun o => o.id == id) (applied event) (applied_id event)) object =
      (resolveOrg u orgs object).map
        (Option.map (Table.changeRow (fun o => o.id == id) (applied event))) := by
  have filtered (chosen : BillingOrg → Bool) (same : ∀ o, chosen (applied event o) = chosen o) :
      (orgs.update (fun o => o.id == id) (applied event) (applied_id event)).rows.filter chosen =
        (orgs.rows.filter chosen).map (Table.changeRow (fun o => o.id == id) (applied event)) := by
    rw [Table.update, List.filter_map]
    congr 2
    ext o
    simp only [Function.comp_apply, Table.changeRow]
    split
    · exact same o
    · rfl
  unfold resolveOrg
  split
  · split
    · rfl
    · rw [filtered, scalarOneOrNone_map]
      intro o
      rw [applied_id, deletedAt_applied]
  · split
    · rfl
    · rw [filtered, scalarOneOrNone_map]
      intro o
      rw [stripeCustomerId_applied, deletedAt_applied]

/-- The event is about the org. -/
def Concerns (u : Unicode) (orgs : OrgTable) (id : Nat) (event : StripeEvent) : Prop :=
  ∃ org, resolveOrg u orgs event.object = .ok (some org) ∧ org.id = id

def rowOf (orgs : OrgTable) (id : Nat) : Option BillingOrg := orgs.rows.find? fun o => o.id == id

theorem mem_of_scalarOneOrNone {A : Type} (l : List A) (a : A)
    (one : scalarOneOrNone l = .ok (some a)) : a ∈ l := by
  match l with
  | [] => cases one
  | [b] =>
      cases one
      exact List.mem_cons_self
  | _ :: _ :: _ => cases one

theorem rowOf_of_mem (orgs : OrgTable) (org : BillingOrg) (present : org ∈ orgs.rows) :
    rowOf orgs org.id = some org := by
  cases found : rowOf orgs org.id with
  | none =>
      have absent := List.find?_eq_none.mp found org present
      exact absurd (beq_self_eq_true org.id) absent
  | some other =>
      have same : other.id = org.id := by simpa using List.find?_some found
      rcases orgs.eq_or_apart other org (List.mem_of_find?_eq_some found) present with
        rfl | less | greater
      · rfl
      · omega
      · omega

theorem mem_of_resolveOrg (u : Unicode) (orgs : OrgTable) (object : StripeObject) (org : BillingOrg)
    (found : resolveOrg u orgs object = .ok (some org)) : org ∈ orgs.rows := by
  unfold resolveOrg at found
  split at found
  · split at found
    · cases found
    · exact List.mem_of_mem_filter (mem_of_scalarOneOrNone _ org found)
  · split at found
    · cases found
    · exact List.mem_of_mem_filter (mem_of_scalarOneOrNone _ org found)

theorem rowOf_update (orgs : OrgTable) (id : Nat) (event : StripeEvent) :
    rowOf (orgs.update (fun o => o.id == id) (applied event) (applied_id event)) id =
      (rowOf orgs id).map fun o => receive o event := by
  have same (o : BillingOrg) : (Table.changeRow (fun o => o.id == id) (applied event) o).id = o.id := by
    unfold Table.changeRow
    split
    · exact applied_id event o
    · rfl
  simp only [rowOf, Table.update, List.find?_map, Function.comp_def, same]
  cases found : orgs.rows.find? fun o => o.id == id with
  | none => rfl
  | some o =>
      have own := List.find?_some found
      simp only [Option.map_some, Table.changeRow, own, if_true, receive]

/-- A delivery changes the row of its org, and the org that each other object leads to stays. -/
theorem deliver_of_concerns (u : Unicode) (orgs : OrgTable) (id : Nat) (event : StripeEvent)
    (concerns : Concerns u orgs id event) :
    rowOf (deliver u orgs event) id = (rowOf orgs id).map (fun o => receive o event) ∧
      ∀ other, Concerns u orgs id other → Concerns u (deliver u orgs event) id other := by
  obtain ⟨org, found, rfl⟩ := concerns
  have row := rowOf_of_mem orgs org (mem_of_resolveOrg u orgs _ org found)
  have stays (unchanged : applied event org = org) (same : deliver u orgs event = orgs) :
      rowOf (deliver u orgs event) org.id = (rowOf orgs org.id).map (fun o => receive o event) ∧
        ∀ other, Concerns u orgs org.id other → Concerns u (deliver u orgs event) org.id other := by
    rw [same, row, Option.map_some, receive, unchanged]
    exact ⟨rfl, fun _ concerned => concerned⟩
  by_cases before : seen event org.toOrgColumns = true
  · apply stays
    · rw [applied, if_pos before]
    · rw [deliver, applyWebhookEvent, found]
      simp [before, Except.toOption]
  · cases written : commit org (record event (handle event org.toOrgColumns)) with
    | none =>
        apply stays
        · rw [applied, if_neg before, written]
          rfl
        · rw [deliver, applyWebhookEvent, found]
          simp [before, written, Except.toOption]
    | some next =>
        have changed : deliver u orgs event =
            orgs.update (fun o => o.id == org.id) (applied event) (applied_id event) := by
          rw [deliver, applyWebhookEvent, found]
          simp [before, written, Except.toOption]
        rw [changed]
        refine ⟨rowOf_update orgs org.id event, ?_⟩
        rintro other ⟨org', found', same⟩
        refine ⟨Table.changeRow (fun o => o.id == org.id) (applied event) org', ?_, ?_⟩
        · rw [resolveOrg_update, found']
          rfl
        · unfold Table.changeRow
          split
          · rw [applied_id, same]
          · exact same

theorem rowOf_final (u : Unicode) (orgs : OrgTable) (id : Nat) (deliveries : List StripeEvent)
    (concern : ∀ e ∈ deliveries, Concerns u orgs id e) :
    rowOf (Run.final (deliver u) orgs deliveries) id =
      (rowOf orgs id).map fun o => Run.final receive o deliveries := by
  induction deliveries generalizing orgs with
  | nil => simp
  | cons event rest ih =>
      obtain ⟨row, kept⟩ := deliver_of_concerns u orgs id event (concern event List.mem_cons_self)
      rw [Run.final_cons, ih (deliver u orgs event) fun e inside =>
        kept e (concern e (List.mem_cons_of_mem _ inside)), row, Option.map_map]
      rfl

/-- This is the plan and the billing status of an org. -/
def standing (orgs : OrgTable) (id : Nat) : Option (Str × Option Str) :=
  (rowOf orgs id).map fun o => (o.plan, o.billing.status)

theorem applied_deleted (event : StripeEvent) (o : BillingOrg)
    (deletion : event.type = "customer.subscription.deleted".toList)
    (fitting : fits event) (new : seen event o.toOrgColumns = false) :
    (applied event o).plan = "free".toList ∧ (applied event o).billing.status = some "canceled".toList := by
  rcases applied_cases event o with ⟨refused, _⟩ | ⟨before, _⟩ | ⟨_, _, columns⟩
  · exact absurd fitting refused
  · rw [new] at before
    exact absurd before Bool.false_ne_true
  · have branch : handle event o.toOrgColumns = setBilling o.toOrgColumns "free" "canceled" := by
      rw [handle, if_neg, if_neg, if_pos deletion]
      · rw [deletion]
        decide
      · unfold activates
        rw [deletion]
        decide
    rw [columns, record, branch]
    split <;> exact ⟨rfl, rfl⟩

theorem mem_of_orderly {window : Nat} {messages : List StripeEvent} (n : Nat)
    (deliveries : List StripeEvent) (orderly : Redelivery.Orderly window messages n deliveries)
    (m : StripeEvent) (inside : m ∈ deliveries) : m ∈ messages := by
  induction deliveries generalizing n with
  | nil => exact absurd inside List.not_mem_nil
  | cons first rest ih =>
      rcases orderly with ⟨next, after⟩ | ⟨⟨k, _, _, old⟩, after⟩
      · rcases List.mem_cons.mp inside with rfl | later
        · exact List.mem_of_getElem? next
        · exact ih _ after later
      · rcases List.mem_cons.mp inside with rfl | later
        · exact List.mem_of_getElem? old
        · exact ih _ after later

/-- Deliveries whose first ones come in order, and whose repeated ones come while the org still keeps
the id of the event, leave the org as one delivery of each event does. -/
theorem standing_of_orderly (u : Unicode) (orgs : OrgTable) (id : Nat) (events : List StripeEvent)
    (concern : ∀ e ∈ events, Concerns u orgs id e) (distinct : (events.map StripeEvent.id).Nodup)
    (named : ∀ e ∈ events, e.id ≠ [])
    (fresh : ∀ org, rowOf orgs id = some org → ∀ e ∈ events, e.id ∉ org.billing.seenEvents)
    (deliveries : List StripeEvent) (orderly : Redelivery.Orderly seenWindow events 0 deliveries) :
    standing (Run.final (deliver u) orgs deliveries) id =
        standing (Run.final (deliver u) orgs events) id ∧
      ∀ last, events.getLast? = some last → last.type = "customer.subscription.deleted".toList →
        PyValue.accepts last.id = true →
          standing (Run.final (deliver u) orgs deliveries) id =
            some ("free".toList, some "canceled".toList) := by
  have once := rowOf_final u orgs id events concern
  have repeated := rowOf_final u orgs id deliveries fun e inside =>
    concern e (mem_of_orderly 0 deliveries orderly e inside)
  have settled : ∀ org, rowOf orgs id = some org →
      Run.final receive org deliveries = Run.final receive org events := by
    intro org own
    exact Redelivery.final_of_orderly receive org seenWindow events
      (fun n begun k before recent m old =>
        applied_final distinct named (fresh org own) n begun k before recent m old)
      deliveries 0 (Nat.zero_le _) orderly
  have same : standing (Run.final (deliver u) orgs deliveries) id =
      standing (Run.final (deliver u) orgs events) id := by
    rw [standing, standing, once, repeated]
    cases own : rowOf orgs id with
    | none => rfl
    | some org =>
        simp only [Option.map_some]
        rw [settled org own]
  refine ⟨same, ?_⟩
  intro last newest deletion accepted
  obtain ⟨front, rfl⟩ := List.getLast?_eq_some_iff.mp newest
  have inside : last ∈ front ++ [last] := List.mem_append_right _ List.mem_cons_self
  obtain ⟨org, found, rfl⟩ := concern last inside
  have own := rowOf_of_mem orgs org (mem_of_resolveOrg u orgs _ org found)
  rw [same, standing, once, own, Option.map_some, Option.map_some, Run.final_append]
  have fitting : fits last := by
    refine ⟨fun active => absurd active ?_, accepted⟩
    unfold activates
    rw [deletion]
    decide
  have new : seen last (Run.final receive org front).toOrgColumns = false := by
    rw [seen, Bool.and_eq_false_iff]
    right
    rw [Bool.eq_false_iff]
    intro kept
    rcases mem_seenEvents_final last.id (List.contains_iff_mem.mp kept) with start | ⟨e, earlier, same⟩
    · exact fresh org own last inside start
    · rw [List.map_append, List.nodup_append] at distinct
      exact distinct.2.2 e.id (List.mem_map_of_mem earlier) last.id List.mem_cons_self same
  obtain ⟨plan, status⟩ := applied_deleted last (Run.final receive org front) deletion fitting new
  change some ((applied last (Run.final receive org front)).plan,
    (applied last (Run.final receive org front)).billing.status) = _
  rw [plan, status]

/-- This org pays for the plan pro. -/
def payingOrg : BillingOrg where
  plan := "pro"
  billing := {}
  id := 1
  deletedAt := none
  stored := by decide

def payingOrgs : OrgTable := ⟨[payingOrg], List.pairwise_singleton _ _⟩

def subscriptionUpdated : StripeEvent :=
  ⟨"evt_1", "customer.subscription.updated", { metadata := [("org_id", "1"), ("plan", "pro")] }⟩

def subscriptionDeleted : StripeEvent :=
  ⟨"evt_2", "customer.subscription.deleted", { metadata := [("org_id", "1")] }⟩

theorem concerns_payingOrg (event : StripeEvent)
    (known : event = subscriptionUpdated ∨ event = subscriptionDeleted) :
    Concerns Unicode.ascii payingOrgs 1 event := by
  refine ⟨payingOrg, ?_, rfl⟩
  rcases known with rfl | rfl
  · rfl
  · rfl

theorem standing_of_orderly_retried :
    standing (Run.final (deliver Unicode.ascii) payingOrgs
      [subscriptionUpdated, subscriptionDeleted, subscriptionUpdated]) 1 =
      some ("free".toList, some "canceled".toList) := by
  have events : ∀ e ∈ [subscriptionUpdated, subscriptionDeleted],
      e = subscriptionUpdated ∨ e = subscriptionDeleted := by simp
  apply (standing_of_orderly Unicode.ascii payingOrgs 1 [subscriptionUpdated, subscriptionDeleted]
    (fun e inside => concerns_payingOrg e (events e inside)) (by decide) (by decide) ?_
    [subscriptionUpdated, subscriptionDeleted, subscriptionUpdated] ?_).2 subscriptionDeleted rfl rfl rfl
  · intro org own e _
    cases Option.some.inj own
    exact List.not_mem_nil
  · exact Or.inl ⟨rfl, Or.inl ⟨rfl, Or.inr ⟨⟨0, by decide, by decide, rfl⟩, rfl⟩⟩⟩

/-- A cancellation that overtakes the last update leaves the org on its paid plan. -/
theorem overtaken_cancellation_keeps_plan :
    ¬ ∀ (u : Unicode) (orgs : OrgTable) (id : Nat) (events deliveries : List StripeEvent),
      (∀ e ∈ events, Concerns u orgs id e) → (events.map StripeEvent.id).Nodup →
        (∀ e, e ∈ deliveries ↔ e ∈ events) →
          standing (Run.final (deliver u) orgs deliveries) id =
            standing (Run.final (deliver u) orgs events) id := by
  intro claim
  have events : ∀ e ∈ [subscriptionUpdated, subscriptionDeleted],
      e = subscriptionUpdated ∨ e = subscriptionDeleted := by simp
  have same := claim Unicode.ascii payingOrgs 1 [subscriptionUpdated, subscriptionDeleted]
    [subscriptionDeleted, subscriptionUpdated] (fun e inside => concerns_payingOrg e (events e inside))
    (by decide) (by simp [or_comm])
  exact absurd same (by decide +kernel)

end Kortex.BillingService
