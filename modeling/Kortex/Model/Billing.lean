import Kortex.Model.Database
import Kortex.Model.MemoryTool

/-
This file models the webhook of `BillingService`.
-/

namespace Kortex

/-- This is the object `billing` in the settings of an org. -/
structure Billing where
  status : Option Str := none
  stripeSubscriptionId : Option Str := none
  currentPeriodEnd : Option Int := none
  stripeCustomerId : Option Str := none
  seenEvents : List Str := []

/-- These are the columns of the table `orgs` that the webhook writes. -/
structure OrgColumns where
  plan : Str
  billing : Billing

/-- The columns accept the values. -/
def OrgColumns.storable (o : OrgColumns) : Bool :=
  Audit.acceptsColumn 32 (some o.plan) && o.billing.status.all PyValue.accepts &&
    o.billing.stripeSubscriptionId.all PyValue.accepts &&
    o.billing.stripeCustomerId.all PyValue.accepts && o.billing.seenEvents.all PyValue.accepts

/-- This is a row of the table `orgs`, as the webhook sees it. -/
structure BillingOrg extends OrgColumns where
  id : Nat
  deletedAt : Option Instant
  stored : toOrgColumns.storable = true

/-- The ids of the orgs increase. -/
abbrev OrgTable := Table (fun o : BillingOrg => o.id) fun a b => a < b

/-- These are the members of the object of an event that the webhook reads. -/
structure StripeObject where
  id : Option Str := none
  metadata : Dict Str Str := []
  customer : Option Str := none
  subscription : Option Str := none
  currentPeriodEnd : Option Int := none

/-- An event without an id or a type has an empty one. -/
structure StripeEvent where
  id : Str
  type : Str
  object : StripeObject

namespace BillingService

inductive WebhookError where
  | valueError
  | multipleResultsFound
  | databaseError

/-- This is `scalar_one_or_none`. -/
def scalarOneOrNone {A : Type} : List A → Except WebhookError (Option A)
  | [] => .ok none
  | [a] => .ok (some a)
  | _ => .error .multipleResultsFound

/-- This is `_resolve_org`. -/
def resolveOrg (u : Unicode) (orgs : OrgTable) (object : StripeObject) :
    Except WebhookError (Option BillingOrg) :=
  match Audit.orElse (Dict.get? object.metadata "org_id") none with
  | some orgId =>
      match MemoryTool.parseInt u orgId with
      | .error _ => .error .valueError
      | .ok i => scalarOneOrNone (orgs.rows.filter fun o => decide ((o.id : Int) = i) && o.deletedAt.isNone)
  | none =>
      match object.customer with
      | none => .ok none
      | some customer => scalarOneOrNone (orgs.rows.filter fun o =>
          o.billing.stripeCustomerId == some customer && o.deletedAt.isNone)

/-- This is `_set_billing`; the other values are kept where they are missing. -/
def setBilling (o : OrgColumns) (plan status : Str) (subscriptionId : Option Str := none)
    (currentPeriodEnd : Option Int := none) : OrgColumns where
  plan := plan
  billing := { o.billing with
    status := some status
    stripeSubscriptionId := subscriptionId.or o.billing.stripeSubscriptionId
    currentPeriodEnd := currentPeriodEnd.or o.billing.currentPeriodEnd }

/-- These events set the plan that they name. -/
def activates (event : StripeEvent) : Prop :=
  event.type = "checkout.session.completed".toList ∨
    event.type = "customer.subscription.updated".toList

instance (event : StripeEvent) : Decidable (activates event) :=
  inferInstanceAs (Decidable (_ ∨ _))

/-- These are the branches of `apply_webhook_event` on the type of the event. -/
def handle (event : StripeEvent) (o : OrgColumns) : OrgColumns :=
  if activates event then
    setBilling o ((Dict.get? event.object.metadata "plan").getD o.plan) "active"
      (Audit.orElse event.object.subscription event.object.id) event.object.currentPeriodEnd
  else if event.type = "invoice.payment_failed".toList then setBilling o o.plan "past_due"
  else if event.type = "customer.subscription.deleted".toList then setBilling o "free" "canceled"
  else o

/-- An org keeps the ids of its newest events. -/
def seenWindow : Nat := 50

/-- This is the part of `apply_webhook_event` that keeps the id of the event. -/
def record (event : StripeEvent) (o : OrgColumns) : OrgColumns :=
  if event.id = [] then o
  else { o with billing := { o.billing with
    seenEvents := (o.billing.seenEvents ++ [event.id]).rtake seenWindow } }

/-- The event has an id that the org keeps. -/
def seen (event : StripeEvent) (o : OrgColumns) : Bool :=
  event.id ≠ [] && o.billing.seenEvents.contains event.id

/-- This is the commit of new columns, which the database may refuse. -/
def commit (o : BillingOrg) (columns : OrgColumns) : Option BillingOrg :=
  if stored : columns.storable = true then some { o with toOrgColumns := columns, stored := stored }
  else none

/-- This is what an event makes of the row of its org. -/
def applied (event : StripeEvent) (o : BillingOrg) : BillingOrg :=
  if seen event o.toOrgColumns then o
  else (commit o (record event (handle event o.toOrgColumns))).getD o

theorem applied_id (event : StripeEvent) (o : BillingOrg) : (applied event o).id = o.id := by
  unfold applied commit
  split
  · rfl
  · split <;> rfl

/-- This is `apply_webhook_event`. -/
def applyWebhookEvent (u : Unicode) (orgs : OrgTable) (event : StripeEvent) :
    Except WebhookError OrgTable :=
  match resolveOrg u orgs event.object with
  | .error e => .error e
  | .ok none => .ok orgs
  | .ok (some org) =>
      if seen event org.toOrgColumns then .ok orgs
      else match commit org (record event (handle event org.toOrgColumns)) with
        | some _ => .ok (orgs.update (fun o => o.id == org.id) (applied event) (applied_id event))
        | none => .error .databaseError

/-- An exception rolls the session back. -/
def deliver (u : Unicode) (orgs : OrgTable) (event : StripeEvent) : OrgTable :=
  (applyWebhookEvent u orgs event).toOption.getD orgs

end BillingService
end Kortex
