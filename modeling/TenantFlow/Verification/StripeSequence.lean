import Mathlib.Data.List.Pairwise
import TenantFlow.Verification.Footprint
import TenantFlow.Verification.Sample
import TenantFlow.Verification.Sequential

/-!
# Stripe events one after the other

What a sequence of events leaves in the subscription record of an organization when they
are processed one at a time: every column ends with the value that the last processed event
assigned to it. Nothing in the processing looks at creation times or at the subscription
the record stood for.
-/

namespace TenantFlow

open JsonText Transactional

/-! ## The columns of the record -/

inductive Column where
  | plan | status | stripeCustomerId | stripeSubscriptionId | currentPeriodEnd
  deriving DecidableEq, Repr

abbrev Column.Value : Column → Type
  | .plan => Plan
  | .status => SubscriptionStatus
  | .stripeCustomerId => Option String
  | .stripeSubscriptionId => Option String
  | .currentPeriodEnd => Option Datetime

def Subscription.get (s : Subscription) : (c : Column) → c.Value
  | .plan => s.plan
  | .status => s.status
  | .stripeCustomerId => s.stripeCustomerId
  | .stripeSubscriptionId => s.stripeSubscriptionId
  | .currentPeriodEnd => s.currentPeriodEnd

/-- The value that an event assigns to a column, if it assigns one. -/
def Assignments.get (a : Assignments) : (c : Column) → Option c.Value
  | .plan => a.plan
  | .status => a.status
  | .stripeCustomerId => a.stripeCustomerId
  | .stripeSubscriptionId => a.stripeSubscriptionId
  | .currentPeriodEnd => a.currentPeriodEnd.map some

/-- The values of all columns. -/
abbrev Columns : Type := (c : Column) → c.Value

/-- The defaults of a new record. -/
def Columns.initial : Columns
  | .plan => .free
  | .status => .inactive
  | .stripeCustomerId => none
  | .stripeSubscriptionId => none
  | .currentPeriodEnd => none

def Columns.assign (a : Assignments) (s : Columns) : Columns := fun c => (a.get c).getD (s c)

theorem Assignments.apply_get (a : Assignments) (s : Subscription) :
    (a.apply s).get = Columns.assign a s.get := by
  funext c
  cases c <;> simp only [Subscription.get, apply, Columns.assign, Assignments.get]
  cases a.currentPeriodEnd <;> rfl

instance (c : Column) : DecidableEq c.Value := by
  cases c <;> infer_instance

/-- A flush on an unchanged row leaves the assigned values. -/
theorem Subscription.patch_self_get (loaded new : Subscription) (updatedAt : Datetime) :
    (Subscription.patch loaded new updatedAt loaded).get = new.get := by
  funext c
  cases c <;> simp [get, patch]

theorem Subscription.get_eq_of_not_dirty {loaded new : Subscription}
    (h : Subscription.dirty loaded new = false) : new.get = loaded.get := by
  simp only [dirty, ne_eq, decide_not, Bool.or_eq_false_iff, Bool.not_eq_false',
    decide_eq_true_eq] at h
  funext c
  cases c <;> simp [get, h]

@[simp] theorem Subscription.patch_organizationId (loaded new : Subscription)
    (updatedAt : Datetime) (r : Subscription) :
    (Subscription.patch loaded new updatedAt r).organizationId = r.organizationId := rfl

@[simp] theorem Subscription.patch_id (loaded new : Subscription) (updatedAt : Datetime)
    (r : Subscription) : (Subscription.patch loaded new updatedAt r).id = r.id := rfl

/-! ## Columns under a flush -/

/-- The columns after a flush on `current` by a session that had read `loaded`. -/
def Columns.flushed (a : Assignments) (loaded current : Columns) : Columns :=
  fun c => if Columns.assign a loaded c = loaded c then current c else Columns.assign a loaded c

theorem Columns.flushed_self (a : Assignments) (s : Columns) :
    Columns.flushed a s s = Columns.assign a s := by
  funext c
  unfold flushed
  split
  · rename_i h
    exact h.symm
  · rfl

theorem Subscription.patch_get (loaded new : Subscription) (updatedAt : Datetime)
    (r : Subscription) (c : Column) :
    (Subscription.patch loaded new updatedAt r).get c =
      if new.get c = loaded.get c then r.get c else new.get c := by
  cases c <;> rfl

/-- The row after a flush on `current`, which is sent only if some attribute changed. -/
def Subscription.afterFlush (a : Assignments) (loaded : Subscription) (updatedAt : Datetime)
    (current : Subscription) : Subscription :=
  if Subscription.dirty loaded (a.apply loaded) then
    Subscription.patch loaded (a.apply loaded) updatedAt current
  else current

theorem Subscription.afterFlush_get (a : Assignments) (loaded : Subscription)
    (updatedAt : Datetime) (current : Subscription) :
    (Subscription.afterFlush a loaded updatedAt current).get =
      Columns.flushed a loaded.get current.get := by
  funext c
  unfold afterFlush Columns.flushed
  rw [← Assignments.apply_get]
  split
  · exact patch_get _ _ _ _ _
  · rename_i hclean
    have hsame : (a.apply loaded).get = loaded.get :=
      get_eq_of_not_dirty (by simpa using hclean)
    rw [hsame, if_pos rfl]

@[simp] theorem Subscription.afterFlush_id (a : Assignments) (loaded : Subscription)
    (updatedAt : Datetime) (current : Subscription) :
    (Subscription.afterFlush a loaded updatedAt current).id = current.id := by
  unfold afterFlush
  split <;> rfl

@[simp] theorem Subscription.afterFlush_organizationId (a : Assignments) (loaded : Subscription)
    (updatedAt : Datetime) (current : Subscription) :
    (Subscription.afterFlush a loaded updatedAt current).organizationId =
      current.organizationId := by
  unfold afterFlush
  split <;> rfl

/-! ## One event on the subscriptions table -/

/-- The record of an organization: its columns, if there is a row. -/
def recordOf (organizationId : UUID) (rows : List Subscription) : Option Columns :=
  (rows.find? (·.organizationId = organizationId)).map Subscription.get

/-- Distinct primary keys, as the table guarantees them. -/
def DistinctIds (rows : List Subscription) : Prop := rows.Pairwise fun r s => r.id ≠ s.id

/-- The row that `get_or_create_subscription` gives, and the table after it. -/
inductive Loads (organizationId : UUID) (rows : List Subscription) :
    Subscription → List Subscription → Prop where
  | found {loaded : Subscription}
      (h : rows.find? (·.organizationId = organizationId) = some loaded) :
      Loads organizationId rows loaded rows
  | created {loaded : Subscription}
      (h : rows.find? (·.organizationId = organizationId) = none)
      (horg : loaded.organizationId = organizationId) (hnew : loaded.get = Columns.initial)
      (hid : ∀ r ∈ rows, r.id ≠ loaded.id) : Loads organizationId rows loaded (rows ++ [loaded])

section Loads

variable {organizationId : UUID} {rows rows' : List Subscription} {loaded : Subscription}

theorem Loads.distinctIds (h : Loads organizationId rows loaded rows') (hd : DistinctIds rows) :
    DistinctIds rows' := by
  cases h with
  | found h => exact hd
  | created h horg hnew hid =>
    refine List.pairwise_append.mpr ⟨hd, List.pairwise_singleton _ _, ?_⟩
    intro r hr s hs
    rw [List.mem_singleton.mp hs]
    exact hid r hr

theorem Loads.find (h : Loads organizationId rows loaded rows') :
    rows'.find? (·.organizationId = organizationId) = some loaded ∧
      loaded.organizationId = organizationId := by
  cases h with
  | found h => exact ⟨h, by simpa using List.find?_some h⟩
  | created h horg hnew hid => exact ⟨by rw [List.find?_append, h]; simp [horg], horg⟩

theorem Loads.get (h : Loads organizationId rows loaded rows') :
    loaded.get = (recordOf organizationId rows).getD Columns.initial := by
  cases h with
  | found h => simp [recordOf, h]
  | created h horg hnew hid => simp [recordOf, h, hnew]

theorem Loads.other (h : Loads organizationId rows loaded rows') {other : UUID}
    (hne : other ≠ organizationId) : recordOf other rows' = recordOf other rows := by
  cases h with
  | found h => rfl
  | created h horg hnew hid =>
    unfold recordOf
    rw [List.find?_append]
    simp [horg, hne.symm]

end Loads

/-- The table after a loaded row was assigned to and flushed. -/
def changed (loaded : Subscription) (a : Assignments) (updatedAt : Datetime)
    (rows : List Subscription) : List Subscription :=
  if Subscription.dirty loaded (a.apply loaded) then
    rows.map fun r =>
      if r.id = loaded.id then Subscription.patch loaded (a.apply loaded) updatedAt r else r
  else rows

section Changed

variable {organizationId : UUID} {rows : List Subscription} {loaded : Subscription}
  (a : Assignments) (updatedAt : Datetime)

theorem DistinctIds.eq_of_id (hd : DistinctIds rows) {r s : Subscription} (hr : r ∈ rows)
    (hs : s ∈ rows) (h : r.id = s.id) : r = s := by
  have hsymm : Std.Symm fun r s : Subscription => r.id ≠ s.id := ⟨fun _ _ hne => hne.symm⟩
  by_contra hne
  exact List.Pairwise.forall hd hr hs hne h

theorem DistinctIds.changed (hd : DistinctIds rows) :
    DistinctIds (changed loaded a updatedAt rows) := by
  unfold TenantFlow.changed
  split
  · refine List.pairwise_map.mpr (hd.imp fun {r s} hne => ?_)
    split <;> split <;> simpa using hne
  · exact hd

/-- An assignment that keeps the organization of every row finds the same row as before. -/
theorem find?_map_organizationId {f : Subscription → Subscription}
    (hf : ∀ r, (f r).organizationId = r.organizationId) (rows : List Subscription) :
    (rows.map f).find? (·.organizationId = organizationId) =
      (rows.find? (·.organizationId = organizationId)).map f := by
  rw [List.find?_map]
  congr 2
  funext r
  simp [hf]

theorem changed_eq_map (loaded : Subscription) (rows : List Subscription) :
    changed loaded a updatedAt rows =
      rows.map fun r =>
        if r.id = loaded.id then Subscription.afterFlush a loaded updatedAt r else r := by
  unfold changed Subscription.afterFlush
  split
  · rfl
  · simp

/-- The flush is on the row as it is now, which may be another version of the one loaded. -/
theorem recordOf_changed_version (hd : DistinctIds rows) {current : Subscription}
    (hfind : rows.find? (·.organizationId = organizationId) = some current)
    (hid : current.id = loaded.id) (other : UUID) :
    recordOf other (changed loaded a updatedAt rows) =
      if other = organizationId then some (Columns.flushed a loaded.get current.get)
      else recordOf other rows := by
  have horg : current.organizationId = organizationId := by simpa using List.find?_some hfind
  have hkeep : ∀ r : Subscription,
      (if r.id = loaded.id then Subscription.afterFlush a loaded updatedAt r
        else r).organizationId = r.organizationId := by
    intro r
    split <;> simp
  rw [changed_eq_map, recordOf, find?_map_organizationId hkeep]
  split
  · rename_i heq
    rw [heq, hfind]
    simp [hid, Subscription.afterFlush_get]
  · rename_i hne
    unfold recordOf
    cases hother : rows.find? (·.organizationId = other) with
    | none => rfl
    | some r =>
      have hr : r.organizationId = other := by simpa using List.find?_some hother
      have hne' : r.id ≠ loaded.id := by
        intro hsame
        have heq := hd.eq_of_id (List.mem_of_find?_eq_some hother)
          (List.mem_of_find?_eq_some hfind) (hsame.trans hid.symm)
        exact hne (by rw [← hr, heq, horg])
      simp [hne']

theorem recordOf_changed (hd : DistinctIds rows)
    (hfind : rows.find? (·.organizationId = organizationId) = some loaded) (other : UUID) :
    recordOf other (changed loaded a updatedAt rows) =
      if other = organizationId then some (Columns.assign a loaded.get)
      else recordOf other rows := by
  rw [recordOf_changed_version a updatedAt hd hfind rfl, Columns.flushed_self]

end Changed

section Events

variable [Platform]

/-- The organization that a payload resolves to among the subscriptions `rows`. -/
def resolveIn (obj : List (String × Json)) (rows : List Subscription) : Option UUID :=
  match organizationIdRaw obj with
  | .error _ => none
  | .ok (some text) => UUID.ofString text
  | .ok none =>
    (extractCustomerId obj).bind fun customerId =>
      (rows.find? (·.stripeCustomerId = some customerId)).map (·.organizationId)

/-- What a processed event makes of the subscriptions. -/
inductive Applied (event : Event) (rows : List Subscription) : List Subscription → Prop where
  | unresolved {obj : List (String × Json)} (hobj : event.object = some obj)
      (hres : resolveIn obj rows = none) : Applied event rows rows
  | resolved {obj : List (String × Json)} {organizationId : UUID} {loaded : Subscription}
      {rows' : List Subscription} {assigned : Assignments} {updatedAt : Datetime}
      (hobj : event.object = some obj) (hres : resolveIn obj rows = some organizationId)
      (hload : Loads organizationId rows loaded rows')
      (hassigned : assignments event.type obj = .ok assigned) :
      Applied event rows (changed loaded assigned updatedAt rows')

section Runs

variable {oracle : Oracle Answer} {β : Type} {Q : β → Db Row → Prop} {db : Db Row}

omit [Platform] in
theorem ends_getOrCreateSubscription {organizationId : UUID} {f : Subscription → App β}
    (h : ∀ loaded db', Loads organizationId (db .subscriptions) loaded (db' .subscriptions) →
      Ends oracle Q (f loaded) db') :
    Ends oracle Q ((getOrCreateSubscription organizationId).bind f) db := by
  refine runs_select trivial ?_
  cases hfind : findSubscription organizationId db with
  | some loaded => exact h loaded db (.found hfind)
  | none =>
    refine runs_call trivial fun _ => runs_call trivial fun _ => runs_call trivial fun _ => ?_
    refine runs_insert trivial (fun hins => h _ _ ?_) fun _ => runs_raise _
    rw [apply_insert_self]
    refine .created hfind rfl ?_ ?_
    · funext c
      cases c <;> rfl
    · intro r hr hid
      have hclash := (insertable_ok hins).2 r hr
      simp only [clash, Bool.or_eq_false_iff, decide_eq_false_iff_not] at hclash
      exact hclash.1 hid.symm

theorem ends_resolveOrganizationId {obj : List (String × Json)} {f : Option UUID → App β}
    (h : Ends oracle Q (f (resolveIn obj (db .subscriptions))) db) :
    Ends oracle Q ((resolveOrganizationId obj).bind f) db := by
  unfold resolveOrganizationId
  unfold resolveIn at h
  cases hraw : organizationIdRaw obj with
  | error e => exact runs_raise e
  | ok raw =>
    cases raw with
    | some text =>
      simp only [hraw] at h
      simp only [Prog.bind_eq, Prog.ofExcept_ok, Prog.ret_bind]
      cases htext : UUID.ofString text with
      | none => exact runs_raise _
      | some organizationId =>
        rw [htext] at h
        exact h
    | none =>
      simp only [hraw] at h
      simp only [Prog.bind_eq, Prog.ofExcept_ok, Prog.ret_bind]
      cases hcustomer : extractCustomerId obj with
      | none =>
        rw [hcustomer] at h
        exact h
      | some customerId =>
        rw [hcustomer] at h
        exact runs_select trivial h

omit [Platform] in
theorem ends_flushSubscription {loaded : Subscription} {assigned : Assignments}
    {f : Option Datetime → App β}
    (h : ∀ updatedAt x db', db' .subscriptions =
        changed loaded assigned updatedAt (db .subscriptions) → Ends oracle Q (f x) db') :
    Ends oracle Q ((flush .subscriptions loaded.id
      (Subscription.dirty loaded (assigned.apply loaded))
      (Subscription.patch loaded (assigned.apply loaded))).bind f) db := by
  unfold flush
  split
  · rename_i hdirty
    refine runs_call trivial fun n => runs_update trivial ?_ (fun _ => runs_raise _)
    intro _
    refine h (oracle n .now) _ _ ?_
    rw [apply_update_self, changed, if_pos hdirty]
    rfl
  · rename_i hclean
    refine h 0 _ db ?_
    rw [changed, if_neg hclean]

theorem ends_applyStripeEvent {event : Event} {markerId organizationId : UUID}
    {obj : List (String × Json)} {rows : List Subscription} (hobj : event.object = some obj)
    (hres : resolveIn obj rows = some organizationId) (hrows : db .subscriptions = rows) :
    Ends oracle (fun _ db' => Applied event rows (db' .subscriptions))
      (applyStripeEvent event markerId organizationId obj) db := by
  subst hrows
  refine ends_getOrCreateSubscription fun loaded db₁ hload => ?_
  refine ends_ofExcept fun assigned hassigned => ?_
  refine ends_flushSubscription fun updatedAt _ db₂ hrows => ?_
  refine runs_call trivial fun _ => runs_call trivial fun _ => ?_
  refine runs_insert trivial (fun _ => runs_ret ?_) fun _ => runs_raise _
  have hkeep : ∀ (t : Table) (r : Row t), t ≠ .subscriptions →
      (Op.insert t r : Op Row UUID).apply db₂ .subscriptions = db₂ .subscriptions :=
    fun t r ht => apply_of_table_ne db₂ ht
  rw [hkeep _ _ (by decide), hrows]
  exact .resolved hobj hres hload hassigned

theorem ends_handleStripeEvent {event : Event} {markerId : UUID} {rows : List Subscription}
    (hrows : db .subscriptions = rows) :
    Ends oracle (fun _ db' => Applied event rows (db' .subscriptions))
      (handleStripeEvent event markerId) db := by
  subst hrows
  unfold handleStripeEvent
  cases hobj : event.object with
  | none => exact runs_raise _
  | some obj =>
    refine ends_resolveOrganizationId ?_
    cases hres : resolveIn obj (db .subscriptions) with
    | none => exact runs_ret (.unresolved hobj hres)
    | some organizationId => exact ends_applyStripeEvent hobj hres rfl

/-- Alone, a processed event changes the subscriptions as `Applied` says, a duplicate not. -/
theorem ends_processStripeEvent (event : Event) (db : Db Row) :
    Ends oracle (fun processed db' =>
        if processed then Applied event (db .subscriptions) (db' .subscriptions)
        else db' .subscriptions = db .subscriptions)
      (processStripeEvent event) db := by
  refine runs_call trivial fun _ => runs_call trivial fun id => ?_
  refine runs_insertOnConflict trivial (fun _ _ => ?_) (fun _ => runs_ret rfl) fun _ => runs_raise _
  have hmarked : ∀ r : StripeEvent,
      (Op.insert .stripeEvents r : Op Row UUID).apply db .subscriptions = db .subscriptions :=
    fun r => apply_of_table_ne db (show Table.stripeEvents ≠ .subscriptions by decide)
  refine runs_bind (p := handleStripeEvent event _) ?_
  exact (ends_handleStripeEvent (hmarked _)).mono fun _ _ h => runs_ret h

end Runs

/-! ## Sequences of events -/

/-- A delivery: the event and the external answers its processing receives. -/
abbrev Delivery : Type := Event × Oracle Answer

def process (d : Delivery) (db : Db Row) : Except Failure Bool × Db Row :=
  transaction d.2 (processStripeEvent d.1) db

/-- The database after the deliveries, one after the other. -/
def processAll (deliveries : List Delivery) (db : Db Row) : Db Row :=
  deliveries.foldl (fun db d => (process d db).2) db

/-- The event was processed now, for this organization. -/
def ProcessedFor (organizationId : UUID) (d : Delivery) (db : Db Row) : Prop :=
  (process d db).1 = .ok true ∧
    (d.1.object.bind fun obj => resolveIn obj (db .subscriptions)) = some organizationId

instance (organizationId : UUID) (d : Delivery) (db : Db Row) :
    Decidable (ProcessedFor organizationId d db) :=
  inferInstanceAs (Decidable (_ ∧ _))

/-- The events of a sequence that were processed for an organization, in order. -/
def processedFor (organizationId : UUID) : List Delivery → Db Row → List Event
  | [], _ => []
  | d :: deliveries, db =>
    if ProcessedFor organizationId d db then
      d.1 :: processedFor organizationId deliveries (process d db).2
    else processedFor organizationId deliveries (process d db).2

/-- What an event assigns, where its payload can be read. -/
def Event.assigned (event : Event) : Assignments :=
  match event.object with
  | none => {}
  | some obj =>
    match assignments event.type obj with
    | .ok a => a
    | .error _ => {}

/-- The columns of an organization's record; without a row, those of a new record. -/
def columnsOf (organizationId : UUID) (db : Db Row) : Columns :=
  (recordOf organizationId (db .subscriptions)).getD Columns.initial

/-- The value of the last event that assigns to the column. -/
def lastAssigned (c : Column) (events : List Event) : Option c.Value :=
  (events.filterMap fun e => e.assigned.get c).getLast?

theorem Applied.distinctIds {event : Event} {rows rows' : List Subscription}
    (h : Applied event rows rows') (hd : DistinctIds rows) : DistinctIds rows' := by
  cases h with
  | unresolved hobj hres => exact hd
  | resolved hobj hres hload hassigned => exact (hload.distinctIds hd).changed _ _

/-- An event changes the record of the organization it resolves to, and no other. -/
theorem Applied.record {event : Event} {rows rows' : List Subscription}
    (h : Applied event rows rows') (hd : DistinctIds rows) (organizationId : UUID) :
    recordOf organizationId rows' =
      if (event.object.bind fun obj => resolveIn obj rows) = some organizationId then
        some (Columns.assign event.assigned ((recordOf organizationId rows).getD Columns.initial))
      else recordOf organizationId rows := by
  cases h with
  | unresolved hobj hres => simp [hobj, hres]
  | @resolved obj resolved loaded rows₁ assigned updatedAt hobj hres hload hassigned =>
    have hevent : event.assigned = assigned := by simp [Event.assigned, hobj, hassigned]
    rw [recordOf_changed _ _ (hload.distinctIds hd) hload.find.1, hobj, Option.bind_some, hres,
      hevent]
    by_cases heq : organizationId = resolved
    · simp [heq, hload.get]
    · simp [heq, Ne.symm heq, hload.other heq]

/-- Where an organization resolved, what the event assigns could be read. -/
theorem Applied.assigned_ok {event : Event} {rows rows' : List Subscription}
    {organizationId : UUID} (h : Applied event rows rows')
    (hres : (event.object.bind fun obj => resolveIn obj rows) = some organizationId) :
    ∃ obj, event.object = some obj ∧ assignments event.type obj = .ok event.assigned := by
  cases h with
  | unresolved hobj hnone => simp [hobj, hnone] at hres
  | @resolved obj _ _ _ _ _ hobj _ hload hassigned =>
    exact ⟨obj, hobj, by simp [Event.assigned, hobj, hassigned]⟩

variable {organizationId : UUID} {d : Delivery} {deliveries : List Delivery} {db : Db Row}

theorem process_error {e : Failure} (h : (process d db).1 = .error e) : (process d db).2 = db :=
  transaction_error h

theorem process_ok {processed : Bool} (h : (process d db).1 = .ok processed) :
    if processed then Applied d.1 (db .subscriptions) ((process d db).2 .subscriptions)
    else (process d db).2 .subscriptions = db .subscriptions :=
  (ends_processStripeEvent d.1 db).transaction h

/-- Step lemma: the keys of the table stay distinct. -/
theorem distinctIds_process (d : Delivery) (hd : DistinctIds (db .subscriptions)) :
    DistinctIds ((process d db).2 .subscriptions) := by
  cases hres : (process d db).1 with
  | error e => rwa [process_error hres]
  | ok processed =>
    have happlied := process_ok hres
    cases processed with
    | true => exact Applied.distinctIds happlied hd
    | false =>
      have hsame : (process d db).2 .subscriptions = db .subscriptions := by simpa using happlied
      rwa [hsame]

/-- Step lemma: a delivery assigns over the record it is processed for. -/
theorem columnsOf_process (d : Delivery) (hd : DistinctIds (db .subscriptions))
    (organizationId : UUID) :
    columnsOf organizationId (process d db).2 =
      if ProcessedFor organizationId d db then
        Columns.assign d.1.assigned (columnsOf organizationId db)
      else columnsOf organizationId db := by
  obtain ⟨result, hres⟩ : ∃ result, (process d db).1 = result := ⟨_, rfl⟩
  simp only [ProcessedFor, hres]
  cases result with
  | error e => simp [process_error hres]
  | ok processed =>
    have happlied := process_ok hres
    cases processed with
    | true =>
      unfold columnsOf
      rw [Applied.record happlied hd organizationId]
      simp only [true_and]
      split <;> rfl
    | false =>
      have hsame : (process d db).2 .subscriptions = db .subscriptions := by simpa using happlied
      simp [columnsOf, hsame]

theorem distinctIds_processAll (hd : DistinctIds (db .subscriptions))
    (deliveries : List Delivery) : DistinctIds (processAll deliveries db .subscriptions) := by
  induction deliveries generalizing db with
  | nil => exact hd
  | cons d deliveries ih => exact ih (distinctIds_process d hd)

theorem lastAssigned_cons (c : Column) (event : Event) (events : List Event) (x : c.Value) :
    (lastAssigned c (event :: events)).getD x =
      (lastAssigned c events).getD ((event.assigned.get c).getD x) := by
  unfold lastAssigned
  cases h : event.assigned.get c with
  | none => simp [h]
  | some y => simp [h, List.getLast?_cons]

/-- Run lemma: every column ends with the value last assigned to it. -/
theorem columnsOf_processAll (hd : DistinctIds (db .subscriptions)) (organizationId : UUID)
    (deliveries : List Delivery) (c : Column) :
    columnsOf organizationId (processAll deliveries db) c =
      (lastAssigned c (processedFor organizationId deliveries db)).getD
        (columnsOf organizationId db c) := by
  induction deliveries generalizing db with
  | nil => rfl
  | cons d deliveries ih =>
    have hstep : processAll (d :: deliveries) db = processAll deliveries (process d db).2 := rfl
    rw [hstep, ih (distinctIds_process d hd), columnsOf_process d hd, processedFor]
    split
    · rw [lastAssigned_cons]
      rfl
    · rfl

/-! ## The order of delivery -/

theorem lastAssigned_isSome (c : Column) (events : List Event) :
    (lastAssigned c events).isSome ↔ ∃ e ∈ events, (e.assigned.get c).isSome := by
  simp [lastAssigned, List.isSome_findSome?]

/-- The event types that change a subscription. -/
def IsBillingEvent (event : Event) : Prop :=
  event.type = "checkout.session.completed" ∨ isSubscriptionEvent event.type = true ∨
    event.type = "invoice.payment_failed"

/-- Delivering the events of an organization in another order than they were created makes
no difference for its record. -/
def OrderIndependent : Prop :=
  ∀ (organizationId : UUID) (db : Db Row) (inOrder other : List Delivery),
    DistinctIds (db .subscriptions) → (∀ d ∈ inOrder, IsBillingEvent d.1) →
    inOrder.Pairwise (fun d d' => d.1.created < d'.1.created) →
    inOrder.Pairwise (fun d d' => d.1.id ≠ d'.1.id) →
    (other.map Prod.fst).Perm (inOrder.map Prod.fst) →
    processedFor organizationId inOrder db = inOrder.map Prod.fst →
    processedFor organizationId other db = other.map Prod.fst →
    columnsOf organizationId (processAll other db) =
      columnsOf organizationId (processAll inOrder db)

/-- Every column ends with the value last assigned to it, in the order of delivery. Two orders
of the same events end alike exactly if they agree, column by column, on that value. -/
theorem columns_by_last_assignment (hd : DistinctIds (db .subscriptions)) (organizationId : UUID)
    (deliveries other : List Delivery) :
    (∀ c, columnsOf organizationId (processAll deliveries db) c =
      (lastAssigned c (processedFor organizationId deliveries db)).getD
        (columnsOf organizationId db c)) ∧
    ((processedFor organizationId other db).Perm (processedFor organizationId deliveries db) →
      (columnsOf organizationId (processAll other db) =
          columnsOf organizationId (processAll deliveries db) ↔
        ∀ c, lastAssigned c (processedFor organizationId other db) =
          lastAssigned c (processedFor organizationId deliveries db))) := by
  refine ⟨columnsOf_processAll hd organizationId deliveries, fun hperm => ⟨fun heq c => ?_, ?_⟩⟩
  · have hc := congrFun heq c
    rw [columnsOf_processAll hd, columnsOf_processAll hd] at hc
    have hsome : (lastAssigned c (processedFor organizationId other db)).isSome ↔
        (lastAssigned c (processedFor organizationId deliveries db)).isSome := by
      simp only [lastAssigned_isSome, hperm.mem_iff]
    cases hl : lastAssigned c (processedFor organizationId other db) <;>
      cases hr : lastAssigned c (processedFor organizationId deliveries db) <;>
      simp_all
  · intro hlast
    funext c
    rw [columnsOf_processAll hd, columnsOf_processAll hd, hlast c]

theorem processedFor_sublist (organizationId : UUID) (deliveries : List Delivery) (db : Db Row) :
    (processedFor organizationId deliveries db).Sublist (deliveries.map Prod.fst) := by
  induction deliveries generalizing db with
  | nil => exact .slnil
  | cons d deliveries ih =>
    unfold processedFor
    split
    · exact (ih _).cons_cons _
    · exact (ih _).cons _

theorem processedFor_eq_of_length {deliveries : List Delivery}
    (h : (processedFor organizationId deliveries db).length = deliveries.length) :
    processedFor organizationId deliveries db = deliveries.map Prod.fst :=
  (processedFor_sublist organizationId deliveries db).eq_of_length (by simpa using h)

end Events

section Sample

attribute [local instance] samplePlatform

/-- An event about a Stripe subscription of the sample organization. -/
def sampleSubscriptionEvent (eventId kind subscriptionId status : String)
    (created subscriptionCreated : Int) : Event where
  id := eventId
  type := "customer.subscription." ++ kind
  created := created
  object := some [("id", .str subscriptionId), ("customer", .str "cus_1"),
    ("status", .str status), ("created", .int subscriptionCreated),
    ("metadata", .obj [("organization_id", .str "00000000-0000-0000-0000-000000000002")])]

def sampleActive : Delivery :=
  (sampleSubscriptionEvent "evt_1" "updated" "sub_1" "active" 1 1, sampleOracle)

def sampleDeleted : Delivery :=
  (sampleSubscriptionEvent "evt_2" "deleted" "sub_1" "canceled" 2 1, otherOracle 100)

theorem all_processed_in_order : processedFor sampleOrganization.id [sampleActive, sampleDeleted]
    sampleDb = [sampleActive, sampleDeleted].map Prod.fst :=
  processedFor_eq_of_length (by decide +kernel)

theorem all_processed_swapped : processedFor sampleOrganization.id [sampleDeleted, sampleActive]
    sampleDb = [sampleDeleted, sampleActive].map Prod.fst :=
  processedFor_eq_of_length (by decide +kernel)

theorem statuses_by_order :
    columnsOf sampleOrganization.id (processAll [sampleActive, sampleDeleted] sampleDb) .status =
        .cancelled ∧
      columnsOf sampleOrganization.id (processAll [sampleDeleted, sampleActive] sampleDb) .status =
        .active := by
  decide +kernel

/-- A late `updated` event revives a subscription that was deleted after it. -/
theorem not_orderIndependent : ¬ OrderIndependent := by
  intro h
  have hcols := congrFun (h sampleOrganization.id sampleDb [sampleActive, sampleDeleted]
    [sampleDeleted, sampleActive] List.Pairwise.nil (by simp [IsBillingEvent]; decide) (by decide)
    (by decide) (.swap _ _ []) all_processed_in_order all_processed_swapped) .status
  rw [statuses_by_order.1, statuses_by_order.2] at hcols
  cases hcols

/-- The two orders of the sample events are told apart by the last values assigned. -/
theorem columns_by_last_assignment_swapped :
    columnsOf sampleOrganization.id (processAll [sampleDeleted, sampleActive] sampleDb) =
        columnsOf sampleOrganization.id (processAll [sampleActive, sampleDeleted] sampleDb) ↔
      ∀ c, lastAssigned c (processedFor sampleOrganization.id [sampleDeleted, sampleActive]
          sampleDb) =
        lastAssigned c (processedFor sampleOrganization.id [sampleActive, sampleDeleted]
          sampleDb) := by
  have hd : DistinctIds (sampleDb .subscriptions) := List.Pairwise.nil
  refine (columns_by_last_assignment hd sampleOrganization.id
    [sampleActive, sampleDeleted] [sampleDeleted, sampleActive]).2 ?_
  rw [all_processed_in_order, all_processed_swapped]
  exact .swap _ _ []

end Sample

/-! ## Several subscriptions of one organization -/

section Several

variable [Platform] {organizationId : UUID} {d : Delivery} {db : Db Row}

/-- The Stripe subscription that an event is about. -/
def subscriptionIdOf (event : Event) : Option String :=
  event.object.bind fun obj => getText obj "id"

/-- When Stripe created the subscription that an event is about. -/
def subscriptionCreated (event : Event) : Option Int :=
  event.object.bind fun obj =>
    match lookup obj "created" with
    | some (.int n) => some n
    | _ => none

/-- The status that an event reports. -/
def reportedStatus (event : Event) : SubscriptionStatus :=
  if event.type = "customer.subscription.deleted" then .cancelled
  else subscriptionState
    (((event.object.bind fun obj => lookup obj "status").map pyStr).getD "inactive")

/-- The last event about `subscriptionId` among the events processed for the organization. -/
def lastAbout (subscriptionId : String) (events : List Event) : Option Event :=
  (events.filter fun e =>
    isSubscriptionEvent e.type && decide (subscriptionIdOf e = some subscriptionId)).getLast?

/-- An event about an older subscription leaves the record of the current one as it is, as
long as the current one was last reported active or trialing. -/
def SupersededEventsIgnored : Prop :=
  ∀ (organizationId : UUID) (db : Db Row) (history : List Delivery) (d : Delivery)
    (current : String) (last : Event) (t t' : Int),
    DistinctIds (db .subscriptions) →
    (history ++ [d]).Pairwise (fun d d' => d.1.created < d'.1.created) →
    columnsOf organizationId (processAll history db) .stripeSubscriptionId = some current →
    lastAbout current (processedFor organizationId history db) = some last →
    (reportedStatus last = .active ∨ reportedStatus last = .trialing) →
    ProcessedFor organizationId d (processAll history db) →
    isSubscriptionEvent d.1.type = true → subscriptionIdOf d.1 ≠ some current →
    subscriptionCreated d.1 = some t → subscriptionCreated last = some t' → t < t' →
    ∀ c ∈ [Column.status, .plan, .stripeSubscriptionId],
      columnsOf organizationId (processAll (history ++ [d]) db) c =
        columnsOf organizationId (processAll history db) c

theorem assignments_of_subscription {eventType : String} {obj : List (String × Json)}
    {a : Assignments} (hsub : isSubscriptionEvent eventType = true)
    (h : assignments eventType obj = .ok a) :
    ∃ price, firstPriceId obj = .ok price ∧ a.plan = planOfPrice price ∧
      a.stripeSubscriptionId = some (getText obj "id") ∧
      a.status = some (if eventType = "customer.subscription.deleted" then .cancelled
        else subscriptionState (((lookup obj "status").map pyStr).getD "inactive")) := by
  have hne : eventType ≠ "checkout.session.completed" := by
    rintro rfl
    revert hsub
    decide
  simp only [assignments, hne, hsub, ↓reduceIte] at h
  cases hprice : firstPriceId obj with
  | error e => simp [hprice, Bind.bind, Except.bind] at h
  | ok price =>
    cases hend : periodEnd obj with
    | error e => simp [hprice, hend, Bind.bind, Except.bind] at h
    | ok end_ =>
      simp only [hprice, hend, Bind.bind, Except.bind, Except.pure, Pure.pure, Except.ok.injEq] at h
      subst h
      exact ⟨price, rfl, rfl, rfl, rfl⟩

/-- After any history, a processed subscription event takes the record over, whichever
subscription the record stood for. -/
theorem subscription_event_takes_over (hd : DistinctIds (db .subscriptions))
    (history : List Delivery) (hsub : isSubscriptionEvent d.1.type = true)
    (hp : ProcessedFor organizationId d (processAll history db)) :
    ∃ obj price, d.1.object = some obj ∧ firstPriceId obj = .ok price ∧
      columnsOf organizationId (processAll (history ++ [d]) db) .stripeSubscriptionId =
        subscriptionIdOf d.1 ∧
      columnsOf organizationId (processAll (history ++ [d]) db) .status = reportedStatus d.1 ∧
      columnsOf organizationId (processAll (history ++ [d]) db) .plan =
        (planOfPrice price).getD (columnsOf organizationId (processAll history db) .plan) := by
  have hlast : processAll (history ++ [d]) db = (process d (processAll history db)).2 := by
    simp [processAll, List.foldl_append]
  have hcols := columnsOf_process d (distinctIds_processAll hd history) organizationId
  rw [if_pos hp, ← hlast] at hcols
  obtain ⟨obj, hobj, hassigned⟩ := Applied.assigned_ok (process_ok hp.1) hp.2
  obtain ⟨price, hprice, hplan, hid, hstatus⟩ := assignments_of_subscription hsub hassigned
  refine ⟨obj, price, hobj, hprice, ?_, ?_, ?_⟩ <;> rw [hcols]
  · simp [Columns.assign, Assignments.get, hid, subscriptionIdOf, hobj]
  · simp [Columns.assign, Assignments.get, hstatus, reportedStatus, hobj]
  · simp [Columns.assign, Assignments.get, hplan]

end Several

section Sample

attribute [local instance] samplePlatform

/-- A second subscription starts, then the first one is deleted. -/
def sampleSecond : Delivery :=
  (sampleSubscriptionEvent "evt_2" "created" "sub_2" "active" 2 2, otherOracle 100)

def sampleFirstDeleted : Delivery :=
  (sampleSubscriptionEvent "evt_3" "deleted" "sub_1" "canceled" 3 1, otherOracle 200)

theorem sampleFirstDeleted_processed : ProcessedFor sampleOrganization.id sampleFirstDeleted
    (processAll [sampleActive, sampleSecond] sampleDb) := by
  decide +kernel

theorem second_is_current :
    columnsOf sampleOrganization.id (processAll [sampleActive, sampleSecond] sampleDb) =
      fun | .plan => .free | .status => .active | .stripeCustomerId => some "cus_1"
          | .stripeSubscriptionId => some "sub_2" | .currentPeriodEnd => none := by
  funext c
  cases c <;> decide +kernel

/-- Deleting the older subscription marks the organization of the newer one as cancelled. -/
theorem not_supersededEventsIgnored : ¬ SupersededEventsIgnored := by
  intro h
  have hhistory : processedFor sampleOrganization.id [sampleActive, sampleSecond] sampleDb =
      [sampleActive, sampleSecond].map Prod.fst := processedFor_eq_of_length (by decide +kernel)
  have hkeep := h sampleOrganization.id sampleDb [sampleActive, sampleSecond] sampleFirstDeleted
    "sub_2" sampleSecond.1 1 2 List.Pairwise.nil (by decide) (by rw [second_is_current])
    (by rw [hhistory]; rfl) (.inl (by decide)) sampleFirstDeleted_processed (by decide) (by decide)
    rfl rfl (by decide) .status (by decide)
  rw [second_is_current] at hkeep
  have hafter : columnsOf sampleOrganization.id
      (processAll ([sampleActive, sampleSecond] ++ [sampleFirstDeleted]) sampleDb) .status =
        .cancelled := by decide +kernel
  rw [hafter] at hkeep
  cases hkeep

/-- The deletion of the first subscription takes the record of the second one over. -/
theorem first_subscription_takes_over :
    ∃ obj price, sampleFirstDeleted.1.object = some obj ∧ firstPriceId obj = .ok price ∧
      columnsOf sampleOrganization.id
        (processAll ([sampleActive, sampleSecond] ++ [sampleFirstDeleted]) sampleDb)
          .stripeSubscriptionId = subscriptionIdOf sampleFirstDeleted.1 ∧
      columnsOf sampleOrganization.id
        (processAll ([sampleActive, sampleSecond] ++ [sampleFirstDeleted]) sampleDb) .status =
          reportedStatus sampleFirstDeleted.1 ∧
      columnsOf sampleOrganization.id
        (processAll ([sampleActive, sampleSecond] ++ [sampleFirstDeleted]) sampleDb) .plan =
          (planOfPrice price).getD (columnsOf sampleOrganization.id
            (processAll [sampleActive, sampleSecond] sampleDb) .plan) := by
  have hd : DistinctIds (sampleDb .subscriptions) := List.Pairwise.nil
  exact subscription_event_takes_over hd [sampleActive, sampleSecond] (by decide)
    sampleFirstDeleted_processed

end Sample

end TenantFlow
