import TenantFlow.Verification.StripeOnce
import TenantFlow.Verification.StripeOverlap

/-!
# Overlapping Stripe events that do happen

Every record that `StripeOverlap` allows for two overlapping events is left by some run, as
long as the database accepts the two events one after the other. So two events can be
overlapped without harm exactly if they are `Harmless`.
-/

namespace TenantFlow

open JsonText Transactional

section Runs

variable [Platform]

/-! ## What the database accepts -/

/-- The value can be stored in the column, and no unique index has it for another row. -/
def Fits (db : Db Row) (row : Subscription) : (c : Column) → c.Value → Prop
  | .stripeCustomerId, v => v.all (varchar 255) = true ∧
      ∀ r ∈ db .subscriptions, r.id ≠ row.id → sameValue v r.stripeCustomerId = false
  | .stripeSubscriptionId, v => v.all (varchar 255) = true ∧
      ∀ r ∈ db .subscriptions, r.id ≠ row.id → sameValue v r.stripeSubscriptionId = false
  | .plan, _ => True
  | .status, _ => True
  | .currentPeriodEnd, _ => True

variable {events : Bool → Event} {db view : Db Row} {organizationId : UUID}
  {row x : Subscription}

theorem ForOne.hasOrganization (h : ForOne events db organizationId row) :
    hasOrganization db organizationId = true := by
  have hcheck := h.consistent.checks .subscriptions row h.row_mem
  rw [← h.row_organizationId]
  exact (check_eq_none_iff.mp hcheck).2.2

theorem ForOne.other_organization (h : ForOne events db organizationId row) {r : Subscription}
    (hr : r ∈ db .subscriptions) (hid : r.id ≠ row.id) : r.organizationId ≠ organizationId := by
  intro horg
  have hclash := h.consistent.unique .subscriptions r hr row h.row_mem hid
  simp [clash, uniqueClash, horg, h.row_organizationId] at hclash

/-- A version of the row is acceptable exactly if its values fit, column by column. -/
theorem ForOne.acceptable_iff (h : ForOne events db organizationId row)
    (horgs : view .organizations = db .organizations) (hx : IsVersion row x) :
    (Schema.check view (t := Table.subscriptions) x = none ∧
      ∀ r ∈ db .subscriptions, r.id ≠ row.id → clash (t := Table.subscriptions) x r = false) ↔
      ∀ c, Fits db row c (x.get c) := by
  have horg : TenantFlow.hasOrganization view x.organizationId = true := by
    rw [hx.organizationId, h.row_organizationId, TenantFlow.hasOrganization, horgs]
    exact h.hasOrganization
  have hclash : ∀ r ∈ db .subscriptions, r.id ≠ row.id →
      (clash (t := Table.subscriptions) x r = false ↔
        sameValue x.stripeCustomerId r.stripeCustomerId = false ∧
        sameValue x.stripeSubscriptionId r.stripeSubscriptionId = false) := by
    intro r hr hid
    have hne : x.id ≠ r.id := by
      rw [hx.id]
      exact hid.symm
    have horg' : x.organizationId ≠ r.organizationId := by
      rw [hx.organizationId, h.row_organizationId]
      exact (h.other_organization hr hid).symm
    simp [clash, primaryKey, uniqueClash, hne, horg']
  constructor
  · rintro ⟨hcheck, hnone⟩ c
    have hcols : x.stripeCustomerId.all (varchar 255) = true ∧
        x.stripeSubscriptionId.all (varchar 255) = true := by
      simpa [columnsOk] using (check_eq_none_iff.mp hcheck).1
    cases c with
    | stripeCustomerId => exact ⟨hcols.1, fun r hr hid => ((hclash r hr hid).mp (hnone r hr hid)).1⟩
    | stripeSubscriptionId =>
      exact ⟨hcols.2, fun r hr hid => ((hclash r hr hid).mp (hnone r hr hid)).2⟩
    | plan => trivial
    | status => trivial
    | currentPeriodEnd => trivial
  · intro hfits
    have hcustomer := hfits .stripeCustomerId
    have hsubscription := hfits .stripeSubscriptionId
    refine ⟨?_, fun r hr hid => (hclash r hr hid).mpr
      ⟨hcustomer.2 r hr hid, hsubscription.2 r hr hid⟩⟩
    have h1 : x.stripeCustomerId.all (varchar 255) = true := hcustomer.1
    have h2 : x.stripeSubscriptionId.all (varchar 255) = true := hsubscription.1
    exact check_eq_none_iff.mpr ⟨by simp [columnsOk, h1, h2], rfl, horg⟩

theorem ForOne.row_fits (h : ForOne events db organizationId row) (c : Column) :
    Fits db row c (row.get c) := by
  refine (h.acceptable_iff rfl (.refl row)).mp ⟨h.consistent.checks .subscriptions row h.row_mem,
    fun r hr hid => ?_⟩ c
  exact h.consistent.unique .subscriptions row h.row_mem r hr hid.symm

omit [Platform] in
theorem find?_id {rows : List Subscription} (hd : DistinctIds rows) (hrow : row ∈ rows) :
    rows.find? (·.id = row.id) = some row := by
  cases hfind : rows.find? (·.id = row.id) with
  | none => simpa using List.find?_eq_none.mp hfind row hrow
  | some r =>
    have hid : r.id = row.id := by simpa using List.find?_some hfind
    rw [hd.eq_of_id (List.mem_of_find?_eq_some hfind) hrow hid]

/-- An assignment to the row is accepted exactly if the new values fit. -/
theorem ForOne.updatable_iff (h : ForOne events db organizationId row)
    (horgs : view .organizations = db .organizations) (hx : IsVersion row x)
    (htable : view .subscriptions = withRow x (db .subscriptions))
    {f : Subscription → Subscription} (hf : IsVersion row (f x)) :
    updatable view .subscriptions row.id f = .ok () ↔ ∀ c, Fits db row c ((f x).get c) := by
  rw [← h.acceptable_iff horgs hf]
  have hfind : (view .subscriptions).find? (fun r => pk (t := Table.subscriptions) r = row.id) =
      some x := by
    rw [htable]
    exact find?_withRow h.distinctIds (find?_id h.distinctIds h.row_mem) hx.id
      (decide_eq_true hx.id)
  have hothers : (∀ r ∈ view .subscriptions, r.id ≠ row.id →
        clash (t := Table.subscriptions) (f x) r = false) ↔
      ∀ r ∈ db .subscriptions, r.id ≠ row.id →
        clash (t := Table.subscriptions) (f x) r = false := by
    rw [htable, withRow]
    simp only [List.forall_mem_map]
    refine forall₂_congr fun r _ => ?_
    by_cases hid : r.id = x.id
    · simp [hid, hx.id]
    · simp [hid]
  constructor
  · intro hup
    obtain ⟨r, hr, hcheck, hclash⟩ := updatable_ok hup
    obtain rfl : r = x := Option.some.inj (hr.symm.trans hfind)
    exact ⟨hcheck, hothers.mp hclash⟩
  · rintro ⟨hcheck, hclash⟩
    exact updatable_of hfind hcheck (hothers.mpr hclash)

/-! ## What a processed event shows about the database -/

/-- The texts of the marker and of the audit row of an event can be stored. -/
structure Event.Storable (event : Event) : Prop where
  marker : varchar 255 event.id = true ∧ varchar 160 event.type = true
  audit : storableFields
    [("stripe_event_id", .str event.id), ("event_type", .str event.type)] = true

/-- An event was accepted on `db` and left `db'`, with these ids for its marker and its audit
row. -/
structure Accepted (event : Event) (db db' : Db Row) (markerId auditId : UUID) : Prop where
  storable : event.Storable
  marker_fresh : ∀ r ∈ db .stripeEvents, r.id ≠ markerId ∧ r.stripeEventId ≠ event.id
  marker : ∃ r ∈ db' .stripeEvents, r.id = markerId ∧ r.stripeEventId = event.id
  markers_kept : ∀ r ∈ db .stripeEvents, r ∈ db' .stripeEvents
  audit_fresh : ∀ r ∈ db .auditLogs, r.id ≠ auditId
  audit : ∃ r ∈ db' .auditLogs, r.id = auditId
  audits_kept : ∀ r ∈ db .auditLogs, r ∈ db' .auditLogs
  organizations : db' .organizations = db .organizations

omit [Platform] in
theorem marker_insertable_iff {markerId : UUID} {event : Event} {processedAt : Datetime} :
    (view .stripeEvents).any (sameStripeEventId ⟨markerId, event.id, event.type, processedAt⟩) =
        false ∧
      insertable (t := Table.stripeEvents) view ⟨markerId, event.id, event.type, processedAt⟩ =
        .ok () ↔
    (varchar 255 event.id = true ∧ varchar 160 event.type = true) ∧
      ∀ r ∈ view .stripeEvents, r.id ≠ markerId ∧ r.stripeEventId ≠ event.id := by
  constructor
  · rintro ⟨_, hins⟩
    obtain ⟨hcheck, hclash⟩ := insertable_ok hins
    refine ⟨by simpa [columnsOk] using (check_eq_none_iff.mp hcheck).1, fun r hr => ?_⟩
    have hr' := hclash r hr
    simp only [clash, uniqueClash, Bool.or_eq_false_iff, decide_eq_false_iff_not,
      beq_eq_false_iff_ne] at hr'
    exact ⟨fun h => hr'.1 h.symm, fun h => hr'.2 h.symm⟩
  · rintro ⟨hstore, hfresh⟩
    refine ⟨?_, insertable_of (check_eq_none_iff.mpr ⟨by simp [columnsOk, hstore], rfl, rfl⟩) ?_⟩
    · rw [List.any_eq_false]
      intro r hr hsame
      exact (hfresh r hr).2 (of_decide_eq_true hsame).symm
    · intro r hr
      simp only [clash, uniqueClash, Bool.or_eq_false_iff, decide_eq_false_iff_not,
        beq_eq_false_iff_ne]
      exact ⟨fun h => (hfresh r hr).1 h.symm, fun h => (hfresh r hr).2 h.symm⟩

omit [Platform] in
theorem audit_insertable_iff {log : AuditLog} (hactor : log.actorId = none)
    (horg : hasOrganization view log.organizationId = true)
    (hnames : varchar 160 log.action = true ∧ varchar 120 log.entityType = true) :
    insertable (t := Table.auditLogs) view log = .ok () ↔
      storableFields log.metadata = true ∧ ∀ r ∈ view .auditLogs, r.id ≠ log.id := by
  constructor
  · intro hins
    obtain ⟨hcheck, hclash⟩ := insertable_ok hins
    have hcols := (check_eq_none_iff.mp hcheck).1
    simp only [columnsOk, Bool.and_eq_true] at hcols
    refine ⟨hcols.2, fun r hr h => ?_⟩
    have hr' := hclash r hr
    simp only [clash, Bool.or_eq_false_iff, decide_eq_false_iff_not] at hr'
    exact hr'.1 h.symm
  · rintro ⟨hstore, hfresh⟩
    refine insertable_of (check_eq_none_iff.mpr ⟨?_, rfl, ?_⟩) fun r hr => ?_
    · simp [columnsOk, hnames, hstore]
    · simp [referencesOk, horg, hactor]
    · simp only [clash, uniqueClash, Bool.or_false, decide_eq_false_iff_not]
      exact fun h => hfresh r hr h.symm

/-- The flush of the event was accepted, if there was one. -/
def FlushAccepted (event : Event) (db : Db Row) (loaded : Subscription) : Prop :=
  Subscription.dirty loaded (event.assigned.apply loaded) = true →
    ∃ (view : Db Row) (updatedAt : Datetime), view .organizations = db .organizations ∧
      view .subscriptions = db .subscriptions ∧
      updatable view .subscriptions loaded.id
        (Subscription.patch loaded (event.assigned.apply loaded) updatedAt) = .ok ()

/-- The row with which `process_stripe_event` records an event in the audit log. -/
def auditOf (event : Event) (markerId organizationId id : UUID) (createdAt : Datetime) :
    AuditLog where
  id := id
  organizationId := organizationId
  actorId := none
  action := "billing.stripe_event_processed"
  entityType := "stripe_event"
  entityId := some markerId
  metadata := [("stripe_event_id", .str event.id), ("event_type", .str event.type)]
  createdAt := createdAt

omit [Platform] in
theorem auditOf_insertable_iff {event : Event} {markerId auditId : UUID} {createdAt : Datetime}
    (horg : hasOrganization view organizationId = true) :
    insertable (t := Table.auditLogs) view (auditOf event markerId organizationId auditId
        createdAt) = .ok () ↔
      storableFields [("stripe_event_id", .str event.id), ("event_type", .str event.type)] = true ∧
        ∀ r ∈ view .auditLogs, r.id ≠ auditId :=
  audit_insertable_iff rfl horg
    (show varchar 160 "billing.stripe_event_processed" = true ∧ varchar 120 "stripe_event" = true
      by decide)

/-- The last part of `process_stripe_event`, once the subscription is loaded. -/
def flushAndAudit (event : Event) (markerId organizationId : UUID) (loaded : Subscription) :
    App Unit := do
  let _ ← flush .subscriptions loaded.id (Subscription.dirty loaded (event.assigned.apply loaded))
    (Subscription.patch loaded (event.assigned.apply loaded))
  recordAudit organizationId none "billing.stripe_event_processed" "stripe_event" (some markerId)
    [("stripe_event_id", .str event.id), ("event_type", .str event.type)]

/-- What the last part leaves outside the subscriptions. -/
structure Audited (event : Event) (db db' : Db Row) (auditId : UUID) : Prop where
  storable : storableFields
    [("stripe_event_id", .str event.id), ("event_type", .str event.type)] = true
  fresh : ∀ r ∈ db .auditLogs, r.id ≠ auditId
  row : ∃ r : AuditLog, r.id = auditId ∧ db' .auditLogs = db .auditLogs ++ [r]
  kept : ∀ t, t ≠ .subscriptions → t ≠ .auditLogs → db' t = db t

omit [Platform] in
theorem ends_recordAudit {oracle : Oracle Answer} {event : Event} {markerId : UUID}
    (horg : hasOrganization db organizationId = true) :
    Ends oracle (fun _ db' => ∃ auditId, Audited event db db' auditId)
      (recordAudit organizationId none "billing.stripe_event_processed" "stripe_event"
        (some markerId)
        [("stripe_event_id", .str event.id), ("event_type", .str event.type)]) db := by
  refine runs_call trivial fun n => runs_call trivial fun n' => ?_
  refine runs_insert trivial (fun hins => runs_ret ⟨oracle n' .uuid4, ?_⟩) fun _ => runs_raise _
  obtain ⟨hstore, hfresh⟩ := (auditOf_insertable_iff horg).mp hins
  refine ⟨hstore, hfresh, ⟨_, rfl, apply_insert_self db .auditLogs _⟩, fun t _ ht => ?_⟩
  exact apply_of_table_ne db ht.symm

theorem ends_flushAndAudit {oracle : Oracle Answer} {event : Event} {markerId : UUID}
    {loaded : Subscription} (horg : hasOrganization db organizationId = true) :
    Ends oracle (fun _ db' => FlushAccepted event db loaded ∧
        ∃ auditId, Audited event db db' auditId)
      (flushAndAudit event markerId organizationId loaded) db := by
  unfold flushAndAudit flush
  split
  · rename_i hdirty
    refine runs_call trivial fun n => runs_update trivial (fun hup => ?_) fun _ => runs_raise _
    have hkeep : ∀ t, t ≠ .subscriptions → (Op.update .subscriptions loaded.id
        (Subscription.patch loaded (event.assigned.apply loaded) (oracle n .now))).apply db t =
          db t := fun t ht => apply_of_table_ne db ht.symm
    have horg' : hasOrganization ((Op.update .subscriptions loaded.id
        (Subscription.patch loaded (event.assigned.apply loaded) (oracle n .now))).apply db)
          organizationId = true := by
      rw [hasOrganization, hkeep _ (by decide)]
      exact horg
    refine (ends_recordAudit horg').mono ?_
    rintro _ db' ⟨auditId, haudit⟩
    refine ⟨fun _ => ⟨db, _, rfl, rfl, hup⟩, auditId, haudit.storable, ?_, ?_, ?_⟩
    · rw [← hkeep .auditLogs (by decide)]
      exact haudit.fresh
    · rw [← hkeep .auditLogs (by decide)]
      exact haudit.row
    · intro t ht ht'
      rw [haudit.kept t ht ht', hkeep t ht]
  · rename_i hclean
    refine (ends_recordAudit horg).mono ?_
    rintro _ db' ⟨auditId, haudit⟩
    exact ⟨fun hdirty => absurd hdirty hclean, auditId, haudit⟩

theorem ends_accepted {oracle : Oracle Answer} {event : Event} {obj : List (String × Json)}
    {loaded : Subscription} (hobj : event.object = some obj)
    (hres : resolveIn obj (db .subscriptions) = some organizationId)
    (hfind : findSubscription organizationId db = some loaded)
    (horg : hasOrganization db organizationId = true) :
    Ends oracle (fun processed db' => processed = true →
        (∃ markerId auditId, Accepted event db db' markerId auditId) ∧
          FlushAccepted event db loaded)
      (processStripeEvent event) db := by
  refine runs_call trivial fun n => runs_call trivial fun n' => ?_
  refine runs_insertOnConflict trivial (fun hany hins => ?_)
    (fun _ => runs_ret (fun h => Bool.noConfusion h)) fun _ => runs_raise _
  obtain ⟨hmarker, hmarkerFresh⟩ := marker_insertable_iff.mp ⟨hany, hins⟩
  generalize hdb₁ : (Op.insert .stripeEvents
    (⟨oracle n' .uuid4, event.id, event.type, oracle n .now⟩ : StripeEvent) :
      Op Row UUID).apply db = db₁
  have hkeep₁ : ∀ t, t ≠ .stripeEvents → db₁ t = db t := by
    rintro t ht
    rw [← hdb₁]
    exact apply_of_table_ne db ht.symm
  have hmarkers₁ : db₁ .stripeEvents =
      db .stripeEvents ++ [⟨oracle n' .uuid4, event.id, event.type, oracle n .now⟩] := by
    rw [← hdb₁, apply_insert_self]
  refine runs_bind (p := handleStripeEvent event _) ?_
  unfold handleStripeEvent
  rw [hobj]
  refine ends_resolveOrganizationId ?_
  rw [hkeep₁ .subscriptions (by decide), hres]
  refine runs_select trivial ?_
  have hfind₁ : findSubscription organizationId db₁ = some loaded := by
    rw [findSubscription, hkeep₁ .subscriptions (by decide)]
    exact hfind
  rw [hfind₁]
  refine ends_ofExcept fun assigned hassigned => ?_
  obtain rfl : assigned = event.assigned := by simp [Event.assigned, hobj, hassigned]
  have horg₁ : hasOrganization db₁ organizationId = true := by
    rw [hasOrganization, hkeep₁ .organizations (by decide)]
    exact horg
  refine (ends_flushAndAudit horg₁).mono ?_
  rintro _ db' ⟨hflush, auditId, haudit⟩
  have hmarkers : db' .stripeEvents = db₁ .stripeEvents :=
    haudit.kept .stripeEvents (by decide) (by decide)
  obtain ⟨log, hlog, hlogs⟩ := haudit.row
  have hfresh := haudit.fresh
  rw [hkeep₁ .auditLogs (by decide)] at hlogs hfresh
  refine runs_ret fun _ => ⟨⟨oracle n' .uuid4, auditId, ?_⟩, fun hdirty => ?_⟩
  · refine ⟨⟨hmarker, haudit.storable⟩, hmarkerFresh, ?_, ?_, hfresh, ?_, ?_, ?_⟩
    · exact ⟨_, by rw [hmarkers, hmarkers₁]; exact List.mem_concat_self, rfl, rfl⟩
    · intro r hr
      rw [hmarkers, hmarkers₁]
      exact List.mem_append_left _ hr
    · exact ⟨log, by rw [hlogs]; exact List.mem_concat_self, hlog⟩
    · intro r hr
      rw [hlogs]
      exact List.mem_append_left _ hr
    · rw [haudit.kept .organizations (by decide) (by decide), hkeep₁ .organizations (by decide)]
  · obtain ⟨view, updatedAt, horgs, hsubs, hup⟩ := hflush hdirty
    refine ⟨view, updatedAt, ?_, ?_, hup⟩
    · rw [horgs, hkeep₁ .organizations (by decide)]
    · rw [hsubs, hkeep₁ .subscriptions (by decide)]

theorem ForOne.fits_of_flushAccepted (h : ForOne events db organizationId row) {event : Event}
    {db' : Db Row} (hx : IsVersion row x) (horgs : db' .organizations = db .organizations)
    (htable : db' .subscriptions = withRow x (db .subscriptions))
    (hfits : ∀ c, Fits db row c (x.get c)) (hflush : FlushAccepted event db' x) (c : Column) :
    Fits db row c (Columns.assign event.assigned x.get c) := by
  cases hdirty : Subscription.dirty x (event.assigned.apply x) with
  | true =>
    obtain ⟨view, updatedAt, hvorgs, hvsubs, hup⟩ := hflush hdirty
    rw [hx.id] at hup
    have hnew := (h.updatable_iff (hvorgs.trans horgs) hx (hvsubs.trans htable)
      ⟨hx.id, hx.organizationId⟩).mp hup c
    rwa [Subscription.patch_self_get, Assignments.apply_get] at hnew
  | false =>
    rw [← Assignments.apply_get, Subscription.get_eq_of_not_dirty hdirty]
    exact hfits c

/-- Ids for the markers and audit rows of both events, all of which the database accepts. -/
structure Room (events : Bool → Event) (db : Db Row) (row : Subscription)
    (markerId auditId : Bool → UUID) : Prop where
  storable : ∀ i, (events i).Storable
  marker_fresh : ∀ i, ∀ r ∈ db .stripeEvents,
    r.id ≠ markerId i ∧ r.stripeEventId ≠ (events i).id
  marker_apart : ∀ i, markerId (!i) ≠ markerId i ∧ (events !i).id ≠ (events i).id
  audit_fresh : ∀ i, ∀ r ∈ db .auditLogs, r.id ≠ auditId i
  audit_apart : ∀ i, auditId (!i) ≠ auditId i
  assigned_ok : ∀ i obj, (events i).object = some obj →
    assignments (events i).type obj = .ok (events i).assigned
  fits : ∀ i c v, (events i).assigned.get c = some v → Fits db row c v

omit [Platform] in
theorem fits_of_assign {a : Assignments} {s : Columns}
    (h : ∀ c, Fits db row c (Columns.assign a s c)) {c : Column} {v : c.Value}
    (hv : a.get c = some v) : Fits db row c v := by
  have hc := h c
  rwa [Columns.assign, hv] at hc

omit [Platform] in
/-- A property of both events, from one of each. -/
theorem forall_bool_of {P : Bool → Prop} {k : Bool} (h : P k) (h' : P (!k)) : ∀ i, P i := by
  intro i
  cases i <;> cases k <;> assumption

theorem exists_room (hfor : ForOne events db organizationId row) (hp : Processable events db) :
    ∃ markerId auditId, Room events db row markerId auditId := by
  obtain ⟨k, hfollows⟩ :
      ∃ k, (events !k).Follows row (afterFirst events row k .stripeCustomerId) := by
    by_contra hno
    have hall : ∀ k, ¬ (events !k).Follows row (afterFirst events row k .stripeCustomerId) :=
      fun k hk => hno ⟨k, hk⟩
    exact hall false (follows_of_not_follows hfor (hall true))
  obtain ⟨oracle, oracle', h, h'⟩ := hp k
  obtain ⟨obj, hobj, hres⟩ := hfor.object k
  obtain ⟨obj', hobj', _⟩ := hfor.object (!k)
  -- The first event, on the database as it stands.
  obtain ⟨⟨m, l, hacc⟩, hflush⟩ :=
    (ends_accepted hobj hres hfor.row_found hfor.hasOrganization).transaction h rfl
  obtain ⟨x, hx, hget, htable⟩ := process_first hfor h
  have hfits : ∀ c, Fits db row c (afterFirst events row k c) :=
    hfor.fits_of_flushAccepted (.refl row) rfl
      (withRow_self hfor.distinctIds hfor.row_mem).symm hfor.row_fits hflush
  -- The second one, on what the first one left.
  have hcustomer : x.stripeCustomerId = afterFirst events row k .stripeCustomerId :=
    congrFun hget .stripeCustomerId
  have hres' : resolveIn obj' ((process (events k, oracle) db).2 .subscriptions) =
      some organizationId := by
    rw [htable]
    rcases hfor.resolveIn_withRow hx hobj' with ⟨_, hr⟩ | ⟨hno, _⟩
    · exact hr
    · rw [hcustomer] at hno
      exact absurd hfollows hno
  have hfind' : findSubscription organizationId (process (events k, oracle) db).2 = some x := by
    rw [findSubscription, htable]
    exact find?_withRow hfor.distinctIds hfor.row_found hx.id
      (by simp [hx.organizationId, hfor.row_organizationId])
  have horg' : hasOrganization (process (events k, oracle) db).2 organizationId = true := by
    rw [hasOrganization, show (process (events k, oracle) db).2 .organizations = _ from
      hacc.organizations]
    exact hfor.hasOrganization
  obtain ⟨⟨m', l', hacc'⟩, hflush'⟩ := (ends_accepted hobj' hres' hfind' horg').transaction h' rfl
  have hfits' : ∀ c, Fits db row c (Columns.assign (events !k).assigned x.get c) :=
    hfor.fits_of_flushAccepted hx hacc.organizations htable (by rw [hget]; exact hfits) hflush'
  obtain ⟨marker, hmarker, rfl, hmarkerId⟩ := hacc.marker
  obtain ⟨log, hlog, rfl⟩ := hacc.audit
  have hmarkers := hacc'.marker_fresh marker hmarker
  rw [hmarkerId] at hmarkers
  have hlogs := hacc'.audit_fresh log hlog
  refine ⟨fun i => if i = k then marker.id else m', fun i => if i = k then log.id else l', ?_⟩
  have hk : (!k) ≠ k := by simp
  refine ⟨forall_bool_of hacc.storable hacc'.storable, forall_bool_of (k := k) ?_ ?_,
    forall_bool_of (k := k) ?_ ?_, forall_bool_of (k := k) ?_ ?_, forall_bool_of (k := k) ?_ ?_,
    forall_bool_of (k := k) ?_ ?_, forall_bool_of (k := k) ?_ ?_⟩
  · simpa using hacc.marker_fresh
  · intro r hr
    simpa using hacc'.marker_fresh r (hacc.markers_kept r hr)
  · simpa using ⟨hmarkers.1.symm, hmarkers.2.symm⟩
  · simpa using hmarkers
  · simpa using hacc.audit_fresh
  · intro r hr
    simpa using hacc'.audit_fresh r (hacc.audits_kept r hr)
  · simpa using hlogs.symm
  · simpa using hlogs
  · intro o ho
    obtain ⟨_, ho', hassigned⟩ := Applied.assigned_ok (process_ok h) (hfor.resolves k)
    rw [ho] at ho'
    rwa [Option.some.inj ho']
  · intro o ho
    obtain ⟨_, ho', hassigned⟩ := Applied.assigned_ok (process_ok h')
      (show ((events !k).object.bind fun obj => resolveIn obj _) = some organizationId by
        rw [hobj', Option.bind_some, hres'])
    rw [ho] at ho'
    rwa [Option.some.inj ho']
  · exact fun c v => fits_of_assign hfits
  · exact fun c v => fits_of_assign hfits'

/-! ## Executing an event step by step -/

/-- External answers with a given random id; the clock stands still. -/
def answering (id : UUID) : (c : Call) → Answer c
  | .uuid4 => id
  | c => sampleOracle 0 c

def markerOf (event : Event) (markerId : UUID) : StripeEvent := ⟨markerId, event.id, event.type, 0⟩

/-- The writes of an event that was processed with these ids. -/
def eventOps (event : Event) (organizationId markerId auditId : UUID) (loaded : Subscription) :
    List (Op Row UUID) :=
  .insert .stripeEvents (markerOf event markerId) ::
    (changeWrites loaded event.assigned 0 ++
      [.insert .auditLogs (auditOf event markerId organizationId auditId 0)])

/-- The transaction has at most written a marker, which does not concern the event. -/
def AtMostMarker (event : Event) (markerId : UUID) (tx : Tx Row UUID Answer Failure Bool) : Prop :=
  tx.locks = [] ∧ (tx.ops = [] ∨ ∃ r : StripeEvent, tx.ops = [.insert .stripeEvents r] ∧
    r.id ≠ markerId ∧ r.stripeEventId ≠ event.id)

section Execute

variable {event : Event} {markerId auditId : UUID} {loaded : Subscription}
  {ops : List (Op Row UUID)} {others : Tx Row UUID Answer Failure Bool → Prop}
  {tx' : Tx Row UUID Answer Failure Bool} {k : Unit → App Bool} {obj : List (String × Json)}

omit [Platform] in
theorem AtMostMarker.tables {tx : Tx Row UUID Answer Failure Bool}
    (h : AtMostMarker event markerId tx) {t : Table} (ht : t ≠ .stripeEvents) :
    ∀ op ∈ tx.ops, op.table ≠ t := by
  intro op hop
  rcases h.2 with hnil | ⟨r, hone, _⟩
  · simp [hnil] at hop
  · rw [hone, List.mem_singleton] at hop
    subst hop
    exact ht.symm

omit [Platform] in
theorem AtMostMarker.not_waits {tx : Tx Row UUID Answer Failure Bool}
    (h : AtMostMarker event markerId tx) (db view : Db Row) :
    ¬ Waits db view tx (.insertOnConflictDoNothing .stripeEvents sameStripeEventId
      (markerOf event markerId)) := by
  rcases h.2 with hnil | ⟨r, hone, hid, hevent⟩
  · exact not_waits_of_quiet ⟨hnil, h.1⟩ _
  · rintro ⟨r', hclash, hundecided⟩
    have hview : tx.view db .stripeEvents = db .stripeEvents ++ [r] := by
      rw [Tx.view, hone, replay_cons, replay_nil, apply_insert_self]
    obtain rfl : r' = r := by
      rcases hundecided with ⟨hin, hout⟩ | ⟨hout, hin⟩
      · rw [hview] at hout
        exact absurd (List.mem_append_left _ hin) hout
      · rw [hview] at hin
        rcases List.mem_append.mp hin with hold | hnew
        · exact absurd hold hout
        · exact List.mem_singleton.mp hnew
    simp only [clash, uniqueClash, Bool.or_eq_true, decide_eq_true_eq, beq_iff_eq] at hclash
    rcases hclash with hpk | hsame
    · exact hid hpk.symm
    · exact hevent hsame.symm

theorem advances_mark (hstore : event.Storable)
    (hfresh : ∀ r ∈ db .stripeEvents, r.id ≠ markerId ∧ r.stripeEventId ≠ event.id)
    (hothers : ∀ other, others other → AtMostMarker event markerId other)
    (h : Advances db others ⟨(handleStripeEvent event markerId).bind fun _ => .ret true,
      [.insert .stripeEvents (markerOf event markerId)], []⟩ tx') :
    Advances db others ⟨processStripeEvent event, [], []⟩ tx' := by
  obtain ⟨hany, hins⟩ := marker_insertable_iff.mpr ⟨hstore.marker, hfresh⟩
  refine advances_call (answering markerId) (advances_call (answering markerId) ?_)
  exact advances_insertOnConflict (answering markerId) hany hins
    (fun other ho => (hothers other ho).not_waits db db) h

theorem advances_resolve (hobj : event.object = some obj)
    (hres : resolveIn obj (replay ops db .subscriptions) = some organizationId)
    (h : Advances db others ⟨(applyStripeEvent event markerId organizationId obj).bind k, ops, []⟩
      tx') :
    Advances db others ⟨(handleStripeEvent event markerId).bind k, ops, []⟩ tx' := by
  unfold handleStripeEvent resolveOrganizationId
  rw [hobj]
  unfold resolveIn at hres
  cases hraw : organizationIdRaw obj with
  | error e => simp [hraw] at hres
  | ok raw =>
    cases raw with
    | some text =>
      simp only [hraw] at hres
      simp only [orRaise, Prog.bind_eq, Prog.ret_bind, hraw, Prog.ofExcept_ok, hres]
      exact h
    | none =>
      simp only [hraw] at hres
      cases hcustomer : extractCustomerId obj with
      | none => simp [hcustomer] at hres
      | some customerId =>
        simp only [hcustomer, Option.bind_some] at hres
        simp only [orRaise, Prog.bind_eq, Prog.ret_bind, hraw, Prog.ofExcept_ok, hcustomer]
        refine advances_select (answering markerId) ?_
        have hfound : findByCustomer customerId (replay ops db) = some organizationId := hres
        rw [hfound]
        exact h

theorem advances_load (hfind : findSubscription organizationId (replay ops db) = some loaded)
    (hassigned : assignments event.type obj = .ok event.assigned)
    (h : Advances db others ⟨(flushAndAudit event markerId organizationId loaded).bind k, ops, []⟩
      tx') :
    Advances db others ⟨(applyStripeEvent event markerId organizationId obj).bind k, ops, []⟩
      tx' := by
  refine advances_select (answering markerId) ?_
  rw [hfind]
  simp only [Prog.pure_eq, hassigned, Prog.ofExcept_ok]
  exact h

theorem advances_flushAndAudit
    (hothers : ∀ other, others other → AtMostMarker event markerId other)
    (hup : Subscription.dirty loaded (event.assigned.apply loaded) = true →
      updatable (replay ops db) .subscriptions loaded.id
        (Subscription.patch loaded (event.assigned.apply loaded) 0) = .ok ())
    (horg : hasOrganization (replay ops db) organizationId = true) (hstore : event.Storable)
    (hfresh : ∀ r ∈ replay ops db .auditLogs, r.id ≠ auditId) :
    Advances db others
      ⟨(flushAndAudit event markerId organizationId loaded).bind fun _ => .ret true, ops, []⟩
      ⟨.ret true, ops ++ (changeWrites loaded event.assigned 0 ++
        [.insert .auditLogs (auditOf event markerId organizationId auditId 0)]), []⟩ := by
  -- The audit row, on a database that differs in the subscriptions only.
  have haudit : ∀ ops' : List (Op Row UUID),
      (∀ t, t ≠ .subscriptions → replay ops' db t = replay ops db t) →
      Advances db others
        ⟨(recordAudit organizationId none "billing.stripe_event_processed" "stripe_event"
          (some markerId) [("stripe_event_id", .str event.id),
            ("event_type", .str event.type)]).bind fun _ => .ret true, ops', []⟩
        ⟨.ret true, ops' ++ [.insert .auditLogs (auditOf event markerId organizationId auditId 0)],
          []⟩ := by
    intro ops' hsame
    have hins : insertable (t := Table.auditLogs) (replay ops' db)
        (auditOf event markerId organizationId auditId 0) = .ok () := by
      refine (auditOf_insertable_iff ?_).mpr ⟨hstore.audit, ?_⟩
      · rw [hasOrganization, hsame .organizations (by decide)]
        exact horg
      · rw [hsame .auditLogs (by decide)]
        exact hfresh
    refine advances_call (answering auditId) (advances_call (answering auditId) ?_)
    refine advances_insert (answering auditId) hins (fun other ho => ?_) (.refl _)
    exact not_waits_insert_of_ops ((hothers other ho).tables (by decide)) _
  unfold flushAndAudit flush changeWrites
  split
  · rename_i hdirty
    refine advances_call (answering auditId) ?_
    refine advances_update (answering auditId) (hup hdirty) (fun other ho => ?_) ?_
    · exact not_waits_update_of_ops ((hothers other ho).tables (by decide)) (hothers other ho).1 _ _
    · have hlast := haudit (ops ++ [.update .subscriptions loaded.id
        (Subscription.patch loaded (event.assigned.apply loaded) 0)]) fun t ht => by
          rw [replay_append, replay_cons, replay_nil]
          exact apply_of_table_ne _ ht.symm
      rw [List.append_assoc] at hlast
      exact hlast
  · exact haudit ops fun _ _ => rfl

theorem eventOps_subscriptions (db : Db Row) :
    replay (eventOps event organizationId markerId auditId loaded) db .subscriptions =
      changed loaded event.assigned 0 (db .subscriptions) := by
  have hmark : ∀ (db : Db Row) (r : StripeEvent),
      (Op.insert .stripeEvents r : Op Row UUID).apply db .subscriptions = db .subscriptions :=
    fun db r => apply_of_table_ne db (show Table.stripeEvents ≠ .subscriptions by decide)
  have haudit : ∀ (db : Db Row) (r : AuditLog),
      (Op.insert .auditLogs r : Op Row UUID).apply db .subscriptions = db .subscriptions :=
    fun db r => apply_of_table_ne db (show Table.auditLogs ≠ .subscriptions by decide)
  rw [eventOps, replay_cons, replay_append, replay_cons, replay_nil, haudit, changeWrites, changed]
  split
  · rw [replay_cons, replay_nil, apply_update_self, hmark]
    rfl
  · rw [replay_nil, hmark]

theorem eventOps_other (db : Db Row) {t : Table} (hm : t ≠ .stripeEvents)
    (hs : t ≠ .subscriptions) (ha : t ≠ .auditLogs) :
    replay (eventOps event organizationId markerId auditId loaded) db t = db t := by
  refine replay_of_table_ne db fun op hop => ?_
  simp only [eventOps, changeWrites, List.mem_cons, List.mem_append, List.not_mem_nil,
    or_false] at hop
  rcases hop with rfl | hchange | rfl
  · exact hm.symm
  · split at hchange
    · rw [List.mem_singleton] at hchange
      subst hchange
      exact hs.symm
    · cases hchange
  · exact ha.symm

theorem eventOps_auditLogs (db : Db Row) :
    replay (eventOps event organizationId markerId auditId loaded) db .auditLogs =
      db .auditLogs ++ [auditOf event markerId organizationId auditId 0] := by
  have hkeep : replay (.insert .stripeEvents (markerOf event markerId) ::
      changeWrites loaded event.assigned 0) db .auditLogs = db .auditLogs := by
    refine replay_of_table_ne db fun op hop => ?_
    simp only [changeWrites, List.mem_cons] at hop
    rcases hop with rfl | hchange
    · exact (by decide : Table.stripeEvents ≠ .auditLogs)
    · split at hchange
      · rw [List.mem_singleton] at hchange
        subst hchange
        exact (by decide : Table.subscriptions ≠ .auditLogs)
      · cases hchange
  rw [eventOps, ← List.cons_append, replay_append, replay_cons, replay_nil, apply_insert_self,
    hkeep]

end Execute

/-! ## The overlapping runs -/

section Overlap

variable {markerId auditId : Bool → UUID} {i : Bool}

/-- Values assigned by either event or already in the row fit. -/
theorem Room.flushed_fits (room : Room events db row markerId auditId) {loaded current : Columns}
    (hloaded : ∀ c, Fits db row c (loaded c)) (hcurrent : ∀ c, Fits db row c (current c))
    (c : Column) : Fits db row c (Columns.flushed (events i).assigned loaded current c) := by
  unfold Columns.flushed
  split
  · exact hcurrent c
  · unfold Columns.assign
    cases hv : (events i).assigned.get c with
    | none => exact hloaded c
    | some v => exact room.fits i c v hv

/-- The event can flush over a version `x` of the row after having loaded the version `l`. -/
theorem Room.updatable (room : Room events db row markerId auditId)
    (hfor : ForOne events db organizationId row) (horgs : view .organizations = db .organizations)
    (hx : IsVersion row x) (htable : view .subscriptions = withRow x (db .subscriptions))
    {l : Subscription} (hl : IsVersion row l) (hlfits : ∀ c, Fits db row c (l.get c))
    (hxfits : ∀ c, Fits db row c (x.get c))
    (hdirty : Subscription.dirty l ((events i).assigned.apply l) = true) :
    Transactional.updatable view .subscriptions l.id
      (Subscription.patch l ((events i).assigned.apply l) 0) = .ok () := by
  rw [hl.id]
  refine (hfor.updatable_iff horgs hx htable ⟨hx.id, hx.organizationId⟩).mpr fun c => ?_
  have hget := Subscription.afterFlush_get (events i).assigned l 0 x
  rw [Subscription.afterFlush, if_pos hdirty] at hget
  rw [hget]
  exact room.flushed_fits hlfits hxfits c

omit [Platform] in
theorem replay_marker (db : Db Row) (r : StripeEvent) {t : Table} (ht : t ≠ .stripeEvents) :
    replay [(Op.insert .stripeEvents r : Op Row UUID)] db t = db t := by
  rw [replay_cons, replay_nil]
  exact apply_of_table_ne db ht.symm

/-- With the subscription loaded, an event can go on to its end on a committed database that
has the version `x` of the row. -/
theorem Room.advances_end (room : Room events db row markerId auditId)
    (hfor : ForOne events db organizationId row) {db' : Db Row}
    (horgs : db' .organizations = db .organizations) (hx : IsVersion row x)
    (htable : db' .subscriptions = withRow x (db .subscriptions))
    (haudits : ∀ r ∈ db' .auditLogs, r.id ≠ auditId i) {l : Subscription} (hl : IsVersion row l)
    (hlfits : ∀ c, Fits db row c (l.get c)) (hxfits : ∀ c, Fits db row c (x.get c))
    {others : Tx Row UUID Answer Failure Bool → Prop}
    (hothers : ∀ other, others other → AtMostMarker (events i) (markerId i) other) :
    Advances db' others
      ⟨(flushAndAudit (events i) (markerId i) organizationId l).bind fun _ => .ret true,
        [.insert .stripeEvents (markerOf (events i) (markerId i))], []⟩
      ⟨.ret true, eventOps (events i) organizationId (markerId i) (auditId i) l, []⟩ := by
  refine advances_flushAndAudit hothers (fun hdirty => ?_) ?_ (room.storable i) ?_
  · refine room.updatable hfor ?_ hx ?_ hl hlfits hxfits hdirty
    · rw [replay_marker _ _ (by decide), horgs]
    · rw [replay_marker _ _ (by decide), htable]
  · rw [hasOrganization, replay_marker _ _ (by decide), horgs]
    exact hfor.hasOrganization
  · rw [replay_marker _ _ (by decide)]
    exact haudits

/-- On the initial database an event can mark itself and resolve its organization. -/
theorem Room.advances_begin (room : Room events db row markerId auditId)
    (hfor : ForOne events db organizationId row) {obj : List (String × Json)}
    (hobj : (events i).object = some obj) {others : Tx Row UUID Answer Failure Bool → Prop}
    (hothers : ∀ other, others other → AtMostMarker (events i) (markerId i) other)
    {tx' : Tx Row UUID Answer Failure Bool}
    (h : Advances db others
      ⟨(applyStripeEvent (events i) (markerId i) organizationId obj).bind fun _ => .ret true,
        [.insert .stripeEvents (markerOf (events i) (markerId i))], []⟩ tx') :
    Advances db others { prog := processStripeEvent (events i) } tx' := by
  refine advances_mark (room.storable i) (room.marker_fresh i) hothers (advances_resolve hobj ?_ h)
  rw [replay_marker _ _ (by decide)]
  have hres := hfor.resolves i
  rwa [hobj] at hres

/-- An event can load the version of the row that is committed. -/
theorem Room.advances_loaded (room : Room events db row markerId auditId)
    (hfor : ForOne events db organizationId row) {obj : List (String × Json)}
    (hobj : (events i).object = some obj) {db' : Db Row} (hx : IsVersion row x)
    (htable : db' .subscriptions = withRow x (db .subscriptions))
    {others : Tx Row UUID Answer Failure Bool → Prop} {tx' : Tx Row UUID Answer Failure Bool}
    (h : Advances db' others
      ⟨(flushAndAudit (events i) (markerId i) organizationId x).bind fun _ => .ret true,
        [.insert .stripeEvents (markerOf (events i) (markerId i))], []⟩ tx') :
    Advances db' others
      ⟨(applyStripeEvent (events i) (markerId i) organizationId obj).bind fun _ => .ret true,
        [.insert .stripeEvents (markerOf (events i) (markerId i))], []⟩ tx' := by
  refine advances_load ?_ (room.assigned_ok i obj hobj) h
  rw [findSubscription, replay_marker _ _ (by decide), htable]
  exact find?_withRow hfor.distinctIds hfor.row_found hx.id
    (by simp [hx.organizationId, hfor.row_organizationId])

/-- The other event's marker does not concern this one. -/
theorem Room.atMostMarker (room : Room events db row markerId auditId) (p : App Bool) :
    AtMostMarker (events i) (markerId i)
      ⟨p, [.insert .stripeEvents (markerOf (events !i) (markerId !i))], []⟩ :=
  ⟨rfl, .inr ⟨_, rfl, (room.marker_apart i).1, (room.marker_apart i).2⟩⟩

/-- The version of the row that event `i` leaves when it is the first. -/
def firstVersion (events : Bool → Event) (row : Subscription) (i : Bool) : Subscription :=
  Subscription.afterFlush (events i).assigned row 0 row

theorem firstVersion_get : (firstVersion events row i).get = afterFirst events row i := by
  rw [firstVersion, Subscription.afterFlush_get, Columns.flushed_self]
  rfl

theorem firstVersion_isVersion : IsVersion row (firstVersion events row i) :=
  (IsVersion.refl row).afterFlush _ _ _

/-- Event `i` commits while the other one, with `l` loaded or still to be loaded, is paused. -/
theorem Room.exists_run (room : Room events db row markerId auditId)
    (hfor : ForOne events db organizationId row) {p : App Bool} {l : Subscription}
    (hl : l = row ∨ l = firstVersion events row i)
    (hpause : Advances db (fun tx => tx = { prog := processStripeEvent (events i) })
      { prog := processStripeEvent (events !i) }
      ⟨p, [.insert .stripeEvents (markerOf (events !i) (markerId !i))], []⟩)
    (hgoes : ∀ db' tx', db' .subscriptions =
        withRow (firstVersion events row i) (db .subscriptions) →
      Advances db' (fun _ => False)
        ⟨(flushAndAudit (events !i) (markerId !i) organizationId l).bind fun _ => .ret true,
          [.insert .stripeEvents (markerOf (events !i) (markerId !i))], []⟩ tx' →
      Advances db' (fun _ => False)
        ⟨p, [.insert .stripeEvents (markerOf (events !i) (markerId !i))], []⟩ tx') :
    ∃ sys, Reachable (fun k => processStripeEvent (events k)) db sys ∧
      (∀ k, sys.proc k = .committed true) ∧ columnsOf organizationId sys.db =
        Columns.flushed (events !i).assigned l.get (afterFirst events row i) := by
  obtain ⟨obj, hobj, _⟩ := hfor.object i
  have hself : db .subscriptions = withRow row (db .subscriptions) :=
    (withRow_self hfor.distinctIds hfor.row_mem).symm
  have hfirst : Advances db (fun tx => tx =
        ⟨p, [.insert .stripeEvents (markerOf (events !i) (markerId !i))], []⟩)
      { prog := processStripeEvent (events i) }
      ⟨.ret true, eventOps (events i) organizationId (markerId i) (auditId i) row, []⟩ := by
    have hothers : ∀ other, other =
        ⟨p, [.insert .stripeEvents (markerOf (events !i) (markerId !i))], []⟩ →
        AtMostMarker (events i) (markerId i) other := by
      rintro _ rfl
      exact room.atMostMarker p
    refine room.advances_begin hfor hobj hothers ?_
    refine room.advances_loaded hfor hobj (.refl row) hself ?_
    exact room.advances_end hfor rfl (.refl row) hself (room.audit_fresh i) (.refl row)
      hfor.row_fits hfor.row_fits hothers
  -- What the first event leaves.
  have htable : replay (eventOps (events i) organizationId (markerId i) (auditId i) row) db
      .subscriptions = withRow (firstVersion events row i) (db .subscriptions) := by
    rw [eventOps_subscriptions]
    conv_lhs => rw [hself]
    exact changed_withRow (.refl row) (.refl row) _ _
  have hversionFits : ∀ c, Fits db row c ((firstVersion events row i).get c) := by
    rw [firstVersion, Subscription.afterFlush_get]
    exact room.flushed_fits hfor.row_fits hfor.row_fits
  have hlfits : ∀ c, Fits db row c (l.get c) := by
    rcases hl with rfl | rfl
    · exact hfor.row_fits
    · exact hversionFits
  have hlversion : IsVersion row l := by
    rcases hl with rfl | rfl
    · exact .refl l
    · exact firstVersion_isVersion
  have hsecond := hgoes _ _ htable (room.advances_end hfor
    (eventOps_other db (by decide) (by decide) (by decide)) firstVersion_isVersion htable
    (by
      intro r hr
      rw [eventOps_auditLogs, List.mem_append, List.mem_singleton] at hr
      rcases hr with hr | rfl
      · exact room.audit_fresh (!i) r hr
      · exact (room.audit_apart i).symm)
    hlversion hlfits hversionFits (fun _ h => h.elim))
  obtain ⟨sys, hr, hi, hj, hdb⟩ : ∃ sys : Sys Row UUID Answer Failure Bool Bool,
      Reachable (fun k => processStripeEvent (events k)) db sys ∧ sys.proc i = .committed true ∧
        sys.proc (!i) = .committed true ∧ sys.db = _ :=
    exists_run_around hpause hfirst hsecond
  refine ⟨sys, hr, forall_bool_of hi hj, ?_⟩
  rw [columnsOf, hdb, eventOps_subscriptions, htable,
    changed_withRow firstVersion_isVersion hlversion,
    recordOf_withRow hfor.distinctIds hfor.row_found (firstVersion_isVersion.afterFlush _ _ _),
    Subscription.afterFlush_get, firstVersion_get]
  rfl

/-- The overlapped record, of every pair, occurs. -/
theorem Room.exists_overlapped (room : Room events db row markerId auditId)
    (hfor : ForOne events db organizationId row) (i : Bool) :
    ∃ sys, Reachable (fun k => processStripeEvent (events k)) db sys ∧
      (∀ k, sys.proc k = .committed true) ∧ columnsOf organizationId sys.db =
        Columns.flushed (events !i).assigned row.get (afterFirst events row i) := by
  obtain ⟨obj, hobj, _⟩ := hfor.object (!i)
  refine room.exists_run hfor (.inl rfl) ?_ fun _ _ _ h => h
  refine room.advances_begin hfor hobj ?_ ?_
  · rintro _ rfl
    exact ⟨rfl, .inl rfl⟩
  · exact room.advances_loaded hfor hobj (.refl row)
      (withRow_self hfor.distinctIds hfor.row_mem).symm (.refl _)

/-- So does the record of an event that resolved its organization before the other one
committed, and loaded the row afterwards. -/
theorem Room.exists_following (room : Room events db row markerId auditId)
    (hfor : ForOne events db organizationId row) (i : Bool) :
    ∃ sys, Reachable (fun k => processStripeEvent (events k)) db sys ∧
      (∀ k, sys.proc k = .committed true) ∧ columnsOf organizationId sys.db =
        Columns.assign (events !i).assigned (afterFirst events row i) := by
  obtain ⟨obj, hobj, _⟩ := hfor.object (!i)
  obtain ⟨sys, hr, hboth, hcols⟩ := room.exists_run hfor (.inr rfl)
    (room.advances_begin hfor hobj (by rintro _ rfl; exact ⟨rfl, .inl rfl⟩) (.refl _))
    fun _ _ htable h => room.advances_loaded hfor hobj firstVersion_isVersion htable h
  rw [firstVersion_get, Columns.flushed_self] at hcols
  exact ⟨sys, hr, hboth, hcols⟩

theorem Harmless.of_serializable (hfor : ForOne events db organizationId row)
    (hp : Processable events db) (h : Serializable events db organizationId) :
    Harmless events row := by
  obtain ⟨markerId, auditId, room⟩ := exists_room hfor hp
  constructor
  · intro hfollow i
    obtain ⟨sys, hr, hboth, hcols⟩ := room.exists_overlapped hfor i
    obtain ⟨k, hserial⟩ := h sys hr hboth
    rw [serial_iff hfor hp, hcols] at hserial
    rcases hserial with ⟨_, heq⟩ | ⟨hno, _⟩
    · by_cases hk : k = i
      · subst hk
        exact .inl (flushed_eq_following_iff.mp heq)
      · obtain rfl : k = !i := Bool.eq_not.mpr hk
        rw [Bool.not_not] at heq
        exact .inr (flushed_eq_preceding_iff.mp heq)
    · exact absurd (hfollow k) hno
  · intro hnot
    obtain ⟨i, hi⟩ : ∃ i, ¬ (events !i).Follows row (afterFirst events row i .stripeCustomerId) :=
      not_forall.mp hnot
    obtain ⟨sys, hr, hboth, hcols⟩ := room.exists_following hfor i
    obtain ⟨k, hserial⟩ := h sys hr hboth
    rw [serial_iff hfor hp, hcols] at hserial
    by_cases hk : k = i
    · subst hk
      rcases hserial with ⟨hyes, _⟩ | ⟨_, heq⟩
      · exact absurd hyes hi
      · exact agree_of_following_eq heq
    · obtain rfl : k = !i := Bool.eq_not.mpr hk
      rw [Bool.not_not] at hserial
      rcases hserial with ⟨_, heq⟩ | ⟨hno, _⟩
      · exact following_comm_iff.mp heq
      · exact absurd (follows_of_not_follows hfor hi) hno

/-- Two events can be overlapped without harm exactly if they are harmless. -/
theorem serializable_iff_harmless (hfor : ForOne events db organizationId row)
    (hp : Processable events db) :
    Serializable events db organizationId ↔ Harmless events row :=
  ⟨Harmless.of_serializable hfor hp, Harmless.serializable hfor hp⟩

end Overlap

end Runs

section Sample

attribute [local instance] samplePlatform

def sampleRow : Subscription where
  id := ⟨4⟩
  organizationId := sampleOrganization.id
  plan := .free
  status := .active
  stripeCustomerId := some "cus_1"
  stripeSubscriptionId := some "sub_1"
  currentPeriodEnd := none
  createdAt := 0
  updatedAt := 0

/-- The sample database, with a subscription of the organization. -/
def sampleDbWithRow : Db Row
  | .subscriptions => [sampleRow]
  | t => sampleDb t

/-- An update of the sample subscription, with its status and its price. -/
def sampleUpdate (eventId status price : String) : Event where
  id := eventId
  type := "customer.subscription.updated"
  created := 1
  object := some [("id", .str "sub_1"), ("customer", .str "cus_1"), ("status", .str status),
    ("items", .obj [("data", .arr [.obj [("price", .obj [("id", .str price)])]])]),
    ("metadata", .obj [("organization_id", .str "00000000-0000-0000-0000-000000000002")])]

theorem sampleDbWithRow_consistent : Consistent sampleDbWithRow where
  checks := by
    intro t
    cases t <;> decide +kernel
  keys := by
    intro t
    cases t <;> decide +kernel
  unique := by
    intro t
    cases t <;> decide +kernel

theorem forOne_sampleUpdate {events : Bool → Event} (h : ∀ i, ∃ eventId status price,
    events i = sampleUpdate eventId status price) :
    ForOne events sampleDbWithRow sampleOrganization.id sampleRow where
  consistent := sampleDbWithRow_consistent
  row_found := by decide +kernel
  resolves := by
    intro i
    obtain ⟨eventId, status, price, hi⟩ := h i
    have hid : UUID.ofString "00000000-0000-0000-0000-000000000002" =
        some sampleOrganization.id := by
      decide +kernel
    have hraw : ∀ obj ∈ (sampleUpdate eventId status price).object,
        organizationIdRaw obj = .ok (some "00000000-0000-0000-0000-000000000002") := by
      rintro _ ⟨⟩
      rfl
    rw [hi, sampleUpdate, Option.bind_some, resolveIn, hraw _ rfl]
    exact hid

/-- A new plan, and a failed payment together with another plan. -/
def sampleConflict : Bool → Event
  | true => sampleUpdate "evt_1" "active" "price_pro"
  | false => sampleUpdate "evt_2" "past_due" "price_business"

theorem sampleConflict_processable : Processable sampleConflict sampleDbWithRow := by
  intro i
  refine ⟨sampleOracle, otherOracle 100, ?_⟩
  cases i <;> decide +kernel

theorem sampleConflict_assigned :
    (sampleConflict true).assigned =
        { plan := some .pro, status := some .active, stripeCustomerId := some (some "cus_1"),
          stripeSubscriptionId := some (some "sub_1") } ∧
      (sampleConflict false).assigned =
        { plan := some .business, status := some .pastDue, stripeCustomerId := some (some "cus_1"),
          stripeSubscriptionId := some (some "sub_1") } := by
  decide +kernel

theorem sampleUpdate_named (eventId status price : String) :
    (sampleUpdate eventId status price).Named := by
  rintro obj ⟨⟩ h
  cases h

/-- The failed payment commits first and the new plan, loaded before, second: the record then
has the status of the one event and the plan of the other. -/
theorem sampleConflict_not_serializable :
    ForOne sampleConflict sampleDbWithRow sampleOrganization.id sampleRow ∧
      Processable sampleConflict sampleDbWithRow ∧
      ¬ Serializable sampleConflict sampleDbWithRow sampleOrganization.id := by
  have hfor : ForOne sampleConflict sampleDbWithRow sampleOrganization.id sampleRow :=
    forOne_sampleUpdate fun i => by cases i <;> exact ⟨_, _, _, rfl⟩
  refine ⟨hfor, sampleConflict_processable, fun h => ?_⟩
  have hnamed : ∀ i, (sampleConflict i).Named := by
    intro i
    cases i <;> exact sampleUpdate_named _ _ _
  have hharmless := Harmless.of_serializable hfor sampleConflict_processable h
  obtain ⟨htrue, hfalse⟩ := sampleConflict_assigned
  rcases hharmless.1 (fun i => .inl (hnamed _)) false with hover | hyields
  · have hstatus := hover .status .pastDue .active (by rw [hfalse]; rfl)
      (by rw [Bool.not_false, htrue]; rfl) rfl
    cases hstatus
  · have hplan := hyields .plan .business .pro (by rw [hfalse]; rfl)
      (by rw [Bool.not_false, htrue]; rfl)
    rcases hplan with hplan | hplan <;> cases hplan

/-- Two failed payments, one of them with a new plan. -/
def sampleFailures : Bool → Event
  | true => sampleUpdate "evt_1" "past_due" "price_pro"
  | false => sampleUpdate "evt_2" "past_due" ""

/-- Overlapping these two leaves the record of one of the orders. -/
theorem sampleFailures_serializable :
    Serializable sampleFailures sampleDbWithRow sampleOrganization.id := by
  have hfor : ForOne sampleFailures sampleDbWithRow sampleOrganization.id sampleRow :=
    forOne_sampleUpdate fun i => by cases i <;> exact ⟨_, _, _, rfl⟩
  have hp : Processable sampleFailures sampleDbWithRow := by
    intro i
    refine ⟨sampleOracle, otherOracle 100, ?_⟩
    cases i <;> decide +kernel
  have hassigned : (sampleFailures true).assigned =
        { plan := some .pro, status := some .pastDue, stripeCustomerId := some (some "cus_1"),
          stripeSubscriptionId := some (some "sub_1") } ∧
      (sampleFailures false).assigned =
        { status := some .pastDue, stripeCustomerId := some (some "cus_1"),
          stripeSubscriptionId := some (some "sub_1") } := by
    decide +kernel
  have hagree : Agree sampleFailures := by
    intro c v w hv hw
    rw [hassigned.1] at hv
    rw [hassigned.2] at hw
    cases c <;> simp_all [Assignments.get]
  exact (serializable_iff_harmless hfor hp).mpr
    ⟨fun _ i => .inr (hagree.yields sampleRow i), fun _ => hagree⟩

end Sample

end TenantFlow
