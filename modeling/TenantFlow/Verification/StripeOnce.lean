import TenantFlow.Library.Views
import TenantFlow.Verification.RequestScopes
import TenantFlow.Verification.StripeSequence

/-!
# Stripe events take effect once

Any number of deliveries of verified events, duplicates included, in any interleaving. The
markers follow the claiming pattern, and a delivery that commits as owner of its marker
writes the marker, the subscription change and the audit row in that one commit. The change is
to the record of the organization that the event resolves to, as the delivery has seen the
subscriptions, and the commit leaves the assigned values there.
-/

namespace TenantFlow

open JsonText Transactional

section Events

/-! ## What processing an event writes -/

/-- The `UPDATE` of a subscription loaded as `loaded`, if an attribute changed. -/
def changeWrites (loaded : Subscription) (assigned : Assignments) (updatedAt : Datetime) :
    List (Op Row UUID) :=
  if Subscription.dirty loaded (assigned.apply loaded) then
    [.update .subscriptions loaded.id
      (Subscription.patch loaded (assigned.apply loaded) updatedAt)]
  else []

structure IsMarkerOf (event : Event) (marker : StripeEvent) : Prop where
  id : marker.stripeEventId = event.id
  type : marker.eventType = event.type

structure IsAuditOf (event : Event) (markerId organizationId : UUID) (log : AuditLog) : Prop where
  organization : log.organizationId = organizationId
  action : log.action = "billing.stripe_event_processed"
  entity : log.entityType = "stripe_event" ∧ log.entityId = some markerId
  metadata : log.metadata = [("stripe_event_id", .str event.id), ("event_type", .str event.type)]

/-- The change that an event brings: the organization it resolves to, the subscription as it was
loaded, and the values that the event assigns. -/
structure EventChange where
  organizationId : UUID
  loaded : Subscription
  assigned : Assignments

/-- The subscription loaded for an organization, and its insert if there was none. `Saw rows` says
that the delivery has seen the subscriptions `rows`. -/
inductive LoadedFrom (Saw : List Subscription → Prop) (organizationId : UUID) :
    Subscription → List (Op Row UUID) → Prop where
  | found {loaded : Subscription} {rows : List Subscription} (hsaw : Saw rows)
      (hfind : rows.find? (·.organizationId = organizationId) = some loaded) :
      LoadedFrom Saw organizationId loaded []
  | created {loaded : Subscription} {rows : List Subscription} (hsaw : Saw rows)
      (hfind : rows.find? (·.organizationId = organizationId) = none)
      (horg : loaded.organizationId = organizationId) (hnew : loaded.get = Columns.initial) :
      LoadedFrom Saw organizationId loaded [.insert .subscriptions loaded]

theorem LoadedFrom.mono {Saw Saw' : List Subscription → Prop} {organizationId : UUID}
    {loaded : Subscription} {created : List (Op Row UUID)} (hmono : ∀ rows, Saw rows → Saw' rows)
    (h : LoadedFrom Saw organizationId loaded created) :
    LoadedFrom Saw' organizationId loaded created := by
  cases h with
  | found hsaw hfind => exact .found (hmono _ hsaw) hfind
  | created hsaw hfind horg hnew => exact .created (hmono _ hsaw) hfind horg hnew

variable [Platform]

/-- The writes of a processed event: its marker alone if no organization resolves, else also
the subscription change of that organization and one audit row. -/
inductive EventWrites (event : Event) (Saw : List Subscription → Prop) :
    Option EventChange → List (Op Row UUID) → Prop where
  | unresolved {marker : StripeEvent} {obj : List (String × Json)} {rows : List Subscription}
      (hobj : event.object = some obj) (hraw : organizationIdRaw obj = .ok none)
      (hsaw : Saw rows) (hres : resolveIn obj rows = none) (hmarker : IsMarkerOf event marker) :
      EventWrites event Saw none [.insert .stripeEvents marker]
  | resolved {marker : StripeEvent} {obj : List (String × Json)} {rows : List Subscription}
      {change : EventChange} {updatedAt : Datetime} {created : List (Op Row UUID)} {log : AuditLog}
      (hobj : event.object = some obj) (hsaw : Saw rows)
      (hres : resolveIn obj rows = some change.organizationId) (hmarker : IsMarkerOf event marker)
      (hloaded : LoadedFrom Saw change.organizationId change.loaded created)
      (hassigned : assignments event.type obj = .ok change.assigned)
      (hlog : IsAuditOf event marker.id change.organizationId log) :
      EventWrites event Saw (some change) (.insert .stripeEvents marker :: created ++
        changeWrites change.loaded change.assigned updatedAt ++ [.insert .auditLogs log])

theorem EventWrites.mono {event : Event} {Saw Saw' : List Subscription → Prop}
    {change : Option EventChange} {ops : List (Op Row UUID)}
    (hmono : ∀ rows, Saw rows → Saw' rows) (h : EventWrites event Saw change ops) :
    EventWrites event Saw' change ops := by
  cases h with
  | unresolved hobj hraw hsaw hres hmarker =>
    exact .unresolved hobj hraw (hmono _ hsaw) hres hmarker
  | resolved hobj hsaw hres hmarker hloaded hassigned hlog =>
    exact .resolved hobj (hmono _ hsaw) hres hmarker (hloaded.mono hmono) hassigned hlog

section Shape

variable {ι : Type} {i : ι} {β : Type} {post : Notes Row UUID → β → Prop}
  {notes : Notes Row UUID}

/-- The process has noted a view with these subscriptions, before it wrote any. -/
def Saw (notes : Notes Row UUID) (rows : List Subscription) : Prop :=
  ∃ x ∈ notes.seen, (∀ op ∈ x.1, op.table ≠ .subscriptions) ∧ x.2 .subscriptions = rows

omit [Platform] in
theorem Saw.mono {notes' : Notes Row UUID} {rows : List Subscription} (h : Saw notes rows)
    (hseen : notes.seen ⊆ notes'.seen) : Saw notes' rows := by
  obtain ⟨x, hx, hrows⟩ := h
  exact ⟨x, hseen hx, hrows⟩

omit [Platform] in
theorem seen_subset_saw (view : Db Row) : notes.seen ⊆ (notes.saw view).seen :=
  List.subset_append_left _ _

omit [Platform] in
theorem saw_self (hspare : ∀ op ∈ notes.ops, op.table ≠ .subscriptions) (view : Db Row) :
    Saw (notes.saw view) (view .subscriptions) :=
  ⟨(notes.ops, view), by simp [Notes.saw], hspare, rfl⟩

/-- Whatever the program sees, it returns only with notes and results related by `post`. -/
abbrev NotesOnly {α : Type} (i : ι) (post : Notes Row UUID → α → Prop) (notes : Notes Row UUID)
    (p : App α) : Prop :=
  (notesDiscipline : Discipline Row UUID Answer Failure ι _).Obeys i post notes p

omit [Platform] in
theorem notesOnly_ofExcept {α : Type} {x : Except Failure α} {f : α → App β}
    (h : ∀ a, x = .ok a → NotesOnly i post notes (f a)) :
    NotesOnly i post notes ((Prog.ofExcept x).bind f) := by
  cases x with
  | ok a => exact h a rfl
  | error e => trivial

omit [Platform] in
theorem notesOnly_getOrCreateSubscription {organizationId : UUID} {f : Subscription → App β}
    (hspare : ∀ op ∈ notes.ops, op.table ≠ .subscriptions)
    (h : ∀ notes' loaded created, notes'.ops = notes.ops ++ created → notes.seen ⊆ notes'.seen →
      LoadedFrom (Saw notes') organizationId loaded created → NotesOnly i post notes' (f loaded)) :
    NotesOnly i post notes ((getOrCreateSubscription organizationId).bind f) := by
  refine notes_select fun view => ?_
  cases hfind : findSubscription organizationId view with
  | some loaded =>
    exact h (notes.saw view) loaded [] (List.append_nil _).symm (seen_subset_saw view)
      (.found (saw_self hspare view) hfind)
  | none =>
    refine notes_call fun _ => notes_call fun _ => notes_call fun _ => ?_
    refine notes_insert (h _ _ [_] rfl (seen_subset_saw view) ?_) fun _ => trivial
    refine .created (saw_self hspare view) hfind rfl ?_
    funext c
    cases c <;> rfl

theorem notesOnly_resolveOrganizationId {obj : List (String × Json)} {f : Option UUID → App β}
    (hspare : ∀ op ∈ notes.ops, op.table ≠ .subscriptions) {rows : List Subscription}
    (hsaw : Saw notes rows)
    (h : ∀ notes' resolved rows', notes'.ops = notes.ops → notes.seen ⊆ notes'.seen →
      Saw notes' rows' → resolveIn obj rows' = resolved →
      (resolved = none → organizationIdRaw obj = .ok none) → NotesOnly i post notes' (f resolved)) :
    NotesOnly i post notes ((resolveOrganizationId obj).bind f) := by
  unfold resolveOrganizationId
  simp only [Prog.bind_eq, Prog.bind_assoc]
  refine notesOnly_ofExcept fun raw hraw => ?_
  cases raw with
  | some text =>
    cases htext : UUID.ofString text with
    | none => simp only [htext]; trivial
    | some organizationId =>
      simp only [htext]
      refine h notes (some organizationId) rows rfl (List.Subset.refl _) hsaw ?_ (by simp)
      rw [resolveIn, hraw]
      exact htext
  | none =>
    cases hcustomer : extractCustomerId obj with
    | none =>
      refine h notes none rows rfl (List.Subset.refl _) hsaw ?_ fun _ => hraw
      rw [resolveIn, hraw]
      simp [hcustomer]
    | some customerId =>
      refine notes_select fun view => ?_
      refine h (notes.saw view) _ _ rfl (seen_subset_saw view) (saw_self hspare view) ?_
        fun _ => hraw
      rw [resolveIn, hraw]
      simp [hcustomer, findByCustomer]

omit [Platform] in
theorem notesOnly_flushSubscription {loaded : Subscription} {assigned : Assignments}
    {f : Option Datetime → App β}
    (h : ∀ updatedAt x, NotesOnly i post
      { notes with ops := notes.ops ++ changeWrites loaded assigned updatedAt } (f x)) :
    NotesOnly i post notes ((flush .subscriptions loaded.id
      (Subscription.dirty loaded (assigned.apply loaded))
      (Subscription.patch loaded (assigned.apply loaded))).bind f) := by
  unfold flush
  split
  · rename_i hdirty
    refine notes_call fun updatedAt => notes_update ?_ fun _ => trivial
    have hret := h updatedAt (some updatedAt)
    rw [changeWrites, if_pos hdirty] at hret
    exact hret
  · rename_i hclean
    have hret := h 0 none
    rw [changeWrites, if_neg hclean, List.append_nil] at hret
    exact hret

/-- What the notes of a delivery of the event say once it has returned. -/
def NotedEvent (event : Event) (notes : Notes Row UUID) (processed : Bool) : Prop :=
  if processed then ∃ change, EventWrites event (Saw notes) change notes.ops else notes.ops = []

theorem notesOnly_applyStripeEvent {event : Event} {marker : StripeEvent}
    {obj : List (String × Json)} {organizationId : UUID} {rows : List Subscription}
    (hops : notes.ops = [.insert .stripeEvents marker]) (hobj : event.object = some obj)
    (hmarker : IsMarkerOf event marker) (hsaw : Saw notes rows)
    (hres : resolveIn obj rows = some organizationId) :
    NotesOnly i (fun notes _ => NotedEvent event notes true) notes
      (applyStripeEvent event marker.id organizationId obj) := by
  have hspare : ∀ op ∈ notes.ops, op.table ≠ Table.subscriptions := by
    simp [hops, Op.table]
  refine notesOnly_getOrCreateSubscription hspare
    fun notes' loaded created hops' hseen hloaded => ?_
  refine notesOnly_ofExcept fun assigned hassigned => ?_
  refine notesOnly_flushSubscription fun updatedAt _ => ?_
  refine notes_call fun createdAt => notes_call fun id => notes_insert ?_ fun _ => trivial
  refine ⟨some ⟨organizationId, loaded, assigned⟩, ?_⟩
  simp only [Notes.wrote, hops', hops]
  exact .resolved hobj (hsaw.mono hseen) hres hmarker hloaded hassigned
    ⟨rfl, rfl, ⟨rfl, rfl⟩, rfl⟩

theorem notesOnly_handleStripeEvent {event : Event} {marker : StripeEvent}
    (hops : notes.ops = [.insert .stripeEvents marker]) {rows : List Subscription}
    (hsaw : Saw notes rows) (hmarker : IsMarkerOf event marker) :
    NotesOnly i (fun notes _ => NotedEvent event notes true) notes
      (handleStripeEvent event marker.id) := by
  unfold handleStripeEvent
  cases hobj : event.object with
  | none => trivial
  | some obj =>
    have hspare : ∀ op ∈ notes.ops, op.table ≠ Table.subscriptions := by
      simp [hops, Op.table]
    refine notesOnly_resolveOrganizationId hspare hsaw
      fun notes' resolved rows' hops' _ hsaw' hres hnone => ?_
    cases resolved with
    | none =>
      refine ⟨none, ?_⟩
      rw [hops', hops]
      exact .unresolved hobj (hnone rfl) hsaw' hres hmarker
    | some organizationId =>
      exact notesOnly_applyStripeEvent (hops'.trans hops) hobj hmarker hsaw' hres

/-- Processing an event writes nothing for a duplicate, else what `EventWrites` says. -/
theorem notesOnly_processStripeEvent (event : Event) (i : ι) :
    NotesOnly i (NotedEvent event) {} (processStripeEvent event) := by
  refine notes_call fun processedAt => notes_call fun id => ?_
  refine notes_insertOnConflict (fun view => ?_) (by exact rfl) (fun _ => trivial)
  have hmarker : IsMarkerOf event ⟨id, event.id, event.type, processedAt⟩ := ⟨rfl, rfl⟩
  have hsaw : Saw ((({} : Notes Row UUID).saw view).wrote
      (.insert .stripeEvents ⟨id, event.id, event.type, processedAt⟩)) (view .subscriptions) :=
    (saw_self (by simp) view).mono (List.Subset.refl _)
  exact (notesOnly_handleStripeEvent rfl hsaw hmarker).bind fun notes _ h => h

end Shape

/-! ## What a commit makes of the records -/

section Records

omit [Platform]

/-- What a commit with this change makes of the subscriptions `before` it. -/
structure EventChange.Made (change : EventChange) (before after : List Subscription) : Prop where
  /-- The flush assigns the columns whose new value is not the one loaded. -/
  record : recordOf change.organizationId after = some (Columns.flushed change.assigned
    change.loaded.get ((recordOf change.organizationId before).getD Columns.initial))
  /-- A record that still is as it was loaded gets all assigned values. -/
  unchanged : (recordOf change.organizationId before).getD Columns.initial = change.loaded.get →
    recordOf change.organizationId after = some (Columns.assign change.assigned change.loaded.get)
  /-- In any case an assigned value is there after the commit, unless the column was loaded with
  it and another commit has assigned to it since. -/
  assigned : ∀ c v, change.assigned.get c = some v →
    ∃ columns, recordOf change.organizationId after = some columns ∧
      (columns c = v ∨ change.loaded.get c = v ∧
        (recordOf change.organizationId before).getD Columns.initial c ≠ v)
  others : ∀ other, other ≠ change.organizationId → recordOf other after = recordOf other before

/-- Without an organization, a commit leaves the subscriptions as they are. -/
def ChangeMade : Option EventChange → List Subscription → List Subscription → Prop
  | none, before, after => after = before
  | some change, before, after => change.Made before after

theorem EventChange.made_of_flushed {change : EventChange} {before after : List Subscription}
    (hrecord : recordOf change.organizationId after = some (Columns.flushed change.assigned
      change.loaded.get ((recordOf change.organizationId before).getD Columns.initial)))
    (hothers : ∀ other, other ≠ change.organizationId →
      recordOf other after = recordOf other before) : change.Made before after where
  record := hrecord
  unchanged h := by
    rw [hrecord, h, Columns.flushed_self]
  assigned c v h := by
    refine ⟨_, hrecord, ?_⟩
    have hassign : Columns.assign change.assigned change.loaded.get c = v := by
      rw [Columns.assign, h, Option.getD_some]
    unfold Columns.flushed
    rw [hassign]
    split
    · rename_i hloaded
      by_cases hcurrent : (recordOf change.organizationId before).getD Columns.initial c = v
      · exact .inl hcurrent
      · exact .inr ⟨hloaded.symm, hcurrent⟩
    · exact .inl rfl
  others := hothers

theorem replay_changeWrites (loaded : Subscription) (assigned : Assignments) (updatedAt : Datetime)
    (db : Db Row) : replay (changeWrites loaded assigned updatedAt) db .subscriptions =
      changed loaded assigned updatedAt (db .subscriptions) := by
  unfold changeWrites changed
  split
  · rw [replay_cons, replay_nil, apply_update_self]
    rfl
  · rfl

theorem distinctIds_of_unclashing {db : Db Row} (h : Unclashing db) :
    DistinctIds (db .subscriptions) := by
  refine List.pairwise_iff_forall_sublist.mpr fun {r s} hsub hid => ?_
  -- Two rows with one key would both be among the rows of that key.
  have hfilter := hsub.filter fun x : Row .subscriptions => decide (pk x = s.id)
  have hboth : [r, s].filter (fun x : Row .subscriptions => decide (pk x = s.id)) = [r, s] :=
    List.filter_eq_self.mpr (by simp [pk, Schema.pk, primaryKey, hid])
  rw [hboth] at hfilter
  have hlen := hfilter.length_le.trans (h.keys .subscriptions s.id)
  simp only [List.length_cons, List.length_nil] at hlen
  omega

/-- There is one subscription for an organization. -/
theorem find_organization {db : Db Row} (h : Unclashing db) {r : Subscription}
    (hr : r ∈ db .subscriptions) :
    (db .subscriptions).find? (·.organizationId = r.organizationId) = some r := by
  cases hfind : (db .subscriptions).find? (·.organizationId = r.organizationId) with
  | none => simpa using List.find?_eq_none.mp hfind r hr
  | some s =>
    have hs : s ∈ db .subscriptions := List.mem_of_find?_eq_some hfind
    have horg : s.organizationId = r.organizationId := by simpa using List.find?_some hfind
    by_contra hne
    have hclash := h.unique .subscriptions s hs r hr fun hpk =>
      hne (congrArg some (h.eq_of_pk hs hr hpk))
    simp [clash, uniqueClash, horg] at hclash

/-- The flush of a version of the row of an organization. -/
theorem EventChange.made_of_version {rows : List Subscription} (hd : DistinctIds rows)
    {organizationId : UUID} {r loaded : Subscription} (assigned : Assignments)
    (updatedAt : Datetime)
    (hcurrent : rows.find? (·.organizationId = organizationId) = some r)
    (hid : r.id = loaded.id) :
    EventChange.Made ⟨organizationId, loaded, assigned⟩ rows
      (changed loaded assigned updatedAt rows) := by
  have hrecord := recordOf_changed_version assigned updatedAt hd hcurrent hid
  have hbefore : recordOf organizationId rows = some r.get := by
    rw [recordOf, hcurrent]
    rfl
  refine EventChange.made_of_flushed ?_ fun other hne => ?_
  · rw [hrecord, if_pos rfl, hbefore, Option.getD_some]
  · rw [hrecord, if_neg hne]

/-- The flush of a row that the same commit has inserted. -/
theorem EventChange.made_of_created {rows : List Subscription} (hd : DistinctIds rows)
    {organizationId : UUID} {loaded : Subscription} (assigned : Assignments)
    (updatedAt : Datetime) (hnone : rows.find? (·.organizationId = organizationId) = none)
    (horg : loaded.organizationId = organizationId) (hnew : loaded.get = Columns.initial)
    (hfresh : ∀ r ∈ rows, r.id ≠ loaded.id) :
    EventChange.Made ⟨organizationId, loaded, assigned⟩ rows
      (changed loaded assigned updatedAt (rows ++ [loaded])) := by
  have hload : Loads organizationId rows loaded (rows ++ [loaded]) :=
    .created hnone horg hnew hfresh
  have hrecord := recordOf_changed_version assigned updatedAt (hload.distinctIds hd)
    hload.find.1 rfl
  refine EventChange.made_of_flushed ?_ fun other hne => ?_
  · rw [hrecord, if_pos rfl, ← hload.get]
  · rw [hrecord, if_neg hne, hload.other hne]

/-- A commit that inserts and flushes a subscription leaves no other one of the organization. -/
theorem find_none_of_created {d : Db Row} (hd : Unclashing d) {rows : List Subscription}
    {loaded : Subscription} {assigned : Assignments} {updatedAt : Datetime}
    (hrows : d .subscriptions = changed loaded assigned updatedAt (rows ++ [loaded]))
    (hfresh : ∀ r ∈ rows, r.id ≠ loaded.id) :
    rows.find? (·.organizationId = loaded.organizationId) = none := by
  refine List.find?_eq_none.mpr fun r hr hsame => ?_
  let flushed := Subscription.afterFlush assigned loaded updatedAt loaded
  rw [changed_eq_map] at hrows
  have hmem : r ∈ d .subscriptions := by
    rw [hrows]
    exact List.mem_map.mpr ⟨r, List.mem_append_left _ hr, if_neg (hfresh r hr)⟩
  have hflushed : flushed ∈ d .subscriptions := by
    rw [hrows]
    exact List.mem_map.mpr ⟨loaded, by simp, if_pos rfl⟩
  have hne : r.id ≠ flushed.id := by
    rw [Subscription.afterFlush_id]
    exact hfresh r hr
  have hclash := hd.unique .subscriptions r hmem flushed hflushed hne
  have horg : r.organizationId = loaded.organizationId := by simpa using hsame
  simp [clash, uniqueClash, flushed, horg] at hclash

end Records

/-! ## The claiming system -/

section Claim

variable {ι : Type} [DecidableEq ι] (events : ι → Event)

abbrev stripeClaim : Claim Row Failure Bool ι where
  T := .stripeEvents
  K := String
  key r := r.stripeEventId
  procKey i := (events i).id
  final _ := True
  produces _ _ processed := processed = true
  replays _ _ processed := processed = false
  fails _ _ := True

omit [Platform] [DecidableEq ι] in
theorem stripeClaim_lawful : (stripeClaim events).Lawful UUID where
  clash_iff r s := by
    change (decide (r.id = s.id) || r.stripeEventId == s.stripeEventId) = true ↔
      r.id = s.id ∨ r.stripeEventId = s.stripeEventId
    simp
  exclusive i r r' a h := by
    refine ⟨fun h' => ?_, id⟩
    rw [show a = true from h] at h'
    cases h'

variable {events}

omit [Platform] [DecidableEq ι] in
theorem follows_stripe_of_confined {α : Type} {F : Scope} {p : App α} {i : ι}
    (hw : Table.stripeEvents ∉ F.writes) (hd : Table.stripeEvents ∉ F.deletes) (h : Confined F p)
    (φ : ClaimPhase StripeEvent) :
    ((stripeClaim events).discipline : Discipline Row UUID Answer Failure ι _).Obeys i
      (fun φ' _ => φ' = φ ∧ True) φ p :=
  (stripeClaim events).obeys_of_every φ
    (h.mono (fun _ hs => hs.spares hw hd) (fun _ h => h) fun _ h => h)

omit [DecidableEq ι] in
/-- Every delivery follows the claiming discipline. -/
theorem obeys_processStripeEvent (i : ι) :
    ((stripeClaim events).discipline : Discipline Row UUID Answer Failure ι _).Obeys i
      ((stripeClaim events).Post i) .idle (processStripeEvent (events i)) := by
  let F : Scope := { writes := [.subscriptions, .auditLogs] }
  have hw : Table.stripeEvents ∉ F.writes := by decide
  have hd : Table.stripeEvents ∉ F.deletes := by decide
  refine (follows_stripe_of_confined hw hd confined_now .idle).bind fun φ processedAt h => ?_
  obtain rfl := h.1
  refine (follows_stripe_of_confined hw hd confined_uuid4 .idle).bind fun φ id h => ?_
  obtain rfl := h.1
  refine Claim.obeys_insert rfl ?_ (fun _ _ => by exact rfl) (fun _ => trivial)
  have hhandle : Confined F (handleStripeEvent (events i) id) :=
    confined_handleStripeEvent (by simp [F]) (by simp [F]) _ _
  refine (follows_stripe_of_confined hw hd hhandle (.owner _)).bind fun φ _ h => ?_
  obtain rfl := h.1
  exact ⟨trivial, rfl⟩

/-! ## Exactly once -/

/-- The commits of deliveries of an event that wrote something. -/
def effects (events : ι → Event) (eventId : String)
    (sys : Sys Row UUID Answer Failure Bool ι) : List (ι × Entry Row UUID Answer) :=
  sys.trace.filter fun x => (events x.1).id = eventId && !x.2.ops.isEmpty

def MarkerPresent (eventId : String) (db : Db Row) : Prop :=
  ∃ r ∈ db .stripeEvents, r.stripeEventId = eventId

/-- The subscriptions were committed like this at some time of the trace. -/
def WereCommitted (db : Db Row) (trace : List (ι × Entry Row UUID Answer))
    (rows : List Subscription) : Prop :=
  ∃ before, before <+: trace ∧ dbAfter db before .subscriptions = rows

/-- The commit of delivery `i` at this place of the trace wrote what its event asks for, by the
subscriptions that it saw before, and it made the change of the event. -/
structure TakesEffect (events : ι → Event) (db : Db Row) (i : ι)
    (before : List (ι × Entry Row UUID Answer)) (ops : List (Op Row UUID))
    (change : Option EventChange) : Prop where
  writes : EventWrites (events i) (WereCommitted db before) change ops
  made : ChangeMade change (dbAfter db before .subscriptions)
    (replay ops (dbAfter db before) .subscriptions)

/-- What holds of an event in a reached state. The database is what the commits in the trace
have made of the initial one. -/
structure EffectiveOnce (events : ι → Event) (db : Db Row) (eventId : String)
    (sys : Sys Row UUID Answer Failure Bool ι) : Prop where
  /-- The marker is there exactly if a delivery of the event was processed. -/
  marker_iff : MarkerPresent eventId sys.db ↔
    ∃ i, (events i).id = eventId ∧ sys.proc i = .committed true
  /-- With the marker, the marker itself, the subscription change and the audit row were
  applied by one commit, and by no other. -/
  applied_once : MarkerPresent eventId sys.db → ∃ i before ops after change,
    sys.trace = before ++ (i, .committed ops) :: after ∧
    effects events eventId sys = [(i, .committed ops)] ∧ (events i).id = eventId ∧
    sys.proc i = .committed true ∧ TakesEffect events db i before ops change
  /-- Without it, no delivery of the event has written anything. -/
  nothing_before : ¬ MarkerPresent eventId sys.db → effects events eventId sys = []
  /-- A delivery that has not committed has written nothing. -/
  failed_writes_nothing : ∀ i, (events i).id = eventId → (∀ b, sys.proc i ≠ .committed b) →
    ∀ ops, (i, .committed ops) ∉ sys.trace
  /-- Without the marker, a redelivery is not taken for a duplicate. -/
  retry_possible : ¬ MarkerPresent eventId sys.db → ∀ (r : StripeEvent)
    (ext : (c : Call) → Answer c), r.stripeEventId = eventId →
    ((Stmt.insertOnConflictDoNothing .stripeEvents sameStripeEventId r :
      Stmt Row UUID Call).eval ext sys.db).1 ≠ .ok false
  db_eq : sys.db = replay sys.commits db

omit [Platform] in
/-- A pairwise relation that no two members of the list satisfy leaves at most one member. -/
theorem eq_singleton_of_pairwise {α : Type} {R : α → α → Prop} {l : List α} (h : l.Pairwise R)
    (hnot : ∀ x ∈ l, ∀ y ∈ l, ¬ R x y) {a : α} (ha : a ∈ l) : l = [a] := by
  match l with
  | [] => cases ha
  | [b] => rw [List.mem_singleton.mp ha]
  | b :: c :: l =>
    exact absurd (List.rel_of_pairwise_cons h List.mem_cons_self) (hnot b (by simp) c (by simp))

theorem EventWrites.ne_nil {event : Event} {Saw : List Subscription → Prop}
    {change : Option EventChange} {ops : List (Op Row UUID)}
    (h : EventWrites event Saw change ops) : ops ≠ [] := by
  cases h <;> simp

/-- The writes of a processed event are inserts and the flush of a subscription. -/
theorem EventWrites.mem_cases {event : Event} {Saw : List Subscription → Prop}
    {change : Option EventChange} {ops : List (Op Row UUID)}
    (h : EventWrites event Saw change ops) {op : Op Row UUID} (hop : op ∈ ops) :
    (∃ t r, op = .insert t r) ∨ ∃ loaded new updatedAt,
      op = .update .subscriptions loaded.id (Subscription.patch loaded new updatedAt) := by
  cases h with
  | unresolved => exact .inl ⟨_, _, List.mem_singleton.mp hop⟩
  | resolved hobj hsaw hres hmarker hloaded hassigned hlog =>
    rcases List.mem_append.mp hop with hop | hop
    · rcases List.mem_append.mp hop with hop | hop
      · rcases List.mem_cons.mp hop with hop | hop
        · exact .inl ⟨_, _, hop⟩
        · cases hloaded with
          | found => cases hop
          | created => exact .inl ⟨_, _, List.mem_singleton.mp hop⟩
      · unfold changeWrites at hop
        split at hop
        · exact .inr ⟨_, _, _, List.mem_singleton.mp hop⟩
        · cases hop
    · exact .inl ⟨_, _, List.mem_singleton.mp hop⟩

theorem EventWrites.not_delete {event : Event} {Saw : List Subscription → Prop}
    {change : Option EventChange} {ops : List (Op Row UUID)}
    (h : EventWrites event Saw change ops) (t : Table) (id : UUID) : .delete t id ∉ ops := by
  intro hop
  rcases h.mem_cases hop with ⟨_, _, hop⟩ | ⟨_, _, _, hop⟩ <;> cases hop

/-- A subscription stays with its organization. -/
theorem EventWrites.update {event : Event} {Saw : List Subscription → Prop}
    {change : Option EventChange} {ops : List (Op Row UUID)}
    (h : EventWrites event Saw change ops) {id : UUID} {f : Subscription → Subscription}
    (hop : .update .subscriptions id f ∈ ops) (r : Subscription) :
    ((f r).id, (f r).organizationId) = (r.id, r.organizationId) := by
  rcases h.mem_cases hop with ⟨_, _, hop⟩ | ⟨_, _, _, hop⟩
  · cases hop
  · cases hop
    rfl

theorem EventWrites.keepsKey {event : Event} {Saw : List Subscription → Prop}
    {change : Option EventChange} {ops : List (Op Row UUID)}
    (h : EventWrites event Saw change ops) : ∀ op ∈ ops, op.KeepsKey := by
  intro op hop
  rcases h.mem_cases hop with ⟨_, _, rfl⟩ | ⟨_, _, _, rfl⟩
  · trivial
  · exact fun _ => rfl

section Commits

variable {db : Db Row} {notes : ι → Notes Row UUID} {sys : Sys Row UUID Answer Failure Bool ι}
  {before after : List (ι × Entry Row UUID Answer)} {i : ι} {ops : List (Op Row UUID)}

omit [Platform] [DecidableEq ι] in
/-- The subscriptions that a delivery has noted were committed before. -/
theorem Saw.wereCommitted {notes : Notes Row UUID}
    (hseen : ∀ x ∈ notes.seen, WasView db before x.1 x.2) {rows : List Subscription}
    (h : Saw notes rows) : WereCommitted db before rows := by
  obtain ⟨x, hx, hspare, rfl⟩ := h
  obtain ⟨pre, hpre, hview⟩ := hseen x hx
  exact ⟨pre, hpre, by rw [hview, replay_of_table_ne _ hspare]⟩

variable (hnoted : Noted (fun i => NotedEvent (events i)) db notes sys)

include hnoted

omit [DecidableEq ι] in
theorem noted_commit (htrace : sys.trace = before ++ (i, .committed ops) :: after) :
    ∃ processed, sys.proc i = .committed processed ∧
      if processed then ∃ change, EventWrites (events i) (WereCommitted db before) change ops
      else ops = [] := by
  obtain ⟨rfl, hseen, processed, hproc, hpost⟩ := hnoted.committed i before ops after htrace
  refine ⟨processed, hproc, ?_⟩
  cases processed with
  | true =>
    obtain ⟨change, hwrites⟩ := hpost
    exact ⟨change, hwrites.mono fun _ h => h.wereCommitted hseen⟩
  | false => exact hpost

omit [DecidableEq ι] in
theorem keeps_subscription (htrace : sys.trace = before ++ after) {mid : List _} {r : Subscription}
    (hmid : mid <+: after) (hr : r ∈ dbAfter db before .subscriptions) :
    ∃ r' ∈ dbAfter db (before ++ mid) .subscriptions,
      (r'.id, r'.organizationId) = (r.id, r.organizationId) := by
  induction mid generalizing before after r with
  | nil => exact ⟨r, by simpa using hr, rfl⟩
  | cons e mid ih =>
    obtain ⟨rest, rfl⟩ := hmid
    have hsplit : sys.trace = before ++ e :: (mid ++ rest) := by simpa using htrace
    have hstep : ∃ r' ∈ dbAfter db (before ++ [e]) .subscriptions,
        (r'.id, r'.organizationId) = (r.id, r.organizationId) := by
      obtain ⟨j, entry⟩ := e
      cases entry with
      | called c x => exact ⟨r, by simpa using hr, rfl⟩
      | committed ops =>
        rw [dbAfter_append, dbAfter_committed]
        obtain ⟨processed, -, hpost⟩ := noted_commit hnoted hsplit
        cases processed with
        | true =>
          obtain ⟨change, hwrites⟩ := hpost
          exact replay_keeps_rows (fun r : Subscription => (r.id, r.organizationId))
            (hwrites.not_delete .subscriptions) (fun _ _ hop => hwrites.update hop) hr
        | false =>
          obtain rfl : ops = [] := hpost
          exact ⟨r, hr, rfl⟩
    obtain ⟨r₁, hr₁, hsame₁⟩ := hstep
    obtain ⟨r₂, hr₂, hsame₂⟩ := ih (by simpa using hsplit) (List.prefix_append mid rest) hr₁
    exact ⟨r₂, by simpa using hr₂, hsame₂.trans hsame₁⟩

end Commits

omit [Platform] in
/-- A resolved event changes the subscriptions as its flush does, after the insert if any. -/
theorem replay_resolved {marker : StripeEvent} {created : List (Op Row UUID)}
    {loaded : Subscription} {assigned : Assignments} {updatedAt : Datetime} {log : AuditLog}
    (d : Db Row) : replay (.insert .stripeEvents marker :: created ++
        changeWrites loaded assigned updatedAt ++ [.insert .auditLogs log]) d .subscriptions =
      changed loaded assigned updatedAt (replay created d .subscriptions) := by
  have haudit : ∀ d : Db Row,
      replay [(Op.insert .auditLogs log : Op Row UUID)] d .subscriptions = d .subscriptions :=
    fun d => replay_of_table_ne d (by simp [Op.table])
  have hmarker : (Op.insert .stripeEvents marker : Op Row UUID).apply d .subscriptions =
      d .subscriptions := apply_of_table_ne d (by simp [Op.table])
  rw [replay_append, haudit, List.cons_append, replay_cons, replay_append, replay_changeWrites,
    replay_congr hmarker created]

/-- Whatever happened since it was read, the record gets the values that the flush sends. -/
theorem EventWrites.changeMade {event : Event} {Saw : List Subscription → Prop}
    {change : Option EventChange} {ops : List (Op Row UUID)} {d : Db Row} (hd : Unclashing d)
    (hafter : Unclashing (replay ops d))
    (hkept : ∀ rows, Saw rows → ∀ loaded ∈ rows, ∃ r ∈ d .subscriptions,
      (r.id, r.organizationId) = (loaded.id, loaded.organizationId))
    (h : EventWrites event Saw change ops) :
    ChangeMade change (d .subscriptions) (replay ops d .subscriptions) := by
  have hdelete := h.not_delete
  have hkeys := h.keepsKey
  cases h with
  | unresolved => exact replay_of_table_ne d (by simp [Op.table])
  | @resolved marker _ _ change updatedAt created log _ _ _ _ hloaded _ _ =>
    obtain ⟨organizationId, loaded, assigned⟩ := change
    dsimp only at hloaded ⊢
    rw [replay_resolved]
    cases hloaded with
    | @found rows hsaw hfind =>
      have horg : loaded.organizationId = organizationId := by simpa using List.find?_some hfind
      obtain ⟨r, hr, hsame⟩ := hkept rows hsaw loaded (List.mem_of_find?_eq_some hfind)
      obtain ⟨hid, horg'⟩ := Prod.mk.inj hsame
      have hcurrent : (d .subscriptions).find? (·.organizationId = organizationId) = some r := by
        rw [← horg, ← horg']
        exact find_organization hd hr
      exact EventChange.made_of_version (distinctIds_of_unclashing hd) assigned updatedAt hcurrent
        hid
    | @created rows hsaw hfind horg hnew =>
      have hfresh : ∀ r ∈ d .subscriptions, r.id ≠ loaded.id :=
        Unclashing.fresh_key hafter (by simp) (hdelete _ _) hkeys
      have hcreated : replay [(Op.insert .subscriptions loaded : Op Row UUID)] d .subscriptions =
          d .subscriptions ++ [loaded] := by
        rw [replay_cons, replay_nil, apply_insert_self]
      have hnone := find_none_of_created hafter (by rw [replay_resolved, hcreated]) hfresh
      rw [horg] at hnone
      rw [hcreated]
      exact EventChange.made_of_created (distinctIds_of_unclashing hd) assigned updatedAt hnone
        horg hnew hfresh

omit [DecidableEq ι] in
/-- An entry among the effects is the commit of a processed delivery. -/
theorem effect_cases {db : Db Row} {notes : ι → Notes Row UUID}
    {sys : Sys Row UUID Answer Failure Bool ι}
    (hnoted : Noted (fun i => NotedEvent (events i)) db notes sys) {eventId : String}
    {x : ι × Entry Row UUID Answer} (hx : x ∈ effects events eventId sys) :
    (events x.1).id = eventId ∧ x.2.isCommit = true ∧ sys.proc x.1 = .committed true := by
  obtain ⟨i, entry⟩ := x
  obtain ⟨hmem, hp⟩ := List.mem_filter.mp hx
  simp only [Bool.and_eq_true, decide_eq_true_eq, Bool.not_eq_true'] at hp
  cases entry with
  | called c x => simp [Entry.ops] at hp
  | committed ops =>
    obtain ⟨before, after, htrace⟩ := List.append_of_mem hmem
    obtain ⟨processed, hproc, hpost⟩ := noted_commit hnoted htrace
    cases processed with
    | true => exact ⟨hp.1, rfl, hproc⟩
    | false =>
      obtain rfl : ops = [] := by simpa using hpost
      simp [Entry.ops] at hp

theorem orderly_processStripeEvent (event : Event) :
    Orderly (· ∈ (Request.stripeEvent event).scope.writes)
      (· ∈ (Request.stripeEvent event).scope.deletes) (processStripeEvent event) :=
  ⟨Request.scope_disjoint _, (confined_processStripeEvent (by simp [Request.scope])
    (by simp [Request.scope]) (by simp [Request.scope]) event).mono (fun _ hs => hs.within)
    (fun _ h => h) fun _ h => h⟩

/-- The commit of a processed delivery takes effect. -/
theorem takesEffect {db : Db Row} (hdb : Unclashing db) {notes : ι → Notes Row UUID}
    {sys : Sys Row UUID Answer Failure Bool ι}
    (hr : Reachable (fun i => processStripeEvent (events i)) db sys)
    (hnoted : Noted (fun i => NotedEvent (events i)) db notes sys) {i : ι}
    (hi : sys.proc i = .committed true) {before after : List (ι × Entry Row UUID Answer)}
    {ops : List (Op Row UUID)} (htrace : sys.trace = before ++ (i, .committed ops) :: after) :
    ∃ change, TakesEffect events db i before ops change := by
  have hearlier {before after : List (ι × Entry Row UUID Answer)}
      (h : sys.trace = before ++ after) : Unclashing (dbAfter db before) :=
    ReachableVia.unclashing_before (fun i => orderly_processStripeEvent (events i)) hdb hr h
  obtain ⟨processed, hproc, hpost⟩ := noted_commit hnoted htrace
  obtain rfl : processed = true := Proc.committed.inj (hproc.symm.trans hi)
  obtain ⟨change, hwrites⟩ := hpost
  refine ⟨change, hwrites, hwrites.changeMade (hearlier htrace) ?_ ?_⟩
  · have hsplit : sys.trace = (before ++ [(i, .committed ops)]) ++ after := by simp [htrace]
    have hafter := hearlier hsplit
    rwa [dbAfter_append, dbAfter_committed] at hafter
  · rintro rows ⟨pre, ⟨mid, rfl⟩, rfl⟩ loaded hloaded
    have hsplit : sys.trace = pre ++ (mid ++ (i, .committed ops) :: after) := by simp [htrace]
    exact keeps_subscription hnoted hsplit (List.prefix_append _ _) hloaded

end Claim

end Events

section Sample

attribute [local instance] samplePlatform

/-- A completed checkout of the sample organization. -/
def sampleEvent : Event where
  id := "evt_1"
  type := "checkout.session.completed"
  created := 1
  object := some [("customer", .str "cus_1"),
    ("metadata", .obj [("organization_id", .str "00000000-0000-0000-0000-000000000002")])]

/-- What the first delivery leaves. -/
def sampleProcessed : Except Failure Bool × Session Row :=
  (processStripeEvent sampleEvent).run (execStmt sampleOracle) ⟨sampleDb, 0⟩

theorem sampleEvent_deliveries : Prog.endsWith id sampleProcessed = true ∧
    Prog.endsWith not ((processStripeEvent sampleEvent).run (execStmt (otherOracle 100))
      ⟨sampleProcessed.2.db, 0⟩) = true := by
  decide +kernel

end Sample

end TenantFlow
