import TenantFlow.Library.Effects
import TenantFlow.Verification.Sample
import TenantFlow.Verification.Sequential

/-!
# The fan-out of an event

An emission draws one event id, adds a delivery for every active endpoint of the organization
that subscribes to the event type, and then publishes one task for each of them.
-/

namespace TenantFlow

open JsonText Transactional

/-- The calls and writes of a run, in order. -/
abbrev Effects : Type := List (Fact Row UUID Answer)

def activeEndpoints (organizationId : UUID) (db : Db Row) : List WebhookEndpoint :=
  (db .webhookEndpoints).filter fun e => e.organizationId = organizationId ∧ e.isActive

/-- The endpoint gets the events of this type that its organization emits. -/
def WebhookEndpoint.Subscribes (organizationId : UUID) (eventType : String)
    (e : WebhookEndpoint) : Prop :=
  e.organizationId = organizationId ∧ e.isActive = true ∧ eventType ∈ e.events

instance (organizationId : UUID) (eventType : String) (e : WebhookEndpoint) :
    Decidable (e.Subscribes organizationId eventType) :=
  inferInstanceAs (Decidable (_ ∧ _))

/-- The payload of a delivery: the event's id and type, and its data. -/
def eventPayload (eventId : UUID) (eventType : String) (data : List (String × Json)) : Json :=
  .obj [("id", .str eventId.str), ("type", .str eventType), ("data", .obj data)]

/-- A new delivery of the event for the endpoint. -/
structure NewDelivery (eventId : UUID) (eventType : String) (data : List (String × Json))
    (e : WebhookEndpoint) (d : WebhookDelivery) : Prop where
  endpoint : d.endpointId = e.id
  event : d.eventId = eventId
  type : d.eventType = eventType
  payload : d.payload = eventPayload eventId eventType data
  state : d.state = .pending
  attempts : d.attemptCount = 0

/-- The row that is added for an endpoint. -/
def pendingDelivery (d : RowDefaults) (eventId : UUID) (eventType : String)
    (data : List (String × Json)) (e : WebhookEndpoint) : WebhookDelivery :=
  { id := d.id, eventId, endpointId := e.id, eventType,
    payload := eventPayload eventId eventType data, state := .pending, attemptCount := 0,
    responseStatus := none, lastError := none, nextRetryAt := none,
    createdAt := d.createdAt, updatedAt := d.updatedAt }

/-! ## The effects of an emission -/

/-- Adding a row draws its defaults first. -/
def addition (d : WebhookDelivery) : Effects :=
  [.called .uuid4 d.id, .called .now d.createdAt, .called .now d.updatedAt,
    .wrote (.insert .webhookDeliveries d)]

def publication (d : WebhookDelivery) : Fact Row UUID Answer :=
  .called (.deliverWebhookTask d.id.str) (some ())

def emission (eventId : UUID) (new : List WebhookDelivery) : Effects :=
  .called .uuid4 eventId :: (new.flatMap addition ++ new.map publication)

section Emission

variable {oracle : Oracle Answer} {db : Db Row} {organizationId eventId : UUID}
  {eventType : String} {data : List (String × Json)}

theorem does_rowDefaults {β : Type} {Q : Effects → β → Db Row → Prop} {f : RowDefaults → App β}
    (h : ∀ d, Does oracle (fun facts b db' => Q (.called .uuid4 d.id :: .called .now d.createdAt ::
      .called .now d.updatedAt :: facts) b db') (f d) db) :
    Does oracle Q (rowDefaults.bind f) db :=
  does_call fun id => does_call fun createdAt => does_call fun updatedAt =>
    h ⟨id, createdAt, updatedAt⟩

theorem does_insertRow {β : Type} {Q : Effects → β → Db Row → Prop} {t : Table} {r : Row t}
    {f : Unit → App β} (h : insertable db r = .ok () → Does oracle (fun facts b db' =>
      Q (.wrote (.insert t r) :: facts) b db') (f ()) ((Op.insert t r).apply db)) :
    Does oracle Q ((insertRow r).bind f) db :=
  does_insert h fun _ => does_raise _

theorem does_addDeliveries (endpoints : List WebhookEndpoint) (db : Db Row) :
    Does oracle (fun facts ids _ => ∃ new, facts = new.flatMap addition ∧ ids = new.map (·.id) ∧
        List.Forall₂ (NewDelivery eventId eventType data)
          (endpoints.filter (eventType ∈ ·.events)) new)
      (addDeliveries eventId eventType data endpoints) db := by
  induction endpoints generalizing db with
  | nil => exact does_ret ⟨[], rfl, rfl, .nil⟩
  | cons endpoint endpoints ih =>
    unfold addDeliveries
    split
    · rename_i hevent
      refine does_rowDefaults fun d => does_insertRow fun _ => ?_
      refine does_bind ((ih _).mono fun facts ids _ h => does_ret ?_)
      obtain ⟨new, rfl, rfl, hnew⟩ := h
      rw [List.filter_cons_of_pos (by simpa using hevent)]
      refine ⟨pendingDelivery d eventId eventType data endpoint :: new, ?_, rfl, ?_⟩
      · rw [List.append_nil]
        rfl
      · exact .cons ⟨rfl, rfl, rfl, rfl, rfl, rfl⟩ hnew
    · rename_i hevent
      rw [List.filter_cons_of_neg (by simpa using hevent)]
      exact ih db

theorem does_publishDeliveries (ids : List UUID) (db : Db Row) :
    Does oracle (fun facts _ _ =>
        facts = ids.map fun id => .called (.deliverWebhookTask id.str) (some ()))
      (publishDeliveries ids) db := by
  induction ids generalizing db with
  | nil => exact does_ret rfl
  | cons id ids ih =>
    refine does_call fun answer => ?_
    cases answer with
    | none => exact does_raise _
    | some u => exact (ih db).mono fun facts _ _ h => by rw [h, List.map_cons]

theorem does_emitEvent : Does oracle (fun facts eventId _ => ∃ new, facts = emission eventId new ∧
      List.Forall₂ (NewDelivery eventId eventType data)
        ((activeEndpoints organizationId db).filter (eventType ∈ ·.events)) new)
    (emitEvent organizationId eventType data) db := by
  refine does_call fun eventId => does_select ?_
  change Does oracle _
    ((addDeliveries eventId eventType data (activeEndpoints organizationId db)).bind _) db
  refine does_bind ((does_addDeliveries _ db).mono fun facts ids db₁ h => ?_)
  obtain ⟨new, rfl, rfl, hnew⟩ := h
  refine does_bind ((does_publishDeliveries _ db₁).mono fun facts _ _ h => does_ret ?_)
  exact ⟨new, by simp [h, emission, publication, Function.comp_def], hnew⟩

end Emission

/-! ## What the effects say -/

section Effects

variable {db : Db Row} {organizationId eventId : UUID} {eventType : String}
  {data : List (String × Json)} {new : List WebhookDelivery}

/-- The tasks that a run publishes, accepted or not. -/
def Published : Fact Row UUID Answer → Option String
  | .called (.deliverWebhookTask deliveryId) _ => some deliveryId
  | _ => none

theorem writesIn_emission :
    writesIn (emission eventId new) = new.map fun d => .insert .webhookDeliveries d := by
  have hpublish : writesIn (new.map publication) = [] := by
    induction new with
    | nil => rfl
    | cons d new ih => exact ih
  have hadd : writesIn (new.flatMap addition) =
      new.map fun d => (.insert .webhookDeliveries d : Op Row UUID) := by
    clear hpublish
    induction new with
    | nil => rfl
    | cons d new ih => rw [List.flatMap_cons, writesIn_append, ih]; rfl
  change writesIn (new.flatMap addition ++ new.map publication) = _
  rw [writesIn_append, hadd, hpublish, List.append_nil]

theorem published_emission :
    (emission eventId new).filterMap Published = new.map fun d => d.id.str := by
  have hadd : (new.flatMap addition).filterMap Published = [] := by
    induction new with
    | nil => rfl
    | cons d new ih => rw [List.flatMap_cons, List.filterMap_append, ih]; rfl
  change (new.flatMap addition ++ new.map publication).filterMap Published = _
  rw [List.filterMap_append, hadd, List.filterMap_map, List.nil_append]
  exact congrFun List.filterMap_eq_map new

/-- Every publication comes after all additions. -/
theorem emission_ordered {before after : Effects} {deliveryId : String} {x : Option Unit}
    (h : emission eventId new = before ++ .called (.deliverWebhookTask deliveryId) x :: after) :
    ∃ d ∈ new, deliveryId = d.id.str ∧ .wrote (.insert .webhookDeliveries d) ∈ before := by
  have hparts : (.called .uuid4 eventId :: new.flatMap addition) ++ new.map publication =
      before ++ .called (.deliverWebhookTask deliveryId) x :: after := h
  rcases eq_append_cons hparts with ⟨m, hm, _⟩ | ⟨m, rfl, hm⟩
  · have hmem : Fact.called (.deliverWebhookTask deliveryId) x ∈
        (.called .uuid4 eventId :: new.flatMap addition : Effects) := by
      rw [hm]
      simp
    simp [addition] at hmem
  · have hmem : Fact.called (.deliverWebhookTask deliveryId) x ∈ new.map publication := by
      rw [hm]
      simp
    obtain ⟨d, hd, hpub⟩ := List.mem_map.mp hmem
    have hid : d.id.str = deliveryId := by
      injection hpub with hcall
      injection hcall
    refine ⟨d, hd, hid.symm, ?_⟩
    refine List.mem_append_left _ (List.mem_cons_of_mem _ (List.mem_flatMap.mpr ⟨d, hd, ?_⟩))
    simp [addition]

theorem filter_activeEndpoints : (activeEndpoints organizationId db).filter (eventType ∈ ·.events) =
    (db .webhookEndpoints).filter (·.Subscribes organizationId eventType) := by
  rw [activeEndpoints, List.filter_filter]
  refine List.filter_congr fun e _ => ?_
  simp only [WebhookEndpoint.Subscribes]
  grind

theorem map_endpointId {endpoints : List WebhookEndpoint}
    (h : List.Forall₂ (NewDelivery eventId eventType data) endpoints new) :
    new.map (·.endpointId) = endpoints.map (·.id) := by
  induction h with
  | nil => rfl
  | cons h _ ih => rw [List.map_cons, List.map_cons, h.endpoint, ih]

theorem exists_newDelivery {endpoints : List WebhookEndpoint} {d : WebhookDelivery}
    (h : List.Forall₂ (NewDelivery eventId eventType data) endpoints new) (hd : d ∈ new) :
    ∃ e ∈ endpoints, NewDelivery eventId eventType data e d := by
  induction h with
  | nil => cases hd
  | cons h _ ih =>
    rcases List.mem_cons.mp hd with rfl | hd
    · exact ⟨_, List.mem_cons_self, h⟩
    · obtain ⟨e, he, hann⟩ := ih hd
      exact ⟨e, List.mem_cons_of_mem _ he, hann⟩

theorem countP_newDeliveries (hdb : Unclashing db) {e : WebhookEndpoint}
    (he : e ∈ db .webhookEndpoints) (hnew : List.Forall₂ (NewDelivery eventId eventType data)
      ((db .webhookEndpoints).filter (·.Subscribes organizationId eventType)) new) :
    new.countP (·.endpointId = e.id) = if e.Subscribes organizationId eventType then 1 else 0 := by
  have hcount : new.countP (·.endpointId = e.id) = (new.map (·.endpointId)).countP (· = e.id) := by
    rw [List.countP_map]
    rfl
  have honce := hdb.countP_filter he (fun e => decide (e.Subscribes organizationId eventType))
  rw [hcount, map_endpointId hnew, List.countP_map]
  exact honce.trans (by simp only [decide_eq_true_eq])

end Effects

/-! ## The fan-out -/

/-- From `db`, the deliveries of one event and nothing else: one for each subscribed endpoint,
each with a task that is published once and after the row. -/
structure FansOut (organizationId : UUID) (eventType : String) (data : List (String × Json))
    (eventId : UUID) (db db' : Db Row) (facts : Effects) (new : List WebhookDelivery) : Prop where
  added : db' .webhookDeliveries = db .webhookDeliveries ++ new
  others : ∀ t, t ≠ .webhookDeliveries → db' t = db t
  once : ∀ e ∈ db .webhookEndpoints, new.countP (·.endpointId = e.id) =
    if e.Subscribes organizationId eventType then 1 else 0
  deliveries : ∀ d ∈ new, ∃ e ∈ db .webhookEndpoints, e.Subscribes organizationId eventType ∧
    NewDelivery eventId eventType data e d
  drawn : .called .uuid4 eventId ∈ facts
  fresh : ∀ d ∈ new, ∀ old ∈ db .webhookDeliveries, old.endpointId = d.endpointId →
    old.eventId ≠ eventId
  keys : ((db' .webhookDeliveries).map (·.id)).Nodup
  published : facts.filterMap Published = new.map fun d => d.id.str
  ordered : ∀ before deliveryId x after,
    facts = before ++ .called (.deliverWebhookTask deliveryId) x :: after →
    ∃ d ∈ new, deliveryId = d.id.str ∧ .wrote (.insert .webhookDeliveries d) ∈ before

section FanOut

variable {oracle : Oracle Answer} {db : Db Row} {organizationId eventId : UUID}
  {eventType : String} {data : List (String × Json)} {new : List WebhookDelivery}

/-- What an emission may touch. -/
def emissionScope : Scope where
  writes := [.webhookDeliveries]
  calls := fun _ => True

/-- A successful emission adds its rows and nothing else. -/
theorem emitEvent_adds {n : Nat} {st : Session Row}
    (hrun : (emitEvent organizationId eventType data).run (execStmt oracle) ⟨db, n⟩ =
      (.ok eventId, st)) :
    ∃ new, effectsOf oracle (emitEvent organizationId eventType data) ⟨db, n⟩ =
        emission eventId new ∧
      st.db = Function.update db .webhookDeliveries (db .webhookDeliveries ++ new) ∧
      List.Forall₂ (NewDelivery eventId eventType data)
        ((activeEndpoints organizationId db).filter (eventType ∈ ·.events)) new := by
  have hreplay := replay_effectsOf oracle (emitEvent organizationId eventType data) ⟨db, n⟩
  obtain ⟨new, hfacts, hnew⟩ := does_emitEvent n eventId st hrun
  rw [hrun, hfacts, writesIn_emission] at hreplay
  exact ⟨new, hfacts, hreplay.symm.trans (replay_inserts db .webhookDeliveries new), hnew⟩

/-- A successful emission fans out exactly. -/
theorem emitEvent_fansOut (hdb : Unclashing db) {n : Nat} {st : Session Row}
    (hrun : (emitEvent organizationId eventType data).run (execStmt oracle) ⟨db, n⟩ =
      (.ok eventId, st)) :
    ∃ new, FansOut organizationId eventType data eventId db st.db
      (effectsOf oracle (emitEvent organizationId eventType data) ⟨db, n⟩) new := by
  have hconfined : Confined emissionScope (emitEvent organizationId eventType data) :=
    confined_emitEvent (by simp [emissionScope]) (fun _ => trivial) _ _ _
  have hunclashing : Unclashing ((emitEvent organizationId eventType data).run (execStmt oracle)
      ⟨db, n⟩).2.db :=
    (hconfined.runs n).run_invariant (I := fun st => Unclashing st.db)
      (fun s st hs hI => hI.eval hs.within _) hdb
  rw [hrun] at hunclashing
  obtain ⟨new, hfacts, hdb', hnew⟩ := emitEvent_adds hrun
  rw [filter_activeEndpoints] at hnew
  have hadded : st.db .webhookDeliveries = db .webhookDeliveries ++ new := by
    rw [hdb', Function.update_self]
  have hkeys : ((st.db .webhookDeliveries).map (·.id)).Nodup :=
    hunclashing.nodup_keys .webhookDeliveries
  refine ⟨new, hadded, fun t ht => ?_, fun e he => countP_newDeliveries hdb he hnew, fun d hd => ?_,
    ?_, fun d hd old hold hendpoint hevent => ?_, hkeys, ?_, ?_⟩
  · rw [hdb', Function.update_of_ne ht]
  · obtain ⟨e, he, hdelivery⟩ := exists_newDelivery hnew hd
    obtain ⟨he, hsubscribes⟩ := List.mem_filter.mp he
    exact ⟨e, he, by simpa using hsubscribes, hdelivery⟩
  · rw [hfacts]
    exact List.mem_cons_self
  · -- The unique index on event and endpoint would have refused the row.
    rw [hadded, List.map_append] at hkeys
    have hne : d.id ≠ old.id := fun hid => (List.nodup_append.mp hkeys).2.2 _
      (List.mem_map_of_mem hold) _ (List.mem_map_of_mem hd) hid.symm
    have hclash := hunclashing.unique .webhookDeliveries d
      (hadded ▸ List.mem_append_right _ hd) old (hadded ▸ List.mem_append_left _ hold) hne
    obtain ⟨e, _, hdelivery⟩ := exists_newDelivery hnew hd
    simp [Schema.clash, uniqueClash, hevent, hdelivery.event, hendpoint] at hclash
  · rw [hfacts, published_emission]
  · intro before deliveryId x after h
    exact emission_ordered (hfacts.symm.trans h)

end FanOut

section Sample

attribute [local instance] samplePlatform

/-- The first and the last endpoint subscribe to new projects; of the others, one subscribes to
tasks only, one is switched off and one is of another organization. -/
def endpointsDb : Db Row
  | .organizations => [sampleOrganization, otherOrganization]
  | .webhookEndpoints => [sampleEndpoint,
      { sampleEndpoint with id := ⟨41⟩, events := ["task.created"] },
      { sampleEndpoint with id := ⟨42⟩, isActive := false },
      { sampleEndpoint with id := ⟨43⟩, organizationId := otherOrganization.id },
      { sampleEndpoint with id := ⟨44⟩, events := ["project.created"] }]
  | t => sampleDb t

theorem endpointsDb_consistent : Consistent endpointsDb where
  checks := by
    intro t
    cases t <;> decide +kernel
  keys := by
    intro t
    cases t <;> decide +kernel
  unique := by
    intro t
    cases t <;> decide +kernel

def sampleData : List (String × Json) :=
  [("project", .obj [("id", .str sampleProject.id.str), ("name", .str "Engine")])]

/-- The two subscribers get the event. -/
theorem sample_fansOut : ∃ (eventId : UUID) (st : Session Row) (new : List WebhookDelivery),
    (emitEvent sampleOrganization.id "project.created" sampleData).run (execStmt sampleOracle)
      ⟨endpointsDb, 0⟩ = (.ok eventId, st) ∧ new.map (·.endpointId) = [sampleEndpoint.id, ⟨44⟩] ∧
    FansOut sampleOrganization.id "project.created" sampleData eventId endpointsDb st.db
      (effectsOf sampleOracle (emitEvent sampleOrganization.id "project.created" sampleData)
        ⟨endpointsDb, 0⟩) new := by
  have hends : Prog.endsWith (fun _ => true)
        ((emitEvent sampleOrganization.id "project.created" sampleData).run (execStmt sampleOracle)
          ⟨endpointsDb, 0⟩) = true ∧
      (((emitEvent sampleOrganization.id "project.created" sampleData).run (execStmt sampleOracle)
        ⟨endpointsDb, 0⟩).2.db .webhookDeliveries).map (·.endpointId) =
        [sampleEndpoint.id, ⟨44⟩] := by decide +kernel
  obtain ⟨eventId, st, hrun, _⟩ := Prog.exists_of_endsWith hends.1
  obtain ⟨new, hfan⟩ := emitEvent_fansOut endpointsDb_consistent.unclashing hrun
  refine ⟨eventId, st, new, hrun, ?_, hfan⟩
  have hnew : st.db .webhookDeliveries = new := hfan.added
  have hendpoints := hends.2
  rwa [hrun, hnew] at hendpoints

end Sample

end TenantFlow
