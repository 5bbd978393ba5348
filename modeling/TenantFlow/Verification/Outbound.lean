import TenantFlow.Verification.Journals
import TenantFlow.Verification.Sample
import TenantFlow.Verification.Signing

/-!
# Outbound webhooks

From the creation of an endpoint to the attempts of its deliveries, in any interleaving. What an
attempt sends is made of columns that are fixed when the delivery and the endpoint are inserted,
and the secret that the creation returned is the one that signs.
-/

namespace TenantFlow

open JsonText Transactional

/-! ## Activities -/

/-- A request, or the first transaction of an attempt, which ends with what it sends. -/
inductive Activity where
  | request (r : Request)
  | attempt (deliveryId : UUID)

def Activity.scope : Activity → Scope
  | .request r => r.scope
  | .attempt deliveryId => (Request.beginAttempt deliveryId).scope

section Activities

variable [Platform]

def Activity.handler : Activity → App (Response ⊕ Begun)
  | .request r => do return .inl (← r.handler)
  | .attempt deliveryId => do return .inr (← beginAttempt deliveryId)

theorem confined_activity (activity : Activity) : Confined activity.scope activity.handler := by
  cases activity with
  | request r => exact Prog.every_bind (confined_request r) fun _ _ => trivial
  | attempt deliveryId =>
    exact Prog.every_bind (confined_beginAttempt (by simp [Activity.scope, Request.scope])
      (fun _ h => h) _) fun _ _ => trivial

theorem orderly_activity (activity : Activity) :
    Orderly (· ∈ activity.scope.writes) (· ∈ activity.scope.deletes) activity.handler := by
  refine ⟨fun t ht => ?_, (confined_activity activity).mono (fun _ hs => hs.within)
    (fun _ h => h) fun _ h => h⟩
  cases activity with
  | request r => exact r.scope_disjoint t ht
  | attempt deliveryId => exact (Request.beginAttempt deliveryId).scope_disjoint t ht

omit [Platform] in
/-- Endpoints and deliveries stay. -/
theorem Activity.undeleted (activity : Activity) {t : Table}
    (ht : t = .webhookEndpoints ∨ t = .webhookDeliveries) : t ∉ activity.scope.deletes := by
  rcases ht with rfl | rfl
  all_goals
    cases activity with
    | request r =>
      cases r with
      | organization organizationId userId r =>
        cases r <;> simp [Activity.scope, Request.scope, OrganizationRequest.scope]
      | _ => simp [Activity.scope, Request.scope]
    | attempt deliveryId => simp [Activity.scope, Request.scope]

/-! ## Journals -/

def outboundTopic : Topic Table Call where
  tables t := t = .webhookEndpoints ∨ t = .webhookDeliveries
  calls _ := false

abbrev outboundDiscipline (ι : Type) : Discipline Row UUID Answer Failure ι Journal :=
  journalDiscipline outboundTopic fun _ _ => True

/-- The endpoint that a response tells of, with its secret as it was encrypted. -/
structure CreatedBy (r : WebhookResponse) (journal : Journal) (endpoint : WebhookEndpoint)
    (secret : String) : Prop where
  inserted : .wrote (.insert .webhookEndpoints endpoint) ∈ journal
  response : endpoint.id = r.id ∧ r.signingSecret = some secret
  encrypted : .called (.fernetEncrypt secret) endpoint.signingSecretEncrypted ∈ journal

/-- What an attempt has seen and what it sends. -/
structure AttemptOf (deliveryId : UUID) (d : WebhookDelivery) (post : Post) (journal : Journal)
    (held : WebhookDelivery) (endpoint : WebhookEndpoint) (secret : String) (at_ : Datetime) :
    Prop where
  locked : .held .webhookDeliveries held ∈ journal
  key : held.id = deliveryId
  delivery : blank (t := .webhookDeliveries) d = blank (t := .webhookDeliveries) held
  target : .read .webhookEndpoints endpoint ∈ journal
  targetKey : endpoint.id = held.endpointId
  decrypted : .called (.fernetDecrypt endpoint.signingSecretEncrypted) (some secret) ∈ journal
  clock : .called .now at_ ∈ journal
  body : post.body = canonicalPayload held.payload
  signature : post.signature = createSignature secret post.body none (at_ / seconds 1)
  event : post.eventId = held.eventId.str

/-- How an activity ends. -/
def Activity.EndsAs : Activity → Journal → Response ⊕ Begun → Prop
  | .request (.organization _ _ (.createWebhook _)), journal, .inl (.webhook r) =>
    ∃ endpoint secret, CreatedBy r journal endpoint secret
  | .attempt deliveryId, journal, .inr (.attempt d post) =>
    ∃ held endpoint secret at_, AttemptOf deliveryId d post journal held endpoint secret at_
  | _, _, _ => True

section Parts

variable {ι β γ : Type} {i : ι} {F : Scope} {journal : Journal}
  {post : Journal → γ → Prop}

omit [Platform] in
theorem admitted_nil : Admitted F [] := fun _ hop => absurd hop List.not_mem_nil

omit [Platform] in
/-- A fact that is no write. -/
theorem Admitted.note (h : Admitted F journal) {f : Fact Row UUID Answer}
    (hf : ∀ op, f ≠ .wrote op) : Admitted F (journal ++ [f]) := by
  intro op hop
  rcases List.mem_append.mp hop with hop | hop
  · exact h op hop
  · exact absurd (List.mem_singleton.mp hop).symm (hf op)

omit [Platform] in
theorem Admitted.write (h : Admitted F journal) {op : Op Row UUID} (hop : F.AllowsOp op) :
    Admitted F (journal ++ [.wrote op]) := by
  intro op' hop'
  rcases List.mem_append.mp hop' with hop' | hop'
  · exact h op' hop'
  · obtain rfl := Fact.wrote.inj (List.mem_singleton.mp hop')
    exact hop

omit [Platform] in
/-- A part of which only its writes matter. -/
theorem obeys_part {p : App β} {k : β → App γ} (hp : Confined F p) (hI : Admitted F journal)
    (hk : ∀ b journal', Admitted F journal' → journal <+: journal' →
      (outboundDiscipline ι).Obeys i post journal' (k b)) :
    (outboundDiscipline ι).Obeys i post journal (p.bind k) :=
  (journal_of_confined hp (fun _ => rfl) (fun _ => trivial) hI).bind
    fun journal' b h => hk b journal' h.1 h.2

omit [Platform] in
/-- The locking read at the start of an attempt. -/
theorem obeys_findDelivery {id : UUID} {f : Option WebhookDelivery → App γ}
    (hnone : (outboundDiscipline ι).Obeys i post [] (f none))
    (hsome : ∀ held : WebhookDelivery, held.id = id → Admitted F [.held .webhookDeliveries held] →
      (outboundDiscipline ι).Obeys i post [.held .webhookDeliveries held] (f (some held))) :
    (outboundDiscipline ι).Obeys i post []
      ((selectForUpdate .webhookDeliveries (findDelivery id)).bind f) := by
  refine journal_selectForUpdate fun view => ?_
  cases hfound : findDelivery id view with
  | none => exact ⟨[], by simp, trivial, hnone⟩
  | some held =>
    have hid : held.id = id := by simpa using List.find?_some hfound
    refine ⟨[.held .webhookDeliveries held], fun g hg => ?_, trivial,
      hsome held hid (admitted_nil.note fun _ h => nomatch h)⟩
    obtain rfl := List.mem_singleton.mp hg
    exact ⟨_, _, rfl, rfl, by simp, List.mem_of_find?_eq_some hfound, by simp⟩

omit [Platform] in
/-- A read of an endpoint by its key. -/
theorem obeys_findEndpoint {id : UUID} {f : Option WebhookEndpoint → App γ}
    (hI : Admitted F journal) (hw : ∀ op ∈ writesIn journal, op.table ≠ .webhookEndpoints)
    (hnone : (outboundDiscipline ι).Obeys i post journal (f none))
    (hsome : ∀ endpoint : WebhookEndpoint, endpoint.id = id →
      Admitted F (journal ++ [.read .webhookEndpoints endpoint]) →
      (outboundDiscipline ι).Obeys i post (journal ++ [.read .webhookEndpoints endpoint])
        (f (some endpoint))) :
    (outboundDiscipline ι).Obeys i post journal
      ((select fun db => (db .webhookEndpoints).find? (·.id = id)).bind f) := by
  refine journal_select fun view => ?_
  cases hfound : (view .webhookEndpoints).find? (·.id = id) with
  | none => exact ⟨[], by simp, trivial, by rw [List.append_nil]; exact hnone⟩
  | some endpoint =>
    have hid : endpoint.id = id := by simpa using List.find?_some hfound
    refine ⟨[.read .webhookEndpoints endpoint], fun g hg => ?_, trivial,
      hsome endpoint hid (hI.note fun _ h => nomatch h)⟩
    obtain rfl := List.mem_singleton.mp hg
    exact ⟨_, _, rfl, rfl, hw, List.mem_of_find?_eq_some hfound⟩

omit [Platform] in
theorem obeys_call {c : Call} {k : Answer c → App γ} (hI : Admitted F journal)
    (hk : ∀ x, Admitted F (journal ++ [.called c x]) →
      (outboundDiscipline ι).Obeys i post (journal ++ [.called c x]) (k x)) :
    (outboundDiscipline ι).Obeys i post journal ((call c).bind k) :=
  journal_call fun x => ⟨trivial, hk x (hI.note fun _ h => nomatch h)⟩

end Parts

/-- The journal of an activity: its writes are those of its scope, and it ends as it says. -/
abbrev outboundPost (activity : Activity) (journal : Journal) (ended : Response ⊕ Begun) : Prop :=
  Admitted activity.scope journal ∧ activity.EndsAs journal ended

section Obeys

variable {ι : Type} {i : ι}

omit [Platform] in
theorem confined_saveAttempt (deliveryId : UUID) (loaded new : WebhookDelivery) :
    Confined (Activity.attempt deliveryId).scope (saveDelivery loaded new) :=
  confined_saveDelivery (by simp [Activity.scope, Request.scope]) _ _

/-- An attempt of a delivery that is neither delivered nor dead. -/
theorem obeys_open {deliveryId : UUID} {held : WebhookDelivery} (hid : held.id = deliveryId)
    (hheld : Admitted (Activity.attempt deliveryId).scope [.held .webhookDeliveries held]) :
    (outboundDiscipline ι).Obeys i
      (fun journal begun => outboundPost (.attempt deliveryId) journal (.inr begun))
      [.held .webhookDeliveries held] (do
        let endpoint ← select fun db => (db .webhookEndpoints).find? (·.id = held.endpointId)
        match endpoint.filter (·.isActive) with
        | none =>
          saveDelivery held { held with state := .dead }
          return .dead
        | some endpoint =>
          match ← validateWebhookTarget endpoint.url with
          | .error e =>
            saveDelivery held { held with state := .dead, lastError := some e }
            return .dead
          | .ok () =>
            let secret ← orRaise (.unhandled "InvalidToken")
              (← call (.fernetDecrypt endpoint.signingSecretEncrypted))
            let body := canonicalPayload held.payload
            let at_ ← now
            let new := { held with attemptCount := held.attemptCount + 1 }
            saveDelivery held new
            return .attempt new
              { url := endpoint.url, body,
                signature := createSignature secret body none (at_ / seconds 1),
                eventType := held.eventType, eventId := held.eventId.str }) := by
  have hdead : ∀ {journal : Journal}, Admitted (Activity.attempt deliveryId).scope journal →
      ∀ new, (outboundDiscipline ι).Obeys i
        (fun journal begun => outboundPost (.attempt deliveryId) journal (.inr begun)) journal (do
          saveDelivery held new
          return .dead) :=
    fun hI new => obeys_part (confined_saveAttempt deliveryId _ _) hI fun _ _ hI _ => ⟨hI, trivial⟩
  refine obeys_findEndpoint hheld (by simp [writesIn, Fact.op?]) (hdead hheld _)
    fun endpoint hkey hread => ?_
  simp only [Option.filter]
  split
  · exact hdead hread _
  · rename_i endpoint' heq
    split at heq
    · obtain rfl := Option.some.inj heq
      refine obeys_part (confined_validateWebhookTarget (fun _ h => h) _) hread
        fun target journal₁ hI hextends => ?_
      cases target with
      | error e => exact hdead hI _
      | ok u =>
        refine obeys_call hI fun decrypted hI => ?_
        cases decrypted with
        | none => trivial
        | some secret =>
          refine obeys_call hI fun at_ hI => ?_
          refine obeys_part (confined_saveAttempt deliveryId _ _) hI fun _ journal₂ hI hextends₂ => ?_
          refine ⟨hI, held, endpoint, secret, at_, ?_⟩
          have hfirst : ∀ f ∈ [.held .webhookDeliveries held] ++
              [.read .webhookEndpoints endpoint], f ∈ journal₂ := fun f hf =>
            hextends₂.subset (List.mem_append_left _ (List.mem_append_left _ (hextends.subset hf)))
          exact
            { locked := hfirst _ (by simp)
              key := hid
              delivery := rfl
              target := hfirst _ (by simp)
              targetKey := hkey
              decrypted := hextends₂.subset (by simp)
              clock := hextends₂.subset (by simp)
              body := rfl
              signature := rfl
              event := rfl }
    · cases heq

theorem obeys_attempt (deliveryId : UUID) :
    (outboundDiscipline ι).Obeys i (outboundPost (.attempt deliveryId)) []
      (Activity.attempt deliveryId).handler := by
  have hbegin : (outboundDiscipline ι).Obeys i
      (fun journal begun => outboundPost (.attempt deliveryId) journal (.inr begun)) []
      (beginAttempt deliveryId) := by
    refine obeys_findDelivery (F := (Activity.attempt deliveryId).scope) trivial
      fun held hid hheld => ?_
    dsimp only
    split
    · exact ⟨hheld, trivial⟩
    · exact obeys_open hid hheld
  exact hbegin.bind fun journal begun h => h

/-- The new endpoint is inserted with its secret encrypted. -/
theorem obeys_createWebhookEndpoint {F : Scope} (hcalls : ∀ c, c.notifies = false → F.calls c)
    {journal : Journal} (hI : Admitted F journal) (organizationId userId : UUID) (payload : WebhookCreate) :
    (outboundDiscipline ι).Obeys i (fun journal created => Admitted F journal ∧
        ∀ endpoint secret, created = .ok (endpoint, secret) →
          .wrote (.insert .webhookEndpoints endpoint) ∈ journal ∧
            .called (.fernetEncrypt secret) endpoint.signingSecretEncrypted ∈ journal) journal
      (createWebhookEndpoint organizationId userId payload) := by
  unfold createWebhookEndpoint
  dsimp only
  split
  · exact ⟨hI, fun _ _ h => by cases h⟩
  · refine obeys_part (confined_validateWebhookTarget hcalls _) hI fun target journal₁ hI _ => ?_
    cases target with
    | error e => exact ⟨hI, fun _ _ h => by cases h⟩
    | ok u =>
      refine obeys_call hI fun token hI => ?_
      refine obeys_call hI fun encrypted hI => ?_
      refine obeys_part confined_rowDefaults hI fun d journal₂ hI hextends => ?_
      refine journal_insertRow rfl trivial trivial ⟨hI.write trivial, ?_⟩
      rintro endpoint secret ⟨⟩
      exact ⟨by simp, List.mem_append_left _ (hextends.subset (by simp))⟩

theorem obeys_createWebhook (organizationId userId : UUID) (args : Option WebhookCreate) :
    (outboundDiscipline ι).Obeys i
      (outboundPost (.request (.organization organizationId userId (.createWebhook args)))) []
      (Activity.request (.organization organizationId userId (.createWebhook args))).handler := by
  let F := (Activity.request (.organization organizationId userId (.createWebhook args))).scope
  have hcreate : (outboundDiscipline ι).Obeys i
      (fun journal r => outboundPost (.request (.organization organizationId userId
        (.createWebhook args))) journal (.inl (.webhook r))) []
      (createWebhook organizationId userId args) := by
    refine obeys_part (F := F) (confined_requirePermission _ _ _) admitted_nil
      fun context journal hI _ => ?_
    refine obeys_part (confined_validated _ _) hI fun payload journal hI _ => ?_
    refine (obeys_createWebhookEndpoint (fun _ h => h) hI _ _ _).bind fun journal created h => ?_
    obtain ⟨hI, hcreated⟩ := h
    cases created with
    | error e => trivial
    | ok created =>
      obtain ⟨endpoint, secret⟩ := created
      obtain ⟨hinsert, hencrypted⟩ := hcreated endpoint secret rfl
      refine obeys_part (confined_recordAudit (by simp [F, Activity.scope, Request.scope,
        OrganizationRequest.scope]) _ _ _ _ _) hI fun _ journal' hI hextends => ⟨hI, ?_⟩
      exact ⟨endpoint, secret, hextends.subset hinsert, ⟨rfl, rfl⟩, hextends.subset hencrypted⟩
  have hrequest : (outboundDiscipline ι).Obeys i
      (fun journal response => outboundPost (.request (.organization organizationId userId
        (.createWebhook args))) journal (.inl response)) []
      (Request.organization organizationId userId (.createWebhook args)).handler :=
    hcreate.bind fun _ _ h => h
  exact hrequest.bind fun _ _ h => h

/-- The journal of every activity. -/
theorem obeys_activity (activity : Activity) :
    (outboundDiscipline ι).Obeys i (outboundPost activity) [] activity.handler := by
  have hquiet : (∀ journal ended, activity.EndsAs journal ended) →
      (outboundDiscipline ι).Obeys i (outboundPost activity) [] activity.handler := fun hended =>
    (journal_of_confined (confined_activity activity) (fun _ => rfl) (fun _ => trivial)
      admitted_nil).mono fun journal ended h => ⟨h.1, hended journal ended⟩
  cases activity with
  | attempt deliveryId => exact obeys_attempt deliveryId
  | request r =>
    cases r with
    | organization organizationId userId r =>
      cases r with
      | createWebhook args => exact obeys_createWebhook organizationId userId args
      | _ => exact hquiet fun _ _ => trivial
    | _ => exact hquiet fun _ _ => trivial

end Obeys

/-! ## Rows of endpoints and deliveries -/

section Runs

variable {ι : Type} {activities : ι → Activity} {db : Db Row}
  {journals : ι → Journal} {sys : Sys Row UUID Answer Failure (Response ⊕ Begun) ι} {i : ι}
  {t : Table}

/-- The journals of activities. -/
abbrev OutboundRun (activities : ι → Activity) (db : Db Row) (journals : ι → Journal)
    (sys : Sys Row UUID Answer Failure (Response ⊕ Begun) ι) : Prop :=
  Recorded outboundTopic (fun i => (activities i).scope) (fun _ _ => True)
    (fun i => outboundPost (activities i)) db journals sys

theorem exists_outboundRun [DecidableEq ι] (hdb : Unclashing db)
    (hr : Reachable (fun i => (activities i).handler) db sys) :
    ∃ journals, OutboundRun activities db journals sys := by
  obtain ⟨journals, h⟩ : ∃ journals, Recorded outboundTopic (fun i => (activities i).scope)
      (fun _ _ => True ∧ True) (fun i => outboundPost (activities i)) db journals sys :=
    ReachableVia.chronicle (fun i => orderly_activity (activities i)) hdb
      (fun i => obeys_activity (activities i)) (fun _ => trivial) (fun _ => trivial)
      (fun _ _ _ _ _ _ _ _ _ _ _ _ _ _ => trivial) hr
  exact ⟨journals, h.mono fun _ _ h => h.1⟩

theorem keeping_outbound (ht : t = .webhookEndpoints ∨ t = .webhookDeliveries) :
    Keeping outboundTopic (fun i => (activities i).scope) (fun i => outboundPost (activities i))
      t where
  tracked := decide_eq_true ht
  admitted _ _ _ h := h.1
  undeleted i := (activities i).undeleted ht

/-- The journal of an activity that has committed. -/
theorem OutboundRun.ended [DecidableEq ι] (hrun : OutboundRun activities db journals sys)
    (hr : Reachable (fun i => (activities i).handler) db sys) {ended : Response ⊕ Begun}
    (hi : sys.proc i = .committed ended) : ∃ before ops after,
      sys.trace = before ++ (i, .committed ops) :: after ∧
        outboundTopic.writes ops = writesIn (journals i) ∧
          (activities i).EndsAs (journals i) ended := by
  obtain ⟨ops, hmem⟩ := (hr.committed_iff i).mpr ⟨ended, hi⟩
  obtain ⟨before, after, htrace⟩ := List.append_of_mem hmem
  obtain ⟨hcommitted, ended', hended, hpost⟩ := hrun.committed i before ops after htrace
  rw [hi] at hended
  obtain rfl := Proc.committed.inj hended
  exact ⟨before, ops, after, htrace, hcommitted.writes, hpost.2⟩

omit [Platform] in
/-- What updates of a delivery leave. -/
theorem delivery_of_blank {d d' : Row .webhookDeliveries} (h : blank d = blank d') :
    d.eventId = d'.eventId ∧ d.endpointId = d'.endpointId ∧ d.eventType = d'.eventType ∧
      d.payload = d'.payload := by
  simp only [blank, WebhookDelivery.mk.injEq] at h
  exact ⟨h.2.1, h.2.2.1, h.2.2.2.1, h.2.2.2.2.1⟩

/-- The deliveries of an endpoint that the run has made are formed. -/
theorem OutboundRun.formed (hrun : OutboundRun activities db journals sys) (hdb : Consistent db)
    {endpoint : WebhookEndpoint} {d : WebhookDelivery}
    (hnew : ∀ e ∈ db .webhookEndpoints, e.id ≠ endpoint.id)
    (hd : WasCommitted db sys.trace .webhookDeliveries d) (htarget : d.endpointId = endpoint.id) :
    d.Formed := by
  rcases (keeping_outbound (.inr rfl)).origin hrun hd with ⟨d₀, hd₀, hblank⟩ | ⟨_, d₀, hd₀, hblank⟩
  · have hreference := (check_eq_none_iff.mp (hdb.checks .webhookDeliveries d₀ hd₀)).2.2
    obtain ⟨e, he, hid⟩ : ∃ e ∈ db .webhookEndpoints, e.id = d₀.endpointId := by
      simpa [referencesOk] using hreference
    exact absurd (hid.trans ((delivery_of_blank hblank).2.1.symm.trans htarget)) (hnew e he)
  · obtain ⟨data, hpayload⟩ : d₀.Formed := hd₀
    obtain ⟨hevent, _, htype, hsame⟩ := delivery_of_blank hblank
    exact ⟨data, by rw [hsame, hpayload, hevent, htype]⟩

/-! ## Every post -/

/-- What was encrypted is what its decryption gives. -/
def FernetUndoes (trace : List (ι × Entry Row UUID Answer)) : Prop :=
  ∀ i j secret encrypted decrypted, (i, .called (.fernetEncrypt secret) encrypted) ∈ trace →
    (j, .called (.fernetDecrypt encrypted) decrypted) ∈ trace → decrypted = some secret

/-- The body is the canonical text of an object with the event id of the header. -/
def Post.NamesEvent (post : Post) : Prop :=
  ∃ fields, post.body = canonicalPayload (.obj fields) ∧
    fields.lookup "id" = some (.str post.eventId)

/-- A receiver with the secret accepts the post while its clock is close to the sender's. -/
def Post.Verifiable (post : Post) (secret : String) (sent : Int) : Prop :=
  sent ≠ 0 → ∀ toleranceSeconds time time', |time - sent| ≤ toleranceSeconds →
    verifySignature secret post.body post.signature toleranceSeconds time time' = .ok true

/-- Two attempts of a delivery have seen the same columns of it. -/
theorem OutboundRun.same_delivery (hrun : OutboundRun activities db journals sys)
    {j k : ι} {deliveryId : UUID} {d d' held held' : WebhookDelivery} {post post' : Post}
    {endpoint endpoint' : WebhookEndpoint} {secret secret' : String} {at_ at' : Datetime}
    (hj : AttemptOf deliveryId d post (journals j) held endpoint secret at_)
    (hk : AttemptOf deliveryId d' post' (journals k) held' endpoint' secret' at') :
    post'.body = post.body ∧ post'.eventId = post.eventId := by
  have hblank : blank (t := .webhookDeliveries) held' = blank (t := .webhookDeliveries) held :=
    (keeping_outbound (.inr rfl)).blank_eq hrun (hrun.wasCommitted (.inr hk.locked))
      (hrun.wasCommitted (.inr hj.locked)) (hk.key.trans hj.key.symm)
  obtain ⟨hevent, _, _, hpayload⟩ := delivery_of_blank hblank
  exact ⟨by rw [hk.body, hj.body, hpayload], by rw [hk.event, hj.event, hevent]⟩

/-- The secret that an attempt signs with is the one that the creation of the endpoint returned. -/
theorem OutboundRun.secret_eq (hrun : OutboundRun activities db journals sys)
    (hfernet : FernetUndoes sys.trace) {j : ι} {deliveryId : UUID} {d held : WebhookDelivery}
    {post : Post} {endpoint created created' : WebhookEndpoint} {secret secret' : String}
    {at_ : Datetime} (hj : AttemptOf deliveryId d post (journals j) held endpoint secret' at_)
    (hcreated : WasCommitted db sys.trace .webhookEndpoints created')
    (hblank : blank (t := .webhookEndpoints) created' = blank (t := .webhookEndpoints) created)
    (hencrypted : .called (.fernetEncrypt secret) created.signingSecretEncrypted ∈ journals i)
    (hid : held.endpointId = created.id) : secret' = secret := by
  have hpk : endpoint.id = created'.id :=
    hj.targetKey.trans (hid.trans (pk_of_blank hblank).symm)
  have hsame : blank (t := .webhookEndpoints) endpoint = blank (t := .webhookEndpoints) created :=
    ((keeping_outbound (.inl rfl)).blank_eq hrun (hrun.wasCommitted (.inl hj.target)) hcreated
      hpk).trans hblank
  have hcipher : endpoint.signingSecretEncrypted = created.signingSecretEncrypted := by
    simp only [blank, WebhookEndpoint.mk.injEq] at hsame
    exact hsame.2.2.2.2.1
  have hdecrypted := hj.decrypted
  rw [hcipher] at hdecrypted
  exact Option.some.inj
    (hfernet _ _ _ _ _ ((hrun.timed i).called hencrypted) ((hrun.timed j).called hdecrypted))

/-- The posts to an endpoint that a creation in the run returned: no two of its deliveries share an
event, the attempts of a delivery send the same body and event id, the body names the event of the
header, and the returned secret verifies the signature. -/
theorem outbound_posts_verify [DecidableEq ι] (hdb : Consistent db) (hhex : HexDigests)
    (hr : Reachable (fun i => (activities i).handler) db sys) (hfernet : FernetUndoes sys.trace)
    {organizationId userId : UUID} {args : Option WebhookCreate} {r : WebhookResponse}
    {secret : String}
    (hi : activities i = .request (.organization organizationId userId (.createWebhook args)))
    (hcreated : sys.proc i = .committed (.inl (.webhook r)))
    (hsecret : r.signingSecret = some secret) :
    (∀ d ∈ sys.db .webhookDeliveries, ∀ d' ∈ sys.db .webhookDeliveries,
      d.endpointId = r.id → d'.endpointId = r.id → d.eventId = d'.eventId → d = d') ∧
    ∀ j deliveryId d post, activities j = .attempt deliveryId →
      sys.proc j = .committed (.inr (.attempt d post)) → d.endpointId = r.id →
        post.NamesEvent ∧
        (∃ at_, (j, .called .now at_) ∈ sys.trace ∧ post.Verifiable secret (at_ / seconds 1)) ∧
        ∀ k d' post', activities k = .attempt deliveryId →
          sys.proc k = .committed (.inr (.attempt d' post')) →
            post'.body = post.body ∧ post'.eventId = post.eventId := by
  obtain ⟨journals, hrun⟩ := exists_outboundRun hdb.unclashing hr
  obtain ⟨before, ops, after, htrace, hwrites, hended⟩ := hrun.ended hr hcreated
  rw [hi] at hended
  obtain ⟨created, secret', hcreation⟩ := hended
  obtain rfl : secret' = secret := by
    have h := hcreation.response.2
    rw [hsecret] at h
    exact (Option.some.inj h).symm
  have hinsert : .insert .webhookEndpoints created ∈ ops := by
    have hmem := mem_writesIn.mpr hcreation.inserted
    rw [← hwrites] at hmem
    exact (List.mem_filter.mp hmem).1
  obtain ⟨created', hcommitted, hblank⟩ :=
    (keeping_outbound (.inl rfl)).inserted hrun htrace hinsert
  have hnew := (keeping_outbound (.inl rfl)).fresh_key hrun htrace hinsert
  constructor
  · intro d hd d' hd' hd_id hd_id' hevent
    have hunique : Unclashing sys.db := hrun.db_eq ▸ hrun.unclashing sys.trace [] (by simp)
    refine hunique.eq_of_pk (t := .webhookDeliveries) hd hd' (by_contra fun hne => ?_)
    have hclash := hunique.unique .webhookDeliveries d hd d' hd' hne
    simp [clash, uniqueClash, hevent, hd_id, hd_id'] at hclash
  · intro j deliveryId d post hj hsent htarget
    obtain ⟨_, _, _, _, _, hended⟩ := hrun.ended hr hsent
    rw [hj] at hended
    obtain ⟨held, endpoint, secret', at_, hattempt⟩ := hended
    have hid : held.endpointId = created.id :=
      (delivery_of_blank hattempt.delivery).2.1.symm.trans
        (htarget.trans hcreation.response.1.symm)
    refine ⟨?_, ⟨at_, (hrun.timed j).called hattempt.clock, fun hzero tolerance time time' htime => ?_⟩,
      fun k d' post' hk hsent' => ?_⟩
    · obtain ⟨data, hpayload⟩ :=
        hrun.formed hdb hnew (hrun.wasCommitted (.inr hattempt.locked)) hid
      exact ⟨_, by rw [hattempt.body, hpayload], by rw [hattempt.event]; rfl⟩
    · rw [hattempt.signature, hrun.secret_eq hfernet hattempt hcommitted hblank hcreation.encrypted hid]
      exact verifySignature_createSignature hhex hzero htime
    · obtain ⟨_, _, _, _, _, hended⟩ := hrun.ended hr hsent'
      rw [hk] at hended
      obtain ⟨_, _, _, _, hattempt'⟩ := hended
      exact hrun.same_delivery hattempt hattempt'

end Runs

end Activities

section Sample

attribute [local instance] samplePlatform

/-- Each activity has random values of its own, at a time after the epoch. -/
def outboundOracle (offset : Nat) : Oracle Answer := fun n c =>
  match c with
  | .now => seconds 1700000000 + n
  | c => sampleOracle (n + offset) c

/-- An endpoint and a project are created, and the delivery is attempted. -/
def sampleOutbound : Fin 3 → Activity
  | 0 => .request (.organization sampleOrganization.id sampleUser.id
      (.createWebhook (some ⟨"https://example.com/hook", ["project.created"]⟩)))
  | 1 => .request (.organization sampleOrganization.id sampleUser.id
      (.createProject (some ⟨"Engine", none⟩)))
  | 2 => .attempt ⟨1111⟩

/-- The database after the first activity, and after the second. -/
def createdDb : Db Row :=
  ((sampleOutbound 0).handler.run (execStmt (outboundOracle 0)) ⟨sampleDb, 0⟩).2.db

def announcedDb : Db Row :=
  ((sampleOutbound 1).handler.run (execStmt (outboundOracle 100)) ⟨createdDb, 0⟩).2.db

theorem consistent_sampleDb : Consistent sampleDb := by
  refine ⟨fun t => ?_, fun t => ?_, fun t => ?_⟩ <;> cases t <;> decide +kernel

theorem sampleOutbound_webhook : Prog.endsWith (fun ended => match ended with
      | .inl (.webhook r) => decide (r.id = ⟨1004⟩ ∧ r.signingSecret = some "whsec_token")
      | _ => false)
    ((sampleOutbound 0).handler.run (execStmt (outboundOracle 0)) ⟨sampleDb, 0⟩) = true := by
  decide +kernel

theorem sampleOutbound_project : Prog.endsWith (fun _ => true)
    ((sampleOutbound 1).handler.run (execStmt (outboundOracle 100)) ⟨createdDb, 0⟩) = true := by
  decide +kernel

theorem sampleOutbound_attempt : Prog.endsWith (fun ended => match ended with
      | .inr (.attempt d _) => decide (d.endpointId = ⟨1004⟩)
      | _ => false)
    ((sampleOutbound 2).handler.run (execStmt (outboundOracle 200)) ⟨announcedDb, 0⟩) = true := by
  decide +kernel

/-- In a run of the three, the attempt sends what the secret of the creation verifies. -/
theorem sample_outbound_posts : ∃ (sys : Sys Row UUID Answer Failure (Response ⊕ Begun) (Fin 3))
    (d : WebhookDelivery) (post : Post) (sent : Int),
    Reachable (fun i => (sampleOutbound i).handler) sampleDb sys ∧
      sys.proc 2 = .committed (.inr (.attempt d post)) ∧ post.NamesEvent ∧ sent ≠ 0 ∧
      verifySignature "whsec_token" post.body post.signature 300 (sent + 300) sent = .ok true := by
  obtain ⟨created, st, hrun, hcreated⟩ := Prog.exists_of_endsWith sampleOutbound_webhook
  obtain ⟨_, st', hrun', _⟩ := Prog.exists_of_endsWith sampleOutbound_project
  obtain ⟨sent, st'', hrun'', hsent⟩ := Prog.exists_of_endsWith sampleOutbound_attempt
  have hdb₁ : createdDb = st.db := by rw [createdDb, hrun]
  have hdb₂ : announcedDb = st'.db := by rw [announcedDb, hrun']
  rw [hdb₁] at hrun'
  rw [hdb₂] at hrun''
  have hr₀ : Reachable (fun i => (sampleOutbound i).handler) sampleDb
    (Sys.init (fun i => (sampleOutbound i).handler) sampleDb) := .refl
  obtain ⟨sys₁, _, hr₁, hquiet₁, hsys₁, hproc₁, htrace₁⟩ :=
    hr₀.run_next (i := (0 : Fin 3)) _ (quiet_init _ _) rfl hrun
  obtain ⟨sys₂, _, hr₂, hquiet₂, hsys₂, hproc₂, htrace₂⟩ :=
    hr₁.run_next (i := 1) (outboundOracle 100) hquiet₁ (by rw [hproc₁]; rfl)
      (by rw [hsys₁]; exact hrun')
  obtain ⟨sys₃, _, hr₃, _, _, hproc₃, htrace₃⟩ :=
    hr₂.run_next (i := 2) (outboundOracle 200) hquiet₂ (by rw [hproc₂, hproc₁]; rfl)
      (by rw [hsys₂]; exact hrun'')
  have hanswers : ∀ i c x, (i, .called c x) ∈ sys₃.trace →
      ∃ offset n, x = outboundOracle offset n c := by
    intro i c x hx
    rw [htrace₃, htrace₂, htrace₁] at hx
    simp only [List.mem_append, List.mem_map, Prod.mk.injEq, List.mem_singleton, reduceCtorEq,
      and_false, or_false] at hx
    rcases hx with ((hx | ⟨e, he, _, rfl⟩) | ⟨e, he, _, rfl⟩) | ⟨e, he, _, rfl⟩
    · cases hx
    all_goals
      obtain ⟨n, _, heq⟩ := mem_callsOf he
      cases heq
      exact ⟨_, n, rfl⟩
  have hfernet : FernetUndoes sys₃.trace := by
    intro i j secret encrypted decrypted hencrypt hdecrypt
    have hencrypted : encrypted = secret := by
      obtain ⟨_, _, h⟩ := hanswers i _ _ hencrypt
      exact h
    have hdecrypted : decrypted = some encrypted := by
      obtain ⟨_, _, h⟩ := hanswers j _ _ hdecrypt
      exact h
    rw [hdecrypted, hencrypted]
  obtain ⟨r, rfl, hid, hsecret⟩ : ∃ r, created = .inl (.webhook r) ∧ r.id = ⟨1004⟩ ∧
      r.signingSecret = some "whsec_token" := by
    split at hcreated
    · exact ⟨_, rfl, by simpa using hcreated⟩
    · cases hcreated
  obtain ⟨d, post, rfl, htarget⟩ : ∃ d post, sent = .inr (.attempt d post) ∧
      d.endpointId = ⟨1004⟩ := by
    split at hsent
    · exact ⟨_, _, rfl, by simpa using hsent⟩
    · cases hsent
  have hcommitted : sys₃.proc 2 = .committed (.inr (.attempt d post)) := by
    rw [hproc₃, Function.update_self]
  have hcreation : sys₃.proc 0 = .committed (.inl (.webhook r)) := by
    rw [hproc₃, Function.update_of_ne (by decide), hproc₂, Function.update_of_ne (by decide), hproc₁,
      Function.update_self]
  obtain ⟨hnames, ⟨at_, hat, hverifies⟩, _⟩ :=
    (outbound_posts_verify consistent_sampleDb hexDigests_samplePlatform hr₃ hfernet
      (i := 0) rfl hcreation hsecret).2 2 ⟨1111⟩ d post rfl hcommitted (htarget.trans hid.symm)
  have hzero : at_ / seconds 1 ≠ 0 := by
    obtain ⟨_, n, hnow⟩ := hanswers _ _ _ hat
    have hlate : (seconds 1700000000 + (n : Int)) / seconds 1 ≠ 0 := by
      unfold seconds
      omega
    rw [hnow]
    exact hlate
  exact ⟨sys₃, d, post, _, hr₃, hcommitted, hnames, hzero, hverifies hzero 300 _ _ (by simp)⟩

end Sample

end TenantFlow
