import TenantFlow.Verification.Journals
import TenantFlow.Verification.Sample

/-!
# The publish boundary

A request publishes the tasks for the rows that it creates inside its transaction, after they
are flushed and before they are committed. The journal of a request that returns shows each
new delivery and invitation together with an accepted publication, and a worker that gets
anywhere has seen the committed row that its message names.
-/

namespace TenantFlow

open JsonText Transactional

section Publishing

variable [Platform]

/-- Tasks, emails, and the rows that they are about. -/
def publishTopic : Topic Table Call where
  tables t := t = .webhookDeliveries ∨ t = .invitations
  calls := Call.notifies

/-- New rows and their publications, but for the deliveries of these ids. -/
structure PublishedBut (ids : List UUID) (journal : Journal) : Prop where
  deliveries : ∀ d, .wrote (.insert .webhookDeliveries d) ∈ journal →
    .called (.deliverWebhookTask d.id.str) (some ()) ∈ journal ∨ d.id ∈ ids
  invitations : ∀ inv, .wrote (.insert .invitations inv) ∈ journal → ∃ rawToken,
    inv.tokenHash = tokenFingerprint rawToken ∧
      .called (.sendInvitationTask inv.id.str rawToken) (some ()) ∈ journal
  deliver : ∀ id, .called (.deliverWebhookTask id) none ∉ journal
  invite : ∀ id rawToken, .called (.sendInvitationTask id rawToken) none ∉ journal

def SendsNoEmail (journal : Journal) : Prop :=
  ∀ email name token x, .called (.sendInvitationEmail email name token) x ∉ journal

/-- What a worker has seen before it does anything. -/
def Seen (request : Request) (journal : Journal) : Prop :=
  match request with
  | .sendInvitation id _ => ∃ inv : Invitation, .read .invitations inv ∈ journal ∧ inv.id = id
  | .beginAttempt id => ∃ d : WebhookDelivery, .held .webhookDeliveries d ∈ journal ∧ d.id = id
  | .finishAttempt loaded _ => writesIn journal = [] ∨
      ∃ d : WebhookDelivery, .held .webhookDeliveries d ∈ journal ∧ d.id = loaded.id
  | _ => True

/-- Emails are sent for invitations that the worker has seen. -/
def Mails (request : Request) (journal : Journal) : Prop :=
  SendsNoEmail journal ∨ (Seen request journal ∧ ∃ id rawToken, request = .sendInvitation id rawToken)

section Entries

variable {ids : List UUID} {journal : Journal}

theorem publishedBut_nil : PublishedBut [] [] := by
  constructor <;> simp

omit [Platform] in
theorem sendsNoEmail_nil : SendsNoEmail [] := fun _ _ _ _ => List.not_mem_nil

theorem PublishedBut.mono {ids' : List UUID} (h : PublishedBut ids journal) (hids : ids ⊆ ids') :
    PublishedBut ids' journal :=
  { h with deliveries := fun d hd => (h.deliveries d hd).imp_right fun hmem => hids hmem }

/-- Neither a new row nor a call. -/
def Passive : Fact Row UUID Answer → Prop
  | .wrote (.insert _ _) => False
  | .called _ _ => False
  | _ => True

theorem PublishedBut.note (h : PublishedBut ids journal) {f : Fact Row UUID Answer}
    (hf : Passive f) : PublishedBut ids (journal ++ [f]) := by
  have hinsert : ∀ t r, .wrote (.insert t r) ∈ journal ++ [f] → .wrote (.insert t r) ∈ journal := by
    intro t r hr
    rcases List.mem_append.mp hr with hr | hr
    · exact hr
    · obtain rfl := List.mem_singleton.mp hr
      exact hf.elim
  have hcall : ∀ c x, .called c x ∈ journal ++ [f] ↔ .called c x ∈ journal := by
    intro c x
    refine ⟨fun hx => ?_, List.mem_append_left _⟩
    rcases List.mem_append.mp hx with hx | hx
    · exact hx
    · obtain rfl := List.mem_singleton.mp hx
      exact hf.elim
  refine ⟨fun d hd => ?_, fun inv hinv => ?_, fun id => ?_, fun id rawToken => ?_⟩
  · rw [hcall]
    exact h.deliveries d (hinsert _ _ hd)
  · obtain ⟨rawToken, hash, hx⟩ := h.invitations inv (hinsert _ _ hinv)
    exact ⟨rawToken, hash, (hcall _ _).mpr hx⟩
  · rw [hcall]
    exact h.deliver id
  · rw [hcall]
    exact h.invite id rawToken

omit [Platform] in
theorem SendsNoEmail.note (h : SendsNoEmail journal) {f : Fact Row UUID Answer}
    (hf : ∀ email name token x, f ≠ .called (.sendInvitationEmail email name token) x) :
    SendsNoEmail (journal ++ [f]) := by
  intro email name token x hx
  rcases List.mem_append.mp hx with hx | hx
  · exact h _ _ _ _ hx
  · exact hf _ _ _ _ (List.mem_singleton.mp hx).symm

theorem PublishedBut.addDelivery (h : PublishedBut ids journal) (d : WebhookDelivery) :
    PublishedBut (d.id :: ids) (journal ++ [.wrote (.insert .webhookDeliveries d)]) where
  deliveries d' hd := by
    rcases List.mem_append.mp hd with hd | hd
    · rcases h.deliveries d' hd with hcall | hmem
      · exact .inl (List.mem_append_left _ hcall)
      · exact .inr (List.mem_cons_of_mem _ hmem)
    · obtain rfl : d' = d := by simpa using hd
      exact .inr List.mem_cons_self
  invitations inv hinv := by simpa using h.invitations inv (by simpa using hinv)
  deliver id := by simpa using h.deliver id
  invite id rawToken := by simpa using h.invite id rawToken

theorem PublishedBut.publish {id : UUID} (h : PublishedBut (id :: ids) journal) :
    PublishedBut ids (journal ++ [.called (.deliverWebhookTask id.str) (some ())]) where
  deliveries d hd := by
    rcases h.deliveries d (by simpa using hd) with hcall | hmem
    · exact .inl (List.mem_append_left _ hcall)
    · rcases List.mem_cons.mp hmem with hid | hmem
      · rw [hid]
        exact .inl (List.mem_append_right _ (List.mem_singleton_self _))
      · exact .inr hmem
  invitations inv hinv := by simpa using h.invitations inv (by simpa using hinv)
  deliver id' := by simpa using h.deliver id'
  invite id' rawToken := by simpa using h.invite id' rawToken

theorem PublishedBut.addInvitation (h : PublishedBut ids journal) {inv : Invitation}
    {rawToken : String} (hash : inv.tokenHash = tokenFingerprint rawToken) :
    PublishedBut ids (journal ++ [.wrote (.insert .invitations inv)] ++
      [.called (.sendInvitationTask inv.id.str rawToken) (some ())]) where
  deliveries d hd := by simpa using h.deliveries d (by simpa using hd)
  invitations inv' hinv := by
    have hinv : .wrote (.insert .invitations inv') ∈ journal ∨ inv' = inv := by simpa using hinv
    rcases hinv with hinv | rfl
    · obtain ⟨raw, hraw, hcall⟩ := h.invitations inv' hinv
      exact ⟨raw, hraw, List.mem_append_left _ (List.mem_append_left _ hcall)⟩
    · exact ⟨rawToken, hash, List.mem_append_right _ (List.mem_singleton_self _)⟩
  deliver id := by simpa using h.deliver id
  invite id rawToken' := by simpa using h.invite id rawToken'

end Entries

/-! ## Publishing -/

section Parts

variable {ι β γ : Type} {requests : ι → Request} {i : ι}

abbrev publishDiscipline (requests : ι → Request) :
    Discipline Row UUID Answer Failure ι Journal :=
  journalDiscipline publishTopic fun i => Mails (requests i)

/-- A part that publishes what it creates. -/
abbrev Announces (requests : ι → Request) (i : ι) (p : App β) : Prop :=
  ∀ journal, PublishedBut [] journal → SendsNoEmail journal → (publishDiscipline requests).Obeys i
    (fun journal' _ => PublishedBut [] journal' ∧ SendsNoEmail journal') journal p

theorem Announces.bind {p : App β} {k : β → App γ} (hp : Announces requests i p)
    (hk : ∀ b, Announces requests i (k b)) : Announces requests i (p.bind k) :=
  fun journal hpub hquiet => (hp journal hpub hquiet).bind fun journal' b h => hk b journal' h.1 h.2

theorem announces_ret (b : β) : Announces requests i (.ret b : App β) :=
  fun _ hpub hquiet => ⟨hpub, hquiet⟩

theorem announces_raise (e : Failure) : Announces requests i (.raise e : App β) :=
  fun _ _ _ => trivial

theorem announces_of_confined {F : Scope} {p : App β} (hp : Confined F p)
    (hF : F.Revises publishTopic) : Announces requests i p := by
  intro journal hpub hquiet
  exact journal_of_updates (I := fun journal => PublishedBut [] journal ∧ SendsNoEmail journal) hp hF
    (fun journal t id f _ _ h => ⟨h.1.note trivial, h.2.note (by simp)⟩)
    (fun journal h => .inl h.2) ⟨hpub, hquiet⟩

/-- Everything but new deliveries and invitations, tasks and emails. -/
def quietScope : Scope where
  writes := [.users, .organizations, .organizationMemberships, .invitations, .projects, .tasks,
    .attachments, .refreshTokens, .idempotencyRecords, .webhookEndpoints, .webhookDeliveries,
    .subscriptions, .auditLogs, .stripeEvents]
  inserts := [.users, .organizations, .organizationMemberships, .projects, .tasks, .attachments,
    .refreshTokens, .idempotencyRecords, .webhookEndpoints, .subscriptions, .auditLogs,
    .stripeEvents]
  deletes := [.projects, .tasks, .attachments]

omit [Platform] in
theorem mem_quietScope_writes (t : Table) : t ∈ quietScope.writes := by
  cases t <;> decide

omit [Platform] in
theorem quietScope_revises : quietScope.Revises publishTopic where
  inserts := by decide
  deletes := by decide
  now := rfl
  uuid4 := rfl
  calls _ h := h

theorem announces_quiet {p : App β} (hp : Confined quietScope p) : Announces requests i p :=
  announces_of_confined hp quietScope_revises

omit [Platform] in
theorem journal_quiet {p : App β} {k : β → App γ} {F : Scope} {post : Journal → γ → Prop}
    {journal : Journal} (hp : Confined F p) (hF : F.Avoids publishTopic) (hquiet : SendsNoEmail journal)
    (hk : ∀ b, (publishDiscipline requests).Obeys i post journal (k b)) :
    (publishDiscipline requests).Obeys i post journal (p.bind k) :=
  journal_skip hp hF (.inl hquiet) hk

omit [Platform] in
theorem emptyScope_avoids : ({} : Scope).Avoids publishTopic where
  inserts _ h := absurd h List.not_mem_nil
  deletes _ h := absurd h List.not_mem_nil
  now := rfl
  uuid4 := rfl
  calls _ h := h
  writes _ h := absurd h List.not_mem_nil

omit [Platform] in
theorem auditScope_avoids : ({ writes := [.auditLogs] } : Scope).Avoids publishTopic where
  inserts := by decide
  deletes _ h := absurd h List.not_mem_nil
  now := rfl
  uuid4 := rfl
  calls _ h := h
  writes := by decide

theorem obeys_addDeliveries (eventId : UUID) (eventType : String) (payload : List (String × Json))
    (endpoints : List WebhookEndpoint) {pending : List UUID} {journal : Journal}
    (hpub : PublishedBut pending journal) (hquiet : SendsNoEmail journal) :
    (publishDiscipline requests).Obeys i
      (fun journal' ids => PublishedBut (ids ++ pending) journal' ∧ SendsNoEmail journal') journal
      (addDeliveries eventId eventType payload endpoints) := by
  induction endpoints generalizing pending journal with
  | nil => exact ⟨hpub, hquiet⟩
  | cons endpoint endpoints ih =>
    unfold addDeliveries
    split
    · refine journal_quiet confined_rowDefaults emptyScope_avoids hquiet fun d => ?_
      have hquiet' : ∀ d, SendsNoEmail (journal ++ [.wrote (.insert .webhookDeliveries d)]) :=
        fun d => hquiet.note (by simp)
      refine journal_insertRow rfl (.inl hquiet) (.inl (hquiet' _)) ?_
      refine (ih (hpub.addDelivery _) (hquiet' _)).bind fun journal' ids h => ?_
      refine ⟨h.1.mono fun id hid => ?_, h.2⟩
      simp only [List.mem_append, List.mem_cons, List.cons_append] at hid ⊢
      grind
    · exact ih hpub hquiet

theorem obeys_publishDeliveries {ids : List UUID} {journal : Journal}
    (hpub : PublishedBut ids journal) (hquiet : SendsNoEmail journal) :
    (publishDiscipline requests).Obeys i (fun journal' _ => PublishedBut [] journal' ∧ SendsNoEmail journal')
      journal (publishDeliveries ids) := by
  induction ids generalizing journal with
  | nil => exact ⟨hpub, hquiet⟩
  | cons id ids ih =>
    refine journal_call fun x => ?_
    have hquiet' := hquiet.note (f := .called (.deliverWebhookTask id.str) x) (by simp)
    refine ⟨.inl hquiet', ?_⟩
    cases x with
    | none => trivial
    | some u => exact ih hpub.publish hquiet'

theorem announces_emitEvent (organizationId : UUID) (eventType : String)
    (payload : List (String × Json)) :
    Announces requests i (emitEvent organizationId eventType payload) := by
  intro journal hpub hquiet
  refine journal_quiet confined_uuid4 emptyScope_avoids hquiet fun eventId => ?_
  refine journal_quiet (confined_select _) emptyScope_avoids hquiet fun endpoints => ?_
  refine (obeys_addDeliveries eventId eventType payload endpoints hpub hquiet).bind
    fun journal' ids h => ?_
  rw [List.append_nil] at h
  exact (obeys_publishDeliveries h.1 h.2).bind fun _ _ h => h

theorem announces_deliverWebhookTaskDelay (deliveryId : UUID) :
    Announces requests i (deliverWebhookTaskDelay deliveryId) := by
  intro journal hpub hquiet
  refine journal_call fun x => ?_
  have hquiet' := hquiet.note (f := .called (.deliverWebhookTask deliveryId.str) x) (by simp)
  refine ⟨.inl hquiet', ?_⟩
  cases x with
  | none => trivial
  | some u => exact ⟨(hpub.mono (List.nil_subset [deliveryId])).publish, hquiet'⟩

theorem announces_addInvitation (organizationId : UUID) (invitedBy : User) (email : String)
    (role : Role) : Announces requests i (addInvitation organizationId invitedBy email role) := by
  intro journal hpub hquiet
  refine journal_quiet (confined_call _ rfl) emptyScope_avoids hquiet fun rawToken => ?_
  refine journal_quiet confined_now emptyScope_avoids hquiet fun at_ => ?_
  refine journal_quiet confined_rowDefaults emptyScope_avoids hquiet fun d => ?_
  have hquiet' : ∀ inv, SendsNoEmail (journal ++ [.wrote (.insert .invitations inv)]) :=
    fun inv => hquiet.note (by simp)
  refine journal_insertRow rfl (.inl hquiet) (.inl (hquiet' _)) ?_
  refine journal_quiet (confined_recordAudit (by simp) _ _ _ _ _) auditScope_avoids (hquiet' _)
    fun _ => ?_
  refine journal_call fun x => ⟨.inl ((hquiet' _).note (by simp)), ?_⟩
  cases x with
  | none => trivial
  | some u => exact ⟨hpub.addInvitation rfl, (hquiet' _).note (by simp)⟩

theorem announces_flush {t : Table} {id : UUID} {dirty : Bool} {patch : Datetime → Row t → Row t}
    (hpatch : ∀ at_ r, blank (patch at_ r) = blank r) :
    Announces requests i (flush t id dirty patch) :=
  announces_quiet (confined_flush (mem_quietScope_writes t) id dirty hpatch)

theorem announces_inviteMember (organizationId : UUID) (invitedBy : User)
    (payload : InviteMemberRequest) :
    Announces requests i (inviteMember organizationId invitedBy payload) := by
  refine (announces_quiet (confined_isMember _ _)).bind fun member => ?_
  split
  · exact announces_raise _
  · refine (announces_quiet (confined_select _)).bind fun pending => ?_
    cases pending with
    | none => exact announces_addInvitation _ _ _ _
    | some pending =>
      refine (announces_quiet confined_now).bind fun at_ => ?_
      split
      · exact announces_raise _
      · refine Announces.bind (announces_flush fun _ _ => rfl) fun _ => ?_
        exact announces_addInvitation _ _ _ _

theorem announces_idempotently {ρ : Type} {userId : UUID} {organizationId : Option UUID}
    {scope key : String} {payload : Json} {missingBody : String}
    {modelValidate : Json → Except Failure ρ} {modelDump : ρ → Json} {execute : App ρ}
    (hexecute : Announces requests i execute) :
    Announces requests i (idempotently userId organizationId scope key payload missingBody
      modelValidate modelDump execute) := by
  refine (announces_quiet (confined_acquireIdempotency (by simp [quietScope]) _ _ _ _ _)).bind
    fun state => ?_
  split
  · cases state.replayBody with
    | none => exact announces_raise _
    | some body => exact (announces_quiet (confined_ofExcept _)).bind fun _ => announces_ret _
  · refine hexecute.bind fun response => ?_
    refine Announces.bind (announces_quiet (confined_updateRow (mem_quietScope_writes _) _
      fun _ => rfl)) fun _ => ?_
    exact announces_ret _

theorem announces_route {permission : Permission} {organizationId userId : UUID}
    {args : Option β} {ok : β → Bool} {f : OrganizationContext → β → App γ}
    (h : ∀ context a, Announces requests i (f context a)) :
    Announces requests i ((requirePermission permission organizationId userId).bind fun context =>
      (validated args ok).bind fun a => f context a) :=
  (announces_quiet (confined_requirePermission _ _ _)).bind fun context =>
    (announces_quiet (confined_validated _ _)).bind fun a => h context a

theorem announces_audit (organizationId : UUID) (actorId : Option UUID)
    (action entityType : String) (entityId : Option UUID) (metadata : List (String × Json)) :
    Announces requests i (recordAudit organizationId actorId action entityType entityId metadata) :=
  announces_quiet (confined_recordAudit (by simp [quietScope]) _ _ _ _ _)

theorem announces_createProjectRoute (organizationId userId : UUID) (args : Option ProjectCreate) :
    Announces requests i (createProjectRoute organizationId userId args) := by
  refine announces_route fun context payload => ?_
  refine Announces.bind ?_ fun _ => announces_quiet (confined_ofExcept _)
  refine (announces_quiet confined_rowDefaults).bind fun d => ?_
  refine Announces.bind (announces_quiet (confined_insertRow (by simp [quietScope]) _)) fun _ => ?_
  refine (announces_audit _ _ _ _ _ _).bind fun _ => ?_
  exact (announces_emitEvent _ _ _).bind fun _ => announces_ret _

theorem announces_updateProjectRoute (organizationId userId : UUID)
    (args : Option (UUID × ProjectUpdate)) :
    Announces requests i (updateProjectRoute organizationId userId args) := by
  refine announces_route fun context a => ?_
  refine Announces.bind ?_ fun _ => announces_quiet (confined_ofExcept _)
  refine (announces_quiet (confined_getProject _ _)).bind fun project => ?_
  refine Announces.bind (announces_flush fun _ _ => rfl) fun _ => ?_
  refine (announces_audit _ _ _ _ _ _).bind fun _ => ?_
  exact (announces_emitEvent _ _ _).bind fun _ => announces_ret _

theorem announces_deleteProjectRoute (organizationId userId : UUID) (args : Option UUID) :
    Announces requests i (deleteProjectRoute organizationId userId args) := by
  refine announces_route fun context a => ?_
  refine (announces_quiet (confined_getProject _ _)).bind fun project => ?_
  refine (announces_audit _ _ _ _ _ _).bind fun _ => ?_
  refine (announces_emitEvent _ _ _).bind fun _ => ?_
  exact announces_quiet (confined_deleteRow (by simp [quietScope])
    (by simp [quietScope, cascadeTables]) _)

theorem announces_createTaskRoute (organizationId userId : UUID) (args : Option TaskCreate) :
    Announces requests i (createTaskRoute organizationId userId args) := by
  refine announces_route fun context payload => ?_
  refine Announces.bind ?_ fun _ => announces_quiet (confined_ofExcept _)
  refine (announces_quiet (confined_validateProject _ _)).bind fun _ => ?_
  refine (announces_quiet (confined_validateAssignee _ _)).bind fun _ => ?_
  refine (announces_quiet confined_rowDefaults).bind fun d => ?_
  refine Announces.bind (announces_quiet (confined_insertRow (by simp [quietScope]) _)) fun _ => ?_
  refine (announces_audit _ _ _ _ _ _).bind fun _ => ?_
  exact (announces_emitEvent _ _ _).bind fun _ => announces_ret _

theorem announces_updateTaskRoute (organizationId userId : UUID)
    (args : Option (UUID × TaskUpdate)) :
    Announces requests i (updateTaskRoute organizationId userId args) := by
  refine announces_route fun context a => ?_
  obtain ⟨taskId, payload⟩ := a
  refine Announces.bind ?_ fun _ => announces_quiet (confined_ofExcept _)
  refine (announces_quiet (confined_getTask _ _)).bind fun task => ?_
  have hrest : ∀ new : Task, ∀ dirty : Bool, ∀ eventType : String,
      ∀ data : List (String × Json), Announces requests i (do
        let updatedAt ← flush .tasks task.id dirty (Task.patch task new)
        recordAudit organizationId (some context.user.id) "task.updated" "task" (some task.id) []
        let _ ← emitEvent organizationId eventType data
        return { new with updatedAt := updatedAt.getD task.updatedAt }) := by
    intro new dirty eventType data
    refine Announces.bind (announces_flush fun _ _ => rfl) fun _ => ?_
    refine (announces_audit _ _ _ _ _ _).bind fun _ => ?_
    exact (announces_emitEvent _ _ _).bind fun _ => announces_ret _
  cases payload.assigneeId with
  | none => exact hrest _ _ _ _
  | some assigneeId =>
    exact (announces_quiet (confined_validateAssignee _ _)).bind fun _ => hrest _ _ _ _

theorem announces_deleteTaskRoute (organizationId userId : UUID) (args : Option UUID) :
    Announces requests i (deleteTaskRoute organizationId userId args) := by
  refine announces_route fun context a => ?_
  refine (announces_quiet (confined_getTask _ _)).bind fun task => ?_
  refine (announces_audit _ _ _ _ _ _).bind fun _ => ?_
  refine (announces_emitEvent _ _ _).bind fun _ => ?_
  exact announces_quiet (confined_deleteRow (by simp [quietScope])
    (by simp [quietScope, cascadeTables]) _)

theorem announces_retryDelivery (organizationId userId : UUID) (args : Option UUID) :
    Announces requests i (retryDelivery organizationId userId args) := by
  refine announces_route fun context deliveryId => ?_
  refine (announces_quiet (confined_lockJoined organizationId deliveryId)).bind fun found => ?_
  cases found with
  | none => exact announces_raise _
  | some found =>
    refine (announces_quiet (confined_select _)).bind fun endpoint => ?_
    split
    · exact announces_raise _
    · split
      · exact announces_raise _
      · refine Announces.bind (announces_flush fun _ _ => rfl) fun _ => ?_
        refine (announces_audit _ _ _ _ _ _).bind fun _ => ?_
        exact (announces_deliverWebhookTaskDelay _).bind fun _ => announces_ret _

/-! ## Requests -/

theorem announces_organizationRequest (request : OrganizationRequest)
    (organizationId userId : UUID) :
    Announces requests i (request.handler organizationId userId) := by
  have hconfined := confined_organizationRequest request organizationId userId
  cases request with
  | createInvitation args =>
    refine Announces.bind ?_ fun _ => announces_ret _
    refine announces_route fun context a => announces_idempotently ?_
    exact (announces_inviteMember _ _ _).bind fun _ => announces_quiet (confined_ofExcept _)
  | createProject args =>
    exact (announces_createProjectRoute _ _ _).bind fun _ => announces_ret _
  | updateProject args =>
    exact (announces_updateProjectRoute _ _ _).bind fun _ => announces_ret _
  | deleteProject args =>
    exact (announces_deleteProjectRoute _ _ _).bind fun _ => announces_ret _
  | createTask args => exact (announces_createTaskRoute _ _ _).bind fun _ => announces_ret _
  | updateTask args => exact (announces_updateTaskRoute _ _ _).bind fun _ => announces_ret _
  | deleteTask args => exact (announces_deleteTaskRoute _ _ _).bind fun _ => announces_ret _
  | retryDelivery args => exact (announces_retryDelivery _ _ _).bind fun _ => announces_ret _
  | _ =>
    exact announces_of_confined hconfined
      ⟨by simp [OrganizationRequest.scope, publishTopic],
        by simp [OrganizationRequest.scope, publishTopic], rfl, rfl, fun _ h => h⟩

theorem obeys_sendInvitationTask (invitationId : UUID) (rawToken : String)
    (hi : requests i = .sendInvitation invitationId rawToken) :
    (publishDiscipline requests).Obeys i
      (fun journal _ => PublishedBut [] journal ∧ Seen (requests i) journal) []
      (sendInvitationTask invitationId rawToken) := by
  refine journal_select fun view => ?_
  cases hfound : (view .invitations).find? (·.id = invitationId) with
  | none => exact ⟨[], by simp, .inl sendsNoEmail_nil, trivial⟩
  | some invitation =>
    have hid : invitation.id = invitationId := by simpa using List.find?_some hfound
    have hseen : ∀ journal, Seen (requests i) (.read .invitations invitation :: journal) := by
      intro journal
      rw [hi]
      exact ⟨invitation, List.mem_cons_self, hid⟩
    have hpub : PublishedBut [] [.read .invitations invitation] := publishedBut_nil.note trivial
    have hquiet : SendsNoEmail [.read .invitations invitation] := sendsNoEmail_nil.note (by simp)
    refine ⟨[.read .invitations invitation], ?_, .inl hquiet, ?_⟩
    · intro f hf
      obtain rfl := List.mem_singleton.mp hf
      exact ⟨_, _, rfl, rfl, by simp, List.mem_of_find?_eq_some hfound⟩
    · change (publishDiscipline requests).Obeys i _ [.read .invitations invitation]
        (if invitation.status ≠ .pending then _ else _)
      split
      · exact ⟨hpub, hseen []⟩
      · refine journal_quiet (confined_select _) emptyScope_avoids hquiet fun organization => ?_
        cases organization with
        | none => exact ⟨hpub, hseen []⟩
        | some organization =>
          refine journal_call fun x => ⟨.inr ⟨hseen _, _, _, hi⟩, ?_⟩
          cases x with
          | none => trivial
          | some u => exact ⟨by constructor <;> simp, hseen _⟩

/-- What a worker does with the delivery that it has locked. -/
theorem obeys_locked {p : App β} {F : Scope} {d : WebhookDelivery} (hp : Confined F p)
    (hF : F.Revises publishTopic)
    (hseen : ∀ journal, .held .webhookDeliveries d ∈ journal → Seen (requests i) journal) :
    (publishDiscipline requests).Obeys i
      (fun journal _ => PublishedBut [] journal ∧ Seen (requests i) journal)
      [.held .webhookDeliveries d] p := by
  have hpub : PublishedBut [] [.held .webhookDeliveries d] := publishedBut_nil.note trivial
  have hquiet : SendsNoEmail [.held .webhookDeliveries d] := sendsNoEmail_nil.note (by simp)
  refine (journal_of_updates (I := fun journal => (PublishedBut [] journal ∧ SendsNoEmail journal) ∧
    .held .webhookDeliveries d ∈ journal) hp hF (fun journal t id f _ _ h => ?_) ?_ ?_).mono ?_
  · exact ⟨⟨h.1.1.note trivial, h.1.2.note (by simp)⟩, List.mem_append_left _ h.2⟩
  · exact fun journal h => .inl h.1.2
  · exact ⟨⟨hpub, hquiet⟩, List.mem_singleton_self _⟩
  · exact fun journal b h => ⟨h.1.1, hseen journal h.2⟩

omit [Platform] in
theorem workerScope_revises : ({ writes := [.webhookDeliveries], inserts := [] } : Scope).Revises
    publishTopic where
  inserts _ h := absurd h List.not_mem_nil
  deletes _ h := absurd h List.not_mem_nil
  now := rfl
  uuid4 := rfl
  calls _ h := h

/-- A worker that locks the delivery of an id before it does anything else. -/
theorem obeys_lockDelivery {id : UUID} {k : Option WebhookDelivery → App β}
    (hp : Confined { writes := [.webhookDeliveries], inserts := [] }
      ((selectForUpdate .webhookDeliveries (findDelivery id)).bind k))
    (hsome : ∀ journal d, d.id = id → .held .webhookDeliveries d ∈ journal →
      Seen (requests i) journal)
    (hnone : (publishDiscipline requests).Obeys i
      (fun journal _ => PublishedBut [] journal ∧ Seen (requests i) journal) [] (k none)) :
    (publishDiscipline requests).Obeys i
      (fun journal _ => PublishedBut [] journal ∧ Seen (requests i) journal) []
      ((selectForUpdate .webhookDeliveries (findDelivery id)).bind k) := by
  refine journal_selectForUpdate fun view => ?_
  have hrest := hp.2 (findDelivery id view) ⟨sampleOracle 0, view, rfl⟩
  cases hfound : findDelivery id view with
  | none => exact ⟨[], by simp, .inl sendsNoEmail_nil, hnone⟩
  | some d =>
    have hid : d.id = id := by simpa using List.find?_some hfound
    rw [hfound] at hrest
    refine ⟨[.held .webhookDeliveries d], ?_, .inl (sendsNoEmail_nil.note (by simp)), ?_⟩
    · intro f hf
      obtain rfl := List.mem_singleton.mp hf
      exact ⟨_, _, rfl, rfl, by simp, List.mem_of_find?_eq_some hfound, by simp⟩
    · exact obeys_locked hrest workerScope_revises fun journal => hsome journal d hid

theorem obeys_beginAttempt {deliveryId : UUID} (hi : requests i = .beginAttempt deliveryId) :
    (publishDiscipline requests).Obeys i
      (fun journal _ => PublishedBut [] journal ∧ Seen (requests i) journal) []
      (beginAttempt deliveryId) := by
  refine obeys_lockDelivery (confined_beginAttempt (by simp) (fun _ h => h) _) ?_ trivial
  intro journal d hid hd
  rw [hi]
  exact ⟨d, hd, hid⟩

theorem obeys_finishAttempt {loaded : WebhookDelivery} {result : HttpResult}
    (hi : requests i = .finishAttempt loaded result) :
    (publishDiscipline requests).Obeys i
      (fun journal _ => PublishedBut [] journal ∧ Seen (requests i) journal) []
      (finishAttempt loaded result) := by
  have hnone : PublishedBut [] ([] : Journal) ∧ Seen (requests i) [] := by
    rw [hi]
    exact ⟨publishedBut_nil, .inl rfl⟩
  refine obeys_lockDelivery (confined_finishAttempt (by simp) _ _) ?_ ?_
  · intro journal d hid hd
    rw [hi]
    exact .inr ⟨d, hd, hid⟩
  · cases result <;> exact hnone

/-- The journal of every request. -/
theorem obeys_publishing (request : Request) (hi : requests i = request) :
    (publishDiscipline requests).Obeys i
      (fun journal _ => PublishedBut [] journal ∧ Seen (requests i) journal) []
      request.handler := by
  have hquiet : ∀ {p : App Response}, (∀ journal, Seen request journal) →
      Announces requests i p → (publishDiscipline requests).Obeys i
        (fun journal _ => PublishedBut [] journal ∧ Seen (requests i) journal) [] p := by
    intro p hseen hp
    rw [hi]
    exact (hp [] publishedBut_nil sendsNoEmail_nil).mono fun journal b h => ⟨h.1, hseen journal⟩
  have hconfined := confined_request request
  cases request with
  | organization organizationId userId request =>
    exact hquiet (fun _ => trivial) (announces_organizationRequest _ _ _)
  | sendInvitation invitationId rawToken =>
    exact (obeys_sendInvitationTask _ _ hi).bind fun _ _ h => h
  | beginAttempt deliveryId => exact (obeys_beginAttempt hi).bind fun _ _ h => h
  | finishAttempt loaded result => exact (obeys_finishAttempt hi).bind fun _ _ h => h
  | _ =>
    exact hquiet (fun _ => trivial) (announces_of_confined hconfined
      ⟨by simp [Request.scope, publishTopic], by simp [Request.scope, publishTopic], rfl, rfl,
        fun _ h => h⟩)

end Parts

/-! ## The boundary -/

/-- The row that a task message names. -/
def Request.row : Request → Option (Table × UUID)
  | .sendInvitation id _ => some (.invitations, id)
  | .beginAttempt id => some (.webhookDeliveries, id)
  | .finishAttempt loaded _ => some (.webhookDeliveries, loaded.id)
  | _ => none

omit [Platform] in
/-- A worker that comes to its end has seen its row, or it had an attempt to finish and has
written nothing. -/
theorem Seen.of_row {request : Request} {journal : Journal} {t : Table} {id : UUID}
    (h : Seen request journal) (hrow : request.row = some (t, id)) :
    (∃ r : Row t, (.read t r ∈ journal ∨ .held t r ∈ journal) ∧ pk r = id) ∨
      (writesIn journal = [] ∧ ∃ loaded result, request = .finishAttempt loaded result) := by
  cases request with
  | sendInvitation invitationId rawToken =>
    cases hrow
    obtain ⟨inv, hinv, hid⟩ := h
    exact .inl ⟨inv, .inl hinv, hid⟩
  | beginAttempt deliveryId =>
    cases hrow
    obtain ⟨d, hd, hid⟩ := h
    exact .inl ⟨d, .inr hd, hid⟩
  | finishAttempt loaded result =>
    cases hrow
    rcases h with hnone | ⟨d, hd, hid⟩
    · exact .inr ⟨hnone, loaded, result, rfl⟩
    · exact .inl ⟨d, .inr hd, hid⟩
  | _ => cases hrow

section Boundary

variable {ι : Type} [DecidableEq ι]

/-- The broker has refused a publication of process `i`. -/
def Refused (trace : List (ι × Entry Row UUID Answer)) (i : ι) : Prop :=
  (∃ id, (i, .called (.deliverWebhookTask id) none) ∈ trace) ∨
    ∃ id rawToken, (i, .called (.sendInvitationTask id rawToken) none) ∈ trace

/-- ADR 0005. A POST is sent after the commit of the `beginAttempt` of its delivery. -/
structure PublishBoundary (requests : ι → Request) (db : Db Row)
    (sys : Sys Row UUID Answer Failure Response ι) : Prop where
  /-- Before a transaction commits, the broker has accepted a message for every delivery and
  invitation that it creates. -/
  published : ∀ i before ops after, sys.trace = before ++ (i, .committed ops) :: after →
    (∀ d, .insert .webhookDeliveries d ∈ ops →
      (i, .called (.deliverWebhookTask d.id.str) (some ())) ∈ before) ∧
    ∀ inv, .insert .invitations inv ∈ ops → ∃ rawToken,
      inv.tokenHash = tokenFingerprint rawToken ∧
        (i, .called (.sendInvitationTask inv.id.str rawToken) (some ())) ∈ before
  /-- Of a request with a refused publication nothing remains. -/
  refused : ∀ i, Refused sys.trace i → (∀ ops, (i, .committed ops) ∉ sys.trace) ∧
    sys.db = dbAfter db (sys.trace.filter fun e => e.1 ≠ i)
  /-- A message whose row has never been committed changes nothing, and only the second
  transaction of an attempt, which has nothing to write, comes to its end. -/
  unseen : ∀ i t id, (requests i).row = some (t, id) →
    (∀ r, WasCommitted db sys.trace t r → pk r ≠ id) →
    ∀ ops, (i, .committed ops) ∈ sys.trace →
      ops = [] ∧ ∃ loaded result, requests i = .finishAttempt loaded result
  /-- An email is sent for a message whose row was committed. -/
  mailed : ∀ i email name token x, (i, .called (.sendInvitationEmail email name token) x) ∈ sys.trace →
    ∃ id rawToken, requests i = .sendInvitation id rawToken ∧
      ∃ inv : Invitation, WasCommitted db sys.trace .invitations inv ∧ inv.id = id

omit [Platform] in
/-- A process without a commit has left nothing. -/
theorem dbAfter_filter {db : Db Row} {trace : List (ι × Entry Row UUID Answer)} {i : ι}
    (h : ∀ ops, (i, .committed ops) ∉ trace) :
    dbAfter db (trace.filter fun e => e.1 ≠ i) = dbAfter db trace := by
  induction trace generalizing db with
  | nil => rfl
  | cons e trace ih =>
    have hrest : ∀ ops, (i, .committed ops) ∉ trace :=
      fun ops hops => h ops (List.mem_cons_of_mem _ hops)
    obtain ⟨j, e⟩ := e
    by_cases hj : j = i
    · subst hj
      cases e with
      | called c x =>
        rw [List.filter_cons_of_neg (by simp), ih hrest]
        rfl
      | committed ops => exact absurd List.mem_cons_self (h ops)
    · rw [List.filter_cons_of_pos (by simpa using hj), ← List.singleton_append,
        ← List.singleton_append (l := trace), dbAfter_append, dbAfter_append, ih hrest]

theorem publish_boundary (requests : ι → Request) {db : Db Row} (hdb : Unclashing db)
    {sys : Sys Row UUID Answer Failure Response ι}
    (hr : Reachable (fun i => (requests i).handler) db sys) : PublishBoundary requests db sys := by
  have hmails : ∀ i, Mails (requests i) [] := fun i => .inl sendsNoEmail_nil
  obtain ⟨journals, hchron⟩ := exists_chronicle hdb
    (fun i => obeys_publishing (requests i) rfl) hmails hr
  refine ⟨fun i before ops after htrace => ?_, fun i hrefused => ?_,
    fun i t id hrow hnever ops hops => ?_, fun i email name token x hx => ?_⟩
  · obtain ⟨hcommit, _, _, hpub, _⟩ := hchron.committed i before ops after htrace
    have hwrote : ∀ op ∈ ops, publishTopic.tables op.table = true → .wrote op ∈ journals i := by
      intro op hop htable
      rw [← mem_writesIn, ← hcommit.writes]
      exact List.mem_filter.mpr ⟨hop, htable⟩
    constructor
    · intro d hd
      rcases hpub.deliveries d (hwrote _ hd rfl) with hcall | hcall
      · exact hcommit.timed.called hcall
      · cases hcall
    · intro inv hinv
      obtain ⟨rawToken, hash, hcall⟩ := hpub.invitations inv (hwrote _ hinv rfl)
      exact ⟨rawToken, hash, hcommit.timed.called hcall⟩
  · have hnone : ∀ ops, (i, .committed ops) ∉ sys.trace := by
      intro ops hops
      obtain ⟨before, after, htrace⟩ := List.append_of_mem hops
      obtain ⟨_, _, _, hpub, _⟩ := hchron.committed i before ops after htrace
      rcases hrefused with ⟨id, hx⟩ | ⟨id, rawToken, hx⟩
      · exact hpub.deliver id (hchron.tracked i _ _ rfl hx)
      · exact hpub.invite id rawToken (hchron.tracked i _ _ rfl hx)
    exact ⟨hnone, by rw [dbAfter_filter hnone, hchron.db_eq]⟩
  · obtain ⟨before, after, htrace⟩ := List.append_of_mem hops
    obtain ⟨hcommit, _, _, _, hseen⟩ := hchron.committed i before ops after htrace
    rcases hseen.of_row hrow with ⟨r, hr, hid⟩ | ⟨hwrites, loaded, result, hi⟩
    · exact absurd hid (hnever r (hchron.wasCommitted hr))
    · refine ⟨?_, loaded, result, hi⟩
      rw [← hcommit.writes] at hwrites
      refine List.eq_nil_iff_forall_not_mem.mpr fun op hop => ?_
      have htable := (hcommit.within op hop).table
      simp only [hi, Request.scope, List.mem_singleton, List.not_mem_nil, or_false] at htable
      refine List.filter_eq_nil_iff.mp hwrites op hop ?_
      simp [publishTopic, htable]
  · have hmem := hchron.tracked i _ _ rfl hx
    rcases hchron.keeps i with hquiet | ⟨hseen, id, rawToken, hi⟩
    · exact absurd hmem (hquiet _ _ _ _)
    · rw [hi] at hseen
      obtain ⟨inv, hinv, hid⟩ := hseen
      exact ⟨id, rawToken, hi, inv, hchron.wasCommitted (.inl hinv), hid⟩

end Boundary

end Publishing

section Sample

attribute [local instance] samplePlatform

/-- One request creates a project, the other is the cleanup task. -/
def sampleAnnouncements (b : Bool) : Request :=
  if b then
    .organization sampleOrganization.id sampleUser.id (.createProject (some ⟨"Engine", none⟩))
  else .cleanup

theorem hookedDb_consistent : Consistent hookedDb := by
  refine ⟨fun t => ?_, fun t => ?_, fun t => ?_⟩ <;> cases t <;> decide +kernel

theorem sampleAnnouncements_commits : Prog.endsWith (fun _ => true)
    ((sampleAnnouncements true).handler.run (execStmt sampleOracle) ⟨hookedDb, 0⟩) = true := by
  decide +kernel

theorem sampleAnnouncements_delivers : ((sampleAnnouncements true).handler.run
    (execStmt sampleOracle) ⟨hookedDb, 0⟩).2.db .webhookDeliveries ≠ [] := by
  decide +kernel

/-- A project has been created, with one delivery. -/
theorem sample_publish_boundary : ∃ sys, (∃ a, sys.proc true = .committed a) ∧
    sys.db .webhookDeliveries ≠ [] ∧ PublishBoundary sampleAnnouncements hookedDb sys := by
  obtain ⟨response, st, hrun, _⟩ := Prog.exists_of_endsWith sampleAnnouncements_commits
  obtain ⟨sys, _, hr, _, hdb, hproc, _⟩ := Reachable.run_next (i := true) sampleOracle
    (.refl : Reachable (fun b => (sampleAnnouncements b).handler) hookedDb _) (quiet_init _ _) rfl
    hrun
  refine ⟨sys, ⟨response, by rw [hproc, Function.update_self]⟩, ?_,
    publish_boundary sampleAnnouncements hookedDb_consistent.unclashing hr⟩
  have hdelivers := sampleAnnouncements_delivers
  rw [hrun] at hdelivers
  rw [hdb]
  exact hdelivers

end Sample

end TenantFlow
