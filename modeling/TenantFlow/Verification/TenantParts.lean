import TenantFlow.Verification.Tenants

/-!
# The parts of the organization routes, in their tenant

Every part of the routes under `/organizations/{organization_id}/` goes the same way wherever the
tenant is shared: its searches meet rows of the tenant only, its inserts and updates make rows of
the tenant, and what a delete takes along belongs to the tenant.
-/

namespace TenantFlow

open JsonText Transactional

section Parts

variable [Platform] {organizationId : UUID} {B : TenantBorder organizationId} {db db' : Db Row}
  {t : Table} {α β : Type}

/-! ## Dependencies, audit and events -/

theorem inTenant_getCurrentUser (userId : UUID) :
    InTenant B (fun _ => True) (getCurrentUser userId) := by
  refine Prog.every_bind (inTenant_find (t := .users) fun _ _ => rfl) fun user _ => ?_
  cases user with
  | none => trivial
  | some user =>
    dsimp only
    split <;> trivial

theorem inTenant_findMembership (userId : UUID) : InTenant B
    (fun found => ∀ m ∈ found, B.Key .organizationMemberships m.id)
    (select (findMembership organizationId userId)) := by
  refine (inTenant_find (t := .organizationMemberships) fun _ hp => ?_).mono (fun _ h => h)
    (fun _ h => h) fun _ h m hm => (h m hm).2
  simp only [decide_eq_true_eq] at hp
  simpa [TenantBorder.part, partOf] using hp.1

theorem inTenant_requirePermission (permission : Permission) (userId : UUID) :
    InTenant B (fun _ => True)
      (requirePermission permission organizationId userId) := by
  refine Prog.every_bind (χ := fun _ => True) ?_ fun context _ => ?_
  · refine Prog.every_bind (inTenant_getCurrentUser userId) fun user _ => ?_
    refine Prog.every_bind (inTenant_findMembership _) fun membership _ => ?_
    cases membership <;> trivial
  · refine Prog.every_bind (χ := fun _ => True) ?_ fun _ _ => trivial
    unfold assertPermission
    split <;> trivial

theorem inTenant_route {γ : Type} {permission : Permission} {userId : UUID} {args : Option α}
    {ok : α → Bool} {f : OrganizationContext → α → App γ}
    (h : ∀ context a, InTenant B (fun _ => True) (f context a)) :
    InTenant B (fun _ => True)
      ((requirePermission permission organizationId userId).bind fun context =>
        (validated args ok).bind fun a => f context a) :=
  Prog.every_bind (inTenant_requirePermission _ _) fun context _ =>
    Prog.every_bind (inTenant_validated _ _) fun a _ => h context a

theorem inTenant_recordAudit (actorId : Option UUID) (action entityType : String)
    (entityId : Option UUID) (metadata : List (String × Json)) :
    InTenant B (fun _ => True)
      (recordAudit organizationId actorId action entityType entityId metadata) := by
  refine Prog.every_bind inTenant_now fun _ _ => Prog.every_bind inTenant_uuid4 fun id hid => ?_
  exact inTenant_insertRow (by simp [TenantBorder.part, partOf]) (hid.1 _) trivial trivial trivial
    fun _ _ _ => trivial

theorem inTenant_addDeliveries (eventId : UUID) (eventType : String)
    (payload : List (String × Json)) {endpoints : List WebhookEndpoint}
    (h : ∀ e ∈ endpoints, B.foreign e.id = false) :
    InTenant B (fun _ => True) (addDeliveries eventId eventType payload endpoints) := by
  induction endpoints with
  | nil => trivial
  | cons endpoint endpoints ih =>
    have ih := ih fun e he => h e (List.mem_cons_of_mem _ he)
    have hown := h endpoint List.mem_cons_self
    unfold addDeliveries
    split
    · refine Prog.every_bind inTenant_rowDefaults fun d hd => ?_
      refine Prog.every_bind (inTenant_insertRow (by simp [TenantBorder.part, partOf, hown])
        (hd.1 _) trivial trivial trivial fun _ _ _ => trivial) fun _ _ => ?_
      exact Prog.every_bind ih fun _ _ => trivial
    · exact ih

theorem inTenant_deliverWebhookTaskDelay (deliveryId : UUID) :
    InTenant B (fun _ => True) (deliverWebhookTaskDelay deliveryId) :=
  Prog.every_bind (inTenant_call _) fun x _ =>
    (inTenant_orRaise _ x).mono (fun _ h => h) (fun _ h => h) fun _ _ => trivial

theorem inTenant_publishDeliveries (ids : List UUID) :
    InTenant B (fun _ => True) (publishDeliveries ids) := by
  induction ids with
  | nil => trivial
  | cons id ids ih => exact Prog.every_bind (inTenant_deliverWebhookTaskDelay id) fun _ _ => ih

theorem inTenant_emitEvent (eventType : String) (payload : List (String × Json)) :
    InTenant B (fun _ => True)
      (emitEvent organizationId eventType payload) := by
  have hown : ∀ e : WebhookEndpoint,
      decide (e.organizationId = organizationId ∧ e.isActive = true) = true →
        B.part .webhookEndpoints e = true := by
    intro e he
    simp only [decide_eq_true_eq] at he
    simpa [TenantBorder.part, partOf] using he.1
  refine Prog.every_bind inTenant_uuid4 fun eventId _ => ?_
  refine Prog.every_bind (inTenant_select fun db db' h =>
    TenantSharing.filter h (t := .webhookEndpoints) hown) ?_
  rintro _ ⟨db, db', h, rfl⟩
  refine Prog.every_bind (inTenant_addDeliveries _ _ _ fun e he => ?_) fun ids _ => ?_
  · obtain ⟨hmem, he⟩ := List.mem_filter.mp he
    have hgood : B.Good .webhookEndpoints e := h.good .webhookEndpoints e hmem
    exact hgood.marked.mpr (of_decide_eq_true he).1
  · exact Prog.every_bind (inTenant_publishDeliveries ids) fun _ _ => trivial

/-! ## Deletes and their cascades -/

omit [Platform] in
theorem attachmentsOfTask_shared (h : TenantSharing B db db') {task : Task}
    (htask : task.organizationId = organizationId) :
    attachmentsOfTask db' task = attachmentsOfTask db task ∧
      ∀ k ∈ attachmentsOfTask db task, B.Key k.1 k.2 := by
  have hown : ∀ a : Attachment,
      decide (a.organizationId = task.organizationId ∧ a.taskId = some task.id) = true →
        B.part .attachments a = true := by
    intro a ha
    simp only [decide_eq_true_eq] at ha
    simpa [TenantBorder.part, partOf, htask] using ha.1
  refine ⟨congrArg _ (TenantSharing.filter h (t := .attachments) hown), fun k hk => ?_⟩
  obtain ⟨a, ha, rfl⟩ := List.mem_map.mp hk
  obtain ⟨hmem, ha⟩ := List.mem_filter.mp ha
  exact TenantSharing.key h (t := .attachments) hmem (hown a ha)

omit [Platform] in
theorem flatMap_shared {ρ γ : Type} {l : List ρ} {f g : ρ → List γ} {Q : γ → Prop}
    (h : ∀ r ∈ l, g r = f r ∧ ∀ k ∈ f r, Q k) :
    l.flatMap g = l.flatMap f ∧ ∀ k ∈ l.flatMap f, Q k := by
  refine ⟨List.flatMap_congr fun r hr => (h r hr).1, fun k hk => ?_⟩
  obtain ⟨r, hr, hk⟩ := List.mem_flatMap.mp hk
  exact (h r hr).2 k hk

/-- The rows that are deleted with a project. -/
def cascadeOfProject (db : Db Row) (p : Project) : List (Table × UUID) :=
  let tasks := (db .tasks).filter fun t =>
    t.organizationId = p.organizationId ∧ t.projectId = p.id
  tasks.flatMap (attachmentsOfTask db) ++ tasks.map (fun t => (.tasks, t.id)) ++
    ((db .attachments).filter fun a =>
      a.organizationId = p.organizationId ∧ a.projectId = some p.id).map fun a =>
        (.attachments, a.id)

omit [Platform] in
theorem cascadeOfProject_shared (h : TenantSharing B db db')
    {p : Project} (hp : p.organizationId = organizationId) :
    cascadeOfProject db' p = cascadeOfProject db p ∧
      ∀ k ∈ cascadeOfProject db p, B.Key k.1 k.2 := by
  have htask : ∀ task : Task,
      decide (task.organizationId = p.organizationId ∧ task.projectId = p.id) = true →
        B.part .tasks task = true := by
    intro task htask
    simp only [decide_eq_true_eq] at htask
    simpa [TenantBorder.part, partOf, hp] using htask.1
  have hfile : ∀ a : Attachment,
      decide (a.organizationId = p.organizationId ∧ a.projectId = some p.id) = true →
        B.part .attachments a = true := by
    intro a ha
    simp only [decide_eq_true_eq] at ha
    simpa [TenantBorder.part, partOf, hp] using ha.1
  have htasks := TenantSharing.filter h (t := .tasks) htask
  have hfiles := TenantSharing.filter h (t := .attachments) hfile
  obtain ⟨hchildren, hinner⟩ := flatMap_shared (l := (db .tasks).filter fun t =>
    t.organizationId = p.organizationId ∧ t.projectId = p.id) fun task hmem =>
      attachmentsOfTask_shared h ((of_decide_eq_true (List.mem_filter.mp hmem).2).1.trans hp)
  refine ⟨by simp only [cascadeOfProject, htasks, hfiles, hchildren], fun k hk => ?_⟩
  simp only [cascadeOfProject, List.mem_append, List.mem_map] at hk
  rcases hk with (hk | ⟨task, hmem, rfl⟩) | ⟨a, hmem, rfl⟩
  · exact hinner k hk
  · obtain ⟨hmem, hown⟩ := List.mem_filter.mp hmem
    exact TenantSharing.key h (t := .tasks) hmem (htask task hown)
  · obtain ⟨hmem, hown⟩ := List.mem_filter.mp hmem
    exact TenantSharing.key h (t := .attachments) hmem (hfile a hown)

omit [Platform] in
theorem cascade_shared (h : TenantSharing B db db') {id : UUID}
    (hid : B.Key t id) :
    Schema.cascade db' t id = Schema.cascade db t id ∧
      ∀ k ∈ Schema.cascade db t id, B.Key k.1 k.2 := by
  change cascadeOf db' t id = cascadeOf db t id ∧ ∀ k ∈ cascadeOf db t id, _
  have hrows : (db' t).filter (fun r => pk r = id) = (db t).filter fun r => pk r = id :=
    Sharing.filter h (Border.part_of_key hid)
  cases t with
  | projects =>
    have hrows : (db' .projects).filter (fun r => r.id = id) =
        (db .projects).filter fun r => r.id = id := hrows
    change ((db' .projects).filter fun r => r.id = id).flatMap (cascadeOfProject db') =
      ((db .projects).filter fun r => r.id = id).flatMap (cascadeOfProject db) ∧
        ∀ k ∈ ((db .projects).filter fun r => r.id = id).flatMap (cascadeOfProject db), _
    rw [hrows]
    refine flatMap_shared fun p hp => ?_
    obtain ⟨hmem, hp⟩ := List.mem_filter.mp hp
    have hpk : p.id = id := by simpa using hp
    have hproject : p.organizationId = organizationId := by
      have hP := TenantBorder.part_of_key hid (h.good .projects p hmem) hpk
      simpa [TenantBorder.part, partOf] using hP
    exact cascadeOfProject_shared h hproject
  | tasks =>
    have hrows : (db' .tasks).filter (fun r => r.id = id) = (db .tasks).filter fun r => r.id = id :=
      hrows
    simp only [cascadeOf, hrows]
    refine flatMap_shared fun task htask => attachmentsOfTask_shared h ?_
    obtain ⟨hmem, htask⟩ := List.mem_filter.mp htask
    have hpk : task.id = id := by simpa using htask
    have hP := TenantBorder.part_of_key hid (h.good .tasks task hmem) hpk
    simpa [TenantBorder.part, partOf] using hP
  | _ => exact ⟨rfl, fun k hk => absurd hk List.not_mem_nil⟩

theorem inTenant_deleteRow {id : UUID} (hid : B.Key t id) :
    InTenant B (fun _ => True) (deleteRow t id) :=
  ⟨couples_delete hid fun _ _ h => cascade_shared h hid, fun _ _ => trivial⟩

/-! ## Idempotency records -/

/-- A scope of the tenant. -/
def TenantScope (organizationId : UUID) (scope : String) : Prop :=
  ∃ userId, scope = invitationScope organizationId userId ∨
    scope = checkoutScope organizationId userId

omit [Platform] in
/-- A good record with a scope of the tenant is the tenant's. -/
theorem TenantScope.part {scope : String} (h : TenantScope organizationId scope)
    {r : IdempotencyRecord} (hr : B.Good .idempotencyRecords r) (hscope : r.scope = scope) :
    B.part .idempotencyRecords r = true := by
  obtain ⟨userId, h⟩ := h
  have htagged : r.organizationId = some organizationId :=
    hr.ownScope organizationId userId (by rwa [hscope])
  simpa [TenantBorder.part, partOf] using htagged

omit [Platform] in
theorem TenantScope.ownScope {r : IdempotencyRecord} (h : TenantScope organizationId r.scope)
    (hr : r.organizationId = some organizationId) : OwnScope .idempotencyRecords r := by
  obtain ⟨userId, h | h⟩ := h
  · exact ownScope_of_slot (.createInvitation organizationId userId "") h hr
  · exact ownScope_of_slot (.checkout organizationId userId "") h hr

omit [Platform] in
/-- A key under the prefix of the tenant is not the key of an attachment elsewhere. -/
theorem Under.ne_of_elsewhere {key : String} (h : Under organizationId key) {a : Attachment}
    (ha : B.Good .attachments a) (hother : B.part .attachments a = false) : key ≠ a.objectKey := by
  rintro rfl
  have hown : Under a.organizationId a.objectKey := ha.ownKey
  simp [TenantBorder.part, partOf, hown.organization_eq h] at hother

theorem inTenant_acquireIdempotency (userId : UUID) {scope : String}
    (hscope : TenantScope organizationId scope) (key requestHash : String) :
    InTenant B (fun state => B.Key .idempotencyRecords state.record.id)
      (acquireIdempotency userId (some organizationId) scope key requestHash) := by
  refine Prog.every_bind inTenant_now fun at_ _ => Prog.every_bind inTenant_uuid4 fun id hid => ?_
  have hne : ∀ x, B.Good .idempotencyRecords x → B.part .idempotencyRecords x = false →
      x.scope ≠ scope := by
    intro x hx hother heq
    rw [hscope.part hx heq] at hother
    cases hother
  refine Prog.every_bind (χ := fun _ => True) ?_ fun result _ => ?_
  · have hpart : ∀ r : IdempotencyRecord, r.organizationId = some organizationId →
        B.part .idempotencyRecords r = true := fun r hr => by simp [TenantBorder.part, partOf, hr]
    refine ⟨couples_insertOnConflict (hpart _ rfl)
      ⟨⟨fun _ => hpart _ rfl, fun _ => hid.1 _⟩, trivial, trivial, hscope.ownScope rfl⟩
      (fun db db' h => TenantSharing.check h (hpart _ rfl)) (fun x hx hother => ?_)
      fun x hx hother => ?_, fun _ _ => trivial⟩
    · exact clash_elsewhere (hpart _ rfl) hother (TenantBorder.pk_ne (hid.1 _) hx hother)
        (by simp [Unlike, (hne x hx hother).symm])
    · simp [sameScopeKey, (hne x hx hother).symm]
  refine Prog.every_bind (inTenant_checked result) fun created _ => ?_
  split
  · refine Prog.every_bind (inTenant_search (t := .idempotencyRecords) fun r hr hp =>
      TenantBorder.part_of_key (hid.1 _) hr (of_decide_eq_true hp)) fun record hrecord => ?_
    cases record with
    | none => trivial
    | some record => exact (hrecord record rfl).2
  · refine Prog.every_bind (inTenant_lockSearch (t := .idempotencyRecords) fun x hx hp => ?_)
      fun record hrecord => ?_
    · exact hscope.part hx (of_decide_eq_true hp).1
    cases record with
    | none => trivial
    | some record =>
      dsimp only
      split
      · trivial
      · split
        · exact (hrecord record rfl).2
        · trivial

theorem inTenant_idempotently {ρ : Type} {userId : UUID} {scope key : String}
    (hscope : TenantScope organizationId scope) {payload : Json} {missingBody : String}
    {modelValidate : Json → Except Failure ρ} {modelDump : ρ → Json} {execute : App ρ}
    (hexecute : InTenant B (fun _ => True) execute) :
    InTenant B (fun _ => True) (idempotently userId (some organizationId)
      scope key payload missingBody modelValidate modelDump execute) := by
  refine Prog.every_bind (inTenant_acquireIdempotency _ hscope _ _)
    fun state hstate => ?_
  split
  · cases state.replayBody with
    | none => trivial
    | some body => exact Prog.every_bind (inTenant_ofExcept _) fun _ _ => trivial
  · refine Prog.every_bind hexecute fun response _ => ?_
    refine Prog.every_bind (inTenant_updateRow (t := .idempotencyRecords) (by simp) hstate
      fun _ => rfl) fun _ _ => trivial

/-! ## Members -/

theorem inTenant_isMember (email : String) :
    InTenant B (fun _ => True) (isMember organizationId email) := by
  refine Prog.every_bind (inTenant_select fun db db' h => by rw [h.users]) fun id _ => ?_
  cases id with
  | none => trivial
  | some id =>
    refine (inTenant_select fun db db' h => ?_).mono (fun _ h => h) (fun _ h => h) fun _ _ => trivial
    refine congrArg Option.isSome (TenantSharing.find h (t := .organizationMemberships)
      fun _ hp => ?_)
    simp only [decide_eq_true_eq] at hp
    simpa [TenantBorder.part, partOf] using hp.1

theorem inTenant_addInvitation (invitedBy : User) (email : String) (role : Role) :
    InTenant B (fun _ => True)
      (addInvitation organizationId invitedBy email role) := by
  refine Prog.every_bind (inTenant_call (.tokenUrlsafe 32)) fun token htoken => ?_
  refine Prog.every_bind inTenant_now fun at_ _ => ?_
  refine Prog.every_bind inTenant_rowDefaults fun d hd => ?_
  refine Prog.every_bind (inTenant_insertRow (t := .invitations)
    (by simp [TenantBorder.part, partOf]) (hd.1 _) ⟨fun _ => rfl, fun _ => htoken⟩ trivial trivial
    fun x hx hother heq => ?_) fun _ _ => ?_
  · have hhash : B.Hash x.tokenHash := heq ▸ htoken
    simp [TenantBorder.part, partOf, hx.marked.mp hhash] at hother
  refine Prog.every_bind (inTenant_recordAudit _ _ _ _ _) fun _ _ => ?_
  refine Prog.every_bind (inTenant_call _) fun sent _ => ?_
  exact Prog.every_bind (inTenant_orRaise _ _) fun _ _ => trivial

theorem inTenant_inviteMember (invitedBy : User) (payload : InviteMemberRequest) :
    InTenant B (fun _ => True)
      (inviteMember organizationId invitedBy payload) := by
  refine Prog.every_bind (inTenant_isMember _) fun member _ => ?_
  split
  · trivial
  · refine Prog.every_bind (inTenant_find (t := .invitations) fun _ hp => ?_) fun pending hp => ?_
    · simp only [decide_eq_true_eq] at hp
      simpa [TenantBorder.part, partOf] using hp.1
    cases pending with
    | none => exact inTenant_addInvitation _ _ _
    | some pending =>
      refine Prog.every_bind inTenant_now fun at_ _ => ?_
      split
      · trivial
      · exact Prog.every_bind (inTenant_flush (by simp) (hp pending rfl).2 _ fun _ _ => rfl)
          fun _ _ => inTenant_addInvitation _ _ _

theorem inTenant_findMembershipById (membershipId : UUID) : InTenant B
    (fun found => ∀ m ∈ found, B.Key .organizationMemberships m.id)
    (select (findMembershipById organizationId membershipId)) := by
  refine (inTenant_find (t := .organizationMemberships) fun _ hp => ?_).mono (fun _ h => h)
    (fun _ h => h) fun _ h m hm => (h m hm).2
  simp only [decide_eq_true_eq] at hp
  simpa [TenantBorder.part, partOf] using hp.2

theorem inTenant_updateMembershipRole (membershipId : UUID) (actor : User) (role : Role) :
    InTenant B (fun _ => True)
      (updateMembershipRole organizationId membershipId actor role) := by
  refine Prog.every_bind (inTenant_findMembershipById _) fun membership hm => ?_
  cases membership with
  | none => trivial
  | some membership =>
    dsimp only
    split
    · trivial
    · refine Prog.every_bind (inTenant_flush (by simp) (hm membership rfl) _ fun _ _ => rfl)
        fun _ _ => ?_
      exact Prog.every_bind (inTenant_recordAudit _ _ _ _ _) fun _ _ => trivial

theorem inTenant_removeMembership (membershipId : UUID) (actor : User) :
    InTenant B (fun _ => True)
      (removeMembership organizationId membershipId actor) := by
  refine Prog.every_bind (inTenant_findMembershipById _) fun membership hm => ?_
  cases membership with
  | none => trivial
  | some membership =>
    dsimp only
    split
    · trivial
    · refine Prog.every_bind (inTenant_recordAudit _ _ _ _ _) fun _ _ => ?_
      exact inTenant_deleteRow (hm membership rfl)

theorem inTenant_listMembers (userId : UUID) :
    InTenant B (fun _ => True) (listMembers organizationId userId) := by
  refine Prog.every_bind (inTenant_requirePermission _ _) fun _ _ => ?_
  refine Prog.every_bind (inTenant_select fun db db' h => ?_) fun rows _ => inTenant_ofExcept _
  have hmembers : (db' .organizationMemberships).filter (·.organizationId = organizationId) =
      (db .organizationMemberships).filter (·.organizationId = organizationId) :=
    TenantSharing.filter h (t := .organizationMemberships) fun _ hp => hp
  rw [h.users, hmembers]

theorem inTenant_changeMemberRole (userId : UUID) (args : Option (UUID × Role)) :
    InTenant B (fun _ => True)
      (changeMemberRole organizationId userId args) := by
  refine inTenant_route fun context a => ?_
  refine Prog.every_bind (inTenant_updateMembershipRole _ _ _) fun membership _ => ?_
  refine Prog.every_bind (inTenant_find (t := .users) fun _ _ => rfl) fun member _ => ?_
  cases member with
  | none => trivial
  | some member => exact inTenant_ofExcept _

/-! ## Projects and tasks -/

theorem inTenant_getProject (projectId : UUID) : InTenant B
    (fun p => B.Key .projects p.id)
    (getProject organizationId projectId) := by
  refine Prog.every_bind (inTenant_find (t := .projects) fun _ hp => ?_) fun found hfound => ?_
  · simp only [decide_eq_true_eq] at hp
    simpa [TenantBorder.part, partOf] using hp.2
  · cases found with
    | none => trivial
    | some p => exact (hfound p rfl).2

theorem inTenant_getTask (taskId : UUID) : InTenant B
    (fun task => B.Key .tasks task.id)
    (getTask organizationId taskId) := by
  refine Prog.every_bind (inTenant_find (t := .tasks) fun _ hp => ?_) fun found hfound => ?_
  · simp only [decide_eq_true_eq] at hp
    simpa [TenantBorder.part, partOf] using hp.2
  · cases found with
    | none => trivial
    | some task => exact (hfound task rfl).2

theorem inTenant_createProject (user : User) (payload : ProjectCreate) :
    InTenant B (fun _ => True)
      (createProject organizationId user payload) := by
  refine Prog.every_bind inTenant_rowDefaults fun d hd => ?_
  refine Prog.every_bind (inTenant_insertRow (by simp [TenantBorder.part, partOf]) (hd.1 _)
    trivial trivial trivial fun _ _ _ => trivial) fun _ _ => ?_
  refine Prog.every_bind (inTenant_recordAudit _ _ _ _ _) fun _ _ => ?_
  exact Prog.every_bind (inTenant_emitEvent _ _) fun _ _ => trivial

theorem inTenant_updateProject (projectId : UUID) (user : User) (payload : ProjectUpdate) :
    InTenant B (fun _ => True)
      (updateProject organizationId projectId user payload) := by
  refine Prog.every_bind (inTenant_getProject _) fun project hproject => ?_
  refine Prog.every_bind (inTenant_flush (by simp) hproject _ fun _ _ => rfl) fun _ _ => ?_
  refine Prog.every_bind (inTenant_recordAudit _ _ _ _ _) fun _ _ => ?_
  exact Prog.every_bind (inTenant_emitEvent _ _) fun _ _ => trivial

theorem inTenant_deleteProject (projectId : UUID) (user : User) :
    InTenant B (fun _ => True)
      (deleteProject organizationId projectId user) := by
  refine Prog.every_bind (inTenant_getProject _) fun project hproject => ?_
  refine Prog.every_bind (inTenant_recordAudit _ _ _ _ _) fun _ _ => ?_
  refine Prog.every_bind (inTenant_emitEvent _ _) fun _ _ => ?_
  exact inTenant_deleteRow hproject

/-- A parent is looked up among the rows of the tenant. -/
theorem inTenant_exists {p : Row t → Bool} {γ : Type} {yes no : App γ}
    (hp : ∀ r, p r = true → B.part t r = true)
    (hyes : InTenant B (fun _ => True) yes)
    (hno : InTenant B (fun _ => True) no) :
    InTenant B (fun _ => True)
      ((select fun db => ((db t).find? p).isSome).bind fun b => if b then yes else no) := by
  refine Prog.every_bind (inTenant_select fun db db' h => ?_) fun b _ => ?_
  · rw [TenantSharing.find h hp]
  · split
    · exact hyes
    · exact hno

theorem inTenant_validateProject (projectId : UUID) : InTenant B
    (fun _ => True) (validateProject organizationId projectId) :=
  inTenant_exists (t := .projects) (fun _ hp => by
    simp only [decide_eq_true_eq] at hp
    simpa [TenantBorder.part, partOf] using hp.2) trivial trivial

theorem inTenant_validateAssignee (assigneeId : Option UUID) : InTenant B
    (fun _ => True) (validateAssignee organizationId assigneeId) := by
  cases assigneeId with
  | none => trivial
  | some userId =>
    exact inTenant_exists (t := .organizationMemberships) (fun _ hp => by
      simp only [decide_eq_true_eq] at hp
      simpa [TenantBorder.part, partOf] using hp.1) trivial trivial

theorem inTenant_createTask (user : User) (payload : TaskCreate) :
    InTenant B (fun _ => True)
      (createTask organizationId user payload) := by
  refine Prog.every_bind (inTenant_validateProject _) fun _ _ => ?_
  refine Prog.every_bind (inTenant_validateAssignee _) fun _ _ => ?_
  refine Prog.every_bind inTenant_rowDefaults fun d hd => ?_
  refine Prog.every_bind (inTenant_insertRow (by simp [TenantBorder.part, partOf]) (hd.1 _)
    trivial trivial trivial fun _ _ _ => trivial) fun _ _ => ?_
  refine Prog.every_bind (inTenant_recordAudit _ _ _ _ _) fun _ _ => ?_
  exact Prog.every_bind (inTenant_emitEvent _ _) fun _ _ => trivial

theorem inTenant_updateTask (taskId : UUID) (user : User) (payload : TaskUpdate) :
    InTenant B (fun _ => True)
      (updateTask organizationId taskId user payload) := by
  refine Prog.every_bind (inTenant_getTask _) fun task htask => ?_
  have hrest : ∀ (new : Task) (dirty : Bool) (eventType : String) (data : List (String × Json)),
      InTenant B (fun _ => True) (do
        let updatedAt ← flush .tasks task.id dirty (Task.patch task new)
        recordAudit organizationId (some user.id) "task.updated" "task" (some task.id) []
        let _ ← emitEvent organizationId eventType data
        return { new with updatedAt := updatedAt.getD task.updatedAt }) := by
    intro new dirty eventType data
    refine Prog.every_bind (inTenant_flush (by simp) htask _ fun _ _ => rfl) fun _ _ => ?_
    refine Prog.every_bind (inTenant_recordAudit _ _ _ _ _) fun _ _ => ?_
    exact Prog.every_bind (inTenant_emitEvent _ _) fun _ _ => trivial
  cases payload.assigneeId with
  | none => exact hrest _ _ _ _
  | some assigneeId =>
    exact Prog.every_bind (inTenant_validateAssignee _) fun _ _ => hrest _ _ _ _

theorem inTenant_deleteTask (taskId : UUID) (user : User) :
    InTenant B (fun _ => True) (deleteTask organizationId taskId user) := by
  refine Prog.every_bind (inTenant_getTask _) fun task htask => ?_
  refine Prog.every_bind (inTenant_recordAudit _ _ _ _ _) fun _ _ => ?_
  refine Prog.every_bind (inTenant_emitEvent _ _) fun _ _ => ?_
  exact inTenant_deleteRow htask

theorem inTenant_cursorPosition (cursor : Option String) :
    InTenant B (fun _ => True) (cursorPosition cursor) := by
  unfold cursorPosition
  split
  · trivial
  · trivial
  · exact Prog.every_bind (inTenant_ofExcept _) fun _ _ => trivial

/-! ## Files -/

theorem inTenant_createUpload
    (userId : UUID) (args : Option PresignUploadRequest) :
    InTenant B (fun _ => True)
      (createUpload organizationId userId args) := by
  refine inTenant_route fun context payload => ?_
  cases validateUpload payload.contentType payload.sizeBytes with
  | error e => trivial
  | ok u =>
    refine Prog.every_bind (χ := fun _ => True) ?_ fun _ _ => ?_
    · cases payload.projectId with
      | none => trivial
      | some id =>
        exact inTenant_exists (t := .projects) (fun _ hp => by
          simp only [decide_eq_true_eq] at hp
          simpa [TenantBorder.part, partOf] using hp.2) trivial trivial
    refine Prog.every_bind (χ := fun _ => True) ?_ fun _ _ => ?_
    · cases payload.taskId with
      | none => trivial
      | some id =>
        exact inTenant_exists (t := .tasks) (fun _ hp => by
          simp only [decide_eq_true_eq] at hp
          simpa [TenantBorder.part, partOf] using hp.2) trivial trivial
    refine Prog.every_bind (χ := Under organizationId) ?_ fun key hkey => ?_
    · exact Prog.every_bind inTenant_uuid4 fun id _ => under_objectKey _ _ _
    refine Prog.every_bind inTenant_rowDefaults fun d hd => ?_
    refine Prog.every_bind (inTenant_insertRow (t := .attachments)
      (by simp [TenantBorder.part, partOf]) (hd.1 _) trivial hkey trivial
      fun x hx hother => hkey.ne_of_elsewhere hx hother) fun _ _ => ?_
    refine Prog.every_bind (inTenant_call _) fun url _ => ?_
    exact Prog.every_bind (inTenant_orRaise _ _) fun _ _ => trivial

theorem inTenant_getDownload (userId : UUID) (args : Option UUID) :
    InTenant B (fun _ => True)
      (getDownload organizationId userId args) := by
  refine inTenant_route fun context a => ?_
  refine Prog.every_bind (inTenant_find (t := .attachments) fun _ hp => ?_) fun found _ => ?_
  · simp only [decide_eq_true_eq] at hp
    simpa [TenantBorder.part, partOf] using hp.2
  refine Prog.every_bind (inTenant_orRaise _ _) fun attachment _ => ?_
  refine Prog.every_bind (inTenant_call _) fun url _ => ?_
  exact Prog.every_bind (inTenant_orRaise _ _) fun _ _ => trivial

/-! ## Webhooks -/

theorem inTenant_validateWebhookTarget (url : String) :
    InTenant B (fun _ => True) (validateWebhookTarget url) := by
  unfold validateWebhookTarget
  split
  · trivial
  · dsimp only
    split
    · trivial
    · trivial
    · split
      · trivial
      · trivial
      · refine Prog.every_bind (inTenant_call _) fun resolved _ => ?_
        cases resolved with
        | none => trivial
        | some resolved =>
          dsimp only
          split <;> trivial

theorem inTenant_createWebhook (userId : UUID) (args : Option WebhookCreate) :
    InTenant B (fun _ => True)
      (createWebhook organizationId userId args) := by
  refine inTenant_route fun context payload => ?_
  refine Prog.every_bind (χ := fun _ => True) ?_ fun created _ => ?_
  · unfold createWebhookEndpoint
    dsimp only
    split
    · trivial
    · refine Prog.every_bind (inTenant_validateWebhookTarget _) fun target _ => ?_
      cases target with
      | error e => trivial
      | ok u =>
        refine Prog.every_bind (inTenant_call _) fun token _ => ?_
        refine Prog.every_bind (inTenant_call _) fun encrypted _ => ?_
        refine Prog.every_bind inTenant_rowDefaults fun d hd => ?_
        exact Prog.every_bind (inTenant_insertRow (t := .webhookEndpoints)
          (by simp [TenantBorder.part, partOf]) (hd.1 _) ⟨fun _ => rfl, fun _ => hd.2⟩ trivial
          trivial fun _ _ _ => trivial) fun _ _ => trivial
  · cases created with
    | error e => trivial
    | ok created => exact Prog.every_bind (inTenant_recordAudit _ _ _ _ _) fun _ _ => trivial

theorem inTenant_deactivateWebhook (userId : UUID) (args : Option UUID) :
    InTenant B (fun _ => True)
      (deactivateWebhook organizationId userId args) := by
  refine inTenant_route fun context endpointId => ?_
  refine Prog.every_bind (inTenant_find (t := .webhookEndpoints) fun _ hp => ?_)
    fun endpoint hendpoint => ?_
  · simp only [decide_eq_true_eq] at hp
    simpa [TenantBorder.part, partOf] using hp.2
  cases endpoint with
  | none => trivial
  | some endpoint =>
    refine Prog.every_bind (inTenant_flush (by simp) (hendpoint endpoint rfl).2 _ fun _ _ => rfl)
      fun _ _ => ?_
    exact inTenant_recordAudit _ _ _ _ _

theorem inTenant_listWebhooks (userId : UUID) :
    InTenant B (fun _ => True) (listWebhooks organizationId userId) := by
  refine Prog.every_bind (inTenant_requirePermission _ _) fun _ _ => ?_
  refine Prog.every_bind (inTenant_select fun db db' h => ?_) fun _ _ => trivial
  exact congrArg _ (TenantSharing.filter h (t := .webhookEndpoints) fun _ hp => hp)

omit [Platform] in
/-- A delivery elsewhere is joined with no endpoint of the tenant. -/
theorem join_elsewhere (hgood : AllGood B.Good db) {d : WebhookDelivery}
    (hother : B.part .webhookDeliveries d = false) :
    (db .webhookEndpoints).filter
      (fun e => e.id = d.endpointId ∧ e.organizationId = organizationId) = [] := by
  simp only [TenantBorder.part, partOf, Bool.not_eq_false'] at hother
  refine List.filter_eq_nil_iff.mpr fun e he h => ?_
  obtain ⟨hid, horganization⟩ := of_decide_eq_true h
  have hown : B.foreign e.id = false := (hgood .webhookEndpoints e he).marked.mpr horganization
  rw [hid, hother] at hown
  cases hown

omit [Platform] in
theorem deliveriesOf_shared (h : TenantSharing B db db') :
    deliveriesOf organizationId db' = deliveriesOf organizationId db := by
  have hendpoints : ∀ d : WebhookDelivery, (db' .webhookEndpoints).filter
      (fun e => e.id = d.endpointId ∧ e.organizationId = organizationId) =
        (db .webhookEndpoints).filter
          fun e => e.id = d.endpointId ∧ e.organizationId = organizationId := by
    refine fun d => TenantSharing.filter h (t := .webhookEndpoints) fun _ hp => ?_
    simp only [decide_eq_true_eq] at hp
    simpa [TenantBorder.part, partOf] using hp.2
  unfold deliveriesOf
  simp only [hendpoints]
  refine Sharing.flatMap h (t := .webhookDeliveries) (fun d hd => ?_) fun d hd => ?_
  · rw [join_elsewhere h.good (Part.mem_rest.mp hd).2, List.map_nil]
  · rw [← hendpoints, join_elsewhere h.good' (Part.mem_rest.mp hd).2, List.map_nil]

omit [Platform] in
/-- A joined delivery is one of the tenant. -/
theorem mine_of_deliveriesOf (h : TenantSharing B db db') {x : WebhookDelivery × WebhookEndpoint}
    (hx : x ∈ deliveriesOf organizationId db) :
    x.1 ∈ db .webhookDeliveries ∧ B.part .webhookDeliveries x.1 = true := by
  obtain ⟨d, hd, hx⟩ := List.mem_flatMap.mp hx
  obtain ⟨e, he, rfl⟩ := List.mem_map.mp hx
  refine ⟨hd, ?_⟩
  by_contra hother
  rw [join_elsewhere h.good (by simpa using hother)] at he
  cases he

theorem inTenant_listDeliveries (userId : UUID) (args : Option (Option String × Nat)) :
    InTenant B (fun _ => True)
      (listDeliveries organizationId userId args) := by
  refine inTenant_route fun context a => ?_
  obtain ⟨state, limit⟩ := a
  have hlist : ∀ state : Option DeliveryState, InTenant B (fun _ => True)
      (do
        let rows ← select fun db =>
          (orderByDesc (fun a b => decide (a.createdAt ≤ b.createdAt))
            (((deliveriesOf organizationId db).map Prod.fst).filter fun d =>
              state.all (d.state = ·))).take limit
        return rows.map deliveryResponse) := by
    intro state
    refine Prog.every_bind (inTenant_select fun db db' h => ?_) fun _ _ => trivial
    rw [deliveriesOf_shared h]
  cases state with
  | none => exact Prog.every_bind (χ := fun _ => True) trivial fun _ _ => hlist _
  | some text =>
    dsimp only
    cases parseDeliveryState text with
    | none => trivial
    | some state => exact Prog.every_bind (χ := fun _ => True) trivial fun _ _ => hlist _

theorem inTenant_retryDelivery (userId : UUID) (args : Option UUID) :
    InTenant B (fun _ => True)
      (retryDelivery organizationId userId args) := by
  refine inTenant_route fun context deliveryId => ?_
  refine Prog.every_bind (χ := fun found : Option (WebhookDelivery × WebhookEndpoint) =>
    ∀ x ∈ found, B.Key .webhookDeliveries x.1.id ∧ B.foreign x.1.endpointId = false) ?_
    fun found hfound => ?_
  · refine ⟨couples_selectForUpdate fun db db' h => by rw [deliveriesOf_shared h], ?_⟩
    rintro _ ⟨_, _, db, db', h, rfl⟩ x hx
    obtain ⟨hmem, hP⟩ := mine_of_deliveriesOf h (List.mem_of_find?_eq_some hx)
    refine ⟨h.key hmem hP, ?_⟩
    simpa [TenantBorder.part, partOf] using hP
  cases found with
  | none => trivial
  | some found =>
    obtain ⟨hdelivery, hendpoint⟩ := hfound found rfl
    refine Prog.every_bind (inTenant_search (t := .webhookEndpoints)
      fun e he heq => he.endpoint hendpoint heq) fun endpoint _ => ?_
    split
    · trivial
    · split
      · trivial
      · refine Prog.every_bind (inTenant_flush (by simp) hdelivery _ fun _ _ => rfl) fun _ _ => ?_
        refine Prog.every_bind (inTenant_recordAudit _ _ _ _ _) fun _ _ => ?_
        exact Prog.every_bind (inTenant_deliverWebhookTaskDelay _) fun _ _ => trivial

/-! ## Billing -/

theorem inTenant_getOrCreateSubscription :
    InTenant B (fun _ => True)
      (getOrCreateSubscription organizationId) := by
  refine Prog.every_bind (inTenant_find (t := .subscriptions) fun _ hp => hp) fun found _ => ?_
  cases found with
  | some subscription => trivial
  | none =>
    refine Prog.every_bind inTenant_rowDefaults fun d hd => ?_
    exact Prog.every_bind (inTenant_insertRow (by simp [TenantBorder.part, partOf]) (hd.1 _)
      trivial trivial trivial fun _ _ _ => ⟨rfl, rfl⟩) fun _ _ => trivial

theorem inTenant_createBillingCheckout (payload : CheckoutRequest) (idempotencyKey : String) :
    InTenant B (fun _ => True)
      (createBillingCheckout organizationId payload idempotencyKey) := by
  unfold createBillingCheckout
  split
  · trivial
  · split
    · trivial
    · refine Prog.every_bind inTenant_getOrCreateSubscription fun subscription _ => ?_
      refine Prog.every_bind (inTenant_call _) fun answer _ => ?_
      refine Prog.every_bind (inTenant_orRaise _ _) fun session _ => ?_
      split <;> trivial

theorem inTenant_portal (userId : UUID) (args : Option String) :
    InTenant B (fun _ => True) (portal organizationId userId args) := by
  refine inTenant_route fun context returnUrl => ?_
  split
  · trivial
  · refine Prog.every_bind inTenant_getOrCreateSubscription fun subscription _ => ?_
    cases subscription.stripeCustomerId.filter (· ≠ "") with
    | none => trivial
    | some customerId =>
      refine Prog.every_bind (inTenant_call _) fun answer _ => ?_
      refine Prog.every_bind (inTenant_orRaise _ _) fun session _ => ?_
      exact Prog.every_bind (inTenant_orRaise _ _) fun _ _ => trivial

end Parts

end TenantFlow
