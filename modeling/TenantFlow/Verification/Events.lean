import TenantFlow.Verification.FanOut

/-!
# Events and the operations that emit them

`SUPPORTED_EVENTS` lists what an endpoint can subscribe to; the operations emit events by name,
with no link between the two. Completion is told from the status that an update leaves, not from
the change it makes.
-/

namespace TenantFlow

open JsonText Transactional

/-! ## Deliveries of one event -/

/-- How many deliveries of an event type an endpoint has, by what they say. -/
def deliveryCount (tells : Json → Bool) (endpointId : UUID) (eventType : String) (db : Db Row) :
    Nat :=
  (db .webhookDeliveries).countP fun d =>
    decide (d.endpointId = endpointId ∧ d.eventType = eventType) && tells d.payload

/-- One delivery of the event for every active endpoint that subscribes to it. -/
structure Delivered (about : Json → Prop) (organizationId : UUID) (eventType : String)
    (db : Db Row) (new : List WebhookDelivery) : Prop where
  endpoints : new.map (·.endpointId) =
    ((activeEndpoints organizationId db).filter (eventType ∈ ·.events)).map (·.id)
  types : ∀ d ∈ new, d.eventType = eventType
  payloads : ∀ d ∈ new, about d.payload

/-- The new deliveries are those of the event, if there is one. -/
def Announced (about : Json → Prop) (organizationId : UUID) (eventType : Option String)
    (db db' : Db Row) : Prop :=
  ∃ new, db' .webhookDeliveries = db .webhookDeliveries ++ new ∧
    match eventType with
    | some eventType => Delivered about organizationId eventType db new
    | none => new = []

section Counting

variable {db db' : Db Row} {organizationId : UUID} {eventType : String} {e : WebhookEndpoint}
  {about : Json → Prop} {tells : Json → Bool}

theorem mem_activeEndpoints : e ∈ activeEndpoints organizationId db ↔
    e ∈ db .webhookEndpoints ∧ e.organizationId = organizationId ∧ e.isActive = true := by
  simp [activeEndpoints]

/-- What an announcement adds for an active endpoint and an event type. -/
theorem Announced.count (eventType : String) {announced : Option String}
    (h : Announced about organizationId announced db db') (hdb : Unclashing db)
    (he : e ∈ activeEndpoints organizationId db) (htells : ∀ x, about x → tells x = true) :
    deliveryCount tells e.id eventType db' = deliveryCount tells e.id eventType db +
      if announced = some eventType ∧ eventType ∈ e.events then 1 else 0 := by
  obtain ⟨new, hnew, hdelivered⟩ := h
  obtain ⟨hmem, hactive⟩ := mem_activeEndpoints.mp he
  rw [deliveryCount, hnew, List.countP_append]
  congr 1
  cases announced with
  | none =>
    obtain rfl : new = [] := hdelivered
    simp
  | some ty =>
    have hdelivered : Delivered about organizationId ty db new := hdelivered
    by_cases hty : ty = eventType
    · subst hty
      have hall : new.countP (fun d => decide (d.endpointId = e.id ∧ d.eventType = ty) &&
          tells d.payload) = (new.map (·.endpointId)).countP (· = e.id) := by
        rw [List.countP_map]
        refine List.countP_congr fun d hd => ?_
        simp [hdelivered.types d hd, htells _ (hdelivered.payloads d hd)]
      have honce := hdb.countP_filter hmem
        (fun e => decide (e.Subscribes organizationId ty))
      rw [hall, hdelivered.endpoints, List.countP_map, filter_activeEndpoints]
      exact honce.trans (by simp [WebhookEndpoint.Subscribes, hactive])
    · rw [List.countP_eq_zero.mpr fun d hd => by simp [hdelivered.types d hd, hty], if_neg]
      exact fun h => hty (Option.some.inj h.1)

/-- An announcement that tells something else, or goes to other endpoints. -/
theorem Announced.count_other {announced : Option String}
    (h : Announced about organizationId announced db db') (hdb : Unclashing db)
    (he : e ∈ db .webhookEndpoints)
    (hother : e.organizationId ≠ organizationId ∨ ∀ x, about x → tells x = false) :
    deliveryCount tells e.id eventType db' = deliveryCount tells e.id eventType db := by
  obtain ⟨new, hnew, hdelivered⟩ := h
  rw [deliveryCount, hnew, List.countP_append, deliveryCount, Nat.add_eq_left]
  refine List.countP_eq_zero.mpr fun d hd hcounted => ?_
  cases announced with
  | none =>
    obtain rfl : new = [] := hdelivered
    cases hd
  | some ty =>
    have hdelivered : Delivered about organizationId ty db new := hdelivered
    simp only [Bool.and_eq_true, decide_eq_true_eq] at hcounted
    rcases hother with horg | htells
    · have hid : d.endpointId ∈ new.map (·.endpointId) := List.mem_map_of_mem hd
      rw [hdelivered.endpoints, hcounted.1.1] at hid
      obtain ⟨x, hx, hxid⟩ := List.mem_map.mp hid
      have hactive := mem_activeEndpoints.mp (List.mem_filter.mp hx).1
      obtain rfl : x = e := hdb.eq_of_pk hactive.1 he hxid
      exact horg hactive.2.1
    · rw [htells _ (hdelivered.payloads d hd)] at hcounted
      cases hcounted.2

end Counting

/-! ## Emitting -/

section Emitting

variable {oracle : Oracle Answer} {db : Db Row}

theorem ends_emitEvent {about : Json → Prop} {organizationId : UUID} {eventType : String}
    {payload : List (String × Json)} (habout : ∀ id, about (eventPayload id eventType payload)) :
    Ends oracle (fun _ db' => Announced about organizationId (some eventType) db db')
      (emitEvent organizationId eventType payload) db := by
  refine fun n => Prog.along_of_run fun eventId st hrun => ?_
  obtain ⟨new, _, hdb', hnew⟩ := emitEvent_adds hrun
  refine ⟨new, by rw [hdb', Function.update_self], map_endpointId hnew, fun d hd => ?_,
    fun d hd => ?_⟩
  · obtain ⟨e, _, hdelivery⟩ := exists_newDelivery hnew hd
    exact hdelivery.type
  · obtain ⟨e, _, hdelivery⟩ := exists_newDelivery hnew hd
    rw [hdelivery.payload]
    exact habout eventId

/-- What a use case does before its event. -/
def useCaseScope : Scope where
  writes := [.projects, .tasks, .invitations, .auditLogs]
  calls := fun _ => True

/-- What a use case does after its event. -/
def removalScope : Scope where
  deletes := [.projects, .tasks, .attachments]

/-- A part of a use case before its event. -/
theorem announced_bind {α β : Type} {Q : β → Db Row → Prop} {p : App α} {f : α → App β}
    {db₁ : Db Row} (hp : Confined useCaseScope p) (hagree : useCaseScope.Agree db db₁)
    (h : ∀ a db₂, useCaseScope.Agree db db₂ → Ends oracle Q (f a) db₂) :
    Ends oracle Q (p.bind f) db₁ :=
  ends_confined hp fun a db₂ hagree' =>
    h a db₂ fun T hw hd => (hagree' T hw hd).trans (hagree T hw hd)

theorem announced_emitEvent {β : Type} {about : Json → Prop} {organizationId : UUID} {eventType : String}
    {payload : List (String × Json)} {k : UUID → App β} {db₁ : Db Row}
    (habout : ∀ id, about (eventPayload id eventType payload))
    (hagree : useCaseScope.Agree db db₁) (hk : ∀ eventId, Confined removalScope (k eventId)) :
    Ends oracle (fun _ db' => Announced about organizationId (some eventType) db db')
      ((emitEvent organizationId eventType payload).bind k) db₁ := by
  refine runs_bind ((ends_emitEvent habout).mono fun eventId db₂ h => ?_)
  refine (Confined.ends (hk eventId)).mono fun _ db' hafter => ?_
  obtain ⟨new, hnew, hids, htypes, hpayloads⟩ := h
  have hendpoints : activeEndpoints organizationId db₁ = activeEndpoints organizationId db := by
    rw [activeEndpoints, hagree .webhookEndpoints (by decide) (by decide), activeEndpoints]
  refine ⟨new, ?_, by rw [hids, hendpoints], htypes, hpayloads⟩
  rw [hafter .webhookDeliveries (by decide) (by decide), hnew,
    hagree .webhookDeliveries (by decide) (by decide)]

/-- The audit row and the event, after the writes of a use case. -/
theorem announced_audit [Platform] {β : Type} {about : Json → Prop} {organizationId : UUID}
    {actorId : Option UUID} {action entityType : String} {entityId : Option UUID}
    {metadata : List (String × Json)}
    {eventType : String} {payload : List (String × Json)} {k : App β} {db₁ : Db Row}
    (habout : ∀ id, about (eventPayload id eventType payload))
    (hagree : useCaseScope.Agree db db₁) (hk : Confined removalScope k) :
    Ends oracle (fun _ db' => Announced about organizationId (some eventType) db db') (do
      recordAudit organizationId actorId action entityType entityId metadata
      let _ ← emitEvent organizationId eventType payload
      k) db₁ :=
  announced_bind (confined_recordAudit (by simp [useCaseScope]) _ _ _ _ _) hagree
    fun _ _ hagree => announced_emitEvent habout hagree fun _ => hk

end Emitting

/-! ## The operations that events are named after -/

inductive Operation where
  | createProject (user : User) (payload : ProjectCreate)
  | updateProject (projectId : UUID) (user : User) (payload : ProjectUpdate)
  | deleteProject (projectId : UUID) (user : User)
  | createTask (user : User) (payload : TaskCreate)
  | updateTask (taskId : UUID) (user : User) (payload : TaskUpdate)
  | deleteTask (taskId : UUID) (user : User)
  | inviteMember (invitedBy : User) (payload : InviteMemberRequest)

/-- The task is done. -/
def Task.isDone (task : Task) : Bool := task.status = some .done

section Operations

variable {oracle : Oracle Answer} {db : Db Row} {organizationId : UUID}

def Operation.service [Platform] (organizationId : UUID) : Operation → App Unit
  | .createProject user payload => do let _ ← TenantFlow.createProject organizationId user payload
  | .updateProject projectId user payload => do
    let _ ← TenantFlow.updateProject organizationId projectId user payload
  | .deleteProject projectId user => TenantFlow.deleteProject organizationId projectId user
  | .createTask user payload => do let _ ← TenantFlow.createTask organizationId user payload
  | .updateTask taskId user payload => do
    let _ ← TenantFlow.updateTask organizationId taskId user payload
  | .deleteTask taskId user => TenantFlow.deleteTask organizationId taskId user
  | .inviteMember invitedBy payload => do
    let _ ← TenantFlow.inviteMember organizationId invitedBy payload

/-- The event that the operation is, by `SUPPORTED_EVENTS`: an update completes a task if it
changes its status to done. -/
def Operation.event (organizationId : UUID) (db : Db Row) : Operation → String
  | .createProject _ _ => "project.created"
  | .updateProject _ _ _ => "project.updated"
  | .deleteProject _ _ => "project.deleted"
  | .createTask _ _ => "task.created"
  | .updateTask taskId _ payload =>
    if (findTask organizationId taskId db).any fun task =>
      !task.isDone && (payload.apply task).isDone then "task.completed" else "task.updated"
  | .deleteTask _ _ => "task.deleted"
  | .inviteMember _ _ => "member.invited"

/-- The event that the operation emits. -/
def Operation.emits (organizationId : UUID) (db : Db Row) : Operation → Option String
  | .updateTask taskId _ payload =>
    if (findTask organizationId taskId db).any fun task => (payload.apply task).isDone then
      some "task.completed" else some "task.updated"
  | .inviteMember _ _ => none
  | op => some (op.event organizationId db)

/-- Invitations, and edits of a task that is done and stays done. -/
def Operation.Missed (organizationId : UUID) (db : Db Row) : Operation → Prop
  | .updateTask taskId _ payload => ∃ task, findTask organizationId taskId db = some task ∧
      task.isDone = true ∧ (payload.apply task).isDone = true
  | .inviteMember _ _ => True
  | _ => False

instance (op : Operation) : Decidable (op.Missed organizationId db) :=
  match op with
  | .updateTask taskId _ payload =>
    decidable_of_iff ((findTask organizationId taskId db).any fun task =>
      task.isDone && (payload.apply task).isDone) (by simp [Operation.Missed, Option.any_eq_true])
  | .inviteMember _ _ => isTrue trivial
  | .createProject _ _ => isFalse id
  | .updateProject _ _ _ => isFalse id
  | .deleteProject _ _ => isFalse id
  | .createTask _ _ => isFalse id
  | .deleteTask _ _ => isFalse id

theorem Operation.emits_eq_iff {op : Operation} :
    op.emits organizationId db = some (op.event organizationId db) ↔
      ¬ op.Missed organizationId db := by
  cases op with
  | updateTask taskId user payload =>
    simp only [Operation.emits, Operation.event, Operation.Missed]
    cases hfound : findTask organizationId taskId db with
    | none => simp
    | some task => cases hbefore : task.isDone <;> cases hafter : (payload.apply task).isDone <;> simp [*]
  | _ => simp [Operation.emits, Operation.event, Operation.Missed]

/-- The task that a payload names. -/
def taskOf (payload : Json) : Option Json :=
  match payload with
  | .obj fields =>
    match lookup fields "data" with
    | some (.obj data) => lookup data "task_id"
    | _ => none
  | _ => none

/-- A task and the event type of an update that finds it. -/
def updateEvent (payload : TaskUpdate) (task : Task) : String :=
  if (payload.apply task).isDone then "task.completed" else "task.updated"

theorem mem_of_findTask {taskId : UUID} {task : Task}
    (h : findTask organizationId taskId db = some task) :
    task ∈ db .tasks ∧ task.id = taskId ∧ task.organizationId = organizationId :=
  ⟨List.mem_of_find?_eq_some h, by simpa using List.find?_some h⟩

/-- A successful update announces the change under the status it leaves. -/
theorem updateTask_announces [Platform] {taskId : UUID} {user : User} {payload : TaskUpdate} :
    Ends oracle (fun _ db' => ∃ task, findTask organizationId taskId db = some task ∧
        Announced (taskOf · = some (.str taskId.str)) organizationId
          (some (updateEvent payload task)) db db')
      (updateTask organizationId taskId user payload) db := by
  refine runs_bind (ends_select ?_)
  cases hfound : findTask organizationId taskId db with
  | none => exact runs_raise _
  | some task =>
    refine runs_ret (Runs.mono ?_ fun _ _ h => ⟨task, rfl, h⟩)
    have habout : ∀ eventType id, taskOf (eventPayload id eventType
        [("task_id", .str task.id.str), ("project_id", .str task.projectId.str),
          ("status", jsonText ((payload.apply task).status.map (·.str)))]) =
        some (.str taskId.str) := by
      intro eventType id
      rw [(mem_of_findTask hfound).2.1]
      rfl
    have hevent : (if (payload.apply task).status = some .done then "task.completed"
        else "task.updated") = updateEvent payload task := by
      simp [updateEvent, Task.isDone]
    simp only [hevent]
    have hrest : ∀ {db₁ : Db Row}, useCaseScope.Agree db db₁ →
        Ends oracle (fun _ db' => Announced (taskOf · = some (.str taskId.str)) organizationId
          (some (updateEvent payload task)) db db') (do
            let updatedAt ← flush .tasks task.id (Task.dirty task (payload.apply task))
              (Task.patch task (payload.apply task))
            recordAudit organizationId (some user.id) "task.updated" "task" (some task.id) []
            let _ ← emitEvent organizationId (updateEvent payload task)
              [("task_id", .str task.id.str), ("project_id", .str task.projectId.str),
                ("status", jsonText ((payload.apply task).status.map (·.str)))]
            return { payload.apply task with updatedAt := updatedAt.getD task.updatedAt }) db₁ :=
      fun h => announced_bind (confined_flush (by decide) _ _ fun _ _ => rfl) h
        fun _ _ h => announced_audit (habout _) h trivial
    cases payload.assigneeId with
    | none => exact hrest fun _ _ _ => rfl
    | some assigneeId =>
      exact announced_bind (confined_validateAssignee _ _) (fun _ _ _ => rfl) fun _ _ h => hrest h

/-- Of the tasks, only the one that was found is written, and its status is as the payload says. -/
def TaskWritten (payload : TaskUpdate) (task : Task) (db db' : Db Row) : Prop :=
  db' .webhookEndpoints = db .webhookEndpoints ∧
    ∃ g : Task → Task, (∀ r, blank (t := .tasks) (g r) = blank (t := .tasks) r) ∧
      (g task).isDone = (payload.apply task).isDone ∧
      db' .tasks = (db .tasks).map fun r => if r.id = task.id then g r else r

theorem updateTask_writes {taskId : UUID} {user : User} {payload : TaskUpdate} :
    Ends oracle (fun _ db' => ∀ task, findTask organizationId taskId db = some task →
        TaskWritten payload task db db')
      (updateTask organizationId taskId user payload) db := by
  refine runs_bind (ends_select ?_)
  cases hfound : findTask organizationId taskId db with
  | none => exact runs_raise _
  | some task =>
    refine runs_ret ?_
    have htail : ∀ (eventType : String) (data : List (String × Json)) (result : Task),
        Confined { writes := [.auditLogs, .webhookDeliveries], calls := fun _ => True } (do
          recordAudit organizationId (some user.id) "task.updated" "task" (some task.id) []
          let _ ← emitEvent organizationId eventType data
          return result) := by
      intro eventType data result
      refine Prog.every_bind (confined_recordAudit (by simp) _ _ _ _ _) fun _ _ => ?_
      exact Prog.every_bind (confined_emitEvent (by simp) (fun _ => trivial) _ _ _)
        fun _ _ => trivial
    have hrest : ∀ eventType data, Ends oracle (fun _ db' => TaskWritten payload task db db') (do
        let updatedAt ← flush .tasks task.id (Task.dirty task (payload.apply task))
          (Task.patch task (payload.apply task))
        recordAudit organizationId (some user.id) "task.updated" "task" (some task.id) []
        let _ ← emitEvent organizationId eventType data
        return { payload.apply task with updatedAt := updatedAt.getD task.updatedAt }) db := by
      intro eventType data
      refine ends_flush (fun at_ _ _ => ?_) fun hclean => ?_
      · refine (htail _ _ _).ends.mono fun _ db' hagree => ?_
        refine ⟨hagree .webhookEndpoints (by decide) (by decide),
          Task.patch task (payload.apply task) at_, fun r => rfl, ?_,
          hagree .tasks (by decide) (by decide)⟩
        simp [Task.isDone, Task.patch]
      · refine (htail _ _ _).ends.mono fun _ db' hagree => ?_
        refine ⟨hagree .webhookEndpoints (by decide) (by decide), id, fun r => rfl, ?_, ?_⟩
        · simp only [Task.dirty, Bool.or_eq_false_iff, decide_eq_false_iff_not, not_not] at hclean
          simp [Task.isDone, hclean]
        · rw [hagree .tasks (by decide) (by decide)]
          simp
    cases payload.assigneeId with
    | none => exact (hrest _ _).mono fun _ _ h _ heq => Option.some.inj heq ▸ h
    | some assigneeId =>
      refine ends_confined (confined_validateAssignee (F := {}) _ _) fun _ db₁ hagree => ?_
      obtain rfl : db₁ = db := funext fun T => hagree T (by simp) (by simp)
      exact (hrest _ _).mono fun _ _ h _ heq => Option.some.inj heq ▸ h

/-- Every operation announces what it emits. -/
theorem ends_operation [Platform] (op : Operation) :
    Ends oracle (fun _ db' => Announced (fun _ => True) organizationId (op.emits organizationId db) db db')
      (op.service organizationId) db := by
  have hstart : useCaseScope.Agree db db := fun _ _ _ => rfl
  cases op with
  | createProject user payload =>
    refine runs_bind (Runs.mono ?_ fun _ _ h => runs_ret h)
    refine announced_bind confined_rowDefaults hstart fun d db₁ h₁ => ?_
    refine announced_bind (confined_insertRow (by simp [useCaseScope]) _) h₁ fun _ db₂ h₂ => ?_
    exact announced_audit (fun _ => trivial) h₂ trivial
  | updateProject projectId user payload =>
    refine runs_bind (Runs.mono ?_ fun _ _ h => runs_ret h)
    refine announced_bind (confined_getProject _ _) hstart fun project db₁ h₁ => ?_
    refine announced_bind (confined_flush (by decide) _ _ fun _ _ => rfl) h₁ fun _ db₂ h₂ => ?_
    exact announced_audit (fun _ => trivial) h₂ trivial
  | deleteProject projectId user =>
    refine announced_bind (confined_getProject _ _) hstart fun project db₁ h₁ => ?_
    exact announced_audit (fun _ => trivial) h₁ (confined_deleteRow (by decide) (by decide) _)
  | createTask user payload =>
    refine runs_bind (Runs.mono ?_ fun _ _ h => runs_ret h)
    refine announced_bind (confined_validateProject _ _) hstart fun _ db₁ h₁ => ?_
    refine announced_bind (confined_validateAssignee _ _) h₁ fun _ db₂ h₂ => ?_
    refine announced_bind confined_rowDefaults h₂ fun d db₃ h₃ => ?_
    refine announced_bind (confined_insertRow (by simp [useCaseScope]) _) h₃ fun _ db₄ h₄ => ?_
    exact announced_audit (fun _ => trivial) h₄ trivial
  | updateTask taskId user payload =>
    refine runs_bind (updateTask_announces.mono fun _ db' h => runs_ret ?_)
    obtain ⟨task, hfound, new, hnew, hdelivered⟩ := h
    have hemits : (Operation.updateTask taskId user payload).emits organizationId db =
        some (updateEvent payload task) := by
      simp only [Operation.emits, hfound, updateEvent, Option.any_some]
      split <;> rfl
    exact ⟨new, hnew, by simpa only [hemits] using ⟨hdelivered.1, hdelivered.2, fun _ _ => trivial⟩⟩
  | deleteTask taskId user =>
    refine announced_bind (confined_getTask _ _) hstart fun task db₁ h₁ => ?_
    exact announced_audit (fun _ => trivial) h₁ (confined_deleteRow (by decide) (by decide) _)
  | inviteMember invitedBy payload =>
    refine ends_confined (F := useCaseScope) (confined_inviteMember (by simp [useCaseScope])
      (by simp [useCaseScope]) (fun _ => trivial) _ _ _) fun _ db' hagree => runs_ret ?_
    exact ⟨[], by rw [hagree .webhookDeliveries (by decide) (by decide), List.append_nil], rfl⟩

/-- The deliveries that the event of an operation calls for. -/
def EmitsOnce (organizationId : UUID) (eventType : String) (db db' : Db Row) : Prop :=
  ∀ e ∈ activeEndpoints organizationId db, eventType ∈ e.events →
    deliveryCount (fun _ => true) e.id eventType db' =
      deliveryCount (fun _ => true) e.id eventType db + 1

/-- A successful operation delivers its event once to every subscriber, unless it is one of those
that miss their event and there is a subscriber to miss it. -/
theorem emitsOnce_iff [Platform] (hdb : Unclashing db) (op : Operation)
    (hok : (transaction oracle (op.service organizationId) db).1 = .ok ()) :
    EmitsOnce organizationId (op.event organizationId db) db
        (transaction oracle (op.service organizationId) db).2 ↔
      (op.Missed organizationId db → ∀ e ∈ activeEndpoints organizationId db,
        op.event organizationId db ∉ e.events) := by
  have hannounced := (ends_operation op).transaction hok
  have hcount (e : WebhookEndpoint) (he : e ∈ activeEndpoints organizationId db) :
      deliveryCount (fun _ => true) e.id (op.event organizationId db)
        (transaction oracle (op.service organizationId) db).2 =
      deliveryCount (fun _ => true) e.id (op.event organizationId db) db +
        if op.emits organizationId db = some (op.event organizationId db) ∧
          op.event organizationId db ∈ e.events then 1 else 0 :=
    hannounced.count _ hdb he fun _ _ => rfl
  constructor
  · intro h hmissed e he hevent
    have honce := h e he hevent
    have hother : ¬ (op.emits organizationId db = some (op.event organizationId db) ∧
        op.event organizationId db ∈ e.events) :=
      fun hemits => op.emits_eq_iff.mp hemits.1 hmissed
    rw [hcount e he, if_neg hother] at honce
    omega
  · intro h e he hevent
    have hemits : op.emits organizationId db = some (op.event organizationId db) :=
      op.emits_eq_iff.mpr fun hmissed => h hmissed e he hevent
    rw [hcount e he, if_pos ⟨hemits, hevent⟩]

end Operations

/-! ## Histories of updates -/

/-- One call of `update_task`. -/
structure UpdateCall where
  organizationId : UUID
  taskId : UUID
  user : User
  payload : TaskUpdate
  oracle : Oracle Answer

/-- The task of that id is done. -/
def isDoneIn (taskId : UUID) (db : Db Row) : Bool :=
  (db .tasks).any fun t => decide (t.id = taskId) && t.isDone

/-- The payload names the task. -/
def namesTask (taskId : UUID) (payload : Json) : Bool :=
  match taskOf payload with
  | some (.str s) => s = taskId.str
  | _ => false

theorem namesTask_of_taskOf {taskId taskId' : UUID} {payload : Json}
    (h : taskOf payload = some (.str taskId'.str)) :
    namesTask taskId payload = decide (taskId' = taskId) := by
  simp [namesTask, h, UUID.str_injective.eq_iff]

section Histories

variable [Platform] {db : Db Row} {c : UpdateCall} {task : Task} {e : WebhookEndpoint}
  {organizationId taskId : UUID} {eventType : String}

/-- The call in its own transaction. -/
def UpdateCall.result (c : UpdateCall) (db : Db Row) : Except Failure Task × Db Row :=
  transaction c.oracle (updateTask c.organizationId c.taskId c.user c.payload) db

def UpdateCall.after (c : UpdateCall) (db : Db Row) : Db Row := (c.result db).2

/-- The call updates the task. -/
def UpdateCall.updates (taskId : UUID) (c : UpdateCall) (db : Db Row) : Bool :=
  decide (c.taskId = taskId) && match (c.result db).1 with
    | .ok _ => true
    | .error _ => false

/-- The call changes the status of the task to done. -/
def UpdateCall.completes (taskId : UUID) (c : UpdateCall) (db : Db Row) : Bool :=
  c.updates taskId db && !isDoneIn taskId db && isDoneIn taskId (c.after db)

/-- An edit of a task that is done and stays done. -/
def UpdateCall.Missed (c : UpdateCall) (db : Db Row) : Prop :=
  (Operation.updateTask c.taskId c.user c.payload).Missed c.organizationId db

instance (c : UpdateCall) : Decidable (c.Missed db) :=
  inferInstanceAs (Decidable (Operation.Missed _ _ _))

def updateAll : List UpdateCall → Db Row → Db Row
  | [], db => db
  | c :: calls, db => updateAll calls (c.after db)

/-- The number of calls that complete the task. -/
def completions (taskId : UUID) : List UpdateCall → Db Row → Nat
  | [], _ => 0
  | c :: calls, db => (if c.completes taskId db then 1 else 0) + completions taskId calls (c.after db)

/-- Every call of the sequence satisfies `P` where it is made. -/
def EachCall (P : UpdateCall → Db Row → Prop) : List UpdateCall → Db Row → Prop
  | [], _ => True
  | c :: calls, db => P c db ∧ EachCall P calls (c.after db)

/-- The deliveries of the event about the task, for one endpoint. -/
abbrev eventsOf (taskId : UUID) (e : WebhookEndpoint) (eventType : String) (db : Db Row) : Nat :=
  deliveryCount (namesTask taskId) e.id eventType db

/-- One `task.completed` for each completion, one `task.updated` for every other update. -/
structure CountsCompletions (taskId : UUID) (e : WebhookEndpoint) (calls : List UpdateCall)
    (db : Db Row) : Prop where
  completed : eventsOf taskId e "task.completed" (updateAll calls db) =
    eventsOf taskId e "task.completed" db + completions taskId calls db
  updated : EachCall (fun c db => c.updates taskId db = true → c.completes taskId db = false →
    eventsOf taskId e "task.updated" (c.after db) = eventsOf taskId e "task.updated" db + 1) calls db

omit [Platform] in
theorem UpdateCall.updates_iff : c.updates taskId db = true ↔
    c.taskId = taskId ∧ ∃ task, (c.result db).1 = .ok task := by
  unfold UpdateCall.updates
  cases (c.result db).1 <;> simp

/-- What an update may touch. -/
def updateScope : Scope where
  writes := [.tasks, .auditLogs, .webhookDeliveries]
  calls := fun _ => True

omit [Platform] in
theorem UpdateCall.confined (c : UpdateCall) :
    Confined updateScope (updateTask c.organizationId c.taskId c.user c.payload) :=
  confined_updateTask (by decide) (by simp [updateScope]) (by simp [updateScope])
    (fun _ => trivial) _ _ _ _

omit [Platform] in
theorem UpdateCall.activeEndpoints_after :
    activeEndpoints organizationId (c.after db) = activeEndpoints organizationId db := by
  have htable : c.after db .webhookEndpoints = db .webhookEndpoints :=
    c.confined.transaction_table (by decide) (by decide)
  rw [activeEndpoints, htable, activeEndpoints]

omit [Platform] in
theorem UpdateCall.task_after (htask : task ∈ db .tasks) : ∃ task' ∈ c.after db .tasks,
    task'.id = task.id ∧ task'.organizationId = task.organizationId := by
  obtain ⟨task', hmem, hblank⟩ := c.confined.transaction_keeps_rows (by decide) htask
  exact ⟨task', hmem, pk_of_blank hblank, (task_of_blank hblank).1⟩

/-- The task with that id is the one that the call finds, if it succeeds. -/
theorem UpdateCall.findTask_of_updates (hdb : Unclashing db) (htask : task ∈ db .tasks)
    (h : c.updates task.id db = true) : findTask c.organizationId c.taskId db = some task := by
  obtain ⟨hid, new, hok⟩ := updates_iff.mp h
  obtain ⟨found, hfound, _⟩ := updateTask_announces.transaction hok
  obtain ⟨hmem, hfid, _⟩ := mem_of_findTask hfound
  obtain rfl : found = task := hdb.eq_of_pk hmem htask (hfid.trans hid)
  exact hfound

omit [Platform] in
theorem isDoneIn_eq (hdb : Unclashing db) (htask : task ∈ db .tasks) :
    isDoneIn task.id db = task.isDone := by
  rw [isDoneIn, Bool.eq_iff_iff, List.any_eq_true]
  constructor
  · rintro ⟨t, ht, hdone⟩
    simp only [Bool.and_eq_true, decide_eq_true_eq] at hdone
    obtain rfl : t = task := hdb.eq_of_pk ht htask hdone.1
    exact hdone.2
  · exact fun hdone => ⟨task, htask, by simp [hdone]⟩

/-! ### What one call does to the counts -/

theorem UpdateCall.isDoneIn_updates (hdb : Unclashing db) (htask : task ∈ db .tasks)
    (h : c.updates task.id db = true) :
    isDoneIn task.id (c.after db) = (c.payload.apply task).isDone := by
  obtain ⟨_, new, hok⟩ := updates_iff.mp h
  obtain ⟨_, g, hblank, hdone, htasks⟩ :=
    updateTask_writes.transaction hok task (findTask_of_updates hdb htask h)
  have hdb' : Unclashing (c.after db) := c.confined.transaction_unclashing hdb
  have hmem : g task ∈ c.after db .tasks := by
    rw [UpdateCall.after, UpdateCall.result, htasks]
    exact List.mem_map.mpr ⟨task, htask, by simp⟩
  have hid : (g task).id = task.id := pk_of_blank (hblank task)
  rw [← hid, isDoneIn_eq hdb' hmem, hdone]

theorem UpdateCall.count_updates (hdb : Unclashing db) (htask : task ∈ db .tasks)
    (he : e ∈ activeEndpoints task.organizationId db) (hevent : eventType ∈ e.events)
    (h : c.updates task.id db = true) :
    eventsOf task.id e eventType (c.after db) = eventsOf task.id e eventType db +
      if updateEvent c.payload task = eventType then 1 else 0 := by
  obtain ⟨hid, new, hok⟩ := updates_iff.mp h
  have hfound := findTask_of_updates hdb htask h
  obtain ⟨found, hfound', hannounced⟩ := updateTask_announces.transaction hok
  obtain rfl : found = task := Option.some.inj (hfound'.symm.trans hfound)
  have horg : c.organizationId = found.organizationId := (mem_of_findTask hfound).2.2.symm
  rw [← horg] at he
  have htells : ∀ x, taskOf x = some (.str c.taskId.str) → namesTask found.id x = true :=
    fun x hx => by simp [namesTask_of_taskOf hx, hid]
  have hcount := hannounced.count eventType hdb he htells
  simp only [hevent, and_true, Option.some.injEq] at hcount
  exact hcount

theorem UpdateCall.count_other (hdb : Unclashing db) (he : e ∈ db .webhookEndpoints)
    (h : c.updates taskId db = false) :
    eventsOf taskId e eventType (c.after db) = eventsOf taskId e eventType db := by
  cases hres : (c.result db).1 with
  | error e => rw [show c.after db = db from transaction_error hres]
  | ok new =>
    have hne : c.taskId ≠ taskId := fun heq => by
      simp [updates_iff.mpr ⟨heq, new, hres⟩] at h
    obtain ⟨found, _, hannounced⟩ := updateTask_announces.transaction hres
    exact hannounced.count_other hdb he (.inr fun x hx => by simp [namesTask_of_taskOf hx, hne])

theorem UpdateCall.completes_iff (hdb : Unclashing db) (htask : task ∈ db .tasks)
    (h : c.updates task.id db = true) :
    c.completes task.id db = true ↔ task.isDone = false ∧ (c.payload.apply task).isDone = true := by
  simp [UpdateCall.completes, h, isDoneIn_eq hdb htask, isDoneIn_updates hdb htask h]

theorem UpdateCall.missed_iff (hdb : Unclashing db) (htask : task ∈ db .tasks)
    (h : c.updates task.id db = true) :
    c.Missed db ↔ task.isDone = true ∧ (c.payload.apply task).isDone = true := by
  simp [UpdateCall.Missed, Operation.Missed, findTask_of_updates hdb htask h]

/-- The event of a call tells that it did not complete the task, unless it is missed. -/
theorem UpdateCall.updated_iff (hdb : Unclashing db) (htask : task ∈ db .tasks)
    (he : e ∈ activeEndpoints task.organizationId db) (hevent : "task.updated" ∈ e.events) :
    (c.updates task.id db = true → c.completes task.id db = false →
      eventsOf task.id e "task.updated" (c.after db) =
        eventsOf task.id e "task.updated" db + 1) ↔
      (c.updates task.id db = true → ¬ c.Missed db) := by
  refine forall_congr' fun hup => ?_
  have hcompletes := completes_iff hdb htask hup
  rw [missed_iff hdb htask hup, count_updates hdb htask he hevent hup, updateEvent]
  cases hbefore : task.isDone <;> cases hafter : (c.payload.apply task).isDone <;>
    simp_all

theorem UpdateCall.completed_of_not_missed (hdb : Unclashing db) (htask : task ∈ db .tasks)
    (he : e ∈ activeEndpoints task.organizationId db) (hevent : "task.completed" ∈ e.events)
    (h : c.updates task.id db = true → ¬ c.Missed db) :
    eventsOf task.id e "task.completed" (c.after db) =
      eventsOf task.id e "task.completed" db + if c.completes task.id db = true then 1 else 0 := by
  cases hup : c.updates task.id db with
  | false =>
    rw [count_other hdb (mem_activeEndpoints.mp he).1 hup, if_neg (by simp [completes, hup])]
    rfl
  | true =>
    have hcompletes := completes_iff hdb htask hup
    have hmissed := h hup
    rw [missed_iff hdb htask hup] at hmissed
    rw [count_updates hdb htask he hevent hup, updateEvent]
    cases hbefore : task.isDone <;> cases hafter : (c.payload.apply task).isDone <;>
      simp_all

/-! ### Runs -/

/-- The counts are right exactly if no update of the run leaves a done task done. -/
theorem countsCompletions_iff (hdb : Unclashing db) (htask : task ∈ db .tasks)
    (he : e ∈ activeEndpoints task.organizationId db) (hcompleted : "task.completed" ∈ e.events)
    (hupdated : "task.updated" ∈ e.events) (calls : List UpdateCall) :
    CountsCompletions task.id e calls db ↔
      EachCall (fun c db => c.updates task.id db = true → ¬ c.Missed db) calls db := by
  induction calls generalizing db task with
  | nil => exact ⟨fun _ => trivial, fun _ => ⟨rfl, trivial⟩⟩
  | cons c calls ih =>
    have hdb' : Unclashing (c.after db) := c.confined.transaction_unclashing hdb
    obtain ⟨task', htask', hid, horg⟩ := c.task_after htask
    have he' : e ∈ activeEndpoints task'.organizationId (c.after db) := by
      rw [horg, UpdateCall.activeEndpoints_after]
      exact he
    have ih := ih hdb' htask' he'
    rw [hid] at ih
    constructor
    · rintro ⟨htotal, hupdated', hrest⟩
      have hmissed := (UpdateCall.updated_iff hdb htask he hupdated).mp hupdated'
      have hcount := UpdateCall.completed_of_not_missed hdb htask he hcompleted hmissed
      refine ⟨hmissed, ih.mp ⟨?_, hrest⟩⟩
      simp only [updateAll, completions] at htotal
      omega
    · rintro ⟨hmissed, hrest⟩
      have hcount := UpdateCall.completed_of_not_missed hdb htask he hcompleted hmissed
      obtain ⟨htotal, hrest⟩ := ih.mpr hrest
      refine ⟨?_, (UpdateCall.updated_iff hdb htask he hupdated).mpr hmissed, hrest⟩
      simp only [updateAll, completions]
      omega

omit [Platform] in
theorem EachCall.mono {P Q : UpdateCall → Db Row → Prop} {calls : List UpdateCall}
    (h : EachCall P calls db) (hPQ : ∀ c db, P c db → Q c db) : EachCall Q calls db := by
  induction calls generalizing db with
  | nil => trivial
  | cons c calls ih => exact ⟨hPQ c db h.1, ih h.2⟩

/-- In every run whose calls never leave a done task done, the counts are right. -/
theorem completions_counted (hdb : Unclashing db) (htask : task ∈ db .tasks)
    (he : e ∈ activeEndpoints task.organizationId db) (hcompleted : "task.completed" ∈ e.events)
    (hupdated : "task.updated" ∈ e.events) {calls : List UpdateCall}
    (h : EachCall (fun c db => c.taskId = task.id → ¬ c.Missed db) calls db) :
    CountsCompletions task.id e calls db :=
  (countsCompletions_iff hdb htask he hcompleted hupdated calls).mpr
    (h.mono fun _ _ hmissed hup => hmissed (UpdateCall.updates_iff.mp hup).1)

end Histories

section Sample

attribute [local instance] samplePlatform

theorem emitsOnce_createProject :
    EmitsOnce sampleOrganization.id "project.created" hookedDb
      (transaction sampleOracle ((Operation.createProject sampleUser ⟨"Engine", none⟩).service
        sampleOrganization.id) hookedDb).2 :=
  (emitsOnce_iff unclashing_hookedDb (.createProject sampleUser ⟨"Engine", none⟩)
    (by decide +kernel)).mpr fun hmissed => hmissed.elim

/-- An invitation succeeds and a subscriber gets nothing. -/
theorem invitation_not_emitted :
    (transaction sampleOracle ((Operation.inviteMember sampleUser ⟨"bob@example.com", .member⟩).service
        sampleOrganization.id) hookedDb).1 = .ok () ∧
      ¬ EmitsOnce sampleOrganization.id "member.invited" hookedDb
        (transaction sampleOracle ((Operation.inviteMember sampleUser ⟨"bob@example.com", .member⟩).service
          sampleOrganization.id) hookedDb).2 := by
  refine ⟨by decide +kernel, fun h => ?_⟩
  have honce := h sampleEndpoint (mem_activeEndpoints.mpr ⟨List.mem_cons_self, rfl, rfl⟩) (by decide)
  revert honce
  decide +kernel

/-- The task is done. -/
def completeCall : UpdateCall :=
  ⟨sampleOrganization.id, sampleTask.id, sampleUser,
    { title := none, description := none, status := some (some .done), priority := none,
      assigneeId := none, dueAt := none }, sampleOracle⟩

/-- The task gets another title. -/
def retitleCall : UpdateCall :=
  ⟨sampleOrganization.id, sampleTask.id, sampleUser,
    { title := some (some "Store"), description := none, status := none, priority := none,
      assigneeId := none, dueAt := none }, otherOracle 100⟩

theorem completions_counted_sample :
    CountsCompletions sampleTask.id sampleEndpoint [retitleCall, completeCall] taskedDb :=
  completions_counted unclashing_taskedDb List.mem_cons_self
    (mem_activeEndpoints.mpr ⟨List.mem_cons_self, rfl, rfl⟩) (by decide) (by decide)
    ⟨fun _ => by decide +kernel, fun _ => by decide +kernel, trivial⟩

/-- A task that is edited while done is completed twice. -/
theorem edit_counted_as_completion :
    ¬ CountsCompletions sampleTask.id sampleEndpoint [completeCall, retitleCall] taskedDb := by
  intro h
  have hcompleted := h.completed
  revert hcompleted
  decide +kernel

end Sample

end TenantFlow
