import TenantFlow.Verification.Sample
import TenantFlow.Verification.Sequential

/-!
# Assignees of tasks

`_validate_assignee` lets a task be written only with an assignee who is a member of its
organization. Removing a membership looks at no task, so the assignment outlives it.
-/

namespace TenantFlow

open JsonText Transactional

/-- The user belongs to the organization. -/
def Belongs (db : Db Row) (organizationId userId : UUID) : Prop :=
  ∃ m ∈ db .organizationMemberships, m.organizationId = organizationId ∧ m.userId = userId

/-- Every assignee belongs to the organization of the task. -/
def AssigneesBelong (db : Db Row) : Prop :=
  ∀ task ∈ db .tasks, ∀ userId, task.assigneeId = some userId →
    Belongs db task.organizationId userId

/-- The request asks to remove the membership of a user to whom a task of the organization is
assigned. -/
def RemovesAssignee (db : Db Row) : Request → Prop
  | .organization organizationId _ (.deleteMember (some membershipId)) =>
    ∃ m, findMembershipById organizationId membershipId db = some m ∧
      ∃ task ∈ db .tasks, task.organizationId = organizationId ∧ task.assigneeId = some m.userId
  | _ => False

section Frames

variable {db db' : Db Row}

theorem Belongs.of_kept {organizationId userId : UUID} (h : Belongs db organizationId userId)
    (hkept : ∀ m ∈ db .organizationMemberships, ∃ m' ∈ db' .organizationMemberships,
      blank m' = blank m) : Belongs db' organizationId userId := by
  obtain ⟨m, hm, rfl, rfl⟩ := h
  obtain ⟨m', hm', hblank⟩ := hkept m hm
  exact ⟨m', hm', membership_of_blank hblank⟩

theorem AssigneesBelong.of_kept (h : AssigneesBelong db)
    (htasks : ∀ task ∈ db' .tasks, task ∈ db .tasks)
    (hkept : ∀ m ∈ db .organizationMemberships, ∃ m' ∈ db' .organizationMemberships,
      blank m' = blank m) : AssigneesBelong db' :=
  fun task htask userId hassignee => (h task (htasks task htask) userId hassignee).of_kept hkept

theorem AssigneesBelong.of_agree {F : Scope} (h : AssigneesBelong db) (hagree : F.Agree db db')
    (hT : Table.tasks ∉ F.writes ++ F.deletes)
    (hM : Table.organizationMemberships ∉ F.writes ++ F.deletes) : AssigneesBelong db' := by
  simp only [List.mem_append, not_or] at hT hM
  have htasks := hagree .tasks hT.1 hT.2
  have hmembers := hagree .organizationMemberships hM.1 hM.2
  unfold AssigneesBelong Belongs
  rw [htasks, hmembers]
  exact h

theorem AssigneesBelong.insert (h : AssigneesBelong db) {task : Task}
    (hnew : ∀ userId, task.assigneeId = some userId → Belongs db task.organizationId userId) :
    AssigneesBelong ((Op.insert .tasks task).apply db) := by
  intro t ht userId hassignee
  rw [apply_insert_self] at ht
  rcases List.mem_append.mp ht with ht | ht
  · exact h t ht userId hassignee
  · obtain rfl := List.mem_singleton.mp ht
    exact hnew userId hassignee

/-- An update of a task that assigns nobody or a member of the task's organization. -/
theorem AssigneesBelong.update (h : AssigneesBelong db) (hdb : Unclashing db) {task : Task}
    (htask : task ∈ db .tasks) {f : Row .tasks → Row .tasks} (hf : ∀ r, blank (f r) = blank r)
    (hnew : ∀ userId, (f task).assigneeId = some userId →
      Belongs db task.organizationId userId) :
    AssigneesBelong ((Op.update .tasks task.id f).apply db) := by
  intro t ht userId hassignee
  rcases mem_apply_update ht with ⟨ht, _⟩ | ⟨t', ht', hid, rfl⟩
  · exact h t ht userId hassignee
  · obtain rfl : t' = task := hdb.eq_of_pk ht' htask hid
    rw [(task_of_blank (hf t')).1]
    exact hnew userId hassignee

end Frames

section Requests

variable {oracle : Oracle Answer} {db : Db Row}

theorem ends_validateAssignee {β : Type} {Q : β → Db Row → Prop} {organizationId : UUID}
    {assigneeId : Option UUID} {f : Unit → App β}
    (h : (∀ userId, assigneeId = some userId → Belongs db organizationId userId) →
      Ends oracle Q (f ()) db) :
    Ends oracle Q ((validateAssignee organizationId assigneeId).bind f) db := by
  cases assigneeId with
  | none => exact h (by simp)
  | some userId =>
    refine runs_bind (ends_select ?_)
    cases hm : findMembership organizationId userId db with
    | none => exact runs_raise _
    | some m =>
      refine runs_ret (h ?_)
      intro _ heq
      obtain rfl := Option.some.inj heq
      obtain ⟨horganization, huser⟩ : m.organizationId = organizationId ∧ m.userId = userId := by
        simpa using List.find?_some hm
      exact ⟨m, List.mem_of_find?_eq_some hm, horganization, huser⟩

/-- After the task is written, the audit row and the events follow. -/
theorem ends_of_quiet {α : Type} {p : App α} (h : AssigneesBelong db)
    (hp : Confined { writes := [.auditLogs, .webhookDeliveries], calls := fun _ => True } p) :
    Ends oracle (fun _ db' => AssigneesBelong db') p db :=
  hp.ends.mono fun _ _ hagree => h.of_agree hagree (by simp) (by simp)

theorem ends_createTask {organizationId : UUID} {user : User} {payload : TaskCreate}
    (h : AssigneesBelong db) :
    Ends oracle (fun _ db' => AssigneesBelong db') (createTask organizationId user payload) db := by
  refine ends_confined (F := {}) (confined_validateProject _ _) fun _ db₁ hagree => ?_
  have h₁ := h.of_agree hagree (by simp) (by simp)
  refine ends_validateAssignee fun hmember => ends_rowDefaults fun d => ends_insertRow fun _ => ?_
  refine ends_of_quiet (h₁.insert hmember) ?_
  refine Prog.every_bind (confined_recordAudit (by simp) _ _ _ _ _) fun _ _ => ?_
  exact Prog.every_bind (confined_emitEvent (by simp) (fun _ => trivial) _ _ _) fun _ _ => trivial

theorem ends_updateTask {organizationId taskId : UUID} {user : User} {payload : TaskUpdate}
    (h : AssigneesBelong db) (hdb : Unclashing db) :
    Ends oracle (fun _ db' => AssigneesBelong db')
      (updateTask organizationId taskId user payload) db := by
  refine runs_bind (ends_select ?_)
  cases htask : findTask organizationId taskId db with
  | none => exact runs_raise _
  | some task =>
    refine runs_ret ?_
    have hmem : task ∈ db .tasks := List.mem_of_find?_eq_some htask
    have horganization : task.organizationId = organizationId := by
      have hfound := List.find?_some htask
      simp only [Bool.decide_and, Bool.and_eq_true, decide_eq_true_eq] at hfound
      exact hfound.2
    have hrest : ∀ eventType data,
        (∀ userId, payload.assigneeId = some (some userId) → Belongs db organizationId userId) →
        Ends oracle (fun _ db' => AssigneesBelong db') (do
          let updatedAt ← flush .tasks task.id (Task.dirty task (payload.apply task))
            (Task.patch task (payload.apply task))
          recordAudit organizationId (some user.id) "task.updated" "task" (some task.id) []
          let _ ← emitEvent organizationId eventType data
          return { payload.apply task with updatedAt := updatedAt.getD task.updatedAt }) db := by
      intro eventType data hmember
      have htail : ∀ updatedAt : Option Datetime,
          Confined { writes := [.auditLogs, .webhookDeliveries], calls := fun _ => True } (do
            recordAudit organizationId (some user.id) "task.updated" "task" (some task.id) []
            let _ ← emitEvent organizationId eventType data
            return { payload.apply task with updatedAt := updatedAt.getD task.updatedAt }) := by
        intro updatedAt
        refine Prog.every_bind (confined_recordAudit (by simp) _ _ _ _ _) fun _ _ => ?_
        exact Prog.every_bind (confined_emitEvent (by simp) (fun _ => trivial) _ _ _)
          fun _ _ => trivial
      refine ends_flush (fun at_ _ _ => ends_of_quiet (h.update hdb hmem (fun _ => rfl) ?_) (htail _))
        fun _ => ends_of_quiet h (htail _)
      intro userId hassignee
      have hassigned : payload.assigneeId.getD task.assigneeId = some userId := by
        by_cases hsame : payload.assigneeId.getD task.assigneeId = task.assigneeId
        · simpa [Task.patch, TaskUpdate.apply, assign, hsame] using hassignee
        · simpa [Task.patch, TaskUpdate.apply, assign, hsame] using hassignee
      rw [horganization]
      cases hsent : payload.assigneeId with
      | none =>
        rw [hsent] at hassigned
        rw [← horganization]
        exact h task hmem userId hassigned
      | some assigneeId =>
        rw [hsent] at hassigned
        exact hmember userId (by rw [hsent, ← hassigned]; rfl)
    dsimp only
    cases hsent : payload.assigneeId with
    | none => exact hrest _ _ (by simp [hsent])
    | some assigneeId =>
      refine ends_validateAssignee fun hmember => hrest _ _ fun userId heq => hmember userId ?_
      rw [hsent] at heq
      exact Option.some.inj heq

/-- Removing the membership of a user without tasks in the organization. -/
theorem ends_removeMember {organizationId membershipId : UUID} {actor : User}
    (h : AssigneesBelong db) (hdb : Unclashing db)
    (hfree : ∀ m, findMembershipById organizationId membershipId db = some m → ∀ task ∈ db .tasks,
      task.organizationId = organizationId → task.assigneeId ≠ some m.userId) :
    Ends oracle (fun _ db' => AssigneesBelong db')
      (removeMembership organizationId membershipId actor) db := by
  refine ends_select ?_
  cases hm : findMembershipById organizationId membershipId db with
  | none => exact runs_raise _
  | some m =>
    have hmem : m ∈ db .organizationMemberships := List.mem_of_find?_eq_some hm
    have horganization : m.organizationId = organizationId := by
      have hfound := List.find?_some hm
      simp only [Bool.decide_and, Bool.and_eq_true, decide_eq_true_eq] at hfound
      exact hfound.2
    dsimp only
    split
    · exact runs_raise _
    · refine ends_confined (F := { writes := [.auditLogs] })
        (confined_recordAudit (by simp) _ _ _ _ _) fun _ db₁ hagree => ?_
      have htasks : db₁ .tasks = db .tasks := hagree .tasks (by simp) (by simp)
      have hmembers : db₁ .organizationMemberships = db .organizationMemberships :=
        hagree .organizationMemberships (by simp) (by simp)
      refine runs_delete trivial (runs_ret ?_)
      rw [replay_deleteOps (rfl : Schema.cascade db₁ .organizationMemberships m.id = [])]
      intro task htask userId hassignee
      have hold : task ∈ db .tasks := htasks ▸ htask
      obtain ⟨m', hm', horg', huser'⟩ := h task hold userId hassignee
      refine ⟨m', ?_, horg', huser'⟩
      rw [apply_delete_self, hmembers]
      refine List.mem_filter.mpr ⟨hm', decide_eq_true fun hid => ?_⟩
      -- The removed membership would be the assignee's own.
      obtain rfl : m' = m := hdb.eq_of_pk hm' hmem hid
      exact hfree m' hm task hold (horg'.symm.trans horganization) (huser' ▸ hassignee)

/-- A request that removes no assignee keeps every assignee a member. -/
theorem respond_assigneesBelong [Platform] (h : AssigneesBelong db) (hdb : Unclashing db)
    {request : Request} (hok : ¬ RemovesAssignee db request) (oracle : Oracle Answer) :
    AssigneesBelong (respond oracle request db).2 := by
  have hframe (hM : Table.organizationMemberships ∉ request.scope.deletes)
      (hT : Table.tasks ∉ request.scope.writes) : AssigneesBelong (respond oracle request db).2 :=
    h.of_kept (fun task ht => (confined_request request).transaction_mem hT ht)
      fun m hm => (confined_request request).transaction_keeps_rows hM hm
  cases request with
  | organization organizationId userId request =>
    cases request with
    | createTask args =>
      refine Runs.transaction_either (I := AssigneesBelong) ?_ h
      refine runs_bind (ends_requirePermission fun context _ => ends_validated fun a _ _ => ?_)
      refine runs_bind ((ends_createTask h).mono fun task db₁ h₁ => ?_)
      exact ends_of_ofExcept fun _ _ => runs_ret h₁
    | updateTask args =>
      refine Runs.transaction_either (I := AssigneesBelong) ?_ h
      refine runs_bind (ends_requirePermission fun context _ => ends_validated fun a _ _ => ?_)
      refine runs_bind ((ends_updateTask h hdb).mono fun task db₁ h₁ => ?_)
      exact ends_of_ofExcept fun _ _ => runs_ret h₁
    | deleteMember args =>
      refine Runs.transaction_either (I := AssigneesBelong) ?_ h
      refine runs_bind (ends_requirePermission fun context _ => ends_validated fun a hargs _ => ?_)
      refine (ends_removeMember h hdb fun m hm task ht horg hassignee => hok ?_).mono
        fun _ _ h₁ => runs_ret h₁
      rw [hargs]
      exact ⟨m, hm, task, ht, horg, hassignee⟩
    | _ =>
      exact hframe (by simp [Request.scope, OrganizationRequest.scope])
        (by simp [Request.scope, OrganizationRequest.scope])
  | _ => exact hframe (by simp [Request.scope]) (by simp [Request.scope])

/-- In every run of requests that remove no assignee, assignees are members throughout. -/
theorem assignees_belong_unless_removed [Platform]
    (h : Served (fun request db => ¬ RemovesAssignee db request) db) : AssigneesBelong db := by
  induction h with
  | empty => exact fun task htask => absurd htask (by simp)
  | request hserved request oracle hok ih =>
    exact respond_assigneesBelong ih hserved.unclashing hok oracle

end Requests

section Sample

attribute [local instance] samplePlatform

/-- Ada founds an organization, Bob joins it, gets a task and is removed. -/
def removalRun : List (Request × Oracle Answer) :=
  [(.register (some ⟨"ada@example.com", "correct horse", "Ada"⟩), tokenOracle 0),
    (.register (some ⟨"bob@example.com", "battery staple", "Bob"⟩), tokenOracle 100),
    (.createOrganization ⟨1002⟩ (some (⟨"Acme", "acme"⟩, "first-key")), tokenOracle 200),
    (.organization ⟨1206⟩ ⟨1002⟩
      (.createInvitation (some (⟨"bob@example.com", .member⟩, "second-key"))), tokenOracle 300),
    (.acceptInvitation ⟨1102⟩ (some sampleToken), tokenOracle 400),
    (.organization ⟨1206⟩ ⟨1002⟩ (.createProject (some ⟨"Engine", none⟩)), tokenOracle 500),
    (.organization ⟨1206⟩ ⟨1002⟩
      (.createTask (some ⟨⟨1502⟩, "Draft", none, .low, some ⟨1102⟩, none⟩)), tokenOracle 600),
    (.organization ⟨1206⟩ ⟨1002⟩ (.deleteMember (some ⟨1404⟩)), tokenOracle 700)]

/-- Ada takes the task over. -/
def reassignment : List (Request × Oracle Answer) :=
  removalRun.take 7 ++ [(.organization ⟨1206⟩ ⟨1002⟩
    (.updateTask (some (⟨1604⟩, ⟨none, none, none, none, some (some ⟨1002⟩), none⟩))),
      tokenOracle 650)]

/-- Bob is removed after that. -/
def laterRemoval (db : Db Row) : Db Row :=
  (respond (tokenOracle 700) (.organization ⟨1206⟩ ⟨1002⟩ (.deleteMember (some ⟨1404⟩))) db).2

theorem served_laterRemoval {db : Db Row} (h : Served (fun r db => ¬ RemovesAssignee db r) db)
    (hfree : ∀ m, findMembershipById ⟨1206⟩ ⟨1404⟩ db = some m →
      ∀ task ∈ db .tasks, task.assigneeId ≠ some m.userId) :
    Served (fun r db => ¬ RemovesAssignee db r) (laterRemoval db) := by
  refine .request h _ _ ?_
  rintro ⟨m, hm, task, htask, -, hassignee⟩
  exact hfree m hm task htask hassignee

/-- What the two runs come to: a task of Bob's without his membership, and a task of Ada's, both
when Bob is removed and after that. -/
theorem removals_outcome :
    ((respondAll removalRun (fun _ => []) .tasks).any (fun task => task.assigneeId = some ⟨1102⟩) ∧
      (respondAll removalRun (fun _ => []) .organizationMemberships).all
        (fun m => m.userId ≠ ⟨1102⟩)) ∧
    ((respondAll reassignment (fun _ => []) .tasks).all
        (fun task => task.assigneeId = some ⟨1002⟩) ∧
      (findMembershipById ⟨1206⟩ ⟨1404⟩ (respondAll reassignment fun _ => [])).all
        (fun m => m.userId = ⟨1102⟩)) ∧
    (laterRemoval (respondAll reassignment fun _ => []) .tasks).any
        (fun task => task.assigneeId = some ⟨1002⟩) ∧
      (laterRemoval (respondAll reassignment fun _ => []) .organizationMemberships).all
        (fun m => m.userId ≠ ⟨1102⟩) := by
  decide +kernel

/-- The assignment of a task outlives the membership of its assignee. -/
theorem assignment_outlives_membership :
    Served (fun _ _ => True) (respondAll removalRun fun _ => []) ∧
      ¬ AssigneesBelong (respondAll removalRun fun _ => []) := by
  refine ⟨Served.empty.respondAll fun _ _ _ => trivial, fun h => ?_⟩
  obtain ⟨⟨hassigned, hgone⟩, -⟩ := removals_outcome
  obtain ⟨task, htask, hassignee⟩ := List.any_eq_true.mp hassigned
  obtain ⟨m, hm, _, huser⟩ := h task htask ⟨1102⟩ (by simpa using hassignee)
  simpa [huser] using List.all_eq_true.mp hgone m hm

/-- Once the task is Ada's, Bob's membership can go. -/
theorem assignees_belong_before_removal :
    ((laterRemoval (respondAll reassignment fun _ => []) .tasks).any
        (fun task => task.assigneeId = some ⟨1002⟩) = true ∧
      (laterRemoval (respondAll reassignment fun _ => []) .organizationMemberships).all
        (fun m => m.userId ≠ ⟨1102⟩) = true) ∧
    AssigneesBelong (laterRemoval (respondAll reassignment fun _ => [])) := by
  obtain ⟨-, ⟨htasks, hmember⟩, hassigned, hgone⟩ := removals_outcome
  refine ⟨⟨hassigned, hgone⟩, assignees_belong_unless_removed
    (served_laterRemoval (Served.empty.respondAll fun r hr db => ?_) fun m hm task htask => ?_)⟩
  · simp only [reassignment, removalRun, List.take_succ_cons, List.take_zero, List.cons_append,
      List.nil_append, List.mem_cons, List.not_mem_nil, or_false] at hr
    rcases hr with rfl | rfl | rfl | rfl | rfl | rfl | rfl | rfl <;> exact id
  · rw [hm] at hmember
    have hada : task.assigneeId = some ⟨1002⟩ := by
      simpa using List.all_eq_true.mp htasks task htask
    have hbob : m.userId = ⟨1102⟩ := by simpa using hmember
    rw [hada, hbob]
    decide

end Sample

end TenantFlow
