import TenantFlow.Library.ForeignKeys
import TenantFlow.Verification.Sample
import TenantFlow.Verification.Sequential

/-!
# References within a tenant

Tasks and attachments name their parents by composite keys that contain the organization.
Deleting a project reaches its attachments both directly and through its tasks.
-/

namespace TenantFlow

open JsonText Transactional

/-! ## The three keys -/

abbrev taskProject : ForeignKey Row where
  child := .tasks
  parent := .projects
  set _ := True
  references task project :=
    task.organizationId = project.organizationId ∧ task.projectId = project.id

abbrev attachmentProject : ForeignKey Row where
  child := .attachments
  parent := .projects
  set a := a.projectId.isSome
  references a project :=
    a.organizationId = project.organizationId ∧ a.projectId = some project.id

abbrev attachmentTask : ForeignKey Row where
  child := .attachments
  parent := .tasks
  set a := a.taskId.isSome
  references a task := a.organizationId = task.organizationId ∧ a.taskId = some task.id

/-- The keys hold, and every attachment has one parent. -/
structure TenantClosed (db : Db Row) : Prop where
  taskProject : TenantFlow.taskProject.Holds db
  attachmentProject : TenantFlow.attachmentProject.Holds db
  attachmentTask : TenantFlow.attachmentTask.Holds db
  oneParent : ∀ a ∈ db .attachments, a.projectId.isSome ≠ a.taskId.isSome

/-! ## Cascades -/

theorem mem_attachmentsOfTask {db : Db Row} {task : Task} {k : Table × UUID} :
    k ∈ attachmentsOfTask db task ↔ ∃ a ∈ db .attachments,
      a.organizationId = task.organizationId ∧ a.taskId = some task.id ∧
        k = (.attachments, a.id) := by
  simp only [attachmentsOfTask, List.mem_map, List.mem_filter, Bool.decide_and, Bool.and_eq_true,
    decide_eq_true_eq]
  constructor
  · rintro ⟨a, ⟨ha, horg, htask⟩, rfl⟩
    exact ⟨a, ha, horg, htask, rfl⟩
  · rintro ⟨a, ha, horg, htask, rfl⟩
    exact ⟨a, ⟨ha, horg, htask⟩, rfl⟩

theorem mem_cascade_tasks {db : Db Row} {id : UUID} {k : Table × UUID} :
    k ∈ cascadeOf db .tasks id ↔ ∃ task ∈ db .tasks, task.id = id ∧ k ∈ attachmentsOfTask db task := by
  simp [cascadeOf, and_assoc]

theorem mem_cascade_projects {db : Db Row} {id : UUID} {k : Table × UUID} :
    k ∈ cascadeOf db .projects id ↔ ∃ p ∈ db .projects, p.id = id ∧
      ((∃ task ∈ db .tasks, (task.organizationId = p.organizationId ∧ task.projectId = p.id) ∧
        (k = (.tasks, task.id) ∨ k ∈ attachmentsOfTask db task)) ∨
      ∃ a ∈ db .attachments, (a.organizationId = p.organizationId ∧ a.projectId = some p.id) ∧
        k = (.attachments, a.id)) := by
  simp only [cascadeOf, List.mem_flatMap, List.mem_append, List.mem_map, List.mem_filter,
    Bool.decide_and, Bool.and_eq_true, decide_eq_true_eq]
  constructor
  · rintro ⟨p, ⟨hp, hid⟩, (⟨task, ⟨ht, href⟩, hk⟩ | ⟨task, ⟨ht, href⟩, rfl⟩) | ⟨a, ⟨ha, href⟩, rfl⟩⟩
    · exact ⟨p, hp, hid, .inl ⟨task, ht, href, .inr hk⟩⟩
    · exact ⟨p, hp, hid, .inl ⟨task, ht, href, .inl rfl⟩⟩
    · exact ⟨p, hp, hid, .inr ⟨a, ha, href, rfl⟩⟩
  · rintro ⟨p, hp, hid, ⟨task, ht, href, rfl | hk⟩ | ⟨a, ha, href, rfl⟩⟩
    · exact ⟨p, ⟨hp, hid⟩, .inl (.inr ⟨task, ⟨ht, href⟩, rfl⟩)⟩
    · exact ⟨p, ⟨hp, hid⟩, .inl (.inl ⟨task, ⟨ht, href⟩, hk⟩)⟩
    · exact ⟨p, ⟨hp, hid⟩, .inr ⟨a, ⟨ha, href⟩, rfl⟩⟩

/-- The keys that a delete removes: those of the cascade and the row's own. -/
def deletedKeys (db : Db Row) (t : Table) (id : UUID) : List (Table × UUID) :=
  cascadeOf db t id ++ [(t, id)]

theorem cascade_eq_nil {db : Db Row} {t : Table} {id : UUID} (h : ∀ r ∈ db t, pk r ≠ id) :
    cascadeOf db t id = [] := by
  cases t with
  | projects =>
    have hnone : (db .projects).filter (·.id = id) = [] := by
      refine List.filter_eq_nil_iff.mpr fun r hr => ?_
      have hne : r.id ≠ id := h r hr
      simpa using hne
    simp [cascadeOf, hnone]
  | tasks =>
    have hnone : (db .tasks).filter (·.id = id) = [] := by
      refine List.filter_eq_nil_iff.mpr fun r hr => ?_
      have hne : r.id ≠ id := h r hr
      simpa using hne
    simp [cascadeOf, hnone]
  | _ => rfl

theorem replay_delete (db : Db Row) (t : Table) (id : UUID) :
    replay (deleteOps db t id) db =
      replay ((deletedKeys db t id).map fun k => .delete k.1 k.2) db := by
  unfold deleteOps deletedKeys
  split
  · simp [Schema.cascade]
  · rename_i hnone
    have hno : ∀ r ∈ db t, pk r ≠ id := by simpa using hnone
    rw [cascade_eq_nil hno, List.nil_append, replay_nil]
    funext T
    rw [replay_deletes]
    refine (List.filter_eq_self.mpr fun r hr => ?_).symm
    simp only [List.mem_singleton, Prod.mk.injEq, decide_eq_true_eq, not_and]
    rintro rfl
    exact hno r hr

/-! ## One statement -/

section Statements

variable {db : Db Row}

theorem TenantClosed.insert (h : TenantClosed db) {t : Table} {r : Row t}
    (hins : insertable db r = .ok ()) : TenantClosed ((Op.insert t r).apply db) := by
  obtain ⟨_, hconstraints, hrefs⟩ := check_eq_none_iff.mp (insertable_ok hins).1
  refine ⟨h.taskProject.insert ?_, h.attachmentProject.insert ?_, h.attachmentTask.insert ?_,
    fun a ha => ?_⟩
  · rintro task ⟨⟩ _
    change referencesOk db (t := .tasks) task = true at hrefs
    simp only [referencesOk, Bool.and_eq_true, List.any_eq_true, decide_eq_true_eq] at hrefs
    obtain ⟨p, hp, horg, hid⟩ := hrefs.1.1.2
    exact ⟨p, hp, horg.symm, hid.symm⟩
  · rintro a ⟨⟩ hset
    obtain ⟨id, hproject⟩ := Option.isSome_iff_exists.mp hset
    change referencesOk db (t := .attachments) a = true at hrefs
    simp only [referencesOk, hproject, Option.all_some, Bool.and_eq_true, List.any_eq_true,
      decide_eq_true_eq] at hrefs
    obtain ⟨p, hp, horg, rfl⟩ := hrefs.1.1.2
    exact ⟨p, hp, horg.symm, hproject⟩
  · rintro a ⟨⟩ hset
    obtain ⟨id, htask⟩ := Option.isSome_iff_exists.mp hset
    change referencesOk db (t := .attachments) a = true at hrefs
    simp only [referencesOk, htask, Option.all_some, Bool.and_eq_true, List.any_eq_true,
      decide_eq_true_eq] at hrefs
    obtain ⟨task, ht, horg, rfl⟩ := hrefs.1.2
    exact ⟨task, ht, horg.symm, htask⟩
  · by_cases ht : t = .attachments
    · subst ht
      rw [apply_insert_self, List.mem_append, List.mem_singleton] at ha
      rcases ha with ha | rfl
      · exact h.oneParent a ha
      · simp only [constraintsOk, Bool.and_eq_true, bne_iff_ne] at hconstraints
        exact hconstraints.1
    · rw [apply_of_table_ne db (o := Op.insert t r) ht] at ha
      exact h.oneParent a ha

theorem task_keys_of_blank {task task' : Row .tasks} (h : blank task' = blank task) :
    task'.id = task.id ∧ task'.organizationId = task.organizationId ∧
      task'.projectId = task.projectId := by
  simp only [blank, Task.mk.injEq] at h
  exact ⟨h.1, h.2.1, h.2.2.1⟩

theorem project_keys_of_blank {p p' : Row .projects} (h : blank p' = blank p) :
    p'.id = p.id ∧ p'.organizationId = p.organizationId := by
  simp only [blank, Project.mk.injEq] at h
  exact ⟨h.1, h.2.1⟩

theorem attachment_of_blank {a a' : Row .attachments} (h : blank a' = blank a) : a' = a := h

/-- The columns of the keys are never assigned. -/
theorem TenantClosed.update (h : TenantClosed db) {t : Table} {id : UUID} {f : Row t → Row t}
    (hf : ∀ r, blank (f r) = blank r) : TenantClosed ((Op.update t id f).apply db) := by
  refine ⟨h.taskProject.update ?_ ?_, h.attachmentProject.update ?_ ?_,
    h.attachmentTask.update ?_ ?_, fun a ha => ?_⟩
  · rintro g ⟨⟩ task
    obtain ⟨_, horg, hproject⟩ := task_keys_of_blank (hf task)
    exact ⟨fun _ => trivial, fun p href => ⟨horg.trans href.1, hproject.trans href.2⟩⟩
  · rintro g ⟨⟩ task p href
    obtain ⟨hid, horg⟩ := project_keys_of_blank (hf p)
    exact ⟨href.1.trans horg.symm, href.2.trans hid.symm⟩
  · rintro g ⟨⟩ a
    rw [attachment_of_blank (hf a)]
    exact ⟨fun h => h, fun _ h => h⟩
  · rintro g ⟨⟩ a p href
    obtain ⟨hid, horg⟩ := project_keys_of_blank (hf p)
    exact ⟨href.1.trans horg.symm, href.2.trans (congrArg some hid.symm)⟩
  · rintro g ⟨⟩ a
    rw [attachment_of_blank (hf a)]
    exact ⟨fun h => h, fun _ h => h⟩
  · rintro g ⟨⟩ a task href
    obtain ⟨hid, horg, _⟩ := task_keys_of_blank (hf task)
    exact ⟨href.1.trans horg.symm, href.2.trans (congrArg some hid.symm)⟩
  · by_cases ht : t = .attachments
    · subst ht
      rcases mem_apply_update ha with ⟨ha, _⟩ | ⟨a', ha', _, rfl⟩
      · exact h.oneParent a ha
      · rw [attachment_of_blank (hf a')]
        exact h.oneParent a' ha'
    · rw [apply_of_table_ne db (o := Op.update t id f) ht] at ha
      exact h.oneParent a ha

theorem TenantClosed.delete (h : TenantClosed db) (hdb : Unclashing db) (t : Table) (id : UUID) :
    TenantClosed (replay (deleteOps db t id) db) := by
  rw [replay_delete]
  have hproject : ∀ p ∈ db .projects, (Table.projects, p.id) ∈ deletedKeys db t id →
      t = .projects ∧ p.id = id := by
    intro p hp hk
    rcases List.mem_append.mp hk with hk | hk
    · have htable := cascade_table (t := t) hk
      cases t <;> simp [cascadeTables] at htable
    · simp only [List.mem_singleton, Prod.mk.injEq] at hk
      exact ⟨hk.1.symm, hk.2⟩
  refine ⟨h.taskProject.deletes ?_, h.attachmentProject.deletes ?_, h.attachmentTask.deletes ?_,
    fun a ha => ?_⟩
  · intro task htask p hp _ href hk
    obtain ⟨rfl, hid⟩ := hproject p hp hk
    exact List.mem_append_left _ (mem_cascade_projects.mpr
      ⟨p, hp, hid, .inl ⟨task, htask, href, .inl rfl⟩⟩)
  · intro a ha p hp _ href hk
    obtain ⟨rfl, hid⟩ := hproject p hp hk
    exact List.mem_append_left _ (mem_cascade_projects.mpr
      ⟨p, hp, hid, .inr ⟨a, ha, href, rfl⟩⟩)
  · intro a ha task htask _ href hk
    have hof : (Table.attachments, a.id) ∈ attachmentsOfTask db task :=
      mem_attachmentsOfTask.mpr ⟨a, ha, href.1, href.2, rfl⟩
    rcases List.mem_append.mp hk with hk | hk
    · -- The task falls with its project.
      have htable := cascade_table (t := t) hk
      cases t <;> simp [cascadeTables] at htable
      obtain ⟨p, hp, hid, ⟨task', ht', href', heq | hk'⟩ | ⟨a', _, _, heq⟩⟩ :=
        mem_cascade_projects.mp hk
      · obtain rfl : task' = task := hdb.eq_of_pk ht' htask (Prod.mk.inj heq).2.symm
        exact List.mem_append_left _ (mem_cascade_projects.mpr
          ⟨p, hp, hid, .inl ⟨task', ht', href', .inr hof⟩⟩)
      · exact absurd (attachmentsOfTask_table hk') (by simp)
      · exact absurd (Prod.mk.inj heq).1 (by simp)
    · obtain ⟨rfl, rfl⟩ := Prod.mk.inj (List.mem_singleton.mp hk)
      exact List.mem_append_left _ (mem_cascade_tasks.mpr ⟨task, htask, rfl, hof⟩)
  · rw [replay_deletes] at ha
    exact h.oneParent a (List.mem_filter.mp ha).1

theorem TenantClosed.eval (h : TenantClosed db) (hdb : Unclashing db) {F : Scope}
    {s : Stmt Row UUID Call} (hs : F.Allows s) (env : (c : Call) → Answer c) :
    TenantClosed (replay (s.eval env db).2 db) := by
  refine Stmt.eval_keeps h (fun t r _ hins => h.insert hins) ?_ fun t id _ => h.delete hdb t id
  rintro t id f rfl _
  exact h.update hs.2

end Statements

/-! ## Deleting -/

/-- The project, its tasks and the attachments of both are gone, and nothing else. -/
structure ProjectDeleted (organizationId projectId : UUID) (db db' : Db Row) : Prop where
  found : ∃ p ∈ db .projects, p.id = projectId ∧ p.organizationId = organizationId
  projects : db' .projects = (db .projects).filter (·.id ≠ projectId)
  tasks : db' .tasks = (db .tasks).filter (·.projectId ≠ projectId)
  attachments : db' .attachments = (db .attachments).filter fun a =>
    a.projectId ≠ some projectId ∧
      ∀ task ∈ db .tasks, task.projectId = projectId → a.taskId ≠ some task.id

/-- The task and its attachments are gone, and nothing else. -/
structure TaskDeleted (organizationId taskId : UUID) (db db' : Db Row) : Prop where
  found : ∃ task ∈ db .tasks, task.id = taskId ∧ task.organizationId = organizationId
  projects : db' .projects = db .projects
  tasks : db' .tasks = (db .tasks).filter (·.id ≠ taskId)
  attachments : db' .attachments = (db .attachments).filter (·.taskId ≠ some taskId)

section Deletes

variable {db : Db Row}

/-- An attachment of a task that exists belongs to the organization of the task. -/
theorem TenantClosed.attachment_mem (h : TenantClosed db) (hdb : Unclashing db) {a : Attachment}
    (ha : a ∈ db .attachments) {task : Task} (htask : task ∈ db .tasks)
    (hid : a.taskId = some task.id) :
    (Table.attachments, a.id) ∈ attachmentsOfTask db task := by
  obtain ⟨task', ht', horg, hid'⟩ := h.attachmentTask a ha (by simp [hid])
  obtain rfl : task' = task := hdb.eq_of_pk ht' htask (Option.some.inj (hid'.symm.trans hid))
  exact mem_attachmentsOfTask.mpr ⟨a, ha, horg, hid, rfl⟩

theorem attachment_of_mem (hdb : Unclashing db) {a : Attachment} (ha : a ∈ db .attachments)
    {task : Task} (h : (Table.attachments, a.id) ∈ attachmentsOfTask db task) :
    a.taskId = some task.id := by
  obtain ⟨a', ha', _, htask, heq⟩ := mem_attachmentsOfTask.mp h
  obtain rfl : a' = a := hdb.eq_of_pk ha' ha (Prod.mk.inj heq).2.symm
  exact htask

theorem projectDeleted_of_delete (h : TenantClosed db) (hdb : Unclashing db) {p : Project}
    (hp : p ∈ db .projects) :
    ProjectDeleted p.organizationId p.id db (replay (deleteOps db .projects p.id) db) := by
  have hp_unique : ∀ q ∈ db .projects, q.id = p.id → q = p :=
    fun q hq hid => hdb.eq_of_pk hq hp hid
  -- Which keys are deleted, table by table.
  have hprojects (q : Project) : (Table.projects, q.id) ∈ deletedKeys db .projects p.id ↔
      q.id = p.id := by
    have hcascade : (Table.projects, q.id) ∉ cascadeOf db .projects p.id := by
      intro hk
      simpa [cascadeTables] using cascade_table (t := .projects) hk
    simp [deletedKeys, hcascade]
  have htasks (task : Task) (htask : task ∈ db .tasks) :
      (Table.tasks, task.id) ∈ deletedKeys db .projects p.id ↔ task.projectId = p.id := by
    simp only [deletedKeys, List.mem_append, List.mem_singleton, Prod.mk.injEq, reduceCtorEq,
      false_and, or_false, mem_cascade_projects]
    constructor
    · rintro ⟨q, hq, hid, ⟨task', ht', href, heq | hk⟩ | ⟨a, _, _, heq⟩⟩
      · obtain rfl : task' = task := hdb.eq_of_pk ht' htask heq.2.symm
        exact href.2.trans hid
      · exact absurd (attachmentsOfTask_table hk) (by simp)
      · exact heq.elim
    · intro hid
      obtain ⟨q, hq, href⟩ := h.taskProject task htask trivial
      obtain rfl := hp_unique q hq (href.2.symm.trans hid)
      exact ⟨q, hq, rfl, .inl ⟨task, htask, href, .inl ⟨trivial, rfl⟩⟩⟩
  have hattachments (a : Attachment) (ha : a ∈ db .attachments) :
      (Table.attachments, a.id) ∈ deletedKeys db .projects p.id ↔ a.projectId = some p.id ∨
        ∃ task ∈ db .tasks, task.projectId = p.id ∧ a.taskId = some task.id := by
    simp only [deletedKeys, List.mem_append, List.mem_singleton, Prod.mk.injEq, reduceCtorEq,
      false_and, or_false, mem_cascade_projects]
    constructor
    · rintro ⟨q, hq, hid, ⟨task, ht, href, heq | hk⟩ | ⟨a', ha', href, heq⟩⟩
      · exact heq.elim
      · exact .inr ⟨task, ht, href.2.trans hid, attachment_of_mem hdb ha hk⟩
      · obtain rfl : a' = a := hdb.eq_of_pk ha' ha heq.2.symm
        exact .inl (href.2.trans (congrArg some hid))
    · rintro (hid | ⟨task, ht, hproject, hid⟩)
      · obtain ⟨q, hq, href⟩ := h.attachmentProject a ha (by simp [hid])
        obtain rfl := hp_unique q hq (Option.some.inj (href.2.symm.trans hid))
        exact ⟨q, hq, rfl, .inr ⟨a, ha, href, trivial, rfl⟩⟩
      · obtain ⟨q, hq, href⟩ := h.taskProject task ht trivial
        obtain rfl := hp_unique q hq (href.2.symm.trans hproject)
        exact ⟨q, hq, rfl, .inl ⟨task, ht, href, .inr (h.attachment_mem hdb ha ht hid)⟩⟩
  rw [replay_delete]
  refine ⟨⟨p, hp, rfl, rfl⟩, ?_, ?_, ?_⟩
  · rw [replay_deletes]
    exact List.filter_congr fun q _ => decide_eq_decide.mpr (not_congr (hprojects q))
  · rw [replay_deletes]
    exact List.filter_congr fun task ht => decide_eq_decide.mpr (not_congr (htasks task ht))
  · rw [replay_deletes]
    refine List.filter_congr fun a ha => decide_eq_decide.mpr ?_
    have hkey := hattachments a ha
    refine (not_congr hkey).trans ?_
    simp only [not_or, not_exists, not_and, ne_eq]

theorem taskDeleted_of_delete (h : TenantClosed db) (hdb : Unclashing db) {task : Task}
    (htask : task ∈ db .tasks) :
    TaskDeleted task.organizationId task.id db (replay (deleteOps db .tasks task.id) db) := by
  have hcascade (k : Table × UUID) : k ∈ cascadeOf db .tasks task.id ↔
      k ∈ attachmentsOfTask db task := by
    rw [mem_cascade_tasks]
    constructor
    · rintro ⟨task', ht', hid, hk⟩
      obtain rfl : task' = task := hdb.eq_of_pk ht' htask hid
      exact hk
    · exact fun hk => ⟨task, htask, rfl, hk⟩
  have hother {k : Table × UUID} (hk : k.1 ≠ .attachments) :
      k ∈ deletedKeys db .tasks task.id ↔ k = (.tasks, task.id) := by
    simp only [deletedKeys, List.mem_append, List.mem_singleton, hcascade, or_iff_right_iff_imp]
    exact fun h => absurd (attachmentsOfTask_table h) hk
  have hattachments (a : Attachment) (ha : a ∈ db .attachments) :
      (Table.attachments, a.id) ∈ deletedKeys db .tasks task.id ↔ a.taskId = some task.id := by
    simp only [deletedKeys, List.mem_append, List.mem_singleton, Prod.mk.injEq, reduceCtorEq,
      false_and, or_false, hcascade]
    exact ⟨attachment_of_mem hdb ha, h.attachment_mem hdb ha htask⟩
  rw [replay_delete]
  refine ⟨⟨task, htask, rfl, rfl⟩, ?_, ?_, ?_⟩
  · rw [replay_deletes]
    refine List.filter_eq_self.mpr fun p _ => ?_
    simp only [hother (k := (.projects, pk p)) (by simp), Prod.mk.injEq, reduceCtorEq, false_and,
      not_false_eq_true, decide_true]
  · rw [replay_deletes]
    refine List.filter_congr fun t _ => decide_eq_decide.mpr (not_congr ?_)
    rw [hother (by simp)]
    exact ⟨fun heq => (Prod.mk.inj heq).2, fun hid => Prod.ext rfl hid⟩
  · rw [replay_deletes]
    exact List.filter_congr fun a ha => decide_eq_decide.mpr (not_congr (hattachments a ha))

/-- What a delete removes depends on the three tables only. -/
theorem replay_delete_congr {db' : Db Row} (hp : db' .projects = db .projects)
    (ht : db' .tasks = db .tasks) (ha : db' .attachments = db .attachments) (t : Table) (id : UUID)
    {T : Table} (hT : db' T = db T) :
    replay (deleteOps db' t id) db' T = replay (deleteOps db t id) db T := by
  have hkeys : deletedKeys db' t id = deletedKeys db t id := by
    have hof : attachmentsOfTask db' = attachmentsOfTask db := by
      funext task
      simp only [attachmentsOfTask, ha]
    cases t <;> simp only [deletedKeys, cascadeOf, hp, ht, ha, hof]
  rw [replay_delete, replay_delete, replay_deletes, replay_deletes, hkeys, hT]

end Deletes

/-! ## Requests -/

section Requests

variable {oracle : Oracle Answer} {db : Db Row}

/-- The audit row and the deliveries that precede a delete. -/
theorem ends_announced {α : Type} {Q : α → Db Row → Prop} {organizationId : UUID}
    {actorId : Option UUID} {action entityType : String} {entityId : Option UUID}
    {metadata : List (String × Json)} {eventType : String} {payload : List (String × Json)}
    {k : App α}
    (h : ∀ db', ({ writes := [.auditLogs, .webhookDeliveries] } : Scope).Agree db db' →
      Ends oracle Q k db') :
    Ends oracle Q (do
      recordAudit organizationId actorId action entityType entityId metadata
      let _ ← emitEvent organizationId eventType payload
      k) db := by
  refine ends_confined (F := { writes := [.auditLogs, .webhookDeliveries], calls := fun _ => True })
    (confined_recordAudit (by simp) _ _ _ _ _) fun _ db₁ h₁ => ?_
  refine ends_confined (F := { writes := [.auditLogs, .webhookDeliveries], calls := fun _ => True })
    (confined_emitEvent (by simp) (fun _ => trivial) _ _ _) fun _ db₂ h₂ => ?_
  exact h db₂ fun T hw hd => (h₂ T hw hd).trans (h₁ T hw hd)

theorem ends_deleteProject (h : TenantClosed db) (hdb : Unclashing db)
    {organizationId projectId : UUID} {user : User} :
    Ends oracle (fun _ db' => ProjectDeleted organizationId projectId db db')
      (deleteProject organizationId projectId user) db := by
  refine runs_bind (ends_select ?_)
  cases hfound : findProject organizationId projectId db with
  | none => exact runs_raise _
  | some p =>
    obtain ⟨rfl, rfl⟩ : p.id = projectId ∧ p.organizationId = organizationId := by
      simpa using List.find?_some hfound
    refine runs_ret (ends_announced fun db' hagree => runs_delete trivial (runs_ret ?_))
    have hkept (T : Table) (hT : T ∉ [Table.auditLogs, .webhookDeliveries]) : db' T = db T :=
      hagree T hT List.not_mem_nil
    have hp := hkept .projects (by simp)
    have ht := hkept .tasks (by simp)
    have ha := hkept .attachments (by simp)
    have hdeleted := projectDeleted_of_delete h hdb (List.mem_of_find?_eq_some hfound)
    refine ⟨hdeleted.found, ?_, ?_, ?_⟩
    · rw [replay_delete_congr hp ht ha _ _ hp, hdeleted.projects]
    · rw [replay_delete_congr hp ht ha _ _ ht, hdeleted.tasks]
    · rw [replay_delete_congr hp ht ha _ _ ha, hdeleted.attachments]

theorem ends_deleteTask (h : TenantClosed db) (hdb : Unclashing db)
    {organizationId taskId : UUID} {user : User} :
    Ends oracle (fun _ db' => TaskDeleted organizationId taskId db db')
      (deleteTask organizationId taskId user) db := by
  refine runs_bind (ends_select ?_)
  cases hfound : findTask organizationId taskId db with
  | none => exact runs_raise _
  | some task =>
    obtain ⟨rfl, rfl⟩ : task.id = taskId ∧ task.organizationId = organizationId := by
      simpa using List.find?_some hfound
    refine runs_ret (ends_announced fun db' hagree => runs_delete trivial (runs_ret ?_))
    have hkept (T : Table) (hT : T ∉ [Table.auditLogs, .webhookDeliveries]) : db' T = db T :=
      hagree T hT List.not_mem_nil
    have hp := hkept .projects (by simp)
    have ht := hkept .tasks (by simp)
    have ha := hkept .attachments (by simp)
    have hdeleted := taskDeleted_of_delete h hdb (List.mem_of_find?_eq_some hfound)
    refine ⟨hdeleted.found, ?_, ?_, ?_⟩
    · rw [replay_delete_congr hp ht ha _ _ hp, hdeleted.projects]
    · rw [replay_delete_congr hp ht ha _ _ ht, hdeleted.tasks]
    · rw [replay_delete_congr hp ht ha _ _ ha, hdeleted.attachments]

/-! ## Runs -/

theorem Served.tenantClosed [Platform] {ok : Request → Db Row → Prop} (h : Served ok db) :
    TenantClosed db := by
  induction h with
  | empty =>
    refine ⟨?_, ?_, ?_, ?_⟩ <;> exact fun r hr => absurd hr List.not_mem_nil
  | @request db hserved request oracle _ ih =>
    have hboth : Unclashing db ∧ TenantClosed db := ⟨hserved.unclashing, ih⟩
    refine ((confined_request request).runs.transaction_invariant
      (I := fun db => Unclashing db ∧ TenantClosed db) (fun s db env hs hI => ?_) hboth).2
    exact ⟨hI.1.eval hs.within env, hI.2.eval hI.1 hs env⟩

/-- What holds of tasks and attachments in a database, and of deletes in it. -/
structure ReferencesClosed [Platform] (db : Db Row) : Prop where
  task : ∀ task ∈ db .tasks, ∃ p ∈ db .projects,
    p.id = task.projectId ∧ p.organizationId = task.organizationId
  attachment : ∀ a ∈ db .attachments,
    (∃ p ∈ db .projects, a.projectId = some p.id ∧ a.taskId = none ∧
      p.organizationId = a.organizationId) ∨
    ∃ task ∈ db .tasks, a.taskId = some task.id ∧ a.projectId = none ∧
      task.organizationId = a.organizationId
  deleteProject : ∀ organizationId userId projectId oracle response,
    (respond oracle (.organization organizationId userId (.deleteProject (some projectId))) db).1 =
      .ok response →
    ProjectDeleted organizationId projectId db
      (respond oracle (.organization organizationId userId (.deleteProject (some projectId))) db).2
  deleteTask : ∀ organizationId userId taskId oracle response,
    (respond oracle (.organization organizationId userId (.deleteTask (some taskId))) db).1 =
      .ok response →
    TaskDeleted organizationId taskId db
      (respond oracle (.organization organizationId userId (.deleteTask (some taskId))) db).2

theorem TenantClosed.parent (h : TenantClosed db) {a : Attachment} (ha : a ∈ db .attachments) :
    (∃ p ∈ db .projects, a.projectId = some p.id ∧ a.taskId = none ∧
      p.organizationId = a.organizationId) ∨
    ∃ task ∈ db .tasks, a.taskId = some task.id ∧ a.projectId = none ∧
      task.organizationId = a.organizationId := by
  have hone := h.oneParent a ha
  cases hproject : a.projectId with
  | some id =>
    obtain ⟨p, hp, horg, hid⟩ := h.attachmentProject a ha (by simp [hproject])
    have htask : a.taskId = none := by simpa [hproject] using hone
    exact .inl ⟨p, hp, hproject.symm.trans hid, htask, horg.symm⟩
  | none =>
    have htask : a.taskId.isSome = true := by
      simpa [hproject, Option.isSome_iff_ne_none] using hone
    obtain ⟨task, ht, horg, hid⟩ := h.attachmentTask a ha htask
    exact .inr ⟨task, ht, hid, rfl, horg.symm⟩

/-- In every reachable state references stay inside their tenant, and a delete removes exactly
the row and what refers to it. -/
theorem references_closed [Platform] (h : Served (fun _ _ => True) db) : ReferencesClosed db := by
  have hclosed := h.tenantClosed
  refine ⟨fun task htask => ?_, fun a ha => hclosed.parent ha, ?_, ?_⟩
  · obtain ⟨p, hp, horg, hid⟩ := hclosed.taskProject task htask trivial
    exact ⟨p, hp, hid.symm, horg.symm⟩
  · intro organizationId userId projectId oracle response hok
    have hends : Ends oracle (fun _ => ProjectDeleted organizationId projectId db)
        (Request.organization organizationId userId (.deleteProject (some projectId))).handler db := ?_
    · exact hends.transaction hok
    refine runs_bind (ends_requirePermission fun context _ => ends_validated fun id hid _ => ?_)
    obtain rfl := Option.some.inj hid
    exact (ends_deleteProject hclosed h.unclashing).mono fun _ _ hdeleted => runs_ret hdeleted
  · intro organizationId userId taskId oracle response hok
    have hends : Ends oracle (fun _ => TaskDeleted organizationId taskId db)
        (Request.organization organizationId userId (.deleteTask (some taskId))).handler db := ?_
    · exact hends.transaction hok
    refine runs_bind (ends_requirePermission fun context _ => ends_validated fun id hid _ => ?_)
    obtain rfl := Option.some.inj hid
    exact (ends_deleteTask hclosed h.unclashing).mono fun _ _ hdeleted => runs_ret hdeleted

end Requests

section Sample

attribute [local instance] samplePlatform

/-- Ada stores a file with a task and one with its project. -/
def uploadRun : List (Request × Oracle Answer) :=
  [(.register (some ⟨"ada@example.com", "correct horse", "Ada"⟩), tokenOracle 0),
    (.createOrganization ⟨1002⟩ (some (⟨"Acme", "acme"⟩, "first-key")), tokenOracle 200),
    (.organization ⟨1206⟩ ⟨1002⟩ (.createProject (some ⟨"Engine", none⟩)), tokenOracle 500),
    (.organization ⟨1206⟩ ⟨1002⟩
      (.createTask (some ⟨⟨1502⟩, "Draft", none, .low, none, none⟩)), tokenOracle 600),
    (.organization ⟨1206⟩ ⟨1002⟩
      (.createUpload (some ⟨"plan.pdf", "application/pdf", 1000, some ⟨1502⟩, none⟩)),
      tokenOracle 700),
    (.organization ⟨1206⟩ ⟨1002⟩
      (.createUpload (some ⟨"note.txt", "text/plain", 10, none, some ⟨1603⟩⟩)), tokenOracle 800)]

/-- Both files are there, with their parents. -/
theorem uploads_closed :
    (respondAll uploadRun (fun _ => []) .attachments).map (fun a => (a.projectId, a.taskId)) =
      [(some ⟨1502⟩, none), (none, some ⟨1603⟩)] ∧
    ReferencesClosed (respondAll uploadRun fun _ => []) :=
  ⟨by decide +kernel, references_closed (Served.empty.respondAll fun _ _ _ => trivial)⟩

end Sample

end TenantFlow
