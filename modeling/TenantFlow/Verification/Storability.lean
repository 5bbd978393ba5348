import TenantFlow.Library.RowInvariant
import TenantFlow.Modules.Tasks
import TenantFlow.Verification.Sample

/-!
# Which validated requests can be stored

A row version is storable if every value fits its column, the `NOT NULL` and `CHECK`
constraints hold and a deadline has a time zone; the database can then refuse it only for a
foreign key or for a unique index.
For each of the four writing operations on projects and tasks: all row versions that it sends
are storable exactly if the payload is.
-/

namespace TenantFlow

open JsonText Transactional

/-- A deadline has a time zone. The column does not ask for that: it takes a naive value as well. -/
def deadlineAware : {t : Table} → Row t → Bool
  | .tasks, r => r.dueAt.all (·.aware)
  | _, _ => true

structure Storable {t : Table} (r : Row t) : Prop where
  columns : columnsOk r = true
  constraints : constraintsOk r = true
  aware : deadlineAware r = true

theorem storable_iff {t : Table} {r : Row t} :
    Storable r ↔ columnsOk r = true ∧ constraintsOk r = true ∧ deadlineAware r = true :=
  ⟨fun h => ⟨h.1, h.2, h.3⟩, fun h => ⟨h.1, h.2.1, h.2.2⟩⟩

/-- A storable row is refused for a missing reference or a taken unique value only. -/
theorem Storable.refused {t : Table} {r : Row t} (h : Storable r) {db : Db Row} {e : DbError}
    (hins : insertable db r = .error e) :
    e = .integrity ∧ (referencesOk db r = false ∨ ∃ s ∈ db t, clash r s = true) := by
  unfold insertable at hins
  cases hrefs : referencesOk db r with
  | false =>
    have hcheck : Schema.check db r = some .integrity := by
      simp [Schema.check, h.columns, h.constraints, hrefs]
    rw [hcheck] at hins
    exact ⟨(Except.error.inj hins).symm, .inl rfl⟩
  | true =>
    rw [check_eq_none_iff.mpr ⟨h.columns, h.constraints, hrefs⟩] at hins
    by_cases hany : (db t).any (clash r) = true
    · simp only [hany, ↓reduceIte, Except.error.injEq] at hins
      exact ⟨hins.symm, .inr (List.any_eq_true.mp hany)⟩
    · simp [hany] at hins

/-- An assignment to a row that is there, with a storable outcome, is refused likewise. -/
theorem Storable.update_refused {t : Table} {id : UUID} {f : Row t → Row t} {db : Db Row}
    {r : Row t} (hr : (db t).find? (fun r => pk r = id) = some r) (h : Storable (f r))
    {e : DbError} (hup : updatable db t id f = .error e) :
    e = .integrity ∧
      (referencesOk db (f r) = false ∨ ∃ s ∈ db t, pk s ≠ id ∧ clash (f r) s = true) := by
  unfold updatable at hup
  rw [hr] at hup
  dsimp only at hup
  cases hrefs : referencesOk db (f r) with
  | false =>
    have hcheck : Schema.check db (f r) = some .integrity := by
      simp [Schema.check, h.columns, h.constraints, hrefs]
    rw [hcheck] at hup
    exact ⟨(Except.error.inj hup).symm, .inl rfl⟩
  | true =>
    rw [check_eq_none_iff.mpr ⟨h.columns, h.constraints, hrefs⟩] at hup
    by_cases hany : (db t).any (fun r' => decide (pk r' ≠ id) && clash (f r) r') = true
    · simp only [hany, ↓reduceIte, Except.error.injEq] at hup
      obtain ⟨s, hs, hclash⟩ := List.any_eq_true.mp hany
      simp only [Bool.and_eq_true, decide_eq_true_eq] at hclash
      exact ⟨hup.symm, .inr ⟨s, hs, hclash⟩⟩
    · rw [if_neg hany] at hup
      cases hup

/-! ## Row versions that a program sends -/

/-- From storable rows, every row version of the statement is storable if `ok` holds, and in
table `T` only then. -/
def SendsStorable (T : Table) (ok : Prop) : Stmt Row UUID Call → Prop
  | .insert t r => (ok → Storable r) ∧ (t = T → Storable r → ok)
  | .insertOnConflictDoNothing t _ r => (ok → Storable r) ∧ (t = T → Storable r → ok)
  | .update t _ f =>
    ∀ r : Row t, Storable r → (ok → Storable (f r)) ∧ (t = T → Storable (f r) → ok)
  | _ => True

abbrev Stores {α : Type} (T : Table) (ok : Prop) (χ : α → Prop) (p : App α) : Prop :=
  p.Every (FromGood fun _ r => Storable r) (SendsStorable T ok) (fun _ => True) χ

section Parts

variable {α β : Type} {T : Table} {ok : Prop}

theorem stores_call (c : Call) : Stores T ok (fun _ => True) (call c) :=
  ⟨trivial, fun _ _ => trivial⟩

theorem stores_checked (x : Except DbError α) : Stores T ok (fun _ => True) (checked x) := by
  cases x <;> trivial

theorem stores_select (q : Db Row → α) : Stores T ok (fun x => ∃ db : Db Row,
    AllGood (fun _ r => Storable r) db ∧ x = q db) (select q) :=
  ⟨trivial, fun _ ⟨_, db, hdb, hx⟩ => ⟨db, hdb, hx⟩⟩

theorem stores_rowDefaults : Stores T ok (fun _ => True) rowDefaults :=
  Prog.every_bind (stores_call _) fun _ _ => Prog.every_bind (stores_call _) fun _ _ =>
    Prog.every_bind (stores_call _) fun _ _ => trivial

theorem stores_insertRow {t : Table} {r : Row t} (hr : ok → Storable r)
    (ht : t = T → Storable r → ok) : Stores T ok (fun _ => True) (insertRow r) :=
  ⟨⟨hr, ht⟩, fun x _ => stores_checked x⟩

/-- A row of another table. -/
theorem stores_other {t : Table} {r : Row t} (hr : ok → Storable r) (ht : t ≠ T) :
    Stores T ok (fun _ => True) (insertRow r) :=
  stores_insertRow hr fun h => absurd h ht

theorem stores_flush {t : Table} (id : UUID) (dirty : Bool) {patch : Datetime → Row t → Row t}
    (h : ∀ at_ r, Storable r → (ok → Storable (patch at_ r)) ∧
      (t = T → Storable (patch at_ r) → ok)) :
    Stores T ok (fun _ => True) (flush t id dirty patch) := by
  unfold flush
  split
  · refine Prog.every_bind (stores_call _) fun at_ _ => ?_
    refine Prog.every_bind (χ := fun _ => True) ?_ fun _ _ => trivial
    exact ⟨h at_, fun x _ => stores_checked x⟩
  · trivial

theorem stores_recordAudit (hT : T ≠ .auditLogs) {organizationId : UUID} {actorId : Option UUID}
    {action entityType : String} {entityId : Option UUID} {metadata : List (String × Json)}
    (haction : varchar 160 action = true) (hentity : varchar 120 entityType = true)
    (hmetadata : storableFields metadata = true) :
    Stores T ok (fun _ => True)
      (recordAudit organizationId actorId action entityType entityId metadata) := by
  refine Prog.every_bind (stores_call _) fun at_ _ => ?_
  refine Prog.every_bind (stores_call _) fun id _ => ?_
  refine stores_other (fun _ => ⟨?_, rfl, rfl⟩) (Ne.symm hT)
  simp [columnsOk, haction, hentity, hmetadata]

/-- The printed form of an id has no NUL character. -/
theorem storable_str (u : UUID) : storable u.str = true := by
  have h : Char.ofNat 0 ∉ u.str.toList := UUID.not_mem_str (by decide) (by decide)
  simpa [storable] using h

theorem stores_emitEvent (hT : T ≠ .webhookDeliveries) {organizationId : UUID}
    {eventType : String} {payload : List (String × Json)}
    (htype : varchar 120 eventType = true) (hpayload : ok → storableFields payload = true) :
    Stores T ok (fun _ => True) (emitEvent organizationId eventType payload) := by
  have hadd : ∀ eventId endpoints, Stores T ok (fun _ => True)
      (addDeliveries eventId eventType payload endpoints) := by
    intro eventId endpoints
    induction endpoints with
    | nil => trivial
    | cons endpoint endpoints ih =>
      unfold addDeliveries
      split
      · refine Prog.every_bind stores_rowDefaults fun d _ => ?_
        refine Prog.every_bind (stores_other (fun h => ⟨?_, rfl, rfl⟩) (Ne.symm hT)) fun _ _ => ?_
        · have hstorable : storable eventType = true := by
            simp only [varchar, Bool.and_eq_true] at htype
            exact htype.2
          have hkeys : storable "id" = true ∧ storable "type" = true ∧ storable "data" = true := by
            decide
          simp [columnsOk, storableJson, storableFields, htype, hpayload h, hstorable,
            storable_str, hkeys]
        · exact Prog.every_bind ih fun _ _ => trivial
      · exact ih
  have hpublish : ∀ ids, Stores T ok (fun _ => True) (publishDeliveries ids) := by
    intro ids
    induction ids with
    | nil => trivial
    | cons id ids ih =>
      refine Prog.every_bind (χ := fun _ => True) ?_ fun _ _ => ih
      refine Prog.every_bind (stores_call _) fun x _ => ?_
      cases x <;> trivial
  refine Prog.every_bind (stores_call _) fun eventId _ => ?_
  refine Prog.every_bind (stores_select _) fun endpoints _ => ?_
  refine Prog.every_bind (hadd _ _) fun ids _ => ?_
  exact Prog.every_bind (hpublish ids) fun _ _ => trivial

end Parts

/-! ## Payloads -/

section Payloads

/-- A nullable text of a body. -/
def storableText (s : Option String) : Bool := s.all storable

def ProjectCreate.storable (p : ProjectCreate) : Bool :=
  TenantFlow.storable (strip p.name) && storableText p.description

/-- Whatever is sent for a `NOT NULL` column is not null. -/
def ProjectUpdate.storable (p : ProjectUpdate) : Bool :=
  p.name.all (·.any TenantFlow.storable) && p.description.all storableText &&
    p.status.all Option.isSome

/-- A deadline has a time zone, and its instant lies in the years 1 to 9999. -/
def PyDatetime.storable (d : PyDatetime) : Bool := d.aware && d.inRange

def TaskCreate.storable (p : TaskCreate) : Bool :=
  TenantFlow.storable (strip p.title) && storableText p.description &&
    p.dueAt.all PyDatetime.storable

def TaskUpdate.storable (p : TaskUpdate) : Bool :=
  p.title.all (·.any TenantFlow.storable) && p.description.all storableText &&
    p.status.all Option.isSome && p.priority.all Option.isSome &&
      p.dueAt.all (·.all PyDatetime.storable)

theorem storable_project_iff {r : Project} : Storable (t := .projects) r ↔
    (r.name.all (varchar 160) = true ∧ r.name.isSome = true) ∧
      r.description.all storable = true ∧ r.status.isSome = true := by
  simp only [storable_iff, columnsOk, constraintsOk, deadlineAware, Bool.and_eq_true]
  tauto

theorem storable_task_iff {r : Task} : Storable (t := .tasks) r ↔
    (r.title.all (varchar 200) = true ∧ r.title.isSome = true) ∧
      r.description.all storable = true ∧ r.status.isSome = true ∧ r.priority.isSome = true ∧
      r.dueAt.all PyDatetime.storable = true := by
  have hdue : r.dueAt.all PyDatetime.storable = true ↔
      r.dueAt.all PyDatetime.inRange = true ∧ r.dueAt.all (·.aware) = true := by
    cases r.dueAt <;> simp [PyDatetime.storable, and_comm]
  rw [hdue]
  simp only [storable_iff, columnsOk, constraintsOk, deadlineAware, Bool.and_eq_true]
  tauto

theorem storable_projectPatch {loaded new r : Project} (hloaded : Storable (t := .projects) loaded)
    (hr : Storable (t := .projects) r) (at_ : Datetime) :
    Storable (t := .projects) (Project.patch loaded new at_ r) ↔ Storable (t := .projects) new := by
  rw [storable_project_iff] at hloaded hr
  simp only [storable_project_iff, Project.patch]
  rw [assign_iff (P := fun x : Option String => x.all (varchar 160) = true ∧ x.isSome = true)
      hloaded.1 hr.1,
    assign_iff (P := fun x : Option String => x.all storable = true) hloaded.2.1 hr.2.1,
    assign_iff (P := fun x : Option ProjectStatus => x.isSome = true) hloaded.2.2 hr.2.2]

theorem storable_taskPatch {loaded new r : Task} (hloaded : Storable (t := .tasks) loaded)
    (hr : Storable (t := .tasks) r) (at_ : Datetime) :
    Storable (t := .tasks) (Task.patch loaded new at_ r) ↔ Storable (t := .tasks) new := by
  rw [storable_task_iff] at hloaded hr
  simp only [storable_task_iff, Task.patch]
  rw [assign_iff (P := fun x : Option String => x.all (varchar 200) = true ∧ x.isSome = true)
      hloaded.1 hr.1,
    assign_iff (P := fun x : Option String => x.all storable = true) hloaded.2.1 hr.2.1,
    assign_iff (P := fun x : Option TaskStatus => x.isSome = true) hloaded.2.2.1 hr.2.2.1,
    assign_iff (P := fun x : Option Priority => x.isSome = true) hloaded.2.2.2.1 hr.2.2.2.1,
    assign_iff (P := fun x : Option PyDatetime => x.all PyDatetime.storable = true) hloaded.2.2.2.2
      hr.2.2.2.2]

/-- A column after the `setattr` loop. -/
theorem getD_all {α : Type} (P : α → Bool) {sent : Option α} {current : α}
    (h : P current = true) : P (sent.getD current) = sent.all P := by
  cases sent with
  | none => exact h
  | some x => rfl

/-- A `NOT NULL` text after the `setattr` loop. -/
theorem required_iff {lo hi : Nat} {sent : Option (Option String)} {current : Option String}
    (hvalid : sent.all (·.all (lengthIn lo hi)) = true)
    (hcurrent : current.all (varchar hi) = true ∧ current.isSome = true) :
    (sent.getD current).all (varchar hi) = true ∧ (sent.getD current).isSome = true ↔
      sent.all (·.any storable) = true := by
  cases sent with
  | none => simpa using hcurrent
  | some value =>
    cases value with
    | none => simp
    | some s =>
      simp only [Option.all_some, lengthIn, Bool.and_eq_true] at hvalid
      simp only [Option.getD_some, Option.all_some, Option.isSome_some, and_true, Option.any_some,
        varchar, hvalid.2, Bool.true_and]

theorem storable_projectApply {payload : ProjectUpdate} (hvalid : payload.valid = true)
    {p : Project} (hp : Storable (t := .projects) p) :
    Storable (t := .projects) (payload.apply p) ↔ payload.storable = true := by
  obtain ⟨hname, hdescription, hstatus⟩ := storable_project_iff.mp hp
  simp only [ProjectUpdate.valid, Bool.and_eq_true] at hvalid
  rw [storable_project_iff]
  simp only [ProjectUpdate.apply, ProjectUpdate.storable, Bool.and_eq_true]
  rw [required_iff hvalid.1 hname,
    getD_all (fun x : Option String => x.all storable) hdescription, getD_all Option.isSome hstatus,
    and_assoc]
  rfl

theorem storable_taskApply {payload : TaskUpdate} (hvalid : payload.valid = true)
    {task : Task} (htask : Storable (t := .tasks) task) :
    Storable (t := .tasks) (payload.apply task) ↔ payload.storable = true := by
  obtain ⟨htitle, hdescription, hstatus, hpriority, hdue⟩ := storable_task_iff.mp htask
  simp only [TaskUpdate.valid, Bool.and_eq_true] at hvalid
  rw [storable_task_iff]
  simp only [TaskUpdate.apply, TaskUpdate.storable, Bool.and_eq_true]
  rw [required_iff hvalid.1 htitle,
    getD_all (fun x : Option String => x.all storable) hdescription,
    getD_all Option.isSome hstatus, getD_all Option.isSome hpriority,
    getD_all (fun x : Option PyDatetime => x.all PyDatetime.storable) hdue, and_assoc, and_assoc,
    and_assoc]
  rfl

theorem storable_newProject {payload : ProjectCreate} (hvalid : payload.valid = true) {r : Project}
    (hname : r.name = some (strip payload.name))
    (hdescription : r.description = payload.description) (hstatus : r.status = some .active) :
    Storable (t := .projects) r ↔ payload.storable = true := by
  simp only [ProjectCreate.valid, lengthIn, Bool.and_eq_true, decide_eq_true_eq] at hvalid
  have hlength := (length_strip_le payload.name).trans hvalid.1.2
  simp [storable_project_iff, hname, hdescription, hstatus, varchar, hlength,
    ProjectCreate.storable, storableText]

theorem storable_newTask {payload : TaskCreate} (hvalid : payload.valid = true) {r : Task}
    (htitle : r.title = some (strip payload.title))
    (hdescription : r.description = payload.description) (hstatus : r.status = some .todo)
    (hpriority : r.priority = some payload.priority) (hdue : r.dueAt = payload.dueAt) :
    Storable (t := .tasks) r ↔ payload.storable = true := by
  simp only [TaskCreate.valid, lengthIn, Bool.and_eq_true, decide_eq_true_eq] at hvalid
  have hlength := (length_strip_le payload.title).trans hvalid.1.2
  simp [storable_task_iff, htitle, hdescription, hstatus, hpriority, hdue, varchar, hlength,
    TaskCreate.storable, storableText, and_assoc]

/-! ## The four operations -/

theorem storableFields_pair {k : String} {x : Json} {fields : List (String × Json)}
    (hk : storable k = true) (hx : storableJson x = true) (hfields : storableFields fields = true) :
    storableFields ((k, x) :: fields) = true := by
  simp [storableFields, hk, hx, hfields]

theorem storableJson_id (u : UUID) : storableJson (.str u.str) = true := storable_str u

theorem storableJson_text {s : Option String} (h : storableText s = true) :
    storableJson (jsonText s) = true := by
  cases s with
  | none => rfl
  | some s => exact h

theorem stores_getProject {ok : Prop} {T : Table} (organizationId projectId : UUID) :
    Stores T ok (Storable (t := .projects)) (getProject organizationId projectId) := by
  refine Prog.every_bind (stores_select _) fun found hfound => ?_
  obtain ⟨db, hdb, rfl⟩ := hfound
  cases hfind : findProject organizationId projectId db with
  | none => trivial
  | some p => exact hdb .projects p (List.mem_of_find?_eq_some hfind)

theorem stores_getTask {ok : Prop} {T : Table} (organizationId taskId : UUID) :
    Stores T ok (Storable (t := .tasks)) (getTask organizationId taskId) := by
  refine Prog.every_bind (stores_select _) fun found hfound => ?_
  obtain ⟨db, hdb, rfl⟩ := hfound
  cases hfind : findTask organizationId taskId db with
  | none => trivial
  | some task => exact hdb .tasks task (List.mem_of_find?_eq_some hfind)

theorem stores_validateProject {ok : Prop} {T : Table} (organizationId projectId : UUID) :
    Stores T ok (fun _ => True) (validateProject organizationId projectId) := by
  refine Prog.every_bind (stores_select _) fun found _ => ?_
  split <;> trivial

theorem stores_validateAssignee {ok : Prop} {T : Table} (organizationId : UUID)
    (userId : Option UUID) : Stores T ok (fun _ => True) (validateAssignee organizationId userId) := by
  cases userId with
  | none => trivial
  | some userId =>
    refine Prog.every_bind (stores_select _) fun found _ => ?_
    split <;> trivial

theorem stores_createProject {payload : ProjectCreate}
    (hvalid : payload.valid = true) (organizationId : UUID) (user : User) :
    Stores .projects (payload.storable = true) (fun _ => True)
      (createProject organizationId user payload) := by
  refine Prog.every_bind stores_rowDefaults fun d _ => ?_
  have hrow := fun r h₁ h₂ h₃ => storable_newProject hvalid (r := r) h₁ h₂ h₃
  refine Prog.every_bind (stores_insertRow (fun h => (hrow _ rfl rfl rfl).mpr h)
    fun _ h => (hrow _ rfl rfl rfl).mp h) fun _ _ => ?_
  refine Prog.every_bind (stores_recordAudit (by decide) (by decide) (by decide) rfl) fun _ _ => ?_
  refine Prog.every_bind (stores_emitEvent (by decide) (by decide) fun h => ?_) fun _ _ => trivial
  simp only [ProjectCreate.storable, Bool.and_eq_true] at h
  have hname : storableText (some (strip payload.name)) = true := by
    simpa only [storableText, Option.all_some] using h.1
  exact storableFields_pair (by decide) (storableJson_id _)
    (storableFields_pair (by decide) (storableJson_text hname) rfl)

theorem stores_updateProject {payload : ProjectUpdate} (hvalid : payload.valid = true)
    (organizationId projectId : UUID) (user : User) :
    Stores .projects (payload.storable = true) (fun _ => True)
      (updateProject organizationId projectId user payload) := by
  refine Prog.every_bind (stores_getProject _ _) fun project hproject => ?_
  refine Prog.every_bind (stores_flush _ _ fun at_ r hr => ?_) fun _ _ => ?_
  · rw [storable_projectPatch hproject hr, storable_projectApply hvalid hproject]
    exact ⟨fun h => h, fun _ h => h⟩
  refine Prog.every_bind (stores_recordAudit (by decide) (by decide) (by decide) rfl) fun _ _ => ?_
  refine Prog.every_bind (stores_emitEvent (by decide) (by decide) fun _ => ?_) fun _ _ => trivial
  refine storableFields_pair (by decide) (storableJson_id _)
    (storableFields_pair (by decide) (storableJson_text ?_) rfl)
  cases (payload.apply project).status with
  | none => rfl
  | some status => cases status <;> decide

theorem stores_createTask {payload : TaskCreate}
    (hvalid : payload.valid = true) (organizationId : UUID) (user : User) :
    Stores .tasks (payload.storable = true) (fun _ => True)
      (createTask organizationId user payload) := by
  refine Prog.every_bind (stores_validateProject _ _) fun _ _ => ?_
  refine Prog.every_bind (stores_validateAssignee _ _) fun _ _ => ?_
  refine Prog.every_bind stores_rowDefaults fun d _ => ?_
  have hrow := fun r h₁ h₂ h₃ h₄ h₅ => storable_newTask hvalid (r := r) h₁ h₂ h₃ h₄ h₅
  refine Prog.every_bind (stores_insertRow (fun h => (hrow _ rfl rfl rfl rfl rfl).mpr h)
    fun _ h => (hrow _ rfl rfl rfl rfl rfl).mp h) fun _ _ => ?_
  refine Prog.every_bind (stores_recordAudit (by decide) (by decide) (by decide) rfl) fun _ _ => ?_
  refine Prog.every_bind (stores_emitEvent (by decide) (by decide) fun h => ?_) fun _ _ => trivial
  simp only [TaskCreate.storable, Bool.and_eq_true] at h
  have htitle : storableText (some (strip payload.title)) = true := by
    simpa only [storableText, Option.all_some] using h.1.1
  exact storableFields_pair (by decide) (storableJson_id _)
    (storableFields_pair (by decide) (storableJson_id _)
      (storableFields_pair (by decide) (storableJson_text htitle) rfl))

theorem stores_updateTask {payload : TaskUpdate} (hvalid : payload.valid = true)
    (organizationId taskId : UUID) (user : User) :
    Stores .tasks (payload.storable = true) (fun _ => True)
      (updateTask organizationId taskId user payload) := by
  refine Prog.every_bind (stores_getTask _ _) fun task htask => ?_
  have hrest : ∀ eventType status, varchar 120 eventType = true →
      Stores .tasks (payload.storable = true) (fun _ => True) (do
        let updatedAt ← flush .tasks task.id (Task.dirty task (payload.apply task))
          (Task.patch task (payload.apply task))
        recordAudit organizationId (some user.id) "task.updated" "task" (some task.id) []
        let _ ← emitEvent organizationId eventType
          [("task_id", .str task.id.str), ("project_id", .str task.projectId.str),
            ("status", jsonText (Option.map TaskStatus.str status))]
        return { payload.apply task with updatedAt := updatedAt.getD task.updatedAt }) := by
    intro eventType status htype
    refine Prog.every_bind (stores_flush _ _ fun at_ r hr => ?_) fun _ _ => ?_
    · rw [storable_taskPatch htask hr, storable_taskApply hvalid htask]
      exact ⟨fun h => h, fun _ h => h⟩
    refine Prog.every_bind (stores_recordAudit (by decide) (by decide) (by decide) rfl)
      fun _ _ => ?_
    refine Prog.every_bind (stores_emitEvent (by decide) htype fun _ => ?_) fun _ _ => trivial
    refine storableFields_pair (by decide) (storableJson_id _)
      (storableFields_pair (by decide) (storableJson_id _)
        (storableFields_pair (by decide) (storableJson_text ?_) rfl))
    cases status with
    | none => rfl
    | some status => cases status <;> decide
  have htype : varchar 120
      (if (payload.apply task).status = some .done then "task.completed" else "task.updated") =
        true := by
    split <;> decide
  cases payload.assigneeId with
  | none => exact hrest _ _ htype
  | some assigneeId =>
    exact Prog.every_bind (stores_validateAssignee _ _) fun _ _ => hrest _ _ htype

/-- Every row version that a valid request sends is storable under the condition on its payload,
and a version of its own row under that condition only. -/
structure RowsStorable (okProject : ProjectCreate → Prop) (okProjectUpdate : ProjectUpdate → Prop)
    (okTask : TaskCreate → Prop) (okTaskUpdate : TaskUpdate → Prop) : Prop where
  createProject : ∀ payload, payload.valid = true → ∀ organizationId user,
    Stores .projects (okProject payload) (fun _ => True)
      (createProject organizationId user payload)
  updateProject : ∀ payload, payload.valid = true → ∀ organizationId projectId user,
    Stores .projects (okProjectUpdate payload) (fun _ => True)
      (updateProject organizationId projectId user payload)
  createTask : ∀ payload, payload.valid = true → ∀ organizationId user,
    Stores .tasks (okTask payload) (fun _ => True) (createTask organizationId user payload)
  updateTask : ∀ payload, payload.valid = true → ∀ organizationId taskId user,
    Stores .tasks (okTaskUpdate payload) (fun _ => True)
      (updateTask organizationId taskId user payload)
  /-- The rows as the session holds them before the flush. -/
  project : ∀ payload : ProjectUpdate, payload.valid = true → ∀ p, Storable (t := .projects) p →
    (Storable (t := .projects) (payload.apply p) ↔ okProjectUpdate payload)
  task : ∀ payload : TaskUpdate, payload.valid = true → ∀ task, Storable (t := .tasks) task →
    (Storable (t := .tasks) (payload.apply task) ↔ okTaskUpdate payload)
  /-- The database refuses a storable row for a reference or a unique value only. -/
  refused : ∀ {t : Table} {r : Row t}, Storable r → ∀ db e, insertable db r = .error e →
    e = .integrity ∧ (referencesOk db r = false ∨ ∃ s ∈ db t, clash r s = true)
  updateRefused : ∀ {t : Table} {id : UUID} {f : Row t → Row t} (db : Db Row) (r : Row t),
    (db t).find? (fun r => pk r = id) = some r → Storable (f r) →
    ∀ e, updatable db t id f = .error e → e = .integrity ∧
      (referencesOk db (f r) = false ∨ ∃ s ∈ db t, pk s ≠ id ∧ clash (f r) s = true)

theorem storable_iff_payload_storable [Platform] :
    RowsStorable (fun p => p.storable = true) (fun p => p.storable = true)
      (fun p => p.storable = true) fun p => p.storable = true where
  createProject _ hvalid := stores_createProject hvalid
  updateProject _ hvalid := stores_updateProject hvalid
  createTask _ hvalid := stores_createTask hvalid
  updateTask _ hvalid := stores_updateTask hvalid
  project _ hvalid _ hp := storable_projectApply hvalid hp
  task _ hvalid _ htask := storable_taskApply hvalid htask
  refused h _ _ hins := h.refused hins
  updateRefused _ _ hr h _ hup := h.update_refused hr hup

end Payloads

/-! ## Validation alone -/

section Sample

attribute [local instance] samplePlatform

/-- `{"title": null}` passes the schema. -/
def nullTitle : TaskUpdate := ⟨some none, none, none, none, none, none⟩

/-- A null title is no row that the table can hold, and the request fails on the constraint. -/
theorem null_title_not_storable : ¬ RowsStorable (fun _ => True) (fun _ => True) (fun _ => True)
      (fun _ => True) ∧
    (transaction sampleOracle (updateTask sampleOrganization.id sampleTask.id sampleUser nullTitle)
      taskedDb).1.map (fun _ => ()) = .error .integrity := by
  refine ⟨fun h => ?_, by decide +kernel⟩
  have htask : Storable (t := .tasks) sampleTask :=
    ⟨by decide +kernel, by decide +kernel, by decide +kernel⟩
  have hnull := ((h.task nullTitle (by decide) sampleTask htask).mpr trivial).constraints
  revert hnull
  decide

end Sample

end TenantFlow
