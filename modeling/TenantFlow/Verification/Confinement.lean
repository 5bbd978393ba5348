import TenantFlow.Api
import TenantFlow.Library.ClaimOnce
import TenantFlow.Library.RowInvariant

/-!
# Which tables a program writes

A scope lists the tables a program inserts into or updates, the tables it deletes from,
cascades included, and the outside calls it makes. An update assigns only the columns that
`blank` blanks out, so every other column is fixed when its row is inserted.
-/

namespace TenantFlow

open JsonText Transactional

/-- The tables that `ON DELETE CASCADE` reaches from a table. -/
def cascadeTables : Table → List Table
  | .projects => [.tasks, .attachments]
  | .tasks => [.attachments]
  | _ => []

theorem attachmentsOfTask_table {db : Db Row} {task : Task} {k : Table × UUID}
    (h : k ∈ attachmentsOfTask db task) : k.1 = .attachments := by
  obtain ⟨a, _, rfl⟩ := List.mem_map.mp h
  rfl

theorem attachmentsOfTask_mem {db : Db Row} {task : Task} {k : Table × UUID}
    (h : k ∈ attachmentsOfTask db task) : ∃ r ∈ db k.1, pk r = k.2 := by
  obtain ⟨a, ha, rfl⟩ := List.mem_map.mp h
  exact ⟨a, (List.mem_filter.mp ha).1, rfl⟩

theorem cascade_table {db : Db Row} {t : Table} {id : UUID} {k : Table × UUID}
    (h : k ∈ Schema.cascade db t id) : k.1 ∈ cascadeTables t := by
  change k ∈ cascadeOf db t id at h
  cases t with
  | projects =>
    obtain ⟨p, _, hk⟩ := List.mem_flatMap.mp h
    simp only [List.mem_append, List.mem_flatMap, List.mem_map] at hk
    rcases hk with (⟨t, _, hk⟩ | ⟨t, _, rfl⟩) | ⟨a, _, rfl⟩
    · simp [cascadeTables, attachmentsOfTask_table hk]
    · simp [cascadeTables]
    · simp [cascadeTables]
  | tasks =>
    obtain ⟨t, _, hk⟩ := List.mem_flatMap.mp h
    simp [cascadeTables, attachmentsOfTask_table hk]
  | _ => cases h

/-- The row with the columns blanked out that some `UPDATE` of the program assigns. -/
def blank : {t : Table} → Row t → Row t
  | .organizationMemberships, r => { r with role := .viewer, updatedAt := 0 }
  | .invitations, r => { r with status := .pending, updatedAt := 0 }
  | .projects, r => { r with name := none, description := none, status := none, updatedAt := 0 }
  | .tasks, r =>
    { r with title := none, description := none, status := none, priority := none,
             assigneeId := none, dueAt := none, updatedAt := 0 }
  | .refreshTokens, r => { r with revokedAt := none, replacedByHash := none }
  | .idempotencyRecords, r =>
    { r with status := .processing, responseStatus := none, responseBody := none }
  | .webhookEndpoints, r => { r with isActive := false, updatedAt := 0 }
  | .webhookDeliveries, r =>
    { r with state := .pending, attemptCount := 0, responseStatus := none, lastError := none,
             nextRetryAt := none, updatedAt := 0 }
  | .subscriptions, r =>
    { r with plan := .free, status := .inactive, stripeCustomerId := none,
             stripeSubscriptionId := none, currentPeriodEnd := none, updatedAt := 0 }
  | .users, r => r
  | .organizations, r => r
  | .attachments, r => r
  | .stripeEvents, r => r
  | .auditLogs, r => r

@[simp] theorem pk_blank {t : Table} (r : Row t) : pk (blank r) = pk r := by
  cases t <;> rfl

theorem pk_of_blank {t : Table} {r s : Row t} (h : blank r = blank s) : pk r = pk s := by
  rw [← pk_blank r, h, pk_blank]

theorem membership_of_blank {m m' : Row .organizationMemberships} (h : blank m' = blank m) :
    m'.organizationId = m.organizationId ∧ m'.userId = m.userId := by
  simp only [blank, OrganizationMembership.mk.injEq] at h
  exact ⟨h.2.1, h.2.2.1⟩

theorem task_of_blank {task task' : Row .tasks} (h : blank task' = blank task) :
    task'.organizationId = task.organizationId ∧ task'.createdAt = task.createdAt := by
  simp only [blank, Task.mk.injEq] at h
  exact ⟨h.2.1, h.2.2.2.2.2.2.2.2.2.2.1⟩

/-- The keys of rows that the database holds. -/
abbrev Existing (db : Db Row) (keys : List (Table × UUID)) : Prop :=
  ∀ k ∈ keys, ∃ r ∈ db k.1, pk r = k.2

/-- A `.delay` of a task, or an email. -/
def Call.notifies : Call → Bool
  | .sendInvitationTask _ _ => true
  | .deliverWebhookTask _ => true
  | .sendInvitationEmail _ _ _ => true
  | _ => false

/-- What a part of the program may touch. Clock and fresh ids are always allowed. -/
structure Scope where
  writes : List Table := []
  /-- Of these, the tables that get new rows. -/
  inserts : List Table := writes
  deletes : List Table := []
  /-- The actions of new audit rows. -/
  audits : String → Prop := fun _ => True
  calls : Call → Prop := fun c => c.notifies = false

def Scope.Inserts (F : Scope) (t : Table) : Prop := t ∈ F.writes ∧ t ∈ F.inserts

@[simp] theorem Scope.inserts_iff {F : Scope} {t : Table} :
    F.Inserts t ↔ t ∈ F.writes ∧ t ∈ F.inserts := Iff.rfl

def Scope.Audits (F : Scope) (action : String) : Prop := F.Inserts .auditLogs ∧ F.audits action

@[simp] theorem Scope.audits_iff {F : Scope} {action : String} :
    F.Audits action ↔ F.Inserts .auditLogs ∧ F.audits action := Iff.rfl

/-- The payload of a delivery names its event. -/
def WebhookDelivery.Formed (d : WebhookDelivery) : Prop :=
  ∃ data, d.payload = .obj [("id", .str d.eventId.str), ("type", .str d.eventType), ("data", data)]

/-- The row may be inserted, as far as its contents go. -/
def Scope.Admits (F : Scope) : {t : Table} → Row t → Prop
  | .auditLogs, r => F.audits r.action
  | .webhookDeliveries, r => r.Formed
  | _, _ => True

def Scope.Allows (F : Scope) : Stmt Row UUID Call → Prop
  | .select _ => True
  | .selectForUpdate q locked => ∀ db, Existing db (locked (q db))
  | .insert t r => F.Inserts t ∧ F.Admits r
  | .insertOnConflictDoNothing t _ r => F.Inserts t ∧ F.Admits r
  | .update t _ f => t ∈ F.writes ∧ ∀ r, blank (f r) = blank r
  | .delete t _ => t ∈ F.deletes ∧ cascadeTables t ⊆ F.deletes
  | .call .now => True
  | .call .uuid4 => True
  | .call c => F.calls c

/-- Every statement of the program is allowed. -/
abbrev Confined {α : Type} (F : Scope) (p : App α) : Prop :=
  p.Every Stmt.Possible F.Allows (fun _ => True) (fun _ => True)

theorem Scope.Allows.spares {F : Scope} {T : Table} (hw : T ∉ F.writes) (hd : T ∉ F.deletes)
    {s : Stmt Row UUID Call} (h : F.Allows s) : s.Spares T := by
  have hne : ∀ t, t ∈ F.writes → t ≠ T := by
    rintro t ht rfl
    exact hw ht
  have hne' : ∀ t, t ∈ F.deletes → t ≠ T := by
    rintro t ht rfl
    exact hd ht
  cases s with
  | insert t r => exact hne t h.1.1
  | insertOnConflictDoNothing t a r => exact hne t h.1.1
  | update t id f => exact hne t h.1
  | delete t id => exact ⟨hne' t h.1, fun db k hk => hne' _ (h.2 (cascade_table hk))⟩
  | _ => trivial

/-! ## Unique indexes and row locks -/

theorem uniqueClash_comm {t : Table} (r s : Row t) : uniqueClash r s = uniqueClash s r := by
  cases t <;> simp only [uniqueClash, sameValue] <;> grind

instance : Schema.Lawful Row UUID where
  clash_comm r s := by
    simp only [clash, uniqueClash_comm r s, eq_comm]
  clash_of_pk h := by
    have h : primaryKey _ = primaryKey _ := h
    simp [clash, h]
  cascade_mem {db t id k} h := by
    change k ∈ cascadeOf db t id at h
    cases t with
    | projects =>
      obtain ⟨p, _, hk⟩ := List.mem_flatMap.mp h
      simp only [List.mem_append, List.mem_flatMap, List.mem_map] at hk
      rcases hk with (⟨t, _, hk⟩ | ⟨t, ht, rfl⟩) | ⟨a, ha, rfl⟩
      · exact attachmentsOfTask_mem hk
      · exact ⟨t, (List.mem_filter.mp ht).1, rfl⟩
      · exact ⟨a, (List.mem_filter.mp ha).1, rfl⟩
    | tasks =>
      obtain ⟨t, _, hk⟩ := List.mem_flatMap.mp h
      exact attachmentsOfTask_mem hk
    | _ => cases h

theorem Scope.Allows.within {F : Scope} {s : Stmt Row UUID Call} (h : F.Allows s) :
    s.Within (· ∈ F.writes) (· ∈ F.deletes) := by
  cases s with
  | select q => trivial
  | selectForUpdate q l => exact h
  | insert t r => exact h.1.1
  | insertOnConflictDoNothing t a r => exact h.1.1
  | update t id f => exact ⟨h.1, fun r => pk_of_blank (h.2 r)⟩
  | delete t id => exact ⟨h.1, fun db id k hk => h.2 (cascade_table hk)⟩
  | call c => trivial

/-- A write of a part of the scope. -/
def Scope.AllowsOp (F : Scope) : Op Row UUID → Prop
  | .insert _ r => F.Admits r
  | .update _ _ f => ∀ r, blank (f r) = blank r
  | .delete t _ => t ∈ F.deletes

theorem Scope.Allows.ops {F : Scope} {s : Stmt Row UUID Call} (h : F.Allows s)
    {env : (c : Call) → Answer c}
    {view : Db Row} {op : Op Row UUID} (hop : op ∈ (s.eval env view).2) : F.AllowsOp op := by
  rcases mem_eval_ops hop with ⟨t, r, rfl, _, hs⟩ | ⟨t, id, f, rfl, _, rfl⟩ |
    ⟨t, id, k, rfl, rfl, hk, _⟩
  · rcases hs with rfl | ⟨a, rfl⟩
    · exact h.2
    · exact h.2
  · exact h.2
  · rcases hk with rfl | hk
    · exact h.1
    · exact h.2 (cascade_table hk)

/-- Without tables to write there are no writes. -/
theorem Scope.Allows.silent {F : Scope} (hw : F.writes = []) (hd : F.deletes = [])
    {s : Stmt Row UUID Call} (h : F.Allows s) (env : (c : Call) → Answer c) (db : Db Row) :
    (s.eval env db).2 = [] := by
  refine List.eq_nil_iff_forall_not_mem.mpr fun op hop => ?_
  have hwithin := h.within.ops env db op hop
  cases op with
  | insert t r => simp [Op.Within, hw] at hwithin
  | update t id f => simp [Op.Within, hw] at hwithin
  | delete t id => simp [Op.Within, hd] at hwithin

section Frames

variable {α : Type} {F : Scope} {p : App α} {oracle : Oracle Answer} {db : Db Row} {T : Table}

theorem Confined.runs (h : Confined F p) :
    Runs oracle (fun s _ => F.Allows s) (fun _ _ => True) p db :=
  runs_of_every h fun _ _ hs => hs

theorem Scope.Allows.keeps_table (hw : T ∉ F.writes) (hd : T ∉ F.deletes)
    {s : Stmt Row UUID Call} (h : F.Allows s) (env : (c : Call) → Answer c) (db : Db Row) :
    replay (s.eval env db).2 db T = db T :=
  replay_of_table_ne db ((h.spares hw hd).ops_table env db)

/-- A transaction leaves the tables outside its scope as they are. -/
theorem Confined.transaction_table (h : Confined F p) (hw : T ∉ F.writes) (hd : T ∉ F.deletes) :
    (transaction oracle p db).2 T = db T :=
  h.runs.transaction_invariant (I := fun db' => db' T = db T)
    (fun _ db' env hs hI => (hs.keeps_table hw hd env db').trans hI) rfl

/-- Allowed statements delete no row of a table outside the scope's deletes. -/
theorem Scope.Allows.keeps_rows (hd : T ∉ F.deletes) {s : Stmt Row UUID Call} (h : F.Allows s)
    (env : (c : Call) → Answer c) (db : Db Row) {r : Row T} (hr : r ∈ db T) :
    ∃ r' ∈ replay (s.eval env db).2 db T, blank r' = blank r := by
  refine replay_keeps_rows blank (fun id hop => ?_) (fun id f hop => ?_) hr
  · rcases mem_eval_ops hop with ⟨_, _, heq, _⟩ | ⟨_, _, _, heq, _⟩ | ⟨t, id', k, rfl, heq, hk, _⟩
    · cases heq
    · cases heq
    · obtain ⟨rfl, _⟩ := Op.delete.inj heq
      rcases hk with rfl | hk
      · exact hd h.1
      · exact hd (h.2 (cascade_table hk))
  · rcases mem_eval_ops hop with ⟨_, _, heq, _⟩ | ⟨t, id', g, heq, _, rfl⟩ | ⟨_, _, _, _, heq, _⟩
    · cases heq
    · obtain ⟨rfl, rfl, hf⟩ := Op.update.inj heq
      obtain rfl := eq_of_heq hf
      exact h.2
    · cases heq

theorem Confined.transaction_keeps_rows (h : Confined F p) (hd : T ∉ F.deletes) {r : Row T}
    (hr : r ∈ db T) : ∃ r' ∈ (transaction oracle p db).2 T, blank r' = blank r :=
  h.runs.transaction_invariant (I := fun db' => ∃ r' ∈ db' T, blank r' = blank r)
    (fun _ db' env hs ⟨_, hr₁, hblank⟩ =>
      let ⟨r₂, hr₂, hblank₂⟩ := hs.keeps_rows hd env db' hr₁
      ⟨r₂, hr₂, hblank₂.trans hblank⟩) ⟨r, hr, rfl⟩

/-- A transaction adds no row to a table outside the scope's writes. -/
theorem Confined.transaction_mem (h : Confined F p) (hw : T ∉ F.writes) {r : Row T}
    (hr : r ∈ (transaction oracle p db).2 T) : r ∈ db T := by
  refine h.runs.transaction_invariant (I := fun db' => ∀ r ∈ db' T, r ∈ db T)
    (fun s db' env hs hI r hr => hI r (mem_of_replay_deletes (fun op hop htable => ?_) hr))
    (fun _ hr => hr) r hr
  have hwithin := hs.within.ops env db' op hop
  cases op with
  | insert t r' =>
    obtain rfl : t = T := htable
    exact absurd hwithin hw
  | update t id f =>
    obtain rfl : t = T := htable
    exact absurd hwithin.1 hw
  | delete t id =>
    obtain rfl : t = T := htable
    exact ⟨id, rfl⟩

/-- No transaction lets two rows clash. -/
theorem Confined.transaction_unclashing (h : Confined F p) (hdb : Unclashing db) :
    Unclashing (transaction oracle p db).2 :=
  h.runs.transaction_invariant (I := Unclashing) (fun _ _ env hs hI => hI.eval hs.within env) hdb

/-- A predicate on rows that holds of any row of the tables written. -/
theorem Confined.writesGood {Good : (t : Table) → Row t → Prop} (h : Confined F p)
    (hF : ∀ t ∈ F.writes, ∀ r : Row t, Good t r) : WritesGood Good (fun _ => True) p := by
  refine (h.mono (fun s hs => ?_) (fun _ h => h) fun _ h => h).restrict fun _ _ h => h.possible
  cases s with
  | insert t r => exact hF t hs.1.1 r
  | insertOnConflictDoNothing t a r => exact hF t hs.1.1 r
  | update t id f => exact fun r _ => hF t hs.1 (f r)
  | _ => trivial

end Frames

section Parts

variable {α β : Type} {F : Scope}

theorem confined_call (c : Call) (h : F.calls c) : Confined F (call c) := by
  refine ⟨?_, fun _ _ => trivial⟩
  cases c <;> trivial

theorem confined_now : Confined F now := ⟨trivial, fun _ _ => trivial⟩

theorem confined_uuid4 : Confined F uuid4 := ⟨trivial, fun _ _ => trivial⟩

theorem confined_select (q : Db Row → α) : Confined F (select q) :=
  ⟨trivial, fun _ _ => trivial⟩

theorem confined_selectForUpdate {t : Table} {q : Db Row → Option (Row t)}
    (h : ∀ db r, q db = some r → r ∈ db t) : Confined F (selectForUpdate t q) := by
  refine ⟨fun db k hk => ?_, fun _ _ => trivial⟩
  cases hq : q db with
  | none => simp [hq] at hk
  | some r =>
    obtain rfl : k = (t, pk r) := by simpa [hq] using hk
    exact ⟨r, h db r hq, rfl⟩

/-- The row locked is one that a search of its table has found. -/
theorem confined_lockFound (t : Table) (p : Row t → Bool) :
    Confined F (selectForUpdate t fun db => (db t).find? p) :=
  confined_selectForUpdate fun _ _ h => List.mem_of_find?_eq_some h

theorem confined_checked (x : Except DbError α) : Confined F (checked x) := by
  cases x <;> trivial

theorem confined_orRaise (e : Failure) (x : Option α) : Confined F (orRaise e x) := by
  cases x <;> trivial

theorem confined_ofExcept (x : Except Failure α) : Confined F (Prog.ofExcept x : App α) := by
  cases x <;> trivial

theorem confined_validated (args : Option α) (ok : α → Bool) :
    Confined F (validated args ok) := by
  cases args with
  | none => trivial
  | some a =>
    simp only [validated]
    split <;> trivial

theorem confined_insertRow {t : Table} (ht : F.Inserts t) (r : Row t)
    (hr : F.Admits r := by trivial) : Confined F (insertRow r) :=
  ⟨⟨ht, hr⟩, fun x _ => confined_checked x⟩

theorem confined_updateRow {t : Table} (ht : t ∈ F.writes) (id : UUID) {f : Row t → Row t}
    (hf : ∀ r, blank (f r) = blank r) : Confined F (updateRow t id f) :=
  ⟨⟨ht, hf⟩, fun x _ => confined_checked x⟩

theorem confined_deleteRow {t : Table} (ht : t ∈ F.deletes) (hc : cascadeTables t ⊆ F.deletes)
    (id : UUID) : Confined F (deleteRow t id) :=
  ⟨⟨ht, hc⟩, fun _ _ => trivial⟩

theorem confined_rowDefaults : Confined F rowDefaults :=
  Prog.every_bind confined_uuid4 fun _ _ => Prog.every_bind confined_now fun _ _ =>
    Prog.every_bind confined_now fun _ _ => trivial

theorem confined_flush {t : Table} (ht : t ∈ F.writes) (id : UUID) (dirty : Bool)
    {patch : Datetime → Row t → Row t} (hf : ∀ at_ r, blank (patch at_ r) = blank r) :
    Confined F (flush t id dirty patch) := by
  unfold flush
  split
  · refine Prog.every_bind confined_now fun at_ _ => ?_
    exact Prog.every_bind (confined_updateRow ht id (hf at_)) fun _ _ => trivial
  · trivial

theorem confined_lockWhere (t : Table) (p : Row t → Bool) : Confined F (lockWhere t p) := by
  refine ⟨fun db k hk => ?_, fun _ _ => trivial⟩
  simp only [List.map_map, List.mem_map] at hk
  obtain ⟨r, hr, rfl⟩ := hk
  exact ⟨r, (List.mem_filter.mp hr).1, rfl⟩

theorem confined_updateWhere {t : Table} (ht : t ∈ F.writes) (p : Row t → Bool)
    {f : Row t → Row t} (hf : ∀ r, blank (f r) = blank r) : Confined F (updateWhere t p f) := by
  have hrows : ∀ ids, Confined F (updateRows t f ids) := by
    intro ids
    induction ids with
    | nil => trivial
    | cons id ids ih => exact Prog.every_bind (confined_updateRow ht id hf) fun _ _ => ih
  exact Prog.every_bind (confined_lockWhere t p) fun ids _ => hrows ids

theorem confined_deleteWhere {t : Table} (ht : t ∈ F.deletes) (hc : cascadeTables t ⊆ F.deletes)
    (p : Row t → Bool) : Confined F (deleteWhere t p) := by
  have hrows : ∀ ids, Confined F (deleteRows t ids) := by
    intro ids
    induction ids with
    | nil => trivial
    | cons id ids ih => exact Prog.every_bind (confined_deleteRow ht hc id) fun _ _ => ih
  exact Prog.every_bind (confined_lockWhere t p) fun ids _ => hrows ids

theorem confined_recordAudit {action : String} (hA : F.Audits action) (organizationId : UUID)
    (actorId : Option UUID) (entityType : String) (entityId : Option UUID)
    (metadata : List (String × Json)) :
    Confined F (recordAudit organizationId actorId action entityType entityId metadata) :=
  Prog.every_bind confined_now fun _ _ => Prog.every_bind confined_uuid4 fun _ _ =>
    confined_insertRow hA.1 _ hA.2

theorem confined_getCurrentUser (userId : UUID) : Confined F (getCurrentUser userId) := by
  refine Prog.every_bind (confined_select _) fun user _ => ?_
  cases user with
  | none => trivial
  | some user =>
    dsimp only
    split <;> trivial

theorem confined_getOrganizationContext (organizationId userId : UUID) :
    Confined F (getOrganizationContext organizationId userId) := by
  refine Prog.every_bind (confined_getCurrentUser userId) fun user _ => ?_
  refine Prog.every_bind (confined_select _) fun membership _ => ?_
  cases membership <;> trivial

theorem confined_requirePermission (permission : Permission) (organizationId userId : UUID) :
    Confined F (requirePermission permission organizationId userId) := by
  refine Prog.every_bind (confined_getOrganizationContext organizationId userId) fun c _ => ?_
  refine Prog.every_bind (χ := fun _ => True) ?_ fun _ _ => trivial
  unfold assertPermission
  split <;> trivial

/-- A route under `/organizations/{organization_id}/` starts with its permission check and
the validation of its parameters. -/
theorem confined_route {γ : Type} {permission : Permission} {organizationId userId : UUID}
    {args : Option α} {ok : α → Bool} {f : OrganizationContext → α → App γ}
    (h : ∀ context a, Confined F (f context a)) :
    Confined F ((requirePermission permission organizationId userId).bind fun context =>
      (validated args ok).bind fun a => f context a) :=
  Prog.every_bind (confined_requirePermission _ _ _) fun context _ =>
    Prog.every_bind (confined_validated _ _) fun a _ => h context a

end Parts

section Services

variable [Platform] {F : Scope}

/-! ## Accounts and organizations -/

theorem confined_registerUser (hU : F.Inserts .users) (hcalls : ∀ c, c.notifies = false → F.calls c)
    (payload : RegisterRequest) : Confined F (registerUser payload) := by
  refine Prog.every_bind (confined_select _) fun existing _ => ?_
  split
  · trivial
  · refine Prog.every_bind (confined_call _ (hcalls _ rfl)) fun passwordHash _ => ?_
    refine Prog.every_bind confined_rowDefaults fun d _ => ?_
    exact Prog.every_bind (confined_insertRow hU _) fun _ _ => trivial

theorem confined_authenticate (email password : String) :
    Confined F (authenticate email password) := by
  refine Prog.every_bind (confined_select _) fun user _ => ?_
  cases user with
  | none => trivial
  | some user =>
    dsimp only
    split
    · trivial
    · split <;> trivial

theorem confined_issueTokenPair (hT : F.Inserts .refreshTokens) (hcalls : ∀ c, c.notifies = false → F.calls c)
    (user : User) (familyId : Option UUID) : Confined F (issueTokenPair user familyId) := by
  refine Prog.every_bind (confined_call _ (hcalls _ rfl)) fun rawRefresh _ => ?_
  refine Prog.every_bind confined_now fun at_ _ => ?_
  refine Prog.every_bind (χ := fun _ => True) ?_ fun family _ => ?_
  · cases familyId with
    | none => exact confined_uuid4
    | some family => trivial
  · refine Prog.every_bind confined_uuid4 fun id _ => ?_
    refine Prog.every_bind (confined_insertRow hT _) fun _ _ => ?_
    exact Prog.every_bind (confined_call _ (hcalls _ rfl)) fun _ _ => trivial

theorem confined_rotateRefreshToken (hT : F.Inserts .refreshTokens)
    (hcalls : ∀ c, c.notifies = false → F.calls c) (rawToken : String) :
    Confined F (rotateRefreshToken rawToken) := by
  refine Prog.every_bind (confined_lockFound _ _) fun token _ => ?_
  refine Prog.every_bind confined_now fun at_ _ => ?_
  cases token with
  | none => trivial
  | some token =>
    dsimp only
    split
    · trivial
    · refine Prog.every_bind (confined_select _) fun user _ => ?_
      cases user.filter (·.isActive) with
      | none => trivial
      | some user =>
        refine Prog.every_bind (confined_issueTokenPair hT hcalls _ _) fun pair _ => ?_
        exact Prog.every_bind (confined_updateRow hT.1 _ fun _ => rfl) fun _ _ => trivial

theorem confined_revokeRefreshToken (hT : Table.refreshTokens ∈ F.writes) (rawToken : String) :
    Confined F (revokeRefreshToken rawToken) := by
  refine Prog.every_bind (confined_lockFound _ _) fun token _ => ?_
  cases token with
  | none => trivial
  | some token =>
    dsimp only
    split
    · exact Prog.every_bind confined_now fun at_ _ => confined_updateRow hT _ fun _ => rfl
    · trivial

omit [Platform] in
theorem confined_acquireIdempotency (hI : F.Inserts .idempotencyRecords) (userId : UUID)
    (organizationId : Option UUID) (scope key requestHash : String) :
    Confined F (acquireIdempotency userId organizationId scope key requestHash) := by
  refine Prog.every_bind confined_now fun at_ _ => Prog.every_bind confined_uuid4 fun id _ => ?_
  have hclaim : ∀ r : IdempotencyRecord, Confined F
      (send (.insertOnConflictDoNothing .idempotencyRecords sameScopeKey r)) :=
    fun r => ⟨⟨hI, trivial⟩, fun _ _ => trivial⟩
  refine Prog.every_bind (hclaim _) fun result _ => ?_
  refine Prog.every_bind (confined_checked result) fun created _ => ?_
  split
  · refine Prog.every_bind (confined_select _) fun record _ => ?_
    cases record <;> trivial
  · refine Prog.every_bind (confined_lockFound _ _) fun record _ => ?_
    cases record with
    | none => trivial
    | some record =>
      dsimp only
      split
      · trivial
      · split <;> trivial

theorem confined_idempotently {ρ : Type} (hI : F.Inserts .idempotencyRecords)
    {userId : UUID} {organizationId : Option UUID} {scope key : String} {payload : Json}
    {missingBody : String} {modelValidate : Json → Except Failure ρ} {modelDump : ρ → Json}
    {execute : App ρ} (hexecute : Confined F execute) :
    Confined F (idempotently userId organizationId scope key payload missingBody modelValidate
      modelDump execute) := by
  refine Prog.every_bind (confined_acquireIdempotency hI _ _ _ _ _) fun state _ => ?_
  split
  · cases state.replayBody with
    | none => trivial
    | some body => exact Prog.every_bind (confined_ofExcept _) fun _ _ => trivial
  · refine Prog.every_bind hexecute fun response _ => ?_
    exact Prog.every_bind (confined_updateRow hI.1 _ fun _ => rfl) fun _ _ => trivial

omit [Platform] in
theorem confined_createOrganization (hO : F.Inserts .organizations)
    (hM : F.Inserts .organizationMemberships) (hA : F.Audits "organization.created")
    (user : User) (payload : OrganizationCreate) :
    Confined F (createOrganization user payload) := by
  refine Prog.every_bind (confined_select _) fun taken _ => ?_
  split
  · trivial
  · refine Prog.every_bind confined_rowDefaults fun d _ => ?_
    refine Prog.every_bind (confined_insertRow hO _) fun _ _ => ?_
    refine Prog.every_bind confined_rowDefaults fun d' _ => ?_
    refine Prog.every_bind (confined_insertRow hM _) fun _ _ => ?_
    exact Prog.every_bind (confined_recordAudit hA _ _ _ _ _) fun _ _ => trivial

omit [Platform] in
theorem confined_isMember (organizationId : UUID) (email : String) :
    Confined F (isMember organizationId email) := by
  refine Prog.every_bind (confined_select _) fun id _ => ?_
  cases id with
  | none => trivial
  | some id => exact confined_select _

theorem confined_addInvitation (hI : F.Inserts .invitations)
    (hA : F.Audits "member.invited") (hcalls : ∀ c, F.calls c) (organizationId : UUID)
    (invitedBy : User) (email : String) (role : Role) :
    Confined F (addInvitation organizationId invitedBy email role) := by
  refine Prog.every_bind (confined_call _ (hcalls _)) fun token _ => ?_
  refine Prog.every_bind confined_now fun at_ _ => ?_
  refine Prog.every_bind confined_rowDefaults fun d _ => ?_
  refine Prog.every_bind (confined_insertRow hI _) fun _ _ => ?_
  refine Prog.every_bind (confined_recordAudit hA _ _ _ _ _) fun _ _ => ?_
  refine Prog.every_bind (confined_call _ (hcalls _)) fun sent _ => ?_
  exact Prog.every_bind (confined_orRaise _ _) fun _ _ => trivial

theorem confined_inviteMember (hI : F.Inserts .invitations)
    (hA : F.Audits "member.invited") (hcalls : ∀ c, F.calls c) (organizationId : UUID)
    (invitedBy : User) (payload : InviteMemberRequest) :
    Confined F (inviteMember organizationId invitedBy payload) := by
  refine Prog.every_bind (confined_isMember _ _) fun member _ => ?_
  split
  · trivial
  · refine Prog.every_bind (confined_select _) fun pending _ => ?_
    cases pending with
    | none => exact confined_addInvitation hI hA hcalls _ _ _ _
    | some pending =>
      refine Prog.every_bind confined_now fun at_ _ => ?_
      split
      · trivial
      · exact Prog.every_bind (confined_flush hI.1 _ _ fun _ _ => rfl) fun _ _ =>
          confined_addInvitation hI hA hcalls _ _ _ _

theorem confined_acceptInvitation (hI : Table.invitations ∈ F.writes)
    (hM : F.Inserts .organizationMemberships) (hA : F.Audits "member.joined")
    (user : User) (rawToken : String) : Confined F (acceptInvitation user rawToken) := by
  refine Prog.every_bind (confined_lockFound _ _) fun invitation _ => ?_
  cases invitation with
  | none => trivial
  | some invitation =>
    dsimp only
    split
    · trivial
    · refine Prog.every_bind confined_now fun at_ _ => ?_
      split
      · exact Prog.every_bind (confined_flush hI _ _ fun _ _ => rfl) fun _ _ => trivial
      · split
        · trivial
        · refine Prog.every_bind (χ := fun _ => True) ?_ fun membership _ => ?_
          · refine Prog.every_bind (confined_select _) fun found _ => ?_
            cases found with
            | some membership => trivial
            | none =>
              refine Prog.every_bind confined_rowDefaults fun d _ => ?_
              exact Prog.every_bind (confined_insertRow hM _) fun _ _ => trivial
          · refine Prog.every_bind (confined_flush hI _ _ fun _ _ => rfl) fun _ _ => ?_
            exact Prog.every_bind (confined_recordAudit hA _ _ _ _ _) fun _ _ => trivial

omit [Platform] in
theorem confined_updateMembershipRole (hM : Table.organizationMemberships ∈ F.writes)
    (hA : F.Audits "member.role_changed") (organizationId membershipId : UUID) (actor : User)
    (role : Role) :
    Confined F (updateMembershipRole organizationId membershipId actor role) := by
  refine Prog.every_bind (confined_select _) fun membership _ => ?_
  cases membership with
  | none => trivial
  | some membership =>
    dsimp only
    split
    · trivial
    · refine Prog.every_bind (confined_flush hM _ _ fun _ _ => rfl) fun _ _ => ?_
      exact Prog.every_bind (confined_recordAudit hA _ _ _ _ _) fun _ _ => trivial

omit [Platform] in
theorem confined_removeMembership (hM : Table.organizationMemberships ∈ F.deletes)
    (hA : F.Audits "member.removed") (organizationId membershipId : UUID) (actor : User) :
    Confined F (removeMembership organizationId membershipId actor) := by
  refine Prog.every_bind (confined_select _) fun membership _ => ?_
  cases membership with
  | none => trivial
  | some membership =>
    dsimp only
    split
    · trivial
    · refine Prog.every_bind (confined_recordAudit hA _ _ _ _ _) fun _ _ => ?_
      exact confined_deleteRow hM (by simp [cascadeTables]) _

/-! ## Events and webhooks -/

omit [Platform] in
theorem confined_addDeliveries (hD : F.Inserts .webhookDeliveries) (eventId : UUID)
    (eventType : String) (payload : List (String × Json)) (endpoints : List WebhookEndpoint) :
    Confined F (addDeliveries eventId eventType payload endpoints) := by
  induction endpoints with
  | nil => trivial
  | cons endpoint endpoints ih =>
    unfold addDeliveries
    split
    · refine Prog.every_bind confined_rowDefaults fun d _ => ?_
      refine Prog.every_bind (confined_insertRow hD _ ⟨_, rfl⟩) fun _ _ => ?_
      exact Prog.every_bind ih fun _ _ => trivial
    · exact ih

omit [Platform] in
theorem confined_deliverWebhookTaskDelay (hcalls : ∀ c, F.calls c) (deliveryId : UUID) :
    Confined F (deliverWebhookTaskDelay deliveryId) :=
  Prog.every_bind (confined_call _ (hcalls _)) fun _ _ => confined_orRaise _ _

omit [Platform] in
theorem confined_publishDeliveries (hcalls : ∀ c, F.calls c) (ids : List UUID) :
    Confined F (publishDeliveries ids) := by
  induction ids with
  | nil => trivial
  | cons id ids ih =>
    exact Prog.every_bind (confined_deliverWebhookTaskDelay hcalls id) fun _ _ => ih

omit [Platform] in
theorem confined_emitEvent (hD : F.Inserts .webhookDeliveries) (hcalls : ∀ c, F.calls c)
    (organizationId : UUID) (eventType : String) (payload : List (String × Json)) :
    Confined F (emitEvent organizationId eventType payload) := by
  refine Prog.every_bind confined_uuid4 fun eventId _ => ?_
  refine Prog.every_bind (confined_select _) fun endpoints _ => ?_
  refine Prog.every_bind (confined_addDeliveries hD _ _ _ _) fun ids _ => ?_
  exact Prog.every_bind (confined_publishDeliveries hcalls ids) fun _ _ => trivial

theorem confined_validateWebhookTarget (hcalls : ∀ c, c.notifies = false → F.calls c) (url : String) :
    Confined F (validateWebhookTarget url) := by
  unfold validateWebhookTarget
  split
  · trivial
  · dsimp only
    split
    · trivial
    · trivial
    · split
      · trivial
      · trivial
      · refine Prog.every_bind (confined_call _ (hcalls _ rfl)) fun resolved _ => ?_
        cases resolved with
        | none => trivial
        | some resolved =>
          dsimp only
          split <;> trivial

/-! ## Billing -/

omit [Platform] in
theorem confined_getOrCreateSubscription (hS : F.Inserts .subscriptions)
    (organizationId : UUID) : Confined F (getOrCreateSubscription organizationId) := by
  refine Prog.every_bind (confined_select _) fun found _ => ?_
  cases found with
  | some subscription => trivial
  | none =>
    refine Prog.every_bind confined_rowDefaults fun d _ => ?_
    exact Prog.every_bind (confined_insertRow hS _) fun _ _ => trivial

theorem confined_createBillingCheckout (hS : F.Inserts .subscriptions)
    (hcalls : ∀ c, c.notifies = false → F.calls c) (organizationId : UUID) (payload : CheckoutRequest)
    (idempotencyKey : String) :
    Confined F (createBillingCheckout organizationId payload idempotencyKey) := by
  unfold createBillingCheckout
  split
  · trivial
  · split
    · trivial
    · refine Prog.every_bind (confined_getOrCreateSubscription hS _) fun subscription _ => ?_
      refine Prog.every_bind (confined_call _ (hcalls _ rfl)) fun answer _ => ?_
      refine Prog.every_bind (confined_orRaise _ _) fun session _ => ?_
      split <;> trivial

theorem confined_applyStripeEvent (hS : F.Inserts .subscriptions)
    (hA : F.Audits "billing.stripe_event_processed") (event : Event) (markerId organizationId : UUID)
    (obj : List (String × Json)) :
    Confined F (applyStripeEvent event markerId organizationId obj) := by
  refine Prog.every_bind (confined_getOrCreateSubscription hS _) fun loaded _ => ?_
  refine Prog.every_bind (confined_ofExcept _) fun assigned _ => ?_
  refine Prog.every_bind (confined_flush hS.1 _ _ fun _ _ => rfl) fun _ _ => ?_
  exact confined_recordAudit hA _ _ _ _ _

theorem confined_resolveOrganizationId (obj : List (String × Json)) :
    Confined F (resolveOrganizationId obj) := by
  refine Prog.every_bind (confined_ofExcept _) fun raw _ => ?_
  cases raw with
  | some text => cases h : UUID.ofString text <;> simp only [h] <;> trivial
  | none =>
    cases extractCustomerId obj with
    | none => trivial
    | some customerId => exact confined_select _

theorem confined_handleStripeEvent (hS : F.Inserts .subscriptions)
    (hA : F.Audits "billing.stripe_event_processed") (event : Event) (markerId : UUID) :
    Confined F (handleStripeEvent event markerId) := by
  refine Prog.every_bind (confined_orRaise _ _) fun obj _ => ?_
  refine Prog.every_bind (confined_resolveOrganizationId obj) fun resolved _ => ?_
  cases resolved with
  | none => trivial
  | some organizationId => exact confined_applyStripeEvent hS hA _ _ _ _

theorem confined_processStripeEvent (hE : F.Inserts .stripeEvents)
    (hS : F.Inserts .subscriptions) (hA : F.Audits "billing.stripe_event_processed") (event : Event) :
    Confined F (processStripeEvent event) := by
  refine Prog.every_bind confined_now fun processedAt _ => ?_
  refine Prog.every_bind confined_uuid4 fun id _ => ?_
  have hclaim : ∀ r : StripeEvent, Confined F
      (send (.insertOnConflictDoNothing .stripeEvents sameStripeEventId r)) :=
    fun r => ⟨⟨hE, trivial⟩, fun _ _ => trivial⟩
  refine Prog.every_bind (hclaim _) fun result _ => ?_
  refine Prog.every_bind (confined_checked result) fun inserted _ => ?_
  split
  · exact Prog.every_bind (confined_handleStripeEvent hS hA event id) fun _ _ => trivial
  · trivial

/-! ## Background tasks -/

omit [Platform] in
theorem confined_sendInvitationTask (hcalls : ∀ c, F.calls c) (invitationId : UUID)
    (rawToken : String) : Confined F (sendInvitationTask invitationId rawToken) := by
  refine Prog.every_bind (confined_select _) fun invitation _ => ?_
  cases invitation with
  | none => trivial
  | some invitation =>
    dsimp only
    split
    · trivial
    · refine Prog.every_bind (confined_select _) fun organization _ => ?_
      cases organization with
      | none => trivial
      | some organization =>
        refine Prog.every_bind (confined_call _ (hcalls _)) fun sent _ => ?_
        exact Prog.every_bind (confined_orRaise _ _) fun _ _ => trivial

omit [Platform] in
theorem confined_saveDelivery (hD : Table.webhookDeliveries ∈ F.writes)
    (loaded new : WebhookDelivery) : Confined F (saveDelivery loaded new) :=
  Prog.every_bind (confined_flush hD _ _ fun _ _ => rfl) fun _ _ => trivial

theorem confined_beginAttempt (hD : Table.webhookDeliveries ∈ F.writes)
    (hcalls : ∀ c, c.notifies = false → F.calls c) (deliveryId : UUID) : Confined F (beginAttempt deliveryId) := by
  refine Prog.every_bind (confined_lockFound _ _) fun delivery _ => ?_
  cases delivery with
  | none => trivial
  | some delivery =>
    dsimp only
    split
    · trivial
    · refine Prog.every_bind (confined_select _) fun endpoint _ => ?_
      cases endpoint.filter (·.isActive) with
      | none => exact Prog.every_bind (confined_saveDelivery hD _ _) fun _ _ => trivial
      | some endpoint =>
        refine Prog.every_bind (confined_validateWebhookTarget hcalls _) fun target _ => ?_
        cases target with
        | error e => exact Prog.every_bind (confined_saveDelivery hD _ _) fun _ _ => trivial
        | ok u =>
          refine Prog.every_bind (confined_call _ (hcalls _ rfl)) fun secret _ => ?_
          refine Prog.every_bind (confined_orRaise _ _) fun secret _ => ?_
          refine Prog.every_bind confined_now fun at_ _ => ?_
          exact Prog.every_bind (confined_saveDelivery hD _ _) fun _ _ => trivial

theorem confined_finishAttempt (hD : Table.webhookDeliveries ∈ F.writes)
    (held : WebhookDelivery) (result : HttpResult) : Confined F (finishAttempt held result) := by
  refine Prog.every_bind (confined_lockFound _ _) fun row _ => ?_
  cases row with
  | none => cases result <;> trivial
  | some row =>
    cases result with
    | error text =>
      refine Prog.every_bind confined_now fun at_ _ => ?_
      exact Prog.every_bind (confined_saveDelivery hD _ _) fun _ _ => trivial
    | response statusCode =>
      exact Prog.every_bind (confined_saveDelivery hD _ _) fun _ _ => trivial

omit [Platform] in
theorem confined_cleanupExpiredState (hI : Table.invitations ∈ F.writes)
    (hR : Table.idempotencyRecords ∈ F.deletes) (hT : Table.refreshTokens ∈ F.deletes) :
    Confined F cleanupExpiredState := by
  refine Prog.every_bind confined_now fun at_ _ => ?_
  refine Prog.every_bind (confined_deleteWhere hR (by simp [cascadeTables]) _) fun _ _ => ?_
  refine Prog.every_bind (confined_deleteWhere hT (by simp [cascadeTables]) _) fun _ _ => ?_
  exact Prog.every_bind confined_now fun updatedAt _ => confined_updateWhere hI _ fun _ => rfl

end Services

end TenantFlow
