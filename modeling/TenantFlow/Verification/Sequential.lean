import TenantFlow.Verification.RequestScopes

/-!
# Requests one at a time

Rules for a handler that runs alone: what its parts find in the database and what they make
of it. `Ends` is the postcondition of a handler that returns; one that raises leaves the
database as it was.
-/

namespace TenantFlow

open JsonText Transactional

section Rules

variable {α β : Type} {oracle : Oracle Answer} {Q : β → Db Row → Prop} {db : Db Row} {F : Scope}

/-- Running alone from `db`, the program ends only as `Q` says. -/
abbrev Ends (oracle : Oracle Answer) (Q : β → Db Row → Prop) (p : App β) (db : Db Row) : Prop :=
  Runs oracle (fun _ _ => True) Q p db

/-- The two databases agree on the tables outside the scope. -/
def Scope.Agree (F : Scope) (db db' : Db Row) : Prop :=
  ∀ T, T ∉ F.writes → T ∉ F.deletes → db' T = db T

theorem Confined.ends {p : App α} (h : Confined F p) :
    Ends oracle (fun _ db' => F.Agree db db') p db := by
  have hallowed : Runs oracle (fun s _ => F.Allows s) (fun _ _ => True) p db := h.runs
  have hruns := hallowed.frame (I := F.Agree db)
    (fun s db₁ env hs hdb₁ T hw hd => (hs.keeps_table hw hd env db₁).trans (hdb₁ T hw hd))
    (fun _ _ _ => rfl)
  exact fun n => ((hruns n).imp fun _ _ _ => trivial).mono fun _ _ hQ => hQ.2

theorem ends_confined {p : App α} {f : α → App β} (hp : Confined F p)
    (h : ∀ a db', F.Agree db db' → Ends oracle Q (f a) db') : Ends oracle Q (p.bind f) db :=
  runs_bind (hp.ends.mono h)

/-- What holds before, and after every successful end, holds after the transaction. -/
theorem Runs.transaction_either {I : Db Row → Prop} {p : App α}
    (h : Ends oracle (fun _ db' => I db') p db) (hI : I db) : I (transaction oracle p db).2 := by
  cases hres : (transaction oracle p db).1 with
  | ok a => exact h.transaction hres
  | error e =>
    rw [transaction_error hres]
    exact hI

theorem ends_ofExcept {x : Except Failure α} {f : α → App β}
    (h : ∀ a, x = .ok a → Ends oracle Q (f a) db) :
    Ends oracle Q ((Prog.ofExcept x).bind f) db := by
  cases x with
  | ok a => exact h a rfl
  | error e => exact runs_raise e

theorem ends_of_ofExcept {x : Except Failure β} (h : ∀ a, x = .ok a → Q a db) :
    Ends oracle Q (Prog.ofExcept x) db := by
  cases x with
  | ok a => exact runs_ret (h a rfl)
  | error e => exact runs_raise e

theorem ends_validated {args : Option α} {ok : α → Bool} {f : α → App β}
    (h : ∀ a, args = some a → ok a = true → Ends oracle Q (f a) db) :
    Ends oracle Q ((validated args ok).bind f) db := by
  cases args with
  | none => exact runs_raise _
  | some a =>
    cases hok : ok a with
    | true => simpa [validated, hok] using h a rfl hok
    | false => simpa [validated, hok] using runs_raise _

theorem ends_select {q : Db Row → α} {f : α → App β} (h : Ends oracle Q (f (q db)) db) :
    Ends oracle Q ((select q).bind f) db :=
  runs_select trivial h

theorem ends_selectForUpdate {t : Table} {q : Db Row → Option (Row t)} {f : Option (Row t) → App β}
    (h : Ends oracle Q (f (q db)) db) : Ends oracle Q ((selectForUpdate t q).bind f) db :=
  runs_selectForUpdate trivial h

theorem ends_call {c : Call} {f : Answer c → App β} (h : ∀ x, Ends oracle Q (f x) db) :
    Ends oracle Q ((call c).bind f) db :=
  runs_call trivial fun _ => h _

theorem ends_rowDefaults {f : RowDefaults → App β} (h : ∀ d, Ends oracle Q (f d) db) :
    Ends oracle Q (rowDefaults.bind f) db :=
  runs_call trivial fun _ => runs_call trivial fun _ => runs_call trivial fun _ => h _

theorem ends_insertRow {t : Table} {r : Row t} {f : Unit → App β}
    (h : insertable db r = .ok () → Ends oracle Q (f ()) ((Op.insert t r).apply db)) :
    Ends oracle Q ((insertRow r).bind f) db :=
  runs_insert trivial h fun _ => runs_raise _

theorem ends_updateRow {t : Table} {id : UUID} {g : Row t → Row t} {f : Unit → App β}
    (h : updatable db t id g = .ok () → Ends oracle Q (f ()) ((Op.update t id g).apply db)) :
    Ends oracle Q ((updateRow t id g).bind f) db :=
  runs_update trivial h fun _ => runs_raise _

/-- A delete without cascades. -/
theorem ends_deleteRow {t : Table} {id : UUID} {f : Unit → App β}
    (ht : ∀ db : Db Row, Schema.cascade db t id = [])
    (h : Ends oracle Q (f ()) ((Op.delete t id).apply db)) :
    Ends oracle Q ((deleteRow t id).bind f) db := by
  refine runs_delete trivial ?_
  rw [replay_deleteOps (ht db)]
  exact h

theorem ends_flush {t : Table} {id : UUID} {dirty : Bool} {patch : Datetime → Row t → Row t}
    {f : Option Datetime → App β}
    (hdirty : ∀ at_, dirty = true → updatable db t id (patch at_) = .ok () →
      Ends oracle Q (f (some at_)) ((Op.update t id (patch at_)).apply db))
    (hclean : dirty = false → Ends oracle Q (f none) db) :
    Ends oracle Q ((flush t id dirty patch).bind f) db := by
  cases dirty with
  | true =>
    refine runs_call trivial fun n => runs_update trivial (fun hup => ?_) fun _ => runs_raise _
    exact hdirty _ rfl hup
  | false => exact hclean rfl

/-- A flush that the database accepts. -/
theorem run_flush {t : Table} {id : UUID} {patch : Datetime → Row t → Row t}
    (hup : ∀ updatedAt, updatable db t id (patch updatedAt) = .ok ()) (n : Nat) :
    (flush t id true patch).run (execStmt oracle) ⟨db, n⟩ =
      (.ok (some (oracle n .now)), ⟨(Op.update t id (patch (oracle n .now))).apply db, n + 2⟩) := by
  change ((updateRow t id (patch (oracle n .now))).bind fun _ => Prog.ret (some (oracle n .now))).run
    (execStmt oracle) ⟨db, n + 1⟩ = _
  have hrow : (updateRow t id (patch (oracle n .now))).run (execStmt oracle) ⟨db, n + 1⟩ =
      (.ok (), ⟨(Op.update t id (patch (oracle n .now))).apply db, n + 2⟩) := by
    change (checked (updatable db t id (patch (oracle n .now)))).run (execStmt oracle)
      ⟨replay (onlyIfOk _ (updatable db t id (patch (oracle n .now)))) db, n + 2⟩ = _
    rw [hup]
    rfl
  exact Prog.run_bind_ok hrow

end Rules

/-- Rows that an assignment leaves outside a selection. -/
theorem filter_map_eq {ρ : Type} {p : ρ → Bool} {g : ρ → ρ} {l : List ρ}
    (h : ∀ r ∈ l, g r = r ∨ p r = false ∧ p (g r) = false) :
    (l.map g).filter p = l.filter p := by
  induction l with
  | nil => rfl
  | cons r l ih =>
    have ih := ih fun s hs => h s (List.mem_cons_of_mem r hs)
    rcases h r List.mem_cons_self with heq | ⟨hr, hgr⟩
    · simp [List.filter_cons, heq, ih]
    · simp [hr, hgr, ih]

theorem mem_of_findMembershipById {db : Db Row} {organizationId membershipId : UUID}
    {m : OrganizationMembership} (h : findMembershipById organizationId membershipId db = some m) :
    m ∈ db .organizationMemberships ∧ m.id = membershipId ∧ m.organizationId = organizationId :=
  ⟨List.mem_of_find?_eq_some h, by simpa using List.find?_some h⟩

/-! ## The dependency of the organization routes -/

section Dependency

variable {oracle : Oracle Answer} {db : Db Row} {organizationId userId : UUID}

theorem find_user_id {user : User} (h : (db .users).find? (·.id = userId) = some user) :
    user.id = userId := by
  simpa using List.find?_some h

/-- What the dependency of a route finds in a database. -/
def contextOf (permission : Permission) (organizationId userId : UUID) (db : Db Row) :
    Except Failure OrganizationContext :=
  match ((db .users).find? (·.id = userId)).filter (·.isActive) with
  | none => .error (authenticationError "User account is unavailable")
  | some user =>
    match findMembership organizationId userId db with
    | none => .error (notFoundError "ORGANIZATION_NOT_FOUND" "Organization was not found")
    | some membership =>
      if hasPermission membership.role permission then .ok ⟨user, membership⟩
      else .error (forbiddenError
        ("Role '" ++ membership.role.str ++ "' lacks permission '" ++ permission.str ++ "'"))

theorem run_select {α : Type} (q : Db Row → α) (st : Session Row) :
    (select q).run (execStmt oracle) st = (.ok (q st.db), ⟨st.db, st.clock + 1⟩) := rfl

theorem run_getCurrentUser (oracle : Oracle Answer) (userId : UUID) (st : Session Row) :
    (getCurrentUser userId).run (execStmt oracle) st =
      (match ((st.db .users).find? (·.id = userId)).filter (·.isActive) with
        | none => .error (authenticationError "User account is unavailable")
        | some user => .ok user, ⟨st.db, st.clock + 1⟩) := by
  rw [getCurrentUser, Prog.bind_eq, Prog.run_bind_ok (run_select _ st)]
  cases (st.db .users).find? (·.id = userId) with
  | none => rfl
  | some user => cases hactive : user.isActive <;> simp [hactive, Option.filter, raise]

theorem run_requirePermission (oracle : Oracle Answer) (permission : Permission)
    (organizationId userId : UUID) (st : Session Row) :
    ∃ n, (requirePermission permission organizationId userId).run (execStmt oracle) st =
      (contextOf permission organizationId userId st.db, ⟨st.db, n⟩) := by
  unfold requirePermission getOrganizationContext contextOf
  simp only [Prog.bind_eq, Prog.run_bind, run_getCurrentUser]
  cases huser : ((st.db .users).find? (·.id = userId)).filter (·.isActive) with
  | none => exact ⟨_, rfl⟩
  | some user =>
    obtain ⟨hfind, _⟩ := Option.filter_eq_some_iff.mp huser
    have hid := find_user_id hfind
    simp only [run_select, hid]
    cases hm : findMembership organizationId userId st.db with
    | none => exact ⟨_, rfl⟩
    | some membership =>
      cases hp : hasPermission membership.role permission with
      | false => exact ⟨st.clock + 2, by simp [assertPermission, hp, raise]⟩
      | true => exact ⟨st.clock + 2, by simp [assertPermission, hp]⟩

theorem ends_requirePermission {β : Type} {Q : β → Db Row → Prop} {permission : Permission}
    {f : OrganizationContext → App β}
    (h : ∀ context, contextOf permission organizationId userId db = .ok context →
      Ends oracle Q (f context) db) :
    Ends oracle Q ((requirePermission permission organizationId userId).bind f) db := by
  refine runs_bind fun n => Prog.along_of_run fun context st hrun => ?_
  obtain ⟨m, hrun'⟩ := run_requirePermission oracle permission organizationId userId ⟨db, n⟩
  rw [hrun'] at hrun
  obtain ⟨hcontext, hst⟩ := Prod.mk.inj hrun
  rw [← hst]
  exact h context hcontext

theorem ends_getCurrentUser {β : Type} {Q : β → Db Row → Prop} {f : User → App β}
    (h : ∀ user, (db .users).find? (·.id = userId) = some user → user.isActive = true →
      Ends oracle Q (f user) db) :
    Ends oracle Q ((getCurrentUser userId).bind f) db := by
  refine runs_bind (ends_select ?_)
  cases hfound : (db .users).find? (·.id = userId) with
  | none => exact runs_raise _
  | some user =>
    cases hactive : user.isActive with
    | true => simpa [hactive] using runs_ret (h user hfound hactive)
    | false =>
      simp only [hactive, Bool.false_eq_true, ↓reduceIte]
      exact runs_raise _

/-- Around the operation, an idempotent endpoint touches its records only. -/
theorem ends_idempotently [Platform] {ρ : Type} {I : Db Row → Prop} {uid : UUID}
    {organization : Option UUID} {scope key : String} {payload : Json} {missingBody : String}
    {modelValidate : Json → Except Failure ρ} {modelDump : ρ → Json} {execute : App ρ}
    (hkeep : ∀ db db', ({ writes := [.idempotencyRecords] } : Scope).Agree db db' → I db → I db')
    (hexecute : ∀ db, I db → Ends oracle (fun _ db' => I db') execute db) (hI : I db) :
    Ends oracle (fun _ db' => I db') (idempotently uid organization scope key payload missingBody
      modelValidate modelDump execute) db := by
  refine ends_confined (F := { writes := [.idempotencyRecords] })
    (confined_acquireIdempotency (by simp) _ _ _ _ _) fun state db₁ hagree => ?_
  have h₁ := hkeep db db₁ hagree hI
  split
  · cases state.replayBody with
    | none => exact runs_raise _
    | some body => exact ends_ofExcept fun _ _ => runs_ret h₁
  · refine runs_bind ((hexecute db₁ h₁).mono fun response db₂ h₂ => ?_)
    refine ends_confined (F := { writes := [.idempotencyRecords] })
      (confined_updateRow (by simp) _ fun _ => rfl) fun _ db₃ hagree => runs_ret ?_
    exact hkeep db₂ db₃ hagree h₂

end Dependency

/-! ## Checks -/

/-- The tables that foreign keys refer to. -/
def parentTables : List Table := [.users, .organizations, .projects, .tasks, .webhookEndpoints]

/-- Every row passes its checks. -/
def Checked (db : Db Row) : Prop := ∀ t, ∀ r ∈ db t, Schema.check db r = none

section Checks

variable {db db' : Db Row}

/-- Parents stay, up to the columns that updates assign. -/
def ParentsKept (db db' : Db Row) : Prop :=
  ∀ t ∈ parentTables, ∀ x ∈ db t, ∃ x' ∈ db' t, blank x' = blank x

theorem ParentsKept.hasUser (h : ParentsKept db db') {id : UUID} (hid : hasUser db id = true) :
    hasUser db' id = true := by
  simp only [TenantFlow.hasUser, List.any_eq_true, decide_eq_true_eq] at hid ⊢
  obtain ⟨x, hx, rfl⟩ := hid
  obtain ⟨x', hx', hblank⟩ := h .users (by simp [parentTables]) x hx
  exact ⟨x', hx', pk_of_blank hblank⟩

theorem ParentsKept.hasOrganization (h : ParentsKept db db') {id : UUID}
    (hid : hasOrganization db id = true) : hasOrganization db' id = true := by
  simp only [TenantFlow.hasOrganization, List.any_eq_true, decide_eq_true_eq] at hid ⊢
  obtain ⟨x, hx, rfl⟩ := hid
  obtain ⟨x', hx', hblank⟩ := h .organizations (by simp [parentTables]) x hx
  exact ⟨x', hx', pk_of_blank hblank⟩

theorem ParentsKept.hasEndpoint (h : ParentsKept db db') {id : UUID}
    (hid : (db .webhookEndpoints).any (·.id = id) = true) :
    (db' .webhookEndpoints).any (·.id = id) = true := by
  simp only [List.any_eq_true, decide_eq_true_eq] at hid ⊢
  obtain ⟨x, hx, rfl⟩ := hid
  obtain ⟨x', hx', hblank⟩ := h .webhookEndpoints (by simp [parentTables]) x hx
  exact ⟨x', hx', pk_of_blank hblank⟩

theorem ParentsKept.hasProject (h : ParentsKept db db') {organizationId id : UUID}
    (hid : (db .projects).any (fun p => p.organizationId = organizationId ∧ p.id = id) = true) :
    (db' .projects).any (fun p => p.organizationId = organizationId ∧ p.id = id) = true := by
  simp only [List.any_eq_true, decide_eq_true_eq] at hid ⊢
  obtain ⟨x, hx, rfl, rfl⟩ := hid
  obtain ⟨x', hx', hblank⟩ := h .projects (by simp [parentTables]) x hx
  simp only [blank, Project.mk.injEq] at hblank
  exact ⟨x', hx', hblank.2.1, hblank.1⟩

theorem ParentsKept.hasTask (h : ParentsKept db db') {organizationId id : UUID}
    (hid : (db .tasks).any (fun t => t.organizationId = organizationId ∧ t.id = id) = true) :
    (db' .tasks).any (fun t => t.organizationId = organizationId ∧ t.id = id) = true := by
  simp only [List.any_eq_true, decide_eq_true_eq] at hid ⊢
  obtain ⟨x, hx, rfl, rfl⟩ := hid
  obtain ⟨x', hx', hblank⟩ := h .tasks (by simp [parentTables]) x hx
  simp only [blank, Task.mk.injEq] at hblank
  exact ⟨x', hx', hblank.2.1, hblank.1⟩

theorem all_mono {α : Type} {p q : α → Bool} {o : Option α} (h : ∀ a, p a = true → q a = true)
    (ho : o.all p = true) : o.all q = true := by
  cases o with
  | none => rfl
  | some a => exact h a ho

/-- A row that passes its checks goes on passing them while its parents stay. -/
theorem ParentsKept.check (h : ParentsKept db db') {t : Table} {r : Row t}
    (hr : Schema.check db r = none) : Schema.check db' r = none := by
  obtain ⟨hcolumns, hconstraints, hreferences⟩ := check_eq_none_iff.mp hr
  refine check_eq_none_iff.mpr ⟨hcolumns, hconstraints, ?_⟩
  have hu : ∀ id, TenantFlow.hasUser db id = true → TenantFlow.hasUser db' id = true :=
    fun _ => h.hasUser
  have ho : ∀ id, TenantFlow.hasOrganization db id = true →
      TenantFlow.hasOrganization db' id = true := fun _ => h.hasOrganization
  cases t <;> simp only [referencesOk, Bool.and_eq_true] at hreferences ⊢
  case organizations => exact hu _ hreferences
  case organizationMemberships => exact ⟨ho _ hreferences.1, hu _ hreferences.2⟩
  case invitations => exact ⟨ho _ hreferences.1, hu _ hreferences.2⟩
  case projects => exact ⟨ho _ hreferences.1, hu _ hreferences.2⟩
  case tasks =>
    exact ⟨⟨⟨ho _ hreferences.1.1.1, h.hasProject hreferences.1.1.2⟩,
      all_mono hu hreferences.1.2⟩, hu _ hreferences.2⟩
  case attachments =>
    exact ⟨⟨⟨ho _ hreferences.1.1.1, all_mono (fun _ => h.hasProject) hreferences.1.1.2⟩,
      all_mono (fun _ => h.hasTask) hreferences.1.2⟩, hu _ hreferences.2⟩
  case refreshTokens => exact hu _ hreferences
  case idempotencyRecords => exact ⟨all_mono ho hreferences.1, hu _ hreferences.2⟩
  case webhookEndpoints => exact ⟨ho _ hreferences.1, hu _ hreferences.2⟩
  case webhookDeliveries => exact h.hasEndpoint hreferences
  case subscriptions => exact ho _ hreferences
  case auditLogs => exact ⟨ho _ hreferences.1, all_mono hu hreferences.2⟩

/-- A statement that deletes no parents keeps every row checked. -/
theorem Scope.Allows.checked {F : Scope} (hF : ∀ t ∈ parentTables, t ∉ F.deletes)
    {s : Stmt Row UUID Call} (hs : F.Allows s) (hdb : Unclashing db) (h : Checked db)
    (env : (c : Call) → Answer c) : Checked (replay (s.eval env db).2 db) := by
  have hkept : ParentsKept db (replay (s.eval env db).2 db) := fun t ht x hx =>
    replay_keeps_rows blank (fun _ hop => hF t ht (hs.ops hop)) (fun _ _ hop => hs.ops hop) hx
  intro t r hr
  by_cases hold : r ∈ db t
  · exact hkept.check (h t r hold)
  · rcases mem_view_of_stmt hr hold with ⟨hins, _⟩ | ⟨id, f, _, hup, x, hx, hid, rfl⟩
    · exact hkept.check (insertable_ok hins).1
    · exact hkept.check (hdb.updatable_ok hup hx hid).1

/-- A transaction that deletes no parents keeps every row checked. -/
theorem Confined.transaction_checked {α : Type} {F : Scope} {p : App α} {oracle : Oracle Answer}
    (hp : Confined F p) (hF : ∀ t ∈ parentTables, t ∉ F.deletes) (hdb : Unclashing db)
    (h : Checked db) : Checked (transaction oracle p db).2 := by
  have hboth : Unclashing (transaction oracle p db).2 ∧ Checked (transaction oracle p db).2 :=
    hp.runs.transaction_invariant (I := fun db => Unclashing db ∧ Checked db)
      (fun _ _ env hs hI => ⟨hI.1.eval hs.within env, hs.checked hF hI.1 hI.2 env⟩) ⟨hdb, h⟩
  exact hboth.2

end Checks

/-! ## Runs of requests -/

section Served

variable [Platform]

/-- A request in its own transaction: the response, and the database afterwards. -/
def respond (oracle : Oracle Answer) (request : Request) (db : Db Row) :
    Except Failure Response × Db Row :=
  transaction oracle request.handler db

/-- The databases that requests reach from empty tables, one at a time and with any outside
answers, if each satisfies `ok` where it is made. -/
inductive Served (ok : Request → Db Row → Prop) : Db Row → Prop where
  | empty : Served ok fun _ => []
  | request {db : Db Row} (h : Served ok db) (request : Request) (oracle : Oracle Answer)
      (hok : ok request db) : Served ok (respond oracle request db).2

/-- The database after a list of requests, one after the other. -/
def respondAll (requests : List (Request × Oracle Answer)) (db : Db Row) : Db Row :=
  requests.foldl (fun db r => (respond r.2 r.1 db).2) db

theorem Served.respondAll {ok : Request → Db Row → Prop} {db : Db Row} (h : Served ok db)
    {requests : List (Request × Oracle Answer)} (hok : ∀ r ∈ requests, ∀ db, ok r.1 db) :
    Served ok (respondAll requests db) := by
  induction requests generalizing db with
  | nil => exact h
  | cons r requests ih =>
    exact ih (h.request r.1 r.2 (hok r List.mem_cons_self db))
      fun r' hr' => hok r' (List.mem_cons_of_mem r hr')

theorem Served.unclashing {ok : Request → Db Row → Prop} {db : Db Row} (h : Served ok db) :
    Unclashing db := by
  induction h with
  | empty => exact ⟨fun _ _ => Nat.zero_le 1, fun _ _ hr => absurd hr (by simp)⟩
  | request _ request oracle _ ih => exact (confined_request request).transaction_unclashing ih

end Served

end TenantFlow
