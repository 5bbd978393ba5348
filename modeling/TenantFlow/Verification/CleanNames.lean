import TenantFlow.Verification.Sample
import TenantFlow.Verification.Sequential

/-!
# Stored names

The schemas bound the length of a name before it is trimmed, and only the creating operations
trim it. Names stay clean in runs whose requests bring names that are long enough when trimmed,
and patches that bring trimmed names.
-/

namespace TenantFlow

open JsonText Transactional

section Names

/-- Nothing to trim, and long enough. -/
structure CleanText (minLength : Nat) (s : String) : Prop where
  trimmed : strip s = s
  length : minLength ≤ s.length

/-- The name in a row is clean, by the minimal length of its create schema. -/
def CleanName : (t : Table) → Row t → Prop
  | .users, r => CleanText 2 r.fullName
  | .organizations, r => CleanText 2 r.name
  | .projects, r => ∀ name ∈ r.name, CleanText 2 name
  | .tasks, r => ∀ title ∈ r.title, CleanText 1 title
  | _, _ => True

/-- Every name is clean, and no two projects of an organization differ by whitespace around
their names. -/
structure NamesClean (db : Db Row) : Prop where
  users : ∀ user ∈ db .users, CleanText 2 user.fullName
  organizations : ∀ organization ∈ db .organizations, CleanText 2 organization.name
  projects : ∀ project ∈ db .projects, ∀ name ∈ project.name, CleanText 2 name
  tasks : ∀ task ∈ db .tasks, ∀ title ∈ task.title, CleanText 1 title
  distinct : ∀ p ∈ db .projects, ∀ q ∈ db .projects, p.organizationId = q.organizationId →
    ∀ a ∈ p.name, ∀ b ∈ q.name, strip a = strip b → p = q

/-- The names that the request brings are long enough when trimmed, and a patch brings them
trimmed. -/
def Request.BringsCleanNames : Request → Prop
  | .register (some payload) => 2 ≤ (strip payload.fullName).length
  | .createOrganization _ (some (payload, _)) => 2 ≤ (strip payload.name).length
  | .organization _ _ (.createProject (some payload)) => 2 ≤ (strip payload.name).length
  | .organization _ _ (.createTask (some payload)) => 1 ≤ (strip payload.title).length
  | .organization _ _ (.updateProject (some (_, payload))) =>
    ∀ name, payload.name = some (some name) → strip name = name
  | .organization _ _ (.updateTask (some (_, payload))) =>
    ∀ title, payload.title = some (some title) → strip title = title
  | _ => True

section Parts

variable {α β : Type}

theorem writesGood_select (q : Db Row → α) : WritesGood CleanName
    (fun x => ∃ db : Db Row, AllGood CleanName db ∧ x = q db) (select q) :=
  ⟨trivial, fun _ ⟨_, db, hdb, hx⟩ => ⟨db, hdb, hx⟩⟩

/-- A part that writes no row with a name. -/
theorem writesGood_of_confined {F : Scope} {p : App α} (hp : Confined F p)
    (hF : ∀ t ∈ F.writes, t ∉ [Table.users, .organizations, .projects, .tasks]) :
    WritesGood CleanName (fun _ => True) p := by
  refine hp.writesGood fun t ht r => ?_
  have hother := hF t ht
  cases t <;> simp_all [CleanName]

theorem writesGood_insertRow {t : Table} {r : Row t} (hr : CleanName t r) :
    WritesGood CleanName (fun _ => True) (insertRow r) :=
  ⟨hr, fun x _ => by cases x <;> trivial⟩

theorem writesGood_flush {t : Table} (id : UUID) (dirty : Bool) {patch : Datetime → Row t → Row t}
    (h : ∀ at_ r, CleanName t r → CleanName t (patch at_ r)) :
    WritesGood CleanName (fun _ => True) (flush t id dirty patch) := by
  unfold flush
  split
  · refine Prog.every_bind (χ := fun _ => True) ⟨trivial, fun _ _ => trivial⟩ fun at_ _ => ?_
    refine Prog.every_bind (χ := fun _ => True) ?_ fun _ _ => trivial
    exact ⟨h at_, fun x _ => by cases x <;> trivial⟩
  · trivial

/-- The scope of what a use case does beside its own row. -/
def plainScope : Scope where
  writes := [.auditLogs, .webhookDeliveries, .idempotencyRecords, .organizationMemberships]
  calls := fun _ => True

theorem writesGood_plain {p : App α} (hp : Confined plainScope p) :
    WritesGood CleanName (fun _ => True) p :=
  writesGood_of_confined hp (by decide)

theorem writesGood_validated {args : Option α} {ok : α → Bool} {f : α → App β}
    (h : ∀ a, args = some a → ok a = true → WritesGood CleanName (fun _ => True) (f a)) :
    WritesGood CleanName (fun _ => True) ((validated args ok).bind f) := by
  cases args with
  | none => trivial
  | some a =>
    cases hok : ok a with
    | true => simpa [validated, hok] using h a rfl hok
    | false => simp [validated, hok]

/-- The permission check and the validation before the body of a route. -/
theorem writesGood_route {permission : Permission} {organizationId userId : UUID}
    {args : Option α} {ok : α → Bool} {f : OrganizationContext → α → App β}
    (h : ∀ context a, args = some a → ok a = true →
      WritesGood CleanName (fun _ => True) (f context a)) :
    WritesGood CleanName (fun _ => True)
      ((requirePermission permission organizationId userId).bind fun context =>
        (validated args ok).bind fun a => f context a) :=
  Prog.every_bind (writesGood_plain (confined_requirePermission _ _ _)) fun context _ =>
    writesGood_validated (h context)

/-- What follows the write of a project or a task. -/
theorem writesGood_announce [Platform] (organizationId : UUID) (actorId : Option UUID)
    (action entityType : String) (entityId : Option UUID) (metadata : List (String × Json))
    (eventType : String) (payload : List (String × Json)) (a : α) :
    WritesGood CleanName (fun _ => True) (do
      recordAudit organizationId actorId action entityType entityId metadata
      let _ ← emitEvent organizationId eventType payload
      return a) := by
  refine writesGood_plain ?_
  refine Prog.every_bind (confined_recordAudit (by simp [plainScope]) _ _ _ _ _) fun _ _ => ?_
  exact Prog.every_bind (confined_emitEvent (by simp [plainScope]) (fun _ => trivial) _ _ _) fun _ _ => trivial

end Parts

/-! ## Where names are written -/

theorem CleanText.of_strip {minLength : Nat} {s : String}
    (h : minLength ≤ (strip s).length) : CleanText minLength (strip s) :=
  ⟨strip_strip s, h⟩

theorem writesGood_registerUser [Platform] {payload : RegisterRequest}
    (h : 2 ≤ (strip payload.fullName).length) :
    WritesGood CleanName (fun _ => True) (registerUser payload) := by
  refine Prog.every_bind (writesGood_plain (confined_select _)) fun existing _ => ?_
  split
  · trivial
  · refine Prog.every_bind (writesGood_plain (confined_call _ trivial)) fun hash _ => ?_
    refine Prog.every_bind (writesGood_plain confined_rowDefaults) fun d _ => ?_
    exact Prog.every_bind (writesGood_insertRow (CleanText.of_strip h)) fun _ _ => trivial

theorem writesGood_createOrganization {user : User}
    {payload : OrganizationCreate} (h : 2 ≤ (strip payload.name).length) :
    WritesGood CleanName (fun _ => True) (createOrganization user payload) := by
  refine Prog.every_bind (writesGood_plain (confined_select _)) fun taken _ => ?_
  split
  · trivial
  · refine Prog.every_bind (writesGood_plain confined_rowDefaults) fun d _ => ?_
    refine Prog.every_bind (writesGood_insertRow (CleanText.of_strip h)) fun _ _ => ?_
    refine writesGood_plain ?_
    refine Prog.every_bind confined_rowDefaults fun d _ => ?_
    refine Prog.every_bind (confined_insertRow (by simp [plainScope]) _) fun _ _ => ?_
    exact Prog.every_bind (confined_recordAudit (by simp [plainScope]) _ _ _ _ _) fun _ _ => trivial

theorem writesGood_idempotently [Platform] {ρ : Type} {userId : UUID} {organizationId : Option UUID}
    {scope key : String} {payload : Json} {missingBody : String}
    {modelValidate : Json → Except Failure ρ} {modelDump : ρ → Json} {execute : App ρ}
    (h : WritesGood CleanName (fun _ => True) execute) :
    WritesGood CleanName (fun _ => True) (idempotently userId organizationId scope key payload
      missingBody modelValidate modelDump execute) := by
  refine Prog.every_bind (writesGood_plain (confined_acquireIdempotency (by simp [plainScope]) _ _ _ _ _))
    fun state _ => ?_
  split
  · cases state.replayBody with
    | none => trivial
    | some body => exact writesGood_plain (Prog.every_bind (confined_ofExcept _) fun _ _ => trivial)
  · refine Prog.every_bind h fun response _ => writesGood_plain ?_
    exact Prog.every_bind (confined_updateRow (by decide) _ fun _ => rfl) fun _ _ => trivial

theorem writesGood_createProject [Platform] {organizationId : UUID} {user : User}
    {payload : ProjectCreate} (h : 2 ≤ (strip payload.name).length) :
    WritesGood CleanName (fun _ => True) (createProject organizationId user payload) := by
  refine Prog.every_bind (writesGood_plain confined_rowDefaults) fun d _ => ?_
  refine Prog.every_bind (writesGood_insertRow ?_) fun _ _ => writesGood_announce _ _ _ _ _ _ _ _ _
  rintro name ⟨⟩
  exact CleanText.of_strip h

theorem writesGood_createTask [Platform] {organizationId : UUID} {user : User}
    {payload : TaskCreate} (h : 1 ≤ (strip payload.title).length) :
    WritesGood CleanName (fun _ => True) (createTask organizationId user payload) := by
  refine Prog.every_bind (writesGood_plain (confined_validateProject _ _)) fun _ _ => ?_
  refine Prog.every_bind (writesGood_plain (confined_validateAssignee _ _)) fun _ _ => ?_
  refine Prog.every_bind (writesGood_plain confined_rowDefaults) fun d _ => ?_
  refine Prog.every_bind (writesGood_insertRow ?_) fun _ _ => writesGood_announce _ _ _ _ _ _ _ _ _
  rintro title ⟨⟩
  exact CleanText.of_strip h

/-- A name after the `setattr` loop. -/
theorem clean_getD {lo hi : Nat} {sent : Option (Option String)} {current : Option String}
    (hvalid : sent.all (·.all (lengthIn lo hi)) = true)
    (hsent : ∀ name, sent = some (some name) → strip name = name)
    (hcurrent : ∀ name ∈ current, CleanText lo name) :
    ∀ name ∈ sent.getD current, CleanText lo name := by
  cases sent with
  | none => exact hcurrent
  | some value =>
    rintro name hname
    obtain rfl : value = some name := hname
    simp only [Option.all_some, lengthIn, Bool.and_eq_true, decide_eq_true_eq] at hvalid
    exact ⟨hsent name rfl, hvalid.1⟩

theorem writesGood_updateProject [Platform] {organizationId projectId : UUID} {user : User}
    {payload : ProjectUpdate} (hvalid : payload.valid = true)
    (h : ∀ name, payload.name = some (some name) → strip name = name) :
    WritesGood CleanName (fun _ => True) (updateProject organizationId projectId user payload) := by
  simp only [ProjectUpdate.valid, Bool.and_eq_true] at hvalid
  refine Prog.every_bind (χ := CleanName .projects) ?_ fun project hproject => ?_
  · refine Prog.every_bind (writesGood_select _) ?_
    rintro _ ⟨db, hdb, rfl⟩
    cases hfound : findProject organizationId projectId db with
    | none => trivial
    | some project => exact hdb .projects project (List.mem_of_find?_eq_some hfound)
  · refine Prog.every_bind (writesGood_flush _ _ fun at_ r hr => ?_) fun _ _ =>
      writesGood_announce _ _ _ _ _ _ _ _ _
    exact (assign_iff (P := fun x : Option String => ∀ name ∈ x, CleanText 2 name) hproject
      hr).mpr (clean_getD hvalid.1 h hproject)

theorem writesGood_updateTask [Platform] {organizationId taskId : UUID} {user : User}
    {payload : TaskUpdate} (hvalid : payload.valid = true)
    (h : ∀ title, payload.title = some (some title) → strip title = title) :
    WritesGood CleanName (fun _ => True) (updateTask organizationId taskId user payload) := by
  simp only [TaskUpdate.valid, Bool.and_eq_true] at hvalid
  refine Prog.every_bind (χ := CleanName .tasks) ?_ fun task htask => ?_
  · refine Prog.every_bind (writesGood_select _) ?_
    rintro _ ⟨db, hdb, rfl⟩
    cases hfound : findTask organizationId taskId db with
    | none => trivial
    | some task => exact hdb .tasks task (List.mem_of_find?_eq_some hfound)
  · have hrest : ∀ eventType data, WritesGood CleanName (fun _ => True) (do
        let updatedAt ← flush .tasks task.id (Task.dirty task (payload.apply task))
          (Task.patch task (payload.apply task))
        recordAudit organizationId (some user.id) "task.updated" "task" (some task.id) []
        let _ ← emitEvent organizationId eventType data
        return { payload.apply task with updatedAt := updatedAt.getD task.updatedAt }) := by
      intro eventType data
      refine Prog.every_bind (writesGood_flush _ _ fun at_ r hr => ?_) fun _ _ =>
        writesGood_announce _ _ _ _ _ _ _ _ _
      exact (assign_iff (P := fun x : Option String => ∀ title ∈ x, CleanText 1 title) htask
        hr).mpr (clean_getD hvalid.1 h htask)
    cases payload.assigneeId with
    | none => exact hrest _ _
    | some assigneeId =>
      exact Prog.every_bind (writesGood_plain (confined_validateAssignee _ _)) fun _ _ => hrest _ _

/-- A request that brings clean names writes only clean names. -/
theorem writesGood_request [Platform] {request : Request}
    (h : request.BringsCleanNames) : WritesGood CleanName (fun _ => True) request.handler := by
  have hframe (hF : ∀ t ∈ request.scope.writes,
      t ∉ [Table.users, .organizations, .projects, .tasks]) :
      WritesGood CleanName (fun _ => True) request.handler :=
    writesGood_of_confined (confined_request request) hF
  cases request with
  | register args =>
    refine Prog.every_bind (χ := fun _ => True) ?_ fun _ _ => trivial
    refine writesGood_validated fun payload hargs _ => ?_
    obtain rfl := hargs
    exact Prog.every_bind (writesGood_registerUser h) fun _ _ =>
      writesGood_plain (confined_ofExcept _)
  | createOrganization userId args =>
    refine Prog.every_bind (χ := fun _ => True) ?_ fun _ _ => trivial
    refine Prog.every_bind (writesGood_plain (confined_getCurrentUser _)) fun user _ => ?_
    refine writesGood_validated fun a hargs _ => ?_
    obtain rfl := hargs
    refine writesGood_idempotently ?_
    exact Prog.every_bind (writesGood_createOrganization h) fun _ _ => trivial
  | organization organizationId userId request =>
    cases request with
    | createProject args =>
      refine Prog.every_bind (χ := fun _ => True) ?_ fun _ _ => trivial
      refine writesGood_route fun context payload hargs _ => ?_
      obtain rfl := hargs
      exact Prog.every_bind (writesGood_createProject h) fun _ _ =>
        writesGood_plain (confined_ofExcept _)
    | updateProject args =>
      refine Prog.every_bind (χ := fun _ => True) ?_ fun _ _ => trivial
      refine writesGood_route fun context a hargs hvalid => ?_
      obtain rfl := hargs
      exact Prog.every_bind (writesGood_updateProject hvalid h) fun _ _ =>
        writesGood_plain (confined_ofExcept _)
    | createTask args =>
      refine Prog.every_bind (χ := fun _ => True) ?_ fun _ _ => trivial
      refine writesGood_route fun context payload hargs _ => ?_
      obtain rfl := hargs
      exact Prog.every_bind (writesGood_createTask h) fun _ _ =>
        writesGood_plain (confined_ofExcept _)
    | updateTask args =>
      refine Prog.every_bind (χ := fun _ => True) ?_ fun _ _ => trivial
      refine writesGood_route fun context a hargs hvalid => ?_
      obtain rfl := hargs
      exact Prog.every_bind (writesGood_updateTask hvalid h) fun _ _ =>
        writesGood_plain (confined_ofExcept _)
    | _ => exact hframe (by simp [Request.scope, OrganizationRequest.scope])
  | _ => exact hframe (by simp [Request.scope])

/-! ## Runs -/

theorem Served.allClean [Platform] {db : Db Row}
    (h : Served (fun request _ => request.BringsCleanNames) db) : AllGood CleanName db := by
  induction h with
  | empty => exact fun t r hr => absurd hr List.not_mem_nil
  | request _ request oracle hok ih => exact (writesGood_request hok).transaction ih oracle

/-- In every run of requests that bring clean names, the stored names are clean throughout. -/
theorem names_clean [Platform] {db : Db Row}
    (h : Served (fun request _ => request.BringsCleanNames) db) : NamesClean db := by
  have hclean := h.allClean
  refine ⟨hclean .users, hclean .organizations, hclean .projects, hclean .tasks, ?_⟩
  intro p hp q hq horganization a ha b hb hsame
  have hname : a = b := by
    rw [← (hclean .projects p hp a ha).trimmed, hsame, (hclean .projects q hq b hb).trimmed]
  obtain rfl := hname
  by_contra hne
  have hkeys : pk p ≠ pk q := fun hpk => hne (h.unclashing.eq_of_pk hp hq hpk)
  have hclash := h.unclashing.unique .projects p hp q hq hkeys
  have hpa : p.name = some a := ha
  have hqa : q.name = some a := hb
  simp [clash, uniqueClash, sameValue, horganization, hpa, hqa] at hclash

end Names

section Sample

attribute [local instance] samplePlatform

/-- Ada registers, founds an organization and renames a project with a task. -/
def namingRun (newName : String) : List (Request × Oracle Answer) :=
  [(.register (some ⟨"ada@example.com", "correct horse", " Ada "⟩), tokenOracle 0),
    (.createOrganization ⟨1002⟩ (some (⟨"Acme", "acme"⟩, "first-key")), tokenOracle 200),
    (.organization ⟨1206⟩ ⟨1002⟩ (.createProject (some ⟨"Engine ", none⟩)), tokenOracle 500),
    (.organization ⟨1206⟩ ⟨1002⟩
      (.createTask (some ⟨⟨1502⟩, " Draft", none, .low, none, none⟩)), tokenOracle 600),
    (.organization ⟨1206⟩ ⟨1002⟩
      (.updateProject (some (⟨1502⟩, ⟨some (some newName), none, none⟩))), tokenOracle 700)]

/-- A patch stores its name untrimmed. -/
theorem patched_name_not_clean :
    Served (fun _ _ => True) (respondAll (namingRun " Mill ") fun _ => []) ∧
      ¬ NamesClean (respondAll (namingRun " Mill ") fun _ => []) := by
  refine ⟨Served.empty.respondAll fun _ _ _ => trivial, fun h => ?_⟩
  have hstored : (respondAll (namingRun " Mill ") (fun _ => []) .projects).any
      (fun p => p.name = some " Mill ") = true := by decide +kernel
  obtain ⟨p, hp, hname⟩ := List.any_eq_true.mp hstored
  have hclean := h.projects p hp " Mill " (by simpa using hname)
  exact absurd hclean.trimmed (by decide +kernel)

/-- A patch with a trimmed name. -/
theorem patched_name_clean :
    (respondAll (namingRun "Mill") (fun _ => []) .projects).any
      (fun p => p.name = some "Mill") = true ∧
    NamesClean (respondAll (namingRun "Mill") fun _ => []) := by
  refine ⟨by decide +kernel, names_clean (Served.empty.respondAll ?_)⟩
  intro r hr db
  simp only [namingRun, List.mem_cons, List.not_mem_nil, or_false] at hr
  rcases hr with rfl | rfl | rfl | rfl | rfl
  · change 2 ≤ _
    decide +kernel
  · change 2 ≤ _
    decide +kernel
  · change 2 ≤ _
    decide +kernel
  · change 1 ≤ _
    decide +kernel
  · rintro name ⟨⟩
    decide +kernel

end Sample

end TenantFlow
