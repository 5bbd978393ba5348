import TenantFlow.Library.Patch
import TenantFlow.Verification.Journals
import TenantFlow.Verification.Sample

/-!
# Concurrent patches

`update_task` and `update_project` read their row without a lock and assign every field that was
sent. The flush writes only columns whose new value differs from the loaded one, so a stale read
does no harm to a column that the payload leaves alone.
-/

namespace TenantFlow

open JsonText Transactional

/-! ## Fields -/

inductive TaskField where
  | title | description | status | priority | assigneeId | dueAt
  deriving DecidableEq, Repr

abbrev TaskField.Value : TaskField → Type
  | .title => Option String
  | .description => Option String
  | .status => Option TaskStatus
  | .priority => Option Priority
  | .assigneeId => Option UUID
  | .dueAt => Option PyDatetime

instance TaskField.decidableEqValue (f : TaskField) : DecidableEq f.Value := by
  cases f <;> infer_instance

def Task.get (task : Task) : (f : TaskField) → f.Value
  | .title => task.title
  | .description => task.description
  | .status => task.status
  | .priority => task.priority
  | .assigneeId => task.assigneeId
  | .dueAt => task.dueAt

/-- The value that a payload sends for a field. -/
def TaskUpdate.get (payload : TaskUpdate) : (f : TaskField) → Option f.Value
  | .title => payload.title
  | .description => payload.description
  | .status => payload.status
  | .priority => payload.priority
  | .assigneeId => payload.assigneeId
  | .dueAt => payload.dueAt

inductive ProjectField where
  | name | description | status
  deriving DecidableEq, Repr

abbrev ProjectField.Value : ProjectField → Type
  | .name => Option String
  | .description => Option String
  | .status => Option ProjectStatus

instance ProjectField.decidableEqValue (f : ProjectField) : DecidableEq f.Value := by
  cases f <;> infer_instance

def Project.get (project : Project) : (f : ProjectField) → f.Value
  | .name => project.name
  | .description => project.description
  | .status => project.status

def ProjectUpdate.get (payload : ProjectUpdate) : (f : ProjectField) → Option f.Value
  | .name => payload.name
  | .description => payload.description
  | .status => payload.status

/-- The `setattr` of one field, and its flush. -/
theorem assign_getD {α : Type} [DecidableEq α] (sent : Option α) (loaded current : α) :
    assign loaded (sent.getD loaded) current =
      sent.elim current fun v => if v = loaded then current else v := by
  cases sent <;> simp [assign]

/-- The flush of a task is the patch of its fields. -/
theorem Task.patch_get (payload : TaskUpdate) (loaded : Task) (updatedAt : Datetime) (r : Task) :
    (Task.patch loaded (payload.apply loaded) updatedAt r).get =
      (Patch.mk loaded.get payload.get).apply r.get := by
  funext f
  cases f with
  | title => exact assign_getD payload.title loaded.title r.title
  | description => exact assign_getD payload.description loaded.description r.description
  | status => exact assign_getD payload.status loaded.status r.status
  | priority => exact assign_getD payload.priority loaded.priority r.priority
  | assigneeId => exact assign_getD payload.assigneeId loaded.assigneeId r.assigneeId
  | dueAt => exact assign_getD payload.dueAt loaded.dueAt r.dueAt

theorem Project.patch_get (payload : ProjectUpdate) (loaded : Project) (updatedAt : Datetime)
    (r : Project) : (Project.patch loaded (payload.apply loaded) updatedAt r).get =
      (Patch.mk loaded.get payload.get).apply r.get := by
  funext f
  cases f with
  | name => exact assign_getD payload.name loaded.name r.name
  | description => exact assign_getD payload.description loaded.description r.description
  | status => exact assign_getD payload.status loaded.status r.status

/-- Without a flush no field was sent with another value. -/
theorem Task.clean_get {payload : TaskUpdate} {loaded : Task}
    (h : Task.dirty loaded (payload.apply loaded) = false) (f : TaskField) (v : f.Value)
    (hv : payload.get f = some v) : v = loaded.get f := by
  simp only [Task.dirty, TaskUpdate.apply, Bool.or_eq_false_iff] at h
  cases f <;> simp_all [TaskUpdate.get, Task.get]

theorem Project.clean_get {payload : ProjectUpdate} {loaded : Project}
    (h : (decide ((payload.apply loaded).name ≠ loaded.name) ||
      decide ((payload.apply loaded).description ≠ loaded.description) ||
      decide ((payload.apply loaded).status ≠ loaded.status)) = false) (f : ProjectField)
    (v : f.Value) (hv : payload.get f = some v) : v = loaded.get f := by
  simp only [ProjectUpdate.apply, Bool.or_eq_false_iff] at h
  cases f <;> simp_all [ProjectUpdate.get, Project.get]

/-! ## A run of patches of one row -/

section Runs

variable {Column : Type} {Value : Column → Type} [∀ c, DecidableEq (Value c)] {t : Table}
  {get : Row t → (c : Column) → Value c} {id : UUID}

def patchTopic (t : Table) : Topic Table Call where
  tables t' := t' = t
  calls _ := false

/-- The journal of a request that has read a row and has patched it at most. -/
structure PatchedFrom (get : Row t → (c : Column) → Value c) (id : UUID)
    (assigned : (c : Column) → Option (Value c)) (loaded : Row t) (journal : Journal) : Prop where
  read : .read t loaded ∈ journal
  key : pk loaded = id
  patched : ∃ g : Row t → Row t,
    (∀ db, replay (writesIn journal) db t = (db t).map fun r => if pk r = id then g r else r) ∧
    ∀ r, blank (g r) = blank r ∧ get (g r) = (Patch.mk (get loaded) assigned).apply (get r)

variable {ι : Type} {α : Type} {W D : ι → Table → Prop}
  {post : ι → Journal → α → Prop} {db : Db Row} {journals : ι → Journal}
  {sys : Sys Row UUID Answer Failure α ι} {row : Row t} {patch : ι → Patch Value}

/-- The patches of a trace, by who has committed. -/
def patchesOf (patch : ι → Patch Value) (trace : List (ι × Entry Row UUID Answer)) :
    List (Patch Value) :=
  trace.filterMap fun e =>
    match e.2 with
    | .called _ _ => none
    | .committed _ => some (patch e.1)

/-- The row at some time, as the patches so far have left it. -/
def Patched (get : Row t → (c : Column) → Value c) (row : Row t) (patches : List (Patch Value))
    (db : Db Row) : Prop :=
  ∃ r ∈ db t, blank r = blank row ∧ get r = patchAll patches (get row)

theorem patched_before
    (hchron : Chronicle (patchTopic t) W D (fun _ _ => True) post db journals sys)
    (hjournal : ∀ i, (∃ ops, (i, .committed ops) ∈ sys.trace) → ∃ loaded,
      get loaded = (patch i).loaded ∧
        PatchedFrom get (pk row) (patch i).assigned loaded (journals i))
    (hrow : row ∈ db t) (before after : List (ι × Entry Row UUID Answer))
    (htrace : sys.trace = before ++ after) :
    Patched get row (patchesOf patch before) (dbAfter db before) := by
  refine prefix_induction (P := fun before =>
    Patched get row (patchesOf patch before) (dbAfter db before)) ?_ ?_ before after htrace
  · exact ⟨row, hrow, rfl, rfl⟩
  · rintro before ⟨i, e⟩ after htrace ⟨r, hr, hblank, hget⟩
    rw [patchesOf, List.filterMap_append]
    cases e with
    | called c x =>
      exact ⟨r, by simpa using hr, hblank, by simpa [patchesOf] using hget⟩
    | committed ops =>
      obtain ⟨hcommitted, _⟩ := hchron.committed i before ops after htrace
      obtain ⟨loaded, hloaded, hpatched⟩ := hjournal i ⟨ops, by simp [htrace]⟩
      obtain ⟨g, hreplay, hg⟩ := hpatched.patched
      have htable : dbAfter db (before ++ [(i, .committed ops)]) t =
          (dbAfter db before t).map fun r => if pk r = pk row then g r else r := by
        rw [dbAfter_append, dbAfter_committed, ← hreplay, ← hcommitted.writes]
        exact (replay_writes (by simp [patchTopic]) ops _).symm
      refine ⟨g r, ?_, (hg r).1.trans hblank, ?_⟩
      · rw [htable]
        exact List.mem_map.mpr ⟨r, hr, by simp [pk_of_blank hblank]⟩
      · simp only [List.filterMap_cons, List.filterMap_nil]
        rw [patchAll_snoc, (hg r).2, hget, hloaded]
        rfl

/-- Whatever was patched over was loaded earlier. -/
theorem loadedBefore
    (hchron : Chronicle (patchTopic t) W D (fun _ _ => True) post db journals sys)
    (hjournal : ∀ i, (∃ ops, (i, .committed ops) ∈ sys.trace) → ∃ loaded,
      get loaded = (patch i).loaded ∧
        PatchedFrom get (pk row) (patch i).assigned loaded (journals i))
    (hrow : row ∈ db t) (before after : List (ι × Entry Row UUID Answer))
    (htrace : sys.trace = before ++ after) : LoadedBefore (get row) (patchesOf patch before) := by
  refine prefix_induction (P := fun before => LoadedBefore (get row) (patchesOf patch before))
    .nil ?_ before after htrace
  rintro before ⟨i, e⟩ after htrace ih
  rw [patchesOf, List.filterMap_append]
  cases e with
  | called c x => simpa [patchesOf] using ih
  | committed ops =>
    obtain ⟨hcommitted, _⟩ := hchron.committed i before ops after htrace
    obtain ⟨loaded, hloaded, hpatched⟩ := hjournal i ⟨ops, by simp [htrace]⟩
    obtain ⟨earlier, later, rfl, hread⟩ := hcommitted.timed.of_mem hpatched.read
    have hsplit : sys.trace = earlier ++ (later ++ (i, .committed ops) :: after) := by
      simpa using htrace
    obtain ⟨r, hr, hblank, hget⟩ := patched_before hchron hjournal hrow _ _ hsplit
    have hsame : loaded = r :=
      (hchron.unclashing _ _ hsplit).eq_of_pk hread hr (hpatched.key.trans (pk_of_blank hblank).symm)
    have hearlier : patchesOf patch earlier <+: patchesOf patch (earlier ++ later) := by
      rw [patchesOf, patchesOf, List.filterMap_append]
      exact List.prefix_append _ _
    exact .snoc (p := patch i) ih hearlier (by rw [← hloaded, hsame, hget])

/-- What concurrent patches have made of a row: a field that one payload alone sends has the value
of that payload once it has committed. -/
structure PatchesKept (get : Row t → (c : Column) → Value c)
    (assigned : ι → (c : Column) → Option (Value c)) (row row' : Row t)
    (sys : Sys Row UUID Answer Failure α ι) : Prop where
  sole : ∀ i c v, (∃ a, sys.proc i = .committed a) → assigned i c = some v →
    (∀ j, j ≠ i → assigned j c = none) → get row' c = v
  untouched : ∀ c, (∀ i, assigned i c = none) → get row' c = get row c

theorem patchesKept {assigned : ι → (c : Column) → Option (Value c)}
    (hchron : Chronicle (patchTopic t) W D (fun _ _ => True) post db journals sys)
    (hjournal : ∀ i, (∃ ops, (i, .committed ops) ∈ sys.trace) → ∃ loaded,
      PatchedFrom get (pk row) (assigned i) loaded (journals i))
    (hcommitted : ∀ i, (∃ ops, (i, .committed ops) ∈ sys.trace) ↔ ∃ a, sys.proc i = .committed a)
    (hrow : row ∈ db t) :
    ∃ row', rowsAt sys.db t (pk row) = [row'] ∧ blank row' = blank row ∧
      PatchesKept get assigned row row' sys := by
  have hloaded : ∀ i, ∃ loaded, (∃ ops, (i, .committed ops) ∈ sys.trace) →
      PatchedFrom get (pk row) (assigned i) loaded (journals i) := by
    intro i
    by_cases hi : ∃ ops, (i, .committed ops) ∈ sys.trace
    · obtain ⟨loaded, h⟩ := hjournal i hi
      exact ⟨loaded, fun _ => h⟩
    · exact ⟨row, fun h => absurd h hi⟩
  choose loaded hloaded using hloaded
  let patch (i : ι) : Patch Value := ⟨get (loaded i), assigned i⟩
  have hjournal : ∀ i, (∃ ops, (i, .committed ops) ∈ sys.trace) → ∃ l,
      get l = (patch i).loaded ∧ PatchedFrom get (pk row) (patch i).assigned l (journals i) :=
    fun i hi => ⟨loaded i, rfl, hloaded i hi⟩
  obtain ⟨row', hrow', hblank, hget⟩ :=
    patched_before hchron hjournal hrow sys.trace [] (by simp)
  have hbefore := loadedBefore hchron hjournal hrow sys.trace [] (by simp)
  have hmem : ∀ p ∈ patchesOf patch sys.trace, ∃ i, p = patch i := by
    intro p hp
    obtain ⟨⟨i, e⟩, _, hp⟩ := List.mem_filterMap.mp hp
    cases e with
    | called c x => cases hp
    | committed ops => exact ⟨i, (Option.some.inj hp).symm⟩
  have hunique := hchron.unclashing sys.trace [] (by simp)
  rw [← hchron.db_eq] at hrow' hunique
  refine ⟨row', ?_, hblank, fun i c v hi hv honly => ?_, fun c hnone => ?_⟩
  · rw [← pk_of_blank hblank]
    exact hunique.rowsAt_eq hrow'
  · rw [hget]
    obtain ⟨ops, hops⟩ := (hcommitted i).mpr hi
    refine hbefore.patchAll_assigned (p := patch i) ?_ hv fun q hq => ?_
    · exact List.mem_filterMap.mpr ⟨_, hops, rfl⟩
    · obtain ⟨j, rfl⟩ := hmem q hq
      by_cases hji : j = i
      · exact .inl (by rw [hji])
      · exact .inr (honly j hji)
  · rw [hget]
    refine patchAll_unassigned fun q hq => ?_
    obtain ⟨j, rfl⟩ := hmem q hq
    exact hnone j

end Runs

/-! ## The journals of the two requests -/

section Requests

variable {ι : Type} {i : ι} {organizationId userId : UUID}

abbrev patchDiscipline (ι : Type) (t : Table) : Discipline Row UUID Answer Failure ι Journal :=
  journalDiscipline (patchTopic t) fun _ _ => True

section Flush

variable {β : Type} {post : Journal → β → Prop} {t : Table} {id : UUID} {dirty : Bool}
  {updates : Datetime → Row t → Row t} {k : Option Datetime → App β} {journal : Journal}

theorem obeys_skip {γ : Type} {F : Scope} {p : App γ} {k : γ → App β} (hp : Confined F p)
    (hw : t ∉ F.writes) (hi : t ∉ F.inserts) (hd : t ∉ F.deletes)
    (hk : ∀ b, (patchDiscipline ι t).Obeys i post journal (k b)) :
    (patchDiscipline ι t).Obeys i post journal (p.bind k) := by
  have hne : ∀ {l : List Table}, t ∉ l → ∀ t' ∈ l, (patchTopic t).tables t' = false := by
    intro l hl t' ht'
    simp only [patchTopic, decide_eq_false_iff_not]
    rintro rfl
    exact hl ht'
  exact journal_skip hp ⟨⟨hne hi, hne hd, rfl, rfl, fun _ _ => rfl⟩, hne hw⟩ trivial hk

/-- A flush, which may have nothing to write. -/
theorem obeys_flush
    (hclean : dirty = false → (patchDiscipline ι t).Obeys i post journal (k none))
    (hdirty : ∀ at_, (patchDiscipline ι t).Obeys i post
      (journal ++ [.wrote (.update t id (updates at_))]) (k (some at_))) :
    (patchDiscipline ι t).Obeys i post journal ((flush t id dirty updates).bind k) := by
  cases dirty with
  | false => exact hclean rfl
  | true =>
    have hflush : (flush t id true updates).bind k = now.bind fun at_ =>
        (updateRow t id (updates at_)).bind fun _ => k (some at_) := by
      simp only [flush, ↓reduceIte, Prog.bind_eq, Prog.pure_eq, Prog.bind_assoc, Prog.ret_bind]
    rw [hflush]
    refine obeys_skip (F := {}) confined_now (by simp) (by simp) (by simp) fun at_ => ?_
    refine journal_update (by simp [patchTopic]) trivial (fun r _ => ⟨[], .inl rfl, trivial, ?_⟩)
      fun _ => trivial
    rw [List.append_nil]
    exact hdirty at_

end Flush

theorem patchedFrom_clean {t : Table} {Column : Type} {Value : Column → Type}
    [∀ c, DecidableEq (Value c)] {get : Row t → (c : Column) → Value c} {loaded : Row t}
    {assigned : (c : Column) → Option (Value c)}
    (h : ∀ c v, assigned c = some v → v = get loaded c) :
    PatchedFrom get (pk loaded) assigned loaded [.read t loaded] where
  read := List.mem_singleton_self _
  key := rfl
  patched := by
    refine ⟨id, fun db => ?_, fun r => ⟨rfl, (Patch.apply_clean h).symm⟩⟩
    change replay [] db t = _
    simp

theorem patchedFrom_dirty {t : Table} {Column : Type} {Value : Column → Type}
    [∀ c, DecidableEq (Value c)] {get : Row t → (c : Column) → Value c} {loaded : Row t}
    {assigned : (c : Column) → Option (Value c)} {g : Row t → Row t}
    (hg : ∀ r, blank (g r) = blank r ∧
      get (g r) = (Patch.mk (get loaded) assigned).apply (get r)) :
    PatchedFrom get (pk loaded) assigned loaded
      [.read t loaded, .wrote (.update t (pk loaded) g)] where
  read := List.mem_cons_self
  key := rfl
  patched := ⟨g, fun db => apply_update_self db t (pk loaded) g, hg⟩

theorem obeys_validated {β γ : Type} {t : Table} {post : Journal → β → Prop} {journal : Journal}
    {a : γ} {ok : γ → Bool} {k : γ → App β}
    (h : (patchDiscipline ι t).Obeys i post journal (k a)) :
    (patchDiscipline ι t).Obeys i post journal ((validated (some a) ok).bind k) := by
  simp only [validated]
  split
  · exact h
  · trivial

/-- A read of the row to patch. -/
theorem obeys_find [Platform] {β : Type} {t : Table} {post : Journal → β → Prop} {e : Failure}
    {q : Db Row → Option (Row t)} {k : Row t → App β} (hq : ∀ db r, q db = some r → r ∈ db t)
    (h : ∀ db r, q db = some r → (patchDiscipline ι t).Obeys i post [.read t r] (k r)) :
    (patchDiscipline ι t).Obeys i post [] (((select q).bind fun r => orRaise e r).bind k) := by
  refine journal_select fun view => ?_
  cases hfound : q view with
  | none => exact ⟨[], by simp, trivial, trivial⟩
  | some r =>
    refine ⟨[.read t r], fun f hf => ?_, trivial, h view r hfound⟩
    obtain rfl := List.mem_singleton.mp hf
    exact ⟨t, r, rfl, by simp [patchTopic], by simp, hq view r hfound⟩

/-- The audit row and the event, after the flush. -/
theorem obeys_announce [Platform] {β : Type} {t : Table} {post : Journal → β → Prop}
    {journal : Journal} (ht : t ∉ [Table.auditLogs, .webhookDeliveries])
    {action entityType eventType : String}
    {actorId entityId : Option UUID} {metadata payload : List (String × Json)} {k : App β}
    (h : (patchDiscipline ι t).Obeys i post journal k) :
    (patchDiscipline ι t).Obeys i post journal (do
      recordAudit organizationId actorId action entityType entityId metadata
      let _ ← emitEvent organizationId eventType payload
      k) := by
  refine obeys_skip (F := { writes := [.auditLogs, .webhookDeliveries], calls := fun _ => True })
    (confined_recordAudit (by simp) _ _ _ _ _) ht ht (by simp) fun _ => ?_
  exact obeys_skip (F := { writes := [.auditLogs, .webhookDeliveries], calls := fun _ => True })
    (confined_emitEvent (by simp) (fun _ => trivial) _ _ _) ht ht (by simp) fun _ => h

theorem obeys_updateTask [Platform] {taskId : UUID} {user : User} {payload : TaskUpdate} :
    (patchDiscipline ι .tasks).Obeys i
      (fun journal _ => ∃ loaded, PatchedFrom (t := .tasks) Task.get taskId payload.get loaded
        journal) []
      (updateTask organizationId taskId user payload) := by
  refine obeys_find (fun db r h => List.mem_of_find?_eq_some h) fun db loaded hfound => ?_
  have hid : loaded.id = taskId := by
    have h := List.find?_some hfound
    simp only [decide_eq_true_eq] at h
    exact h.1
  subst hid
  have hrest : ∀ eventType data, (patchDiscipline ι .tasks).Obeys i
      (fun journal _ => ∃ loaded', PatchedFrom (t := .tasks) Task.get loaded.id payload.get loaded'
        journal) [.read .tasks loaded] (do
          let updatedAt ← flush .tasks loaded.id (Task.dirty loaded (payload.apply loaded))
            (Task.patch loaded (payload.apply loaded))
          recordAudit organizationId (some user.id) "task.updated" "task" (some loaded.id) []
          let _ ← emitEvent organizationId eventType data
          return { payload.apply loaded with updatedAt := updatedAt.getD loaded.updatedAt }) := by
    intro eventType data
    refine obeys_flush (fun hclean => obeys_announce (by simp) ?_)
      fun at_ => obeys_announce (by simp) ?_
    · exact ⟨loaded, patchedFrom_clean (t := .tasks) fun f v => Task.clean_get hclean f v⟩
    · exact ⟨loaded, patchedFrom_dirty (t := .tasks) fun r => ⟨rfl, Task.patch_get payload loaded at_ r⟩⟩
  cases payload.assigneeId with
  | none => exact hrest _ _
  | some assigneeId =>
    exact obeys_skip (F := {}) (confined_validateAssignee _ _) (by simp) (by simp) (by simp)
      fun _ => hrest _ _

theorem obeys_updateProject [Platform] {projectId : UUID} {user : User} {payload : ProjectUpdate} :
    (patchDiscipline ι .projects).Obeys i
      (fun journal _ => ∃ loaded, PatchedFrom (t := .projects) Project.get projectId payload.get
        loaded journal) []
      (updateProject organizationId projectId user payload) := by
  refine obeys_find (fun db r h => List.mem_of_find?_eq_some h) fun db loaded hfound => ?_
  have hid : loaded.id = projectId := by
    have h := List.find?_some hfound
    simp only [decide_eq_true_eq] at h
    exact h.1
  subst hid
  refine obeys_flush (fun hclean => obeys_announce (by simp) ?_)
    fun at_ => obeys_announce (by simp) ?_
  · exact ⟨loaded, patchedFrom_clean (t := .projects) fun f v => Project.clean_get hclean f v⟩
  · exact ⟨loaded, patchedFrom_dirty (t := .projects)
      fun r => ⟨rfl, Project.patch_get payload loaded at_ r⟩⟩

/-- A route around a patch. -/
theorem obeys_route {α β γ δ : Type} {t : Table} {P : Journal → Prop} {permission : Permission}
    {a : α} {ok : α → Bool} {f : OrganizationContext → α → App β} {g : β → Except Failure γ}
    {respond : γ → δ}
    (h : ∀ context, (patchDiscipline ι t).Obeys i (fun journal _ => P journal) [] (f context a)) :
    (patchDiscipline ι t).Obeys i (fun journal _ => P journal) []
      (((requirePermission permission organizationId userId).bind fun context =>
        (validated (some a) ok).bind fun a => (f context a).bind fun b => Prog.ofExcept (g b)).bind
          fun c => .ret (respond c)) := by
  rw [Prog.bind_assoc]
  refine obeys_skip (F := {}) (confined_requirePermission _ _ _) (by simp) (by simp) (by simp)
    fun context => ?_
  rw [Prog.bind_assoc]
  refine obeys_validated ?_
  rw [Prog.bind_assoc]
  refine (h context).bind fun journal b hP => ?_
  cases g b with
  | ok c => exact hP
  | error e => trivial

variable {db : Db Row} {sys : Sys Row UUID Answer Failure Response ι}

/-- Requests that patch one row. -/
theorem run_patches [DecidableEq ι] [Platform] {Column : Type} {Value : Column → Type}
    [∀ c, DecidableEq (Value c)] {t : Table} (get : Row t → (c : Column) → Value c)
    (assigned : ι → (c : Column) → Option (Value c))
    {row : Row t} {requests : ι → Request} (hdb : Unclashing db) (hrow : row ∈ db t)
    (hobeys : ∀ i, (patchDiscipline ι t).Obeys i (fun journal _ => ∃ loaded,
      PatchedFrom get (pk row) (assigned i) loaded journal) [] (requests i).handler)
    (hr : Reachable (fun i => (requests i).handler) db sys) :
    ∃ row', rowsAt sys.db t (pk row) = [row'] ∧ blank row' = blank row ∧
      PatchesKept get assigned row row' sys := by
  obtain ⟨journals, hchron⟩ := exists_chronicle hdb hobeys (fun _ => trivial) hr
  refine patchesKept hchron (fun i hi => ?_) hr.committed_iff hrow
  obtain ⟨ops, hops⟩ := hi
  obtain ⟨before, after, htrace⟩ := List.append_of_mem hops
  obtain ⟨_, _, _, hpost⟩ := hchron.committed i before ops after htrace
  exact hpost

/-- The columns of a task that no update touches. -/
structure Task.SameOrigin (task task' : Task) : Prop where
  id : task'.id = task.id
  organizationId : task'.organizationId = task.organizationId
  projectId : task'.projectId = task.projectId
  createdBy : task'.createdBy = task.createdBy
  createdAt : task'.createdAt = task.createdAt

theorem Task.sameOrigin {task task' : Task} (h : blank (t := .tasks) task' = blank (t := .tasks) task) :
    task.SameOrigin task' := by
  simp only [blank, Task.mk.injEq] at h
  exact ⟨h.1, h.2.1, h.2.2.1, by simp [h], by simp [h]⟩

structure Project.SameOrigin (project project' : Project) : Prop where
  id : project'.id = project.id
  organizationId : project'.organizationId = project.organizationId
  createdBy : project'.createdBy = project.createdBy
  createdAt : project'.createdAt = project.createdAt

theorem Project.sameOrigin {project project' : Project}
    (h : blank (t := .projects) project' = blank (t := .projects) project) :
    project.SameOrigin project' := by
  simp only [blank, Project.mk.injEq] at h
  exact ⟨h.1, h.2.1, by simp [h], by simp [h]⟩

/-- In every interleaving of patches of a task, or of a project, a field that one payload alone
sends gets its value, a field that none sends keeps its own, and the other columns are fixed. -/
theorem concurrent_patches [DecidableEq ι] [Platform] (hdb : Unclashing db)
    (organizationIds userIds : ι → UUID) :
    (∀ task ∈ db .tasks, ∀ payloads : ι → TaskUpdate, ∀ sys,
      Reachable (fun i => (Request.organization (organizationIds i) (userIds i)
        (.updateTask (some (task.id, payloads i)))).handler) db sys →
      ∃ task' : Task, rowsAt sys.db .tasks task.id = [task'] ∧ task.SameOrigin task' ∧
        PatchesKept (t := .tasks) Task.get (fun i => (payloads i).get) task task' sys) ∧
    ∀ project ∈ db .projects, ∀ payloads : ι → ProjectUpdate, ∀ sys,
      Reachable (fun i => (Request.organization (organizationIds i) (userIds i)
        (.updateProject (some (project.id, payloads i)))).handler) db sys →
      ∃ project' : Project, rowsAt sys.db .projects project.id = [project'] ∧
        project.SameOrigin project' ∧
        PatchesKept (t := .projects) Project.get (fun i => (payloads i).get) project project'
          sys := by
  constructor
  · intro task htask payloads sys hr
    obtain ⟨task', hrows, hblank, hkept⟩ := run_patches (t := .tasks) Task.get
      (fun i => (payloads i).get) hdb htask
      (fun i => obeys_route (a := (task.id, payloads i))
        (f := fun context a => updateTask (organizationIds i) a.1 context.user a.2)
        fun context => obeys_updateTask) hr
    exact ⟨task', hrows, Task.sameOrigin hblank, hkept⟩
  · intro project hproject payloads sys hr
    obtain ⟨project', hrows, hblank, hkept⟩ := run_patches (t := .projects) Project.get
      (fun i => (payloads i).get) hdb hproject
      (fun i => obeys_route (a := (project.id, payloads i))
        (f := fun context a => updateProject (organizationIds i) a.1 context.user a.2)
        fun context => obeys_updateProject) hr
    exact ⟨project', hrows, Project.sameOrigin hblank, hkept⟩

end Requests

section Sample

attribute [local instance] samplePlatform

/-- One request completes the task, the other gives it another title. -/
def samplePatches : Bool → TaskUpdate
  | true => { title := none, description := none, status := some (some .done), priority := none,
              assigneeId := none, dueAt := none }
  | false => { title := some (some "Store"), description := none, status := none,
               priority := none, assigneeId := none, dueAt := none }

def samplePatchRequests (b : Bool) : Request :=
  .organization sampleOrganization.id sampleUser.id
    (.updateTask (some (sampleTask.id, samplePatches b)))

def secondPatch : Except Failure Response × Session Row :=
  (samplePatchRequests false).handler.run (execStmt (otherOracle 100)) ⟨taskedDb, 0⟩

/-- The first request has loaded the task, the second runs to its end, and the first goes on. -/
theorem samplePatchRequests_overlap : Prog.endsWith (fun _ => true) secondPatch = true ∧
    (afterReads sampleOracle taskedDb 3 (samplePatchRequests true).handler 0).any (fun rest =>
      Prog.endsWith (fun _ => true) (rest.run (execStmt sampleOracle) ⟨secondPatch.2.db, 3⟩)) =
        true := by
  decide +kernel

/-- The first commit is past the load of the other, and both patches are there after both. -/
theorem sample_concurrent_patches : ∃ sys, Reachable (fun b => (samplePatchRequests b).handler)
    taskedDb sys ∧ (∀ b, ∃ a, sys.proc b = .committed a) ∧
    ∃ task' : Task, rowsAt sys.db .tasks sampleTask.id = [task'] ∧
      task'.status = some .done ∧ task'.title = some "Store" := by
  obtain ⟨hends, hoverlap⟩ := samplePatchRequests_overlap
  obtain ⟨rest, hrest, hends'⟩ := (Option.any_eq_true _ _).mp hoverlap
  obtain ⟨response, st, hrun, _⟩ := Prog.exists_of_endsWith hends
  rw [hrun] at hends'
  obtain ⟨response', st', hrun', _⟩ := Prog.exists_of_endsWith hends'
  have hpause : Advances taskedDb (fun tx => tx = { prog := (samplePatchRequests false).handler })
      { prog := (samplePatchRequests true).handler } { prog := rest } := advances_reads hrest
  obtain ⟨ops, locks, hfirst, hdb⟩ : ∃ ops locks, Advances taskedDb
      (fun tx => tx = { prog := rest }) { prog := (samplePatchRequests false).handler }
      ⟨.ret response, ops, locks⟩ ∧ replay ops taskedDb = st.db :=
    advances_run (otherOracle 100) (by rintro _ rfl; exact ⟨rfl, rfl⟩) hrun
  obtain ⟨ops', locks', hsecond, _⟩ : ∃ ops' locks', Advances (replay ops taskedDb)
      (fun _ => False) { prog := rest } ⟨.ret response', ops', locks'⟩ ∧
        replay ops' (replay ops taskedDb) = st'.db :=
    advances_run sampleOracle (fun _ h => h.elim) (by rw [hdb]; exact hrun')
  obtain ⟨sys, hr, hfalse, htrue, _⟩ : ∃ sys,
      Reachable (fun b => (samplePatchRequests b).handler) taskedDb sys ∧
        sys.proc false = .committed response ∧ sys.proc true = .committed response' ∧
        sys.db = replay ops' (replay ops taskedDb) :=
    exists_run_around (i := false) hpause hfirst hsecond
  have hcommitted : ∀ b, ∃ a, sys.proc b = .committed a := by
    intro b
    cases b
    · exact ⟨response, hfalse⟩
    · exact ⟨response', htrue⟩
  obtain ⟨task', hrows, _, hkept⟩ := (concurrent_patches unclashing_taskedDb
    (fun _ => sampleOrganization.id) fun _ => sampleUser.id).1 sampleTask List.mem_cons_self
      samplePatches sys hr
  refine ⟨sys, hr, hcommitted, task', hrows, ?_, ?_⟩
  · refine hkept.sole true .status _ (hcommitted true) rfl fun b hb => ?_
    rw [Bool.eq_false_of_not_eq_true hb]
    rfl
  · refine hkept.sole false .title _ (hcommitted false) rfl fun b hb => ?_
    rw [Bool.eq_true_of_not_eq_false hb]
    rfl

end Sample

end TenantFlow
