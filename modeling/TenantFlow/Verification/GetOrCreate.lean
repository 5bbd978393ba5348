import TenantFlow.Verification.Confinement
import TenantFlow.Verification.Sample

/-!
# Getting or creating a subscription

`get_or_create_subscription` looks for the row of the organization and inserts it if there is
none. Any number of requests call it for one organization, each of them in a transaction with
other statements before and after the call.
-/

namespace TenantFlow

open JsonText Transactional

/-! ## Requests that call it -/

/-- The statement adds and removes no subscription of the organization and deletes no
organization. -/
def Stmt.Aside (organizationId : UUID) : Stmt Row UUID Call → Prop
  | .insert .subscriptions r => r.organizationId ≠ organizationId
  | .insertOnConflictDoNothing .subscriptions _ r => r.organizationId ≠ organizationId
  | .update _ _ f => ∀ r, blank (f r) = blank r
  | .delete t _ => ∀ t' ∈ t :: cascadeTables t, t' ≠ .subscriptions ∧ t' ≠ .organizations
  | _ => True

/-- A part of a request around the call, with the failures that it may raise. -/
abbrev Aside {α : Type} (organizationId : UUID) (ψ : Failure → Prop) (p : App α) : Prop :=
  p.Every Stmt.Possible (Stmt.Aside organizationId) ψ (fun _ => True)

/-- A request that makes the call at most once, and the program that does what the request does
and returns the row that the call has returned. -/
inductive Traced (organizationId : UUID) (ψ : Failure → Prop) :
    {β : Type} → App β → App (Option Subscription) → Prop where
  | ret {β : Type} (b : β) : Traced organizationId ψ (.ret b) (.ret none)
  | raise {β : Type} {e : Failure} (h : ψ e) :
      Traced organizationId ψ (.raise e : App β) (.raise e)
  | part {β γ : Type} {p : App γ} {f : γ → App β} {g : γ → App (Option Subscription)}
      (hp : Aside organizationId ψ p) (hf : ∀ c, Traced organizationId ψ (f c) (g c)) :
      Traced organizationId ψ (p.bind f) (p.bind g)
  | call {β : Type} {f : Subscription → App β} (hf : ∀ s, Aside organizationId ψ (f s)) :
      Traced organizationId ψ ((getOrCreateSubscription organizationId).bind f)
        ((getOrCreateSubscription organizationId).bind fun s => (f s).bind fun _ => .ret (some s))

/-- The call has found no row: outside calls, and then its insert. -/
def AboutToInsert (organizationId : UUID) {α : Type} : App α → Prop
  | .step (.insert .subscriptions r) _ => r.organizationId = organizationId
  | .step (.call _) k => ∃ x, AboutToInsert organizationId (k x)
  | _ => False

section Callers

variable {organizationId : UUID} {ψ : Failure → Prop} {α β γ : Type}

theorem traced_part {p : App γ} {f : γ → App β} (hp : Aside organizationId ψ p)
    (hf : ∀ c, ∃ q, Traced organizationId ψ (f c) q) :
    ∃ q, Traced organizationId ψ (p.bind f) q := by
  choose g hg using hf
  exact ⟨p.bind g, .part hp hg⟩

/-- What the requests write besides new subscriptions. -/
def restScope : Scope where
  writes := [.idempotencyRecords, .stripeEvents, .subscriptions, .auditLogs]
  inserts := [.idempotencyRecords, .stripeEvents, .auditLogs]
  calls _ := True

theorem aside_of_allows {s : Stmt Row UUID Call} (h : restScope.Allows s) :
    Stmt.Aside organizationId s := by
  cases s with
  | insert t r =>
    have ht : t ∈ restScope.inserts := h.1.2
    cases t with
    | subscriptions => exact absurd ht (by decide)
    | _ => trivial
  | insertOnConflictDoNothing t a r =>
    have ht : t ∈ restScope.inserts := h.1.2
    cases t with
    | subscriptions => exact absurd ht (by decide)
    | _ => trivial
  | update t id f => exact h.2
  | delete t id => exact nomatch h.1
  | _ => trivial

theorem aside_of_confined {p : App α} (h : Confined restScope p) :
    Aside organizationId (fun _ => True) p :=
  h.mono (fun _ hs => aside_of_allows hs) (fun _ he => he) (fun _ ha => ha)

variable (organizationId)

theorem traced_subscriptionStatus (userId : UUID) :
    ∃ q, Traced organizationId (fun _ => True) (subscriptionStatus organizationId userId) q :=
  traced_part (aside_of_confined (confined_requirePermission _ _ _)) fun _ =>
    ⟨_, .call fun _ => trivial⟩

variable [Platform]

theorem traced_portal (userId : UUID) (args : Option String) :
    ∃ q, Traced organizationId (fun _ => True) (portal organizationId userId args) q := by
  refine traced_part (aside_of_confined (confined_requirePermission _ _ _)) fun _ => ?_
  refine traced_part (aside_of_confined (confined_validated _ _)) fun returnUrl => ?_
  split
  · exact ⟨_, .raise trivial⟩
  · refine ⟨_, .call fun subscription => aside_of_confined ?_⟩
    cases subscription.stripeCustomerId.filter (· ≠ "") with
    | none => trivial
    | some customerId =>
      refine Prog.every_bind (confined_call _ trivial) fun answer _ => ?_
      refine Prog.every_bind (confined_orRaise _ _) fun session _ => ?_
      exact Prog.every_bind (confined_orRaise _ _) fun _ _ => trivial

theorem traced_checkout (userId : UUID) (args : Option (CheckoutRequest × String)) :
    ∃ q, Traced organizationId (fun _ => True) (checkout organizationId userId args) q := by
  refine traced_part (aside_of_confined (confined_requirePermission _ _ _)) fun context => ?_
  refine traced_part (aside_of_confined (confined_validated _ _)) fun a => ?_
  obtain ⟨payload, key⟩ := a
  refine traced_part (aside_of_confined
    (confined_acquireIdempotency (by simp [restScope]) _ _ _ _ _)) fun state => ?_
  split
  · -- a replay makes no call
    cases state.replayBody with
    | none => exact ⟨_, .raise trivial⟩
    | some body => exact traced_part (aside_of_confined (confined_ofExcept _)) fun _ => ⟨_, .ret _⟩
  · simp only [createBillingCheckout]
    split
    · exact ⟨_, .raise trivial⟩
    · split
      · exact ⟨_, .raise trivial⟩
      · simp only [Prog.bind_eq, Prog.bind_assoc, Prog.pure_eq, Prog.ret_bind]
        refine ⟨_, .call fun subscription => aside_of_confined ?_⟩
        refine Prog.every_bind (χ := fun _ => True) ?_ fun session _ => ?_
        · refine Prog.every_bind (confined_call _ trivial) fun answer _ => ?_
          refine Prog.every_bind (confined_orRaise _ _) fun session _ => ?_
          split <;> trivial
        · have hstore : Table.idempotencyRecords ∈ restScope.writes := by decide
          exact Prog.every_bind (confined_updateRow hstore _ fun _ => rfl) fun _ _ => trivial

/-- The business change of an event of another organization. -/
theorem aside_applyStripeEvent (event : Event) (markerId : UUID) {other : UUID}
    (hother : other ≠ organizationId) (obj : List (String × Json)) :
    Aside organizationId (fun _ => True) (applyStripeEvent event markerId other obj) := by
  refine Prog.every_bind (χ := fun _ => True) ?_ fun subscription _ => ?_
  · refine Prog.every_bind (aside_of_confined (confined_select _)) fun found _ => ?_
    cases found with
    | some s => trivial
    | none =>
      refine Prog.every_bind (aside_of_confined confined_rowDefaults) fun d _ => ?_
      refine Prog.every_bind (χ := fun _ => True) ⟨hother, fun x _ => ?_⟩ fun _ _ => trivial
      exact aside_of_confined (confined_checked x)
  · refine aside_of_confined (Prog.every_bind (confined_ofExcept _) fun assigned _ => ?_)
    refine Prog.every_bind (confined_flush (by decide) _ _ fun _ _ => rfl) fun _ _ => ?_
    exact confined_recordAudit ⟨by simp [restScope], trivial⟩ _ _ _ _ _

theorem traced_processStripeEvent (event : Event) :
    ∃ q, Traced organizationId (fun _ => True) (processStripeEvent event) q := by
  refine traced_part (aside_of_confined confined_now) fun processedAt => ?_
  refine traced_part (aside_of_confined confined_uuid4) fun id => ?_
  have hclaim : ∀ r : StripeEvent, Confined restScope
      (send (.insertOnConflictDoNothing .stripeEvents sameStripeEventId r)) :=
    fun r => ⟨⟨by simp [restScope], trivial⟩, fun _ _ => trivial⟩
  refine traced_part (aside_of_confined (hclaim _)) fun result => ?_
  refine traced_part (aside_of_confined (confined_checked result)) fun inserted => ?_
  split
  · simp only [handleStripeEvent, Prog.bind_eq, Prog.bind_assoc]
    refine traced_part (aside_of_confined (confined_orRaise _ _)) fun obj => ?_
    refine traced_part (aside_of_confined (confined_resolveOrganizationId obj)) fun resolved => ?_
    cases resolved with
    | none => exact ⟨_, .ret _⟩
    | some other =>
      by_cases hother : other = organizationId
      · subst hother
        simp only [applyStripeEvent, Prog.bind_eq, Prog.bind_assoc]
        refine ⟨_, .call fun subscription => aside_of_confined ?_⟩
        refine Prog.every_bind (confined_ofExcept _) fun assigned _ => ?_
        refine Prog.every_bind (confined_flush (by decide) _ _ fun _ _ => rfl) fun _ _ => ?_
        exact Prog.every_bind (confined_recordAudit ⟨by simp [restScope], trivial⟩ _ _ _ _ _) fun _ _ => trivial
      · exact traced_part (aside_applyStripeEvent organizationId event id hother obj) fun _ =>
          ⟨_, .ret _⟩
  · exact ⟨_, .ret _⟩

end Callers

/-! ## The rows of the organization -/

def subscriptionIds (organizationId : UUID) (db : Db Row) : List UUID :=
  ((db .subscriptions).filter (·.organizationId = organizationId)).map (·.id)

section Rows

variable {organizationId : UUID} {db : Db Row}

theorem subscriptionIds_eq_nil :
    subscriptionIds organizationId db = [] ↔
      ∀ r ∈ db .subscriptions, r.organizationId ≠ organizationId := by
  simp [subscriptionIds]

theorem exists_of_mem_subscriptionIds {id : UUID} (h : id ∈ subscriptionIds organizationId db) :
    ∃ r ∈ db .subscriptions, r.organizationId = organizationId := by
  obtain ⟨r, hr, _⟩ := List.mem_map.mp h
  exact ⟨r, (List.mem_filter.mp hr).1, by simpa using (List.mem_filter.mp hr).2⟩

/-- What the lookup answers. -/
theorem findSubscription_none (h : findSubscription organizationId db = none) :
    subscriptionIds organizationId db = [] := by
  refine subscriptionIds_eq_nil.mpr fun r hr => ?_
  simpa using List.find?_eq_none.mp h r hr

theorem findSubscription_some {s : Subscription} (h : findSubscription organizationId db = some s)
    (hsingle : (subscriptionIds organizationId db).length ≤ 1) :
    s.organizationId = organizationId ∧ subscriptionIds organizationId db = [s.id] := by
  have horg : s.organizationId = organizationId := by simpa using List.find?_some h
  have hmem : s.id ∈ subscriptionIds organizationId db :=
    List.mem_map.mpr ⟨s, List.mem_filter.mpr ⟨List.mem_of_find?_eq_some h, by simpa using horg⟩, rfl⟩
  refine ⟨horg, ?_⟩
  cases hids : subscriptionIds organizationId db with
  | nil => simp [hids] at hmem
  | cons id ids =>
    rw [hids] at hmem hsingle
    have hnil : ids = [] := List.length_eq_zero_iff.mp (by simpa using hsingle)
    subst hnil
    rw [List.mem_singleton.mp hmem]

/-- The unique constraint of the table. -/
theorem subscriptionIds_length (h : Unclashing db) (organizationId : UUID) :
    (subscriptionIds organizationId db).length ≤ 1 := by
  have hnodup : (subscriptionIds organizationId db).Nodup :=
    (h.nodup_keys .subscriptions).sublist (List.filter_sublist.map _)
  have hsame : ∀ a ∈ subscriptionIds organizationId db, ∀ b ∈ subscriptionIds organizationId db,
      a = b := by
    intro a ha b hb
    obtain ⟨r, hr, rfl⟩ := List.mem_map.mp ha
    obtain ⟨s, hs, rfl⟩ := List.mem_map.mp hb
    by_contra hne
    obtain ⟨hr, horg⟩ := List.mem_filter.mp hr
    obtain ⟨hs, horg'⟩ := List.mem_filter.mp hs
    have hclash := h.unique .subscriptions r hr s hs hne
    simp_all [clash, uniqueClash]
  cases hids : subscriptionIds organizationId db with
  | nil => simp
  | cons a rest =>
    cases rest with
    | nil => simp
    | cons b rest =>
      rw [hids] at hnodup hsame
      have hab : a = b := hsame a (by simp) b (by simp)
      simp [hab] at hnodup

/-- The write leaves the rows of the organization and the organization itself. -/
def Op.Keeps (organizationId : UUID) (op : Op Row UUID) : Prop :=
  ∀ db, subscriptionIds organizationId (op.apply db) = subscriptionIds organizationId db ∧
    (hasOrganization db organizationId = true →
      hasOrganization (op.apply db) organizationId = true)

theorem keeps_of_table {op : Op Row UUID} (hS : op.table ≠ .subscriptions)
    (hO : op.table ≠ .organizations) : Op.Keeps organizationId op := by
  intro db
  rw [subscriptionIds, subscriptionIds, hasOrganization, hasOrganization,
    apply_of_table_ne db hS, apply_of_table_ne db hO]
  exact ⟨rfl, id⟩

theorem keeps_insert_subscription {r : Subscription} (h : r.organizationId ≠ organizationId) :
    Op.Keeps organizationId (.insert .subscriptions r) := by
  intro db
  refine ⟨?_, id⟩
  simp [subscriptionIds, h]

theorem keeps_insert {t : Table} {r : Row t} (h : t ≠ .subscriptions) :
    Op.Keeps organizationId (.insert t r) := by
  by_cases hO : t = .organizations
  · subst hO
    intro db
    refine ⟨rfl, fun horg => ?_⟩
    simp only [hasOrganization, apply_insert_self, List.any_append, Bool.or_eq_true]
    exact .inl horg
  · exact keeps_of_table h hO

/-- No update assigns an organization, or the keys of a subscription. -/
theorem keeps_update {t : Table} {id : UUID} {f : Row t → Row t}
    (h : ∀ r, blank (f r) = blank r) : Op.Keeps organizationId (.update t id f) := by
  by_cases hS : t = .subscriptions
  · subst hS
    intro db
    refine ⟨?_, fun horg => horg⟩
    have hkeys : ∀ r : Row .subscriptions,
        Subscription.id (if pk r = id then f r else r) = Subscription.id r ∧
        Subscription.organizationId (if pk r = id then f r else r) =
          Subscription.organizationId r := by
      intro r
      split
      · have hblank := h r
        simp only [blank, Subscription.mk.injEq] at hblank
        exact ⟨hblank.1, hblank.2.1⟩
      · exact ⟨rfl, rfl⟩
    simp only [subscriptionIds, apply_update_self, List.filter_map, List.map_map]
    congr 1
    · funext r
      exact (hkeys r).1
    · refine List.filter_congr fun r _ => ?_
      simp only [Function.comp_apply, (hkeys r).2]
  · by_cases hO : t = .organizations
    · subst hO
      intro db
      refine ⟨rfl, fun horg => ?_⟩
      have hsame : ∀ r : Organization, f r = r := h
      simpa [hasOrganization, hsame] using horg
    · exact keeps_of_table hS hO

theorem keeps_delete {t : Table} {id : UUID} (h : t ≠ .subscriptions ∧ t ≠ .organizations) :
    Op.Keeps organizationId (.delete t id) :=
  keeps_of_table h.1 h.2

theorem keeps_of_aside {s : Stmt Row UUID Call} (h : Stmt.Aside organizationId s)
    {ext : (c : Call) → Answer c} {view : Db Row} {op : Op Row UUID}
    (hop : op ∈ (s.eval ext view).2) : Op.Keeps organizationId op := by
  rcases mem_eval_ops hop with ⟨t, r, rfl, _, hs⟩ | ⟨t, id, f, rfl, _, rfl⟩ |
    ⟨t, id, k, rfl, rfl, hk, _⟩
  · by_cases hS : t = .subscriptions
    · subst hS
      refine keeps_insert_subscription ?_
      rcases hs with rfl | ⟨a, rfl⟩
      · exact h
      · exact h
    · exact keeps_insert hS
  · exact keeps_update h
  · refine keeps_delete ?_
    rcases hk with rfl | hk
    · exact h _ List.mem_cons_self
    · exact h _ (List.mem_cons_of_mem _ (cascade_table hk))

theorem replay_keeps {ops : List (Op Row UUID)} (h : ∀ op ∈ ops, Op.Keeps organizationId op)
    (db : Db Row) :
    subscriptionIds organizationId (replay ops db) = subscriptionIds organizationId db ∧
      (hasOrganization db organizationId = true →
        hasOrganization (replay ops db) organizationId = true) := by
  induction ops generalizing db with
  | nil => exact ⟨rfl, id⟩
  | cons op ops ih =>
    obtain ⟨hids, horg⟩ := h op List.mem_cons_self db
    obtain ⟨hids', horg'⟩ := ih (fun o ho => h o (List.mem_cons_of_mem _ ho)) (op.apply db)
    exact ⟨hids'.trans hids, fun hdb => horg' (horg hdb)⟩

/-- A row as the call inserts it. -/
structure NewSubscription (organizationId : UUID) (r : Row .subscriptions) : Prop where
  organization : Subscription.organizationId r = organizationId
  customer : Subscription.stripeCustomerId r = none
  subscription : Subscription.stripeSubscriptionId r = none
  check : ∀ view, hasOrganization view organizationId = true → Schema.check view r = none

/-- The row that the call makes of the defaults. -/
def newSubscription (organizationId id : UUID) (createdAt updatedAt : Datetime) :
    Row .subscriptions :=
  ({ id, organizationId, plan := .free, status := .inactive, stripeCustomerId := none,
     stripeSubscriptionId := none, currentPeriodEnd := none, createdAt, updatedAt } : Subscription)

theorem newSubscription_new (organizationId id : UUID) (createdAt updatedAt : Datetime) :
    NewSubscription organizationId (newSubscription organizationId id createdAt updatedAt) where
  organization := rfl
  customer := rfl
  subscription := rfl
  check _ horg := check_eq_none_iff.mpr ⟨rfl, rfl, horg⟩

theorem insertable_new {r : Row .subscriptions} (hr : NewSubscription organizationId r)
    (horg : hasOrganization db organizationId = true)
    (hnone : subscriptionIds organizationId db = [])
    (hid : ∀ r' ∈ db .subscriptions, pk r' ≠ pk r) : insertable db r = .ok () := by
  refine insertable_of (hr.check db horg) fun r' hr' => ?_
  have hother : Subscription.organizationId r' ≠ organizationId :=
    subscriptionIds_eq_nil.mp hnone r' hr'
  have hkey : primaryKey r ≠ primaryKey r' := (hid r' hr').symm
  simp [clash, uniqueClash, sameValue, hr.organization, hr.customer, hr.subscription, hother.symm,
    hkey]

end Rows

/-! ## Phases of a request -/

inductive GettingPhase where
  | outside
  | seeking
  | found (id : UUID)
  | created (id : UUID)
  | refused

/-- The rows of the organization that the transaction has added. -/
def GettingPhase.ids : GettingPhase → List UUID
  | .created id => [id]
  | _ => []

/-- What is committed of the rows of the organization while a transaction is in the phase. -/
def GettingPhase.Fits (ids : List UUID) : GettingPhase → Prop
  | .outside => ids.length ≤ 1
  | .seeking => ids = []
  | .found id => ids = [id]
  | .created _ => ids = []
  | .refused => False

/-- The lookup, a call while the insert is to come, the insert; other statements stay aside. -/
inductive GettingPhase.Next (organizationId : UUID) (view : Db Row) :
    GettingPhase → Stmt Row UUID Call → GettingPhase → Prop where
  | aside {φ s} (h : Stmt.Aside organizationId s) (hφ : φ ≠ .seeking) :
      Next organizationId view φ s φ
  | missed {γ : Type} {q : Db Row → γ} (h : subscriptionIds organizationId view = []) :
      Next organizationId view .outside (.select q) .seeking
  | met {γ : Type} {q : Db Row → γ} {id} (h : subscriptionIds organizationId view = [id]) :
      Next organizationId view .outside (.select q) (.found id)
  | call {c} : Next organizationId view .seeking (.call c) .seeking
  | inserted {r : Row .subscriptions} (hr : NewSubscription organizationId r)
      (h : insertable view r = .ok ()) :
      Next organizationId view .seeking (.insert .subscriptions r) (.created (pk r))
  | refused {r : Row .subscriptions} (hr : NewSubscription organizationId r)
      (h : insertable view r ≠ .ok ()) :
      Next organizationId view .seeking (.insert .subscriptions r) .refused

/-- Requests that call `get_or_create_subscription` for one organization. -/
def gettingDiscipline (ι : Type) (organizationId : UUID) (ψ : Failure → Prop) :
    Discipline Row UUID Answer Failure ι GettingPhase where
  sees _ φ view := hasOrganization view organizationId = true ∧
    ∃ committed, φ.Fits committed ∧ subscriptionIds organizationId view = committed ++ φ.ids
  next _ φ s view _ φ' := φ.Next organizationId view s φ'
  fails _ φ e := φ ≠ .seeking ∧ ψ e ∨ φ = .refused

/-- The row that a request has got is the one that its transaction sees. -/
def GettingPhase.Returns (organizationId : UUID) (φ : GettingPhase) : Option Subscription → Prop
  | none => φ = .outside
  | some s => s.organizationId = organizationId ∧ (φ = .found s.id ∨ φ = .created s.id)

section Obeys

variable {ι : Type} {organizationId : UUID} {ψ : Failure → Prop} {i : ι}

theorem obeys_aside {α β : Type} {p : App α} {f : α → App β} {post : GettingPhase → β → Prop}
    {φ : GettingPhase} (hp : Aside organizationId ψ p) (hφ : φ ≠ .seeking)
    (hf : ∀ a, (gettingDiscipline ι organizationId ψ).Obeys i post φ (f a)) :
    (gettingDiscipline ι organizationId ψ).Obeys i post φ (p.bind f) := by
  have hfails : p.Every Stmt.Possible (Stmt.Aside organizationId)
      ((gettingDiscipline ι organizationId ψ).fails i φ) (fun _ => True) :=
    hp.mono (fun _ hs => hs) (fun _ he => .inl ⟨hφ, he⟩) (fun _ _ => trivial)
  refine Discipline.Obeys.bind
    (Discipline.obeys_of_every (fun s view ext hs => .aside hs hφ) hfails) ?_
  rintro φ' a ⟨rfl, _⟩
  exact hf a

theorem obeys_getOrCreateSubscription {β : Type} {f : Subscription → App β}
    {post : GettingPhase → β → Prop}
    (hf : ∀ φ s, φ.Returns organizationId (some s) →
      (gettingDiscipline ι organizationId ψ).Obeys i post φ (f s)) :
    (gettingDiscipline ι organizationId ψ).Obeys i post .outside
      ((getOrCreateSubscription organizationId).bind f) := by
  intro view ext hsees
  obtain ⟨_, committed, hsingle, hids⟩ := hsees
  have hlength : (subscriptionIds organizationId view).length ≤ 1 := by
    rw [hids]
    simpa [GettingPhase.ids, GettingPhase.Fits] using hsingle
  cases hfound : findSubscription organizationId view with
  | some s =>
    obtain ⟨horg, hmet⟩ := findSubscription_some hfound hlength
    refine ⟨.found s.id, .met hmet, ?_⟩
    simp only [Stmt.eval, hfound]
    exact hf _ s ⟨horg, .inl rfl⟩
  | none =>
    refine ⟨.seeking, .missed (findSubscription_none hfound), ?_⟩
    simp only [Stmt.eval, hfound]
    -- id, creation time and update time of the new row
    intro _ ext₁ _
    refine ⟨.seeking, .call, ?_⟩
    intro _ ext₂ _
    refine ⟨.seeking, .call, ?_⟩
    intro _ ext₃ _
    refine ⟨.seeking, .call, ?_⟩
    intro view' ext' _
    let new : Row .subscriptions := newSubscription organizationId (ext₁ .uuid4) (ext₂ .now) (ext₃ .now)
    have hnew : NewSubscription organizationId new := newSubscription_new _ _ _ _
    cases hins : insertable view' new with
    | ok _ =>
      refine ⟨.created (pk new), .inserted hnew hins, ?_⟩
      change (gettingDiscipline ι organizationId ψ).Obeys i post _
        (Prog.bind (Prog.bind (checked (insertable view' new)) _) f)
      rw [hins]
      exact hf _ _ ⟨rfl, .inr rfl⟩
    | error e =>
      have hrefused : insertable view' new ≠ .ok () := by
        rw [hins]
        exact fun h => by cases h
      refine ⟨.refused, .refused hnew hrefused, ?_⟩
      change (gettingDiscipline ι organizationId ψ).Obeys i post _
        (Prog.bind (Prog.bind (checked (insertable view' new)) _) f)
      rw [hins]
      exact .inr rfl

theorem Traced.obeys {β : Type} {p : App β} {q : App (Option Subscription)}
    (h : Traced organizationId ψ p q) :
    (gettingDiscipline ι organizationId ψ).Obeys i (GettingPhase.Returns organizationId) .outside q := by
  induction h with
  | ret b => exact rfl
  | raise he => exact .inl ⟨nofun, he⟩
  | part hp _ ih => exact obeys_aside hp nofun ih
  | call hf =>
    refine obeys_getOrCreateSubscription fun φ s hs => obeys_aside (hf s) ?_ fun _ => hs
    rcases hs.2 with rfl | rfl
    · exact nofun
    · exact nofun

/-- After a lookup in vain the program goes on to its insert. -/
theorem aboutToInsert_of_obeys {p : App (Option Subscription)}
    (h : (gettingDiscipline ι organizationId ψ).Obeys i (GettingPhase.Returns organizationId) .seeking p)
    {view : Db Row} (horg : hasOrganization view organizationId = true)
    (hids : subscriptionIds organizationId view = []) : AboutToInsert organizationId p := by
  induction p with
  | ret a =>
    cases a with
    | none => exact nomatch h
    | some s => rcases h.2 with h | h <;> cases h
  | raise e =>
    rcases h with ⟨hne, _⟩ | h
    · exact absurd rfl hne
    · cases h
  | step s k ih =>
    obtain ⟨φ', hnext, hk⟩ := h view (sampleOracle 0) ⟨horg, [], rfl, hids⟩
    cases hnext with
    | aside _ hφ => exact absurd rfl hφ
    | call => exact ⟨_, ih _ hk⟩
    | inserted hr _ => exact hr.organization
    | refused hr _ => exact hr.organization

end Obeys

/-! ## Any number of requests -/

/-- When a transaction commits the first row of the organization, no other call stands between
its lookup and its insert. -/
def Apart {α ι : Type} (organizationId : UUID) (sys sys' : Sys Row UUID Answer Failure α ι) :
    Prop :=
  ∀ i tx a, sys.proc i = .active tx → sys'.proc i = .committed a →
    subscriptionIds organizationId sys.db = [] →
    subscriptionIds organizationId (tx.view sys.db) ≠ [] →
    ∀ j tx', j ≠ i → sys.proc j = .active tx' → ¬ AboutToInsert organizationId tx'.prog

/-- `uuid4` gives no key that a subscription has. -/
def FreshKeys {α ι : Type} (sys : Sys Row UUID Answer Failure α ι) : Prop :=
  ∀ i tx (r : Row .subscriptions) k, sys.proc i = .active tx →
    tx.prog = .step (.insert .subscriptions r) k →
    ∀ r' ∈ tx.view sys.db .subscriptions, pk r' ≠ pk r

/-- What the concurrent calls have to show. -/
structure Tolerant {ι : Type} (organizationId : UUID) (ψ : Failure → Prop)
    (sys : Sys Row UUID Answer Failure (Option Subscription) ι) : Prop where
  /-- No call meets a row at its insert. -/
  unmet : ∀ i tx (r : Row .subscriptions) k, sys.proc i = .active tx →
    tx.prog = .step (.insert .subscriptions r) k →
    Subscription.organizationId r = organizationId →
    subscriptionIds organizationId (tx.view sys.db) = []
  /-- A request fails as its other parts may fail. -/
  failed : ∀ i e, sys.proc i = .failed (some e) → ψ e
  /-- The calls return one row. -/
  same : ∀ i s, sys.proc i = .committed (some s) → s.organizationId = organizationId ∧
    subscriptionIds organizationId sys.db = [s.id]

structure GettingInv {ι : Type} (organizationId : UUID) (ψ : Failure → Prop) (ph : ι → GettingPhase)
    (sys : Sys Row UUID Answer Failure (Option Subscription) ι) : Prop where
  organization : hasOrganization sys.db organizationId = true
  single : (subscriptionIds organizationId sys.db).length ≤ 1
  view : ∀ {i tx}, sys.proc i = .active tx → ∀ db,
    subscriptionIds organizationId (tx.view db) = subscriptionIds organizationId db ++ (ph i).ids ∧
      (hasOrganization db organizationId = true →
        hasOrganization (tx.view db) organizationId = true)
  fits : ∀ {i tx}, sys.proc i = .active tx → (ph i).Fits (subscriptionIds organizationId sys.db)
  alone : ∀ {i j tx tx'}, sys.proc i = .active tx → sys.proc j = .active tx' →
    (ph i).ids ≠ [] → (ph j).ids ≠ [] → i = j
  committed : ∀ {i s}, sys.proc i = .committed (some s) → s.organizationId = organizationId ∧
    subscriptionIds organizationId sys.db = [s.id]
  failed : ∀ {i e}, sys.proc i = .failed (some e) → ψ e

section Runs

variable {ι : Type} {organizationId : UUID} {ψ : Failure → Prop}
  {ph : ι → GettingPhase} {sys : Sys Row UUID Answer Failure (Option Subscription) ι} {i : ι}
  {tx : Tx Row UUID Answer Failure (Option Subscription)}

theorem GettingInv.sees (h : GettingInv organizationId ψ ph sys) (hi : sys.proc i = .active tx) :
    (gettingDiscipline ι organizationId ψ).sees i (ph i) (tx.view sys.db) :=
  ⟨(h.view hi sys.db).2 h.organization, _, h.fits hi, (h.view hi sys.db).1⟩

theorem GettingInv.init {progs : ι → App (Option Subscription)} {db : Db Row}
    (hdb : Unclashing db) (horg : hasOrganization db organizationId = true) :
    GettingInv organizationId ψ (fun _ => .outside) (Sys.init progs db) where
  organization := horg
  single := subscriptionIds_length hdb organizationId
  view hi db' := by
    obtain rfl := Proc.active.inj hi
    simp [Tx.view, GettingPhase.ids]
  fits _ := subscriptionIds_length hdb organizationId
  alone _ _ hne := absurd rfl hne
  committed hi := nomatch hi
  failed hi := nomatch hi

variable [DecidableEq ι]

theorem GettingInv.abort (h : GettingInv organizationId ψ ph sys) (hi : sys.proc i = .active tx)
    {e : Option Failure}
    (he : ∀ e', e = some e' → (gettingDiscipline ι organizationId ψ).fails i (ph i) e') :
    GettingInv organizationId ψ ph (sys.abort i e) where
  organization := h.organization
  single := h.single
  view hj := h.view (active_of_abort hj).2
  fits hj := h.fits (active_of_abort hj).2
  alone hj hj' := h.alone (active_of_abort hj).2 (active_of_abort hj').2
  committed hj := h.committed ((committed_abort_iff hi).mp hj)
  failed {j e'} hj := by
    by_cases hji : j = i
    · subst hji
      rw [abort_proc_self] at hj
      rcases he e' (Proc.failed.inj hj) with ⟨_, hψ⟩ | hrefused
      · exact hψ
      · have hfits := h.fits hi
        rw [hrefused] at hfits
        exact hfits.elim
    · rw [abort_proc_of_ne _ hji] at hj
      exact h.failed hj

/-- Another transaction that has added the row keeps the insert waiting. -/
theorem waits_of_created {r : Row .subscriptions} {tx' : Tx Row UUID Answer Failure (Option Subscription)}
    {id : UUID} {db view : Db Row} (hr : Subscription.organizationId r = organizationId)
    (hdb : subscriptionIds organizationId db = [])
    (hid : id ∈ subscriptionIds organizationId (tx'.view db)) :
    Waits db view tx' (.insert .subscriptions r : Stmt Row UUID Call) := by
  obtain ⟨r', hr', horg⟩ := exists_of_mem_subscriptionIds hid
  refine ⟨r', ?_, .inr ⟨fun hmem => subscriptionIds_eq_nil.mp hdb r' hmem horg, hr'⟩⟩
  simp [clash, uniqueClash, hr, horg]

omit [DecidableEq ι] in
/-- Where a statement takes its transaction: what it has written, and who else has the row. -/
theorem GettingInv.moves (h : GettingInv organizationId ψ ph sys) (hi : sys.proc i = .active tx)
    {s : Stmt Row UUID Call} {k : s.Ans Answer → App (Option Subscription)}
    (ext : (c : Call) → Answer c) {φ : GettingPhase} (hprog : tx.prog = .step s k)
    (hfree : ∀ j tx', j ≠ i → sys.proc j = .active tx' → ¬ Waits sys.db (tx.view sys.db) tx' s)
    (hnext : (ph i).Next organizationId (tx.view sys.db) s φ) (hfresh : FreshKeys sys) :
    (∀ db, subscriptionIds organizationId (replay (s.eval ext (tx.view sys.db)).2 (tx.view db)) =
        subscriptionIds organizationId db ++ φ.ids ∧
      (hasOrganization db organizationId = true →
        hasOrganization (replay (s.eval ext (tx.view sys.db)).2 (tx.view db)) organizationId = true)) ∧
    φ.Fits (subscriptionIds organizationId sys.db) ∧
    (φ.ids ≠ [] → (ph i).ids ≠ [] ∨
      ∀ j tx', j ≠ i → sys.proc j = .active tx' → (ph j).ids = []) := by
  have hview := h.view hi
  have hfits := h.fits hi
  have hids := (hview sys.db).1
  generalize ph i = φ₀ at hnext hview hfits hids
  cases hnext with
  | aside haside _ =>
    refine ⟨fun db => ?_, hfits, .inl⟩
    obtain ⟨hkeep, horg⟩ := replay_keeps (fun op hop => keeps_of_aside haside hop) (tx.view db)
    exact ⟨hkeep.trans (hview db).1, fun hdb => horg ((hview db).2 hdb)⟩
  | missed hmissed =>
    refine ⟨hview, ?_, fun hne => absurd rfl hne⟩
    rw [hmissed] at hids
    exact (List.append_eq_nil_iff.mp hids.symm).1
  | met hmet =>
    refine ⟨hview, ?_, fun hne => absurd rfl hne⟩
    rw [hmet] at hids
    simpa [GettingPhase.ids, GettingPhase.Fits] using hids.symm
  | call => exact ⟨hview, hfits, .inl⟩
  | @inserted r hr hins =>
    have hops : (Stmt.eval ext (tx.view sys.db) (.insert .subscriptions r)).2 =
        [.insert .subscriptions r] := by
      simp only [Stmt.eval, hins, onlyIfOk]
    rw [hops]
    refine ⟨fun db => ⟨?_, (hview db).2⟩, hfits, fun _ => .inr fun j tx' hji hj => ?_⟩
    · have horg : Subscription.organizationId r = organizationId := hr.organization
      have hadd : subscriptionIds organizationId (replay [.insert .subscriptions r] (tx.view db)) =
          subscriptionIds organizationId (tx.view db) ++ [pk r] := by
        simp [subscriptionIds, horg]
        rfl
      rw [hadd, (hview db).1]
      simp [GettingPhase.ids]
    · -- a row of another transaction would have kept this insert waiting
      by_contra hne
      obtain ⟨id, hid⟩ := List.exists_mem_of_ne_nil _ hne
      have hseen : id ∈ subscriptionIds organizationId (tx'.view sys.db) := by
        rw [(h.view hj sys.db).1]
        exact List.mem_append_right _ hid
      exact hfree j tx' hji hj (waits_of_created hr.organization hfits hseen)
  | @refused r hr hins =>
    have horg := (hview sys.db).2 h.organization
    have hnone : subscriptionIds organizationId (tx.view sys.db) = [] := by
      rw [hids, show subscriptionIds organizationId sys.db = [] from hfits]
      rfl
    exact absurd (insertable_new hr horg hnone (hfresh i tx r k hi hprog)) hins

theorem GettingInv.stmt (h : GettingInv organizationId ψ ph sys) (hi : sys.proc i = .active tx)
    {s : Stmt Row UUID Call} {k : s.Ans Answer → App (Option Subscription)}
    {ext : (c : Call) → Answer c} {φ : GettingPhase} (hprog : tx.prog = .step s k)
    (hfree : ∀ j tx', j ≠ i → sys.proc j = .active tx' → ¬ Waits sys.db (tx.view sys.db) tx' s)
    (hnext : (ph i).Next organizationId (tx.view sys.db) s φ) (hfresh : FreshKeys sys) :
    GettingInv organizationId ψ (Function.update ph i φ) (sys.advance i tx s k ext) := by
  obtain ⟨hwrites, hfits, hothers⟩ := h.moves hi ext hprog hfree hnext hfresh
  refine ⟨h.organization, h.single, ?_, ?_, ?_, ?_, ?_⟩
  · intro j tx' hj db
    rcases active_of_advance hj with ⟨rfl, rfl⟩ | ⟨hji, hj⟩
    · have hview : (tx.advance sys.db s k ext).view db =
          replay (s.eval ext (tx.view sys.db)).2 (tx.view db) := by
        simp [Tx.view, Tx.advance]
      rw [Function.update_self, hview]
      exact hwrites db
    · rw [Function.update_of_ne hji]
      exact h.view hj db
  · intro j tx' hj
    rcases active_of_advance hj with ⟨rfl, rfl⟩ | ⟨hji, hj⟩
    · rw [Function.update_self]
      exact hfits
    · rw [Function.update_of_ne hji]
      exact h.fits hj
  · intro j j' tx₁ tx₂ hj hj' hne hne'
    rcases active_of_advance hj with ⟨hji, _⟩ | ⟨hji, hold⟩ <;>
      rcases active_of_advance hj' with ⟨hji', _⟩ | ⟨hji', hold'⟩
    · rw [hji, hji']
    · rw [hji, Function.update_self] at hne
      rw [Function.update_of_ne hji'] at hne'
      rcases hothers hne with hmine | hnone
      · exact hji.trans (h.alone hi hold' hmine hne')
      · exact absurd (hnone _ _ hji' hold') hne'
    · rw [hji', Function.update_self] at hne'
      rw [Function.update_of_ne hji] at hne
      rcases hothers hne' with hmine | hnone
      · exact (h.alone hold hi hne hmine).trans hji'.symm
      · exact absurd (hnone _ _ hji hold) hne
    · rw [Function.update_of_ne hji] at hne
      rw [Function.update_of_ne hji'] at hne'
      exact h.alone hold hold' hne hne'
  · intro j s' hj
    exact h.committed ((committed_advance_iff hi).mp hj)
  · intro j e hj
    by_cases hji : j = i
    · subst hji
      rw [advance_proc_self] at hj
      cases hj
    · rw [advance_proc_of_ne _ hji] at hj
      exact h.failed hj

/-- What a commit makes of the rows of the organization suits everyone else. -/
theorem GettingInv.suits (h : GettingInv organizationId ψ ph sys)
    (htracks : ∀ j, (gettingDiscipline ι organizationId ψ).Tracks
      (fun _ => GettingPhase.Returns organizationId) ph j (sys.proc j))
    (hi : sys.proc i = .active tx) {a : Option Subscription}
    (hpost : (ph i).Returns organizationId a)
    (hapart : Apart organizationId sys (sys.commit i tx a)) :
    (subscriptionIds organizationId (tx.view sys.db)).length ≤ 1 ∧
    (∀ j tx', j ≠ i → sys.proc j = .active tx' →
      (ph j).Fits (subscriptionIds organizationId (tx.view sys.db))) ∧
    (∀ s, a = some s → s.organizationId = organizationId ∧
      subscriptionIds organizationId (tx.view sys.db) = [s.id]) ∧
    ∀ j s, sys.proc j = .committed (some s) → s.organizationId = organizationId ∧
      subscriptionIds organizationId (tx.view sys.db) = [s.id] := by
  have hids := (h.view hi sys.db).1
  have hfits := h.fits hi
  by_cases hcreated : (ph i).ids = []
  · -- the rows stay as they are
    rw [hcreated, List.append_nil] at hids
    rw [hids]
    refine ⟨h.single, fun j tx' _ hj => h.fits hj, ?_, fun j s hj => h.committed hj⟩
    rintro s rfl
    refine ⟨hpost.1, ?_⟩
    rcases hpost.2 with hfound | hmade
    · rw [hfound] at hfits
      exact hfits
    · rw [hmade] at hcreated
      cases hcreated
  · -- the first row of the organization
    obtain ⟨id, hid⟩ : ∃ id, ph i = .created id := by
      cases hphase : ph i with
      | created id => exact ⟨id, rfl⟩
      | _ =>
        rw [hphase] at hcreated
        exact absurd rfl hcreated
    rw [hid] at hids hfits
    have hnone : subscriptionIds organizationId sys.db = [] := hfits
    rw [hnone] at hids
    have hview : subscriptionIds organizationId (tx.view sys.db) = [id] := hids
    have hsome : subscriptionIds organizationId (tx.view sys.db) ≠ [] := by simp [hview]
    rw [hview]
    refine ⟨le_rfl, fun j tx' hji hj => ?_, ?_, fun j s hj => ?_⟩
    · have hseeing := h.sees hj
      have hfits' := h.fits hj
      have htrack := htracks j
      rw [hj] at htrack
      cases hphase : ph j with
      | outside => exact le_rfl
      | seeking =>
        rw [hphase] at hseeing
        rw [Discipline.Tracks, hphase] at htrack
        obtain ⟨horg, committed, hcommitted, hseen⟩ := hseeing
        have hempty : subscriptionIds organizationId (tx'.view sys.db) = [] := by
          rw [hseen, show committed = [] from hcommitted]
          rfl
        exact absurd (aboutToInsert_of_obeys htrack horg hempty)
          (hapart i tx a hi (commit_proc_self ..) hnone hsome j tx' hji hj)
      | found id' =>
        rw [hphase] at hfits'
        cases hnone.symm.trans hfits'
      | created id' =>
        have hboth : i = j := h.alone hi hj hcreated (by simp [hphase, GettingPhase.ids])
        exact absurd hboth.symm hji
      | refused =>
        rw [hphase] at hfits'
        exact hfits'.elim
    · rintro s rfl
      refine ⟨hpost.1, ?_⟩
      rcases hpost.2 with hfound | hmade
      · rw [hid] at hfound
        cases hfound
      · rw [hid] at hmade
        rw [GettingPhase.created.inj hmade]
    · cases hnone.symm.trans (h.committed hj).2

theorem GettingInv.commit (h : GettingInv organizationId ψ ph sys)
    (htracks : ∀ j, (gettingDiscipline ι organizationId ψ).Tracks
      (fun _ => GettingPhase.Returns organizationId) ph j (sys.proc j))
    (hi : sys.proc i = .active tx) {a : Option Subscription}
    (hpost : (ph i).Returns organizationId a)
    (hapart : Apart organizationId sys (sys.commit i tx a)) :
    GettingInv organizationId ψ ph (sys.commit i tx a) := by
  obtain ⟨hsingle, hothers, hreturned, hcommitted⟩ := h.suits htracks hi hpost hapart
  refine ⟨(h.view hi sys.db).2 h.organization, hsingle, fun hj => h.view (active_of_commit hj).2,
    fun hj => ?_, fun hj hj' => h.alone (active_of_commit hj).2 (active_of_commit hj').2,
    fun hj => ?_, fun {j e} hj => ?_⟩
  · obtain ⟨hji, hold⟩ := active_of_commit hj
    exact hothers _ _ hji hold
  · rcases committed_of_commit hj with ⟨_, heq⟩ | ⟨_, hold⟩
    · exact hreturned _ heq.symm
    · exact hcommitted _ _ hold
  · by_cases hji : j = i
    · subst hji
      rw [commit_proc_self] at hj
      cases hj
    · rw [commit_proc_of_ne _ hji] at hj
      exact h.failed hj

end Runs

theorem get_or_create_tolerant {ι : Type} [DecidableEq ι] {organizationId : UUID}
    {ψ : Failure → Prop} {db : Db Row} (hdb : Unclashing db)
    (horg : hasOrganization db organizationId = true)
    {β : ι → Type} {requests : (i : ι) → App (β i)} {progs : ι → App (Option Subscription)}
    (hcalls : ∀ i, Traced organizationId ψ (requests i) (progs i))
    {sys : Sys Row UUID Answer Failure (Option Subscription) ι}
    (hr : ReachableVia (fun s t => Apart organizationId s t ∧ FreshKeys s) progs db sys) :
    Tolerant organizationId ψ sys := by
  have hupheld : (gettingDiscipline ι organizationId ψ).Upheld
      (fun _ => GettingPhase.Returns organizationId) .outside (GettingInv organizationId ψ)
      (fun s t => Apart organizationId s t ∧ FreshKeys s) progs db := by
    refine ⟨fun i => (hcalls i).obeys, .init hdb horg, fun ph sys i tx h hi => h.sees hi, ?_, ?_, ?_⟩
    · intro ph sys i tx s k ext φ h _ hi hprog hfree hnext hok
      exact h.stmt hi hprog hfree hnext hok.2
    · intro ph sys i tx a h htracks hi _ hpost hok
      exact h.commit htracks hi hpost hok.1
    · intro ph sys i tx e h hi he _
      exact h.abort hi he
  obtain ⟨ph, hinv, htracks⟩ := hupheld.reachable hr
  refine ⟨fun i tx r k hi hprog hr => ?_, fun i e hi => hinv.failed hi,
    fun i s hi => hinv.committed hi⟩
  have htrack := htracks i
  rw [hi, Discipline.Tracks, hprog] at htrack
  obtain ⟨horg, committed, hfits, hids⟩ := hinv.sees hi
  obtain ⟨φ', hnext, _⟩ := htrack (tx.view sys.db) (sampleOracle 0) ⟨horg, committed, hfits, hids⟩
  rw [hids]
  generalize ph i = φ at hnext hfits
  cases hnext with
  | aside haside _ => exact absurd hr haside
  | inserted _ _ => exact (List.append_nil _).trans hfits
  | refused _ _ => exact (List.append_nil _).trans hfits

/-! ## The first use by a tenant -/

/-- A request that makes the call and nothing else. -/
def bareCall (organizationId : UUID) : App (Option Subscription) :=
  (getOrCreateSubscription organizationId).bind fun s => .ret (some s)

theorem traced_bareCall (organizationId : UUID) (ψ : Failure → Prop) :
    Traced organizationId ψ ((getOrCreateSubscription organizationId).bind .ret)
      (bareCall organizationId) :=
  .call fun _ => trivial

/-- The subscription of the sample organization that a call creates. -/
def firstSubscription (id : UUID) : Row .subscriptions :=
  newSubscription sampleOrganization.id id 0 0

/-- External answers of a call that draws the key. -/
def drawing (id : UUID) (c : Call) : Answer c :=
  match c with
  | .now => (0 : Int)
  | .uuid4 => id
  | c => sampleOracle 0 c

/-- What a call has left to do after a lookup in vain. -/
def insertFirst : App (Option Subscription) :=
  Prog.bind (rowDefaults.bind fun d =>
    (insertRow (newSubscription sampleOrganization.id d.id d.createdAt d.updatedAt)).bind fun _ =>
      .ret (newSubscription sampleOrganization.id d.id d.createdAt d.updatedAt))
    fun s => .ret (some s)

theorem advances_lookup (others : Tx Row UUID Answer Failure (Option Subscription) → Prop) :
    Advances sampleDb others { prog := bareCall sampleOrganization.id } { prog := insertFirst } := by
  refine advances_select (drawing ⟨20⟩) ?_
  exact Advances.refl { prog := insertFirst }

theorem advances_insertFirst {others : Tx Row UUID Answer Failure (Option Subscription) → Prop}
    (h : ∀ other, others other → (Proc.active other).Quiet) :
    Advances sampleDb others { prog := insertFirst }
      ⟨.ret (some (firstSubscription ⟨20⟩)),
        [.insert .subscriptions (firstSubscription ⟨20⟩)], []⟩ := by
  refine advances_call (drawing ⟨20⟩) ?_
  refine advances_call (drawing ⟨20⟩) ?_
  refine advances_call (drawing ⟨20⟩) ?_
  refine advances_insert (drawing ⟨20⟩) (by decide +kernel)
    (fun other hother => not_waits_of_quiet (h other hother) _) ?_
  exact .refl _

theorem advances_insertSecond :
    Advances (replay [(.insert .subscriptions (firstSubscription ⟨20⟩) : Op Row UUID)] sampleDb)
      (fun _ => False) { prog := insertFirst } ⟨.raise .integrity, [], []⟩ := by
  refine advances_call (drawing ⟨21⟩) ?_
  refine advances_call (drawing ⟨21⟩) ?_
  refine advances_call (drawing ⟨21⟩) ?_
  refine advances_refused (e := .integrity) (drawing ⟨21⟩) (by decide +kernel) (fun _ h => h.elim) ?_
  exact .refl _

/-- Two calls look before either inserts: the second one fails. -/
theorem overlapping_call_fails :
    ∃ sys, Reachable (fun _ : Bool => bareCall sampleOrganization.id) sampleDb sys ∧
      sys.proc true = .committed (some (firstSubscription ⟨20⟩)) ∧
      sys.proc false = .failed (some .integrity) := by
  have hquiet : ∀ other : Tx Row UUID Answer Failure (Option Subscription),
      other = { prog := insertFirst } → (Proc.active other).Quiet := by
    rintro _ rfl
    exact ⟨rfl, rfl⟩
  exact exists_failure_past (advances_lookup _)
    ((advances_lookup _).trans (advances_insertFirst hquiet)) advances_insertSecond

/-- The runs of two calls that keep apart. -/
abbrev ApartRun (sys : Sys Row UUID Answer Failure (Option Subscription) Bool) : Prop :=
  ReachableVia (fun s t => Apart sampleOrganization.id s t ∧ FreshKeys s)
    (fun _ : Bool => bareCall sampleOrganization.id) sampleDb sys

/-- One call is under way, and the other has not begun. -/
def Underway (tx : Tx Row UUID Answer Failure (Option Subscription)) : Prop :=
  ∃ sys, ApartRun sys ∧ sys.db = sampleDb ∧ sys.proc true = .active tx ∧
    sys.proc false = .active { prog := bareCall sampleOrganization.id }

theorem underway_step {tx : Tx Row UUID Answer Failure (Option Subscription)}
    {s : Stmt Row UUID Call} {k : s.Ans Answer → App (Option Subscription)}
    (ext : (c : Call) → Answer c) (h : Underway tx) (hprog : tx.prog = .step s k)
    (hops : tx.ops = []) : Underway (tx.advance sampleDb s k ext) := by
  obtain ⟨sys, hr, hdb, htrue, hfalse⟩ := h
  have hfree : ∀ j tx', j ≠ true → sys.proc j = .active tx' →
      ¬ Waits sys.db (tx.view sys.db) tx' s := by
    intro j tx' hj hact
    obtain rfl : j = false := by simpa using hj
    rw [← Proc.active.inj (hfalse.symm.trans hact)]
    exact not_waits_of_quiet ⟨rfl, rfl⟩ s
  have hapart : Apart sampleOrganization.id sys (sys.advance true tx s k ext) := by
    intro i tx₁ a hact hcommit
    rw [committed_advance_iff htrue, hact] at hcommit
    cases hcommit
  have hfresh : FreshKeys sys := by
    intro i tx₁ r k hact _ r' hr'
    have hnone : tx₁.view sys.db .subscriptions = [] := by
      cases i with
      | true =>
        rw [← Proc.active.inj (htrue.symm.trans hact), Tx.view, hops, hdb]
        rfl
      | false =>
        rw [← Proc.active.inj (hfalse.symm.trans hact), hdb]
        rfl
    rw [hnone] at hr'
    cases hr'
  refine ⟨_, hr.tail ⟨.stmt true tx s k ext htrue hprog hfree, hapart, hfresh⟩, hdb, ?_, ?_⟩
  · rw [advance_proc_self, hdb]
  · rw [advance_proc_of_ne _ (by decide), hfalse]

theorem underway_commit {tx : Tx Row UUID Answer Failure (Option Subscription)}
    {a : Option Subscription} (h : Underway tx) (hprog : tx.prog = .ret a) :
    ∃ sys, ApartRun sys ∧ sys.db = replay tx.ops sampleDb ∧ sys.proc true = .committed a ∧
      sys.proc false = .active { prog := bareCall sampleOrganization.id } := by
  obtain ⟨sys, hr, hdb, htrue, hfalse⟩ := h
  have hapart : Apart sampleOrganization.id sys (sys.commit true tx a) := by
    intro i tx₁ b hact hcommit _ _ j tx' hj hact'
    cases i with
    | true =>
      obtain rfl : j = false := by simpa using hj
      rw [← Proc.active.inj (hfalse.symm.trans hact')]
      exact id
    | false =>
      rw [commit_proc_of_ne _ (by decide), hact] at hcommit
      cases hcommit
  have hfresh : FreshKeys sys := by
    intro i tx₁ r k hact hinsert
    cases i with
    | true =>
      rw [← Proc.active.inj (htrue.symm.trans hact), hprog] at hinsert
      cases hinsert
    | false =>
      rw [← Proc.active.inj (hfalse.symm.trans hact)] at hinsert
      exact nomatch hinsert
  refine ⟨_, hr.tail ⟨.commit true tx a htrue hprog, hapart, hfresh⟩, ?_, commit_proc_self ..,
    ?_⟩
  · rw [← hdb]
    rfl
  · rw [commit_proc_of_ne _ (by decide), hfalse]

/-- The other call looks up after the commit, and returns the row that it finds. -/
theorem second_call_finds {sys : Sys Row UUID Answer Failure (Option Subscription) Bool}
    {a : Option Subscription} {s : Subscription} (hr : ApartRun sys)
    (htrue : sys.proc true = .committed a)
    (hfalse : sys.proc false = .active { prog := bareCall sampleOrganization.id })
    (hfind : findSubscription sampleOrganization.id sys.db = some s) :
    ∃ sys', ApartRun sys' ∧ sys'.proc true = .committed a ∧
      sys'.proc false = .committed (some s) := by
  have hquiet : FreshKeys sys := by
    intro i tx r k hact hinsert
    cases i with
    | true =>
      rw [htrue] at hact
      cases hact
    | false =>
      rw [← Proc.active.inj (hfalse.symm.trans hact)] at hinsert
      exact nomatch hinsert
  let tx : Tx Row UUID Answer Failure (Option Subscription) := { prog := .ret (some s) }
  obtain ⟨looked, hlooked, hdb, hltrue, hlfalse⟩ : ∃ looked, ApartRun looked ∧
      looked.db = sys.db ∧ looked.proc true = .committed a ∧ looked.proc false = .active tx := by
    refine ⟨_, hr.tail ⟨.stmt false _ _ _ (drawing ⟨21⟩) hfalse rfl ?_, ?_, hquiet⟩, rfl, ?_, ?_⟩
    · intro j tx' hj hact
      obtain rfl : j = true := by simpa using hj
      rw [htrue] at hact
      cases hact
    · intro i tx₁ b hact hcommit
      rw [committed_advance_iff hfalse, hact] at hcommit
      cases hcommit
    · rw [advance_proc_of_ne _ (by decide), htrue]
    · rw [advance_proc_self]
      simp only [Tx.advance, Stmt.eval, Tx.view, replay_nil, hfind]
      rfl
  have hview : tx.view looked.db = looked.db := rfl
  refine ⟨_, hlooked.tail ⟨.commit false tx _ hlfalse rfl, ?_, ?_⟩, ?_, commit_proc_self ..⟩
  · intro i tx₁ b hact _ hnone hsome
    cases i with
    | true =>
      rw [hltrue] at hact
      cases hact
    | false =>
      rw [← Proc.active.inj (hlfalse.symm.trans hact), hview] at hsome
      exact absurd hnone hsome
  · intro i tx₁ r k hact hinsert
    cases i with
    | true =>
      rw [hltrue] at hact
      cases hact
    | false =>
      rw [← Proc.active.inj (hlfalse.symm.trans hact)] at hinsert
      cases hinsert
  · rw [commit_proc_of_ne _ (by decide), hltrue]

theorem sample_get_or_create : ∃ sys, ApartRun sys ∧
    sys.proc true = .committed (some (firstSubscription ⟨20⟩)) ∧
    sys.proc false = .committed (some (firstSubscription ⟨20⟩)) ∧
    Tolerant sampleOrganization.id (fun _ => False) sys := by
  have hinit : Underway { prog := bareCall sampleOrganization.id } :=
    ⟨Sys.init _ sampleDb, .refl, rfl, rfl, rfl⟩
  have hlookup := underway_step (drawing ⟨20⟩) hinit rfl rfl
  have hid := underway_step (drawing ⟨20⟩) hlookup rfl rfl
  have hcreatedAt := underway_step (drawing ⟨20⟩) hid rfl rfl
  have hupdatedAt := underway_step (drawing ⟨20⟩) hcreatedAt rfl rfl
  have hinsert := underway_step (drawing ⟨20⟩) hupdatedAt rfl rfl
  obtain ⟨sys, hr, hdb, htrue, hfalse⟩ :=
    underway_commit (a := some (firstSubscription ⟨20⟩)) hinsert rfl
  have hfind : findSubscription sampleOrganization.id sys.db = some (firstSubscription ⟨20⟩) := by
    rw [hdb]
    rfl
  obtain ⟨sys', hr', htrue', hfalse'⟩ := second_call_finds hr htrue hfalse hfind
  exact ⟨sys', hr', htrue', hfalse', get_or_create_tolerant unclashing_sampleDb (by decide)
    (fun _ => traced_bareCall sampleOrganization.id (fun _ => False)) hr'⟩

end TenantFlow
