import TenantFlow.Library.Restriction
import TenantFlow.Verification.NonInterference

/-!
# Tenants in interleaved runs

Requests on the routes of many organizations run side by side, and any of them may fail or be cut
off. The steps of all organizations but one can be left out: what remains is a run in which the
requests of this one do what they did.
-/

namespace TenantFlow

open JsonText Transactional

/-! ## The endpoints of deliveries -/

section Anchored

variable {F : Scope} {db db' : Db Row} {t : Table} {ops : List (Op Row UUID)}

/-- A row that writes leave is a version of an old one or of an inserted one. -/
theorem version_of_replay (hops : ∀ op ∈ ops, F.AllowsOp op) {r : Row t}
    (hr : r ∈ replay ops db t) :
    ∃ r₀, blank r = blank r₀ ∧ (r₀ ∈ db t ∨ .insert t r₀ ∈ ops) := by
  induction ops generalizing db with
  | nil => exact ⟨r, rfl, .inl hr⟩
  | cons op ops ih =>
    obtain ⟨r₀, hblank, hr₀ | hr₀⟩ := ih (fun o ho => hops o (List.mem_cons_of_mem _ ho)) hr
    · by_cases ht : op.table = t
      · cases op with
        | insert t' s =>
          obtain rfl : t' = t := ht
          rw [apply_insert_self, List.mem_append, List.mem_singleton] at hr₀
          rcases hr₀ with hr₀ | rfl
          · exact ⟨r₀, hblank, .inl hr₀⟩
          · exact ⟨r₀, hblank, .inr List.mem_cons_self⟩
        | update t' id f =>
          obtain rfl : t' = t := ht
          rcases mem_apply_update hr₀ with ⟨hr₀, _⟩ | ⟨s, hs, _, rfl⟩
          · exact ⟨r₀, hblank, .inl hr₀⟩
          · exact ⟨s, hblank.trans (hops _ List.mem_cons_self s), .inl hs⟩
        | delete t' id => exact ⟨r₀, hblank, .inl (mem_of_apply_delete hr₀)⟩
      · rw [apply_of_table_ne db ht] at hr₀
        exact ⟨r₀, hblank, .inl hr₀⟩
    · exact ⟨r₀, hblank, .inr (List.mem_cons_of_mem _ hr₀)⟩

def HasEndpoint (db : Db Row) (id : UUID) : Prop := ∃ e ∈ db .webhookEndpoints, e.id = id

variable (hF : Table.webhookEndpoints ∉ F.deletes) (hops : ∀ op ∈ ops, F.AllowsOp op)

include hF hops

theorem HasEndpoint.replay {id : UUID} (h : HasEndpoint db id) :
    HasEndpoint (Transactional.replay ops db) id := by
  obtain ⟨e, he, rfl⟩ := h
  obtain ⟨e', he', hblank⟩ := replay_keeps_rows blank (fun id hdel => hF (hops _ hdel))
    (fun id f hup => hops _ hup) he
  exact ⟨e', he', pk_of_blank hblank⟩

theorem hasEndpoint_of_insert {e : WebhookEndpoint} (he : .insert .webhookEndpoints e ∈ ops) :
    HasEndpoint (Transactional.replay ops db) e.id := by
  obtain ⟨before, after, rfl⟩ := List.append_of_mem he
  rw [replay_append, replay_cons]
  refine HasEndpoint.replay hF (fun op hop => hops op ?_) ⟨e, by simp, rfl⟩
  exact List.mem_append_right _ (List.mem_cons_of_mem _ hop)

/-- An endpoint that is there after the writes is there after them in any larger database. -/
theorem HasEndpoint.of_replay {id : UUID} (h : HasEndpoint (Transactional.replay ops db) id)
    (hmono : ∀ id, HasEndpoint db id → HasEndpoint db' id) :
    HasEndpoint (Transactional.replay ops db') id := by
  obtain ⟨e, he, rfl⟩ := h
  obtain ⟨e₀, hblank, he₀ | he₀⟩ := version_of_replay hops he
  · exact HasEndpoint.replay hF hops (hmono _ ⟨e₀, he₀, (pk_of_blank hblank).symm⟩)
  · have hid : e.id = e₀.id := pk_of_blank hblank
    rw [hid]
    exact hasEndpoint_of_insert hF hops he₀

end Anchored

section AnchoredRun

variable {ι : Type} [DecidableEq ι] {requests : ι → Request} {db : Db Row}
  {sys : Sys Row UUID Answer Failure Response ι}

/-- Every delivery has its endpoint; what an open transaction sees has the endpoints of the
deliveries that it has inserted. -/
structure AnchoredRun (requests : ι → Request) (sys : Sys Row UUID Answer Failure Response ι) :
    Prop where
  db : Anchored sys.db
  ops : ∀ i tx, sys.proc i = .active tx → ∀ op ∈ tx.ops, (requests i).scope.AllowsOp op
  inserts : ∀ i tx, sys.proc i = .active tx → ∀ d, .insert .webhookDeliveries d ∈ tx.ops →
    HasEndpoint (tx.view sys.db) d.endpointId

omit [DecidableEq ι] in
/-- What a transaction commits leaves every delivery its endpoint. -/
theorem AnchoredRun.commit (h : AnchoredRun requests sys) {i : ι}
    {tx : Tx Row UUID Answer Failure Response} (hi : sys.proc i = .active tx) :
    Anchored (replay tx.ops sys.db) := by
  intro d hd
  obtain ⟨d₀, hblank, hd₀ | hd₀⟩ := version_of_replay (h.ops i tx hi) hd
  · have hhas : HasEndpoint (replay tx.ops sys.db) d₀.endpointId :=
      HasEndpoint.replay (requests i).scope_endpoints (h.ops i tx hi) (h.db d₀ hd₀)
    rwa [← endpointId_of_blank hblank] at hhas
  · have hhas : HasEndpoint (replay tx.ops sys.db) d₀.endpointId := h.inserts i tx hi d₀ hd₀
    rwa [← endpointId_of_blank hblank] at hhas

/-- A delivery is inserted only where its endpoint is seen. -/
theorem AnchoredRun.stmt (h : AnchoredRun requests sys) {i : ι}
    {tx : Tx Row UUID Answer Failure Response} (hi : sys.proc i = .active tx)
    {s : Stmt Row UUID Call} (hs : (requests i).scope.Allows s)
    (k : s.Ans Answer → App Response) (ext : (c : Call) → Answer c) :
    AnchoredRun requests (sys.advance i tx s k ext) := by
  have hnew : ∀ op ∈ (s.eval ext (tx.view sys.db)).2, (requests i).scope.AllowsOp op :=
    fun op hop => hs.ops hop
  refine ⟨h.db, fun j tx' hj => ?_, fun j tx' hj => ?_⟩
  · rcases active_of_advance hj with ⟨rfl, rfl⟩ | ⟨_, hj⟩
    · exact fun op hop => (List.mem_append.mp hop).elim (h.ops j tx hi op) (hnew op)
    · exact h.ops j tx' hj
  · rcases active_of_advance hj with ⟨rfl, rfl⟩ | ⟨_, hj⟩
    · intro d hd
      change HasEndpoint ((tx.advance sys.db s k ext).view sys.db) d.endpointId
      rw [view_advance]
      refine HasEndpoint.replay (requests j).scope_endpoints hnew ?_
      rcases List.mem_append.mp hd with hd | hd
      · exact h.inserts j tx hi d hd
      · rcases mem_eval_ops hd with ⟨_, _, heq, hins, _⟩ | ⟨_, _, _, heq, _⟩ | ⟨_, _, _, _, heq, _⟩
        · cases heq
          have hcheck := (check_eq_none_iff.mp (insertable_ok hins).1).2.2
          simpa [HasEndpoint, referencesOk] using hcheck
        · cases heq
        · cases heq
    · exact h.inserts j tx' hj

theorem anchoredRun_of_reachable [Platform] (hdb : Anchored db)
    (hr : Reachable (fun i => (requests i).handler) db sys) : AnchoredRun requests sys := by
  induction hr with
  | refl =>
    refine ⟨hdb, fun i tx hi op hop => ?_, fun i tx hi d hd => ?_⟩
    · obtain rfl := Proc.active.inj hi
      cases hop
    · obtain rfl := Proc.active.inj hi
      cases hd
  | tail hr hstep ih =>
    cases hstep.1 with
    | stmt i tx s k ext hi hp hfree =>
      have hleft := ReachableVia.every (fun i => confined_request (requests i)) hr hi
      rw [hp] at hleft
      exact ih.stmt hi hleft.1 k ext
    | commit i tx a hi hp =>
      refine ⟨ih.commit hi, fun j tx' hj => ih.ops j tx' (active_of_commit hj).2,
        fun j tx' hj d hd => ?_⟩
      obtain ⟨_, hj⟩ := active_of_commit hj
      exact (ih.inserts j tx' hj d hd).of_replay (requests j).scope_endpoints (ih.ops j tx' hj)
        fun id hid => hid.replay (requests i).scope_endpoints (ih.ops i tx hi)
    | rollback i tx e hi hp =>
      exact ⟨ih.db, fun j tx' hj => ih.ops j tx' (active_of_abort hj).2,
        fun j tx' hj => ih.inserts j tx' (active_of_abort hj).2⟩
    | cutOff i tx hi =>
      exact ⟨ih.db, fun j tx' hj => ih.ops j tx' (active_of_abort hj).2,
        fun j tx' hj => ih.inserts j tx' (active_of_abort hj).2⟩

end AnchoredRun

/-! ## What is drawn in a run -/

/-- A request on the routes of an organization. -/
structure RouteRequest where
  organizationId : UUID
  userId : UUID
  request : OrganizationRequest

def RouteRequest.toRequest (r : RouteRequest) : Request :=
  .organization r.organizationId r.userId r.request

abbrev RouteSys (ι : Type) : Type 1 := Sys Row UUID Answer Failure Response ι

abbrev Trace (ι : Type) : Type := List (ι × Entry Row UUID Answer)

section Drawn

variable [Platform] {ι : Type} {organizationId other : UUID} {requests : ι → RouteRequest}
  {trace : Trace ι} {db d : Db Row} {t : Table}

/-- Of the trace, what the requests of one organization did. -/
def ownTrace (requests : ι → RouteRequest) (organizationId : UUID) (trace : Trace ι) : Trace ι :=
  trace.filter fun e => (requests e.1).organizationId = organizationId

omit [Platform] in
theorem mem_ownTrace {i : ι} {e : Entry Row UUID Answer}
    (h : (requests i).organizationId = organizationId) (he : (i, e) ∈ trace) :
    (i, e) ∈ ownTrace requests organizationId trace :=
  List.mem_filter.mpr ⟨he, by simpa using h⟩

/-- Two organizations draw no id and no token of one hash in common. -/
structure DrawnApart (requests : ι → RouteRequest) (trace : Trace ι) : Prop where
  ids : ∀ i j id, (i, .called .uuid4 id) ∈ trace → (j, .called .uuid4 id) ∈ trace →
    (requests i).organizationId = (requests j).organizationId
  tokens : ∀ i j n m x y, (i, .called (.tokenUrlsafe n) x) ∈ trace →
    (j, .called (.tokenUrlsafe m) y) ∈ trace → tokenFingerprint x = tokenFingerprint y →
      (requests i).organizationId = (requests j).organizationId

/-- What is drawn is used nowhere in the database. -/
structure DrawnUnused (trace : Trace ι) (db : Db Row) : Prop where
  ids : ∀ i id, (i, .called .uuid4 id) ∈ trace → ∀ t, ∀ r ∈ db t, pk r ≠ id
  tokens : ∀ i n x, (i, .called (.tokenUrlsafe n) x) ∈ trace → ∀ r ∈ db .invitations,
    r.tokenHash ≠ tokenFingerprint x

/-- The keys that an organization has from the start or draws; all have those of the users. -/
def RunKey (requests : ι → RouteRequest) (db : Db Row) (trace : Trace ι) (organizationId : UUID)
    (t : Table) (id : UUID) : Prop :=
  (∃ r ∈ db t, pk r = id ∧ tenantPart organizationId db t r = true) ∨
    ∃ i, (i, .called .uuid4 id) ∈ trace ∧
      (t = .users ∨ (requests i).organizationId = organizationId)

/-- The hashes of its invitation tokens. -/
def RunHash (requests : ι → RouteRequest) (db : Db Row) (trace : Trace ι) (organizationId : UUID)
    (hash : String) : Prop :=
  (∃ r ∈ db .invitations, r.tokenHash = hash ∧ r.organizationId = organizationId) ∨
    ∃ i n x, (i, .called (.tokenUrlsafe n) x) ∈ trace ∧ tokenFingerprint x = hash ∧
      (requests i).organizationId = organizationId

open Classical in
noncomputable def runBorder (requests : ι → RouteRequest) (db : Db Row) (trace : Trace ι)
    (organizationId : UUID) : TenantBorder organizationId where
  Key := RunKey requests db trace organizationId
  Hash := RunHash requests db trace organizationId
  foreign id := decide (¬ RunKey requests db trace organizationId .webhookEndpoints id)

theorem foreign_eq_false {id : UUID} :
    (runBorder requests db trace organizationId).foreign id = false ↔
      RunKey requests db trace organizationId .webhookEndpoints id := by
  simp [runBorder]

/-- No key but those of users belongs to two organizations. -/
theorem RunKey.unique (hdb : Attributed db) (hapart : DrawnApart requests trace)
    (hunused : DrawnUnused trace db) (ht : t ≠ .users) {id : UUID}
    (h : RunKey requests db trace organizationId t id) (h' : RunKey requests db trace other t id) :
    organizationId = other := by
  rcases h with ⟨r, hr, hid, hP⟩ | ⟨i, hi, hi'⟩
  · rcases h' with ⟨r', hr', hid', hP'⟩ | ⟨j, hj, _⟩
    · obtain rfl := hdb.unclashing.eq_of_pk hr' hr (hid'.trans hid.symm)
      by_contra hne
      rw [hdb.tenantPart_ne hne ht hr' hP] at hP'
      cases hP'
    · exact absurd hid (hunused.ids j id hj t r hr)
  · rcases h' with ⟨r', hr', hid', _⟩ | ⟨j, hj, hj'⟩
    · exact absurd hid' (hunused.ids i id hi t r' hr')
    · exact ((hi'.resolve_left ht).symm.trans (hapart.ids i j id hi hj)).trans (hj'.resolve_left ht)

omit [Platform] in
/-- Two invitations have two token hashes. -/
theorem eq_of_tokenHash (hd : Unclashing d) {r r' : Invitation} (hr : r ∈ d .invitations)
    (hr' : r' ∈ d .invitations) (hhash : r.tokenHash = r'.tokenHash) : r = r' := by
  by_contra hne
  have hclash := hd.unique .invitations r hr r' hr' fun hpk => hne (hd.eq_of_pk hr hr' hpk)
  simp [clash, uniqueClash, hhash] at hclash

theorem RunHash.unique (hdb : Attributed db) (hapart : DrawnApart requests trace)
    (hunused : DrawnUnused trace db) {hash : String}
    (h : RunHash requests db trace organizationId hash)
    (h' : RunHash requests db trace other hash) : organizationId = other := by
  rcases h with ⟨r, hr, hhash, horganization⟩ | ⟨i, n, x, hi, hhash, horganization⟩
  · rcases h' with ⟨r', hr', hhash', horganization'⟩ | ⟨j, m, y, hj, hhash', _⟩
    · have heq : r = r' := eq_of_tokenHash hdb.unclashing hr hr' (hhash.trans hhash'.symm)
      rw [← horganization, ← horganization', heq]
    · exact absurd (hhash.trans hhash'.symm) (hunused.tokens j m y hj r hr)
  · rcases h' with ⟨r', hr', hhash', _⟩ | ⟨j, m, y, hj, hhash', horganization'⟩
    · exact absurd (hhash'.trans hhash.symm) (hunused.tokens i n x hi r' hr')
    · rw [← horganization, ← horganization']
      exact hapart.tokens i j n m x y hi hj (hhash.trans hhash'.symm)

/-! ## Borders of a run -/

omit [Platform] in
/-- Where endpoints are on the side of their organization, so are the deliveries. -/
theorem TenantBorder.part_eq {B : TenantBorder organizationId} (hd : Unclashing d)
    (hanchored : Anchored d)
    (hmarked : ∀ e ∈ d .webhookEndpoints, B.Marked .webhookEndpoints e) {r : Row t} (hr : r ∈ d t) :
    B.part t r = tenantPart organizationId d t r := by
  cases t with
  | webhookDeliveries =>
    obtain ⟨e, he, hid⟩ := hanchored r hr
    have hside := hmarked e he
    simp only [Marked, hid] at hside
    rw [tenantPart_of_endpoint hd organizationId he hid, part, partOf]
    by_cases horganization : e.organizationId = organizationId
    · simp [horganization, hside.mpr horganization]
    · have hforeign : B.foreign r.endpointId = true := by
        by_contra hnot
        exact horganization (hside.mp (by simpa using hnot))
      simp [horganization, hforeign]
  | _ => rfl

omit [Platform] in
theorem TenantBorder.mine_eq {B : TenantBorder organizationId} (hd : Unclashing d)
    (hanchored : Anchored d) (hgood : AllGood B.Good d) :
    B.part.mine d = tenantRows organizationId d := by
  funext t
  exact List.filter_congr fun r hr =>
    TenantBorder.part_eq hd hanchored (fun e he => (hgood _ e he).marked) hr

/-- A database from which the requests of the organization may as well run. -/
structure StandsIn (organizationId : UUID) (requests : ι → RouteRequest) (db : Db Row)
    (trace : Trace ι) (d : Db Row) : Prop where
  attributed : Attributed d
  same : tenantRows organizationId d = tenantRows organizationId db
  unused : DrawnUnused (ownTrace requests organizationId trace) d

theorem StandsIn.mem_iff (h : StandsIn organizationId requests db trace d) {r : Row t} :
    r ∈ d t ∧ tenantPart organizationId d t r = true ↔
      r ∈ db t ∧ tenantPart organizationId db t r = true := by
  have hsame := congrFun h.same t
  constructor
  · intro hr
    exact Part.mem_mine.mp (show r ∈ tenantRows organizationId db t from
      hsame ▸ Part.mem_mine.mpr hr)
  · intro hr
    exact Part.mem_mine.mp (show r ∈ tenantRows organizationId d t from
      hsame ▸ Part.mem_mine.mpr hr)

theorem StandsIn.key_iff (h : StandsIn organizationId requests db trace d) {r : Row t}
    (hr : r ∈ d t) : RunKey requests db trace organizationId t (pk r) ↔
      tenantPart organizationId d t r = true := by
  constructor
  · rintro (⟨r₀, hr₀, hid, hP⟩ | ⟨i, hi, ht | horganization⟩)
    · obtain ⟨hr₀, hP⟩ := h.mem_iff.mpr ⟨hr₀, hP⟩
      rwa [h.attributed.unclashing.eq_of_pk hr hr₀ hid.symm]
    · subst ht
      rfl
    · exact absurd rfl (h.unused.ids i _ (mem_ownTrace horganization hi) t r hr)
  · intro hP
    obtain ⟨hr₀, hP₀⟩ := h.mem_iff.mp ⟨hr, hP⟩
    exact .inl ⟨r, hr₀, rfl, hP₀⟩

theorem StandsIn.marked (h : StandsIn organizationId requests db trace d) {r : Row t}
    (hr : r ∈ d t) : (runBorder requests db trace organizationId).Marked t r := by
  cases t with
  | webhookEndpoints =>
    refine foreign_eq_false.trans ((h.key_iff hr).trans ?_)
    simp [tenantPart, partOf]
  | invitations =>
    constructor
    · rintro (⟨r₀, hr₀, hhash, horganization⟩ | ⟨i, n, x, hi, hhash, horganization⟩)
      · have hP : tenantPart organizationId db .invitations r₀ = true := by
          simpa [tenantPart, partOf] using horganization
        obtain ⟨hr₀, _⟩ := h.mem_iff.mpr ⟨hr₀, hP⟩
        rwa [← eq_of_tokenHash h.attributed.unclashing hr₀ hr hhash]
      · exact absurd hhash.symm (h.unused.tokens i n x (mem_ownTrace horganization hi) r hr)
    · intro horganization
      have hP : tenantPart organizationId d .invitations r = true := by
        simpa [tenantPart, partOf] using horganization
      exact .inl ⟨r, (h.mem_iff.mp ⟨hr, hP⟩).1, rfl, horganization⟩
  | _ => trivial

theorem StandsIn.good (h : StandsIn organizationId requests db trace d) :
    AllGood (runBorder requests db trace organizationId).Good d := by
  intro t r hr
  have hpart : (runBorder requests db trace organizationId).part t r =
      tenantPart organizationId d t r :=
    TenantBorder.part_eq h.attributed.unclashing h.attributed.anchored (fun e he => h.marked he) hr
  refine ⟨?_, h.marked hr, h.attributed.tagged.keys t r hr, h.attributed.tagged.scopes t r hr⟩
  rw [hpart]
  exact h.key_iff hr

theorem StandsIn.mine_eq (h : StandsIn organizationId requests db trace d) :
    (runBorder requests db trace organizationId).part.mine d = tenantRows organizationId db :=
  (TenantBorder.mine_eq h.attributed.unclashing h.attributed.anchored h.good).trans h.same

theorem standsIn_self (hdb : Attributed db) (hunused : DrawnUnused trace db)
    (organizationId : UUID) : StandsIn organizationId requests db trace db where
  attributed := hdb
  same := rfl
  unused :=
    ⟨fun i id hi => hunused.ids i id (List.mem_filter.mp hi).1,
      fun i n x hi => hunused.tokens i n x (List.mem_filter.mp hi).1⟩

/-- A row of one organization is none of another. -/
theorem runBorder_apart (hdb : Attributed db) (hapart : DrawnApart requests trace)
    (hunused : DrawnUnused trace db) (hne : organizationId ≠ other) (ht : t ≠ .users) {r : Row t}
    (hP : (runBorder requests db trace organizationId).part t r = true) :
    (runBorder requests db trace other).part t r = false := by
  cases t with
  | users => exact absurd rfl ht
  | refreshTokens => cases hP
  | stripeEvents => cases hP
  | webhookDeliveries =>
    simp only [TenantBorder.part, partOf, Bool.not_eq_true'] at hP
    by_contra hother
    simp only [TenantBorder.part, partOf, Bool.not_eq_false, Bool.not_eq_true'] at hother
    exact hne (RunKey.unique hdb hapart hunused (by decide) (foreign_eq_false.mp hP)
      (foreign_eq_false.mp hother))
  | idempotencyRecords =>
    simp only [TenantBorder.part, partOf, decide_eq_true_eq] at hP
    simp [TenantBorder.part, partOf, hP, hne]
  | _ =>
    simp only [TenantBorder.part, partOf, decide_eq_true_eq] at hP
    simp [TenantBorder.part, partOf, hP, hne]

/-- What is good and of one organization is good for all. -/
theorem runBorder_compatible (hdb : Attributed db) (hapart : DrawnApart requests trace)
    (hunused : DrawnUnused trace db) :
    Compatible fun k => (runBorder requests db trace k).border := by
  intro k l t r hP hgood
  by_cases hkl : k = l
  · exact hkl ▸ hgood
  have hkey : RunKey requests db trace k t (pk r) := hgood.key_iff.mpr hP
  refine ⟨?_, ?_, hgood.ownKey, hgood.ownScope⟩
  · by_cases ht : t = .users
    · subst ht
      refine ⟨fun _ => rfl, fun _ => ?_⟩
      rcases hkey with ⟨r₀, hr₀, hid, _⟩ | ⟨i, hi, _⟩
      · exact .inl ⟨r₀, hr₀, hid, rfl⟩
      · exact .inr ⟨i, hi, .inl rfl⟩
    · rw [runBorder_apart hdb hapart hunused hkl ht hP]
      exact iff_of_false (fun h => hkl (RunKey.unique hdb hapart hunused ht hkey h)) (by simp)
  · cases t with
    | invitations =>
      have horganization : r.organizationId = k := by
        simpa [Border.part, TenantBorder.border, TenantBorder.part, partOf] using hP
      have hhash : RunHash requests db trace k r.tokenHash := hgood.marked.mpr horganization
      exact iff_of_false (fun h => hkl (RunHash.unique hdb hapart hunused hhash h))
        fun h => hkl (horganization.symm.trans h)
    | webhookEndpoints =>
      have horganization : r.organizationId = k := by
        simpa [Border.part, TenantBorder.border, TenantBorder.part, partOf] using hP
      refine iff_of_false (fun h => ?_) fun h => hkl (horganization.symm.trans h)
      exact hkl (RunKey.unique hdb hapart hunused (by decide) hkey (foreign_eq_false.mp h))
    | _ => trivial

/-- What a request draws belongs to its organization. -/
theorem runBorder_expected : Expected (fun k => (runBorder requests db trace k).Draws)
    (fun i => (requests i).organizationId) trace := by
  intro i c x hmem
  cases c with
  | uuid4 =>
    have hkey : ∀ t, RunKey requests db trace (requests i).organizationId t x :=
      fun t => .inr ⟨i, hmem, .inr rfl⟩
    exact ⟨hkey, foreign_eq_false.mpr (hkey _)⟩
  | tokenUrlsafe n => exact .inr ⟨i, n, x, hmem, rfl, rfl⟩
  | _ => trivial

end Drawn

/-! ## Runs of many organizations -/

section Runs

variable [Platform] {ι : Type} [DecidableEq ι] {organizationId : UUID} {requests : ι → RouteRequest}
  {db db' : Db Row} {sys : RouteSys ι}

theorem orderly_route (r : RouteRequest) : Orderly (· ∈ r.toRequest.scope.writes)
    (· ∈ r.toRequest.scope.deletes) r.toRequest.handler :=
  orderly_request _

omit [Platform] in
theorem RouteRequest.scope_users (r : RouteRequest) {t : Table}
    (ht : t ∈ r.toRequest.scope.writes ∨ t ∈ r.toRequest.scope.deletes) : t ≠ .users := by
  rintro rfl
  obtain ⟨hw, hd⟩ := Request.scope_users r.organizationId r.userId r.request
  exact ht.elim hw hd

/-- The rows inside a border, in a state of a run. -/
theorem mine_of_reachable (hdb : Attributed db)
    (hr : Reachable (fun i => (requests i).toRequest.handler) db sys)
    {B : TenantBorder organizationId} (hgood : AllGood B.Good sys.db) :
    B.part.mine sys.db = tenantRows organizationId sys.db := by
  have hisolated := ReachableVia.isolated (fun i => orderly_route (requests i)) hdb.unclashing hr
  exact TenantBorder.mine_eq hisolated.unclashing
    (anchoredRun_of_reachable hdb.anchored hr).db hgood

/-- Requests on the routes of many organizations, interleaved in any way, with rollbacks and
cut-offs. The steps of all organizations but one can be left out: from any database with the same
rows of this one there is a run in which its requests come to stand where they stand, the others
have not begun, the calls and commits are those of its requests, and its rows are the same. -/
theorem other_tenants_can_be_left_out (organizationId : UUID) (hdb : Attributed db)
    (hdb' : Attributed db')
    (hsame : tenantRows organizationId db' = tenantRows organizationId db)
    (hr : Reachable (fun i => (requests i).toRequest.handler) db sys)
    (hapart : DrawnApart requests sys.trace) (hunused : DrawnUnused sys.trace db)
    (hunused' : DrawnUnused (ownTrace requests organizationId sys.trace) db') :
    ∃ sys', Reachable (fun i => (requests i).toRequest.handler) db' sys' ∧
      (∀ i, (requests i).organizationId = organizationId → sys'.proc i = sys.proc i) ∧
      (∀ i, (requests i).organizationId ≠ organizationId →
        sys'.proc i = .active { prog := (requests i).toRequest.handler }) ∧
      sys'.trace = ownTrace requests organizationId sys.trace ∧
      tenantRows organizationId sys'.db = tenantRows organizationId sys.db := by
  have hself : ∀ k, StandsIn k requests db sys.trace db := standsIn_self hdb hunused
  have hother : StandsIn organizationId requests db sys.trace db' := ⟨hdb', hsame, hunused'⟩
  have hB : Compatible fun k => (runBorder requests db sys.trace k).border :=
    runBorder_compatible hdb hapart hunused
  have hrows : SeparateParts (fun k => (runBorder requests db sys.trace k).border) (· ≠ .users) :=
    fun k l t r hkl ht _ hP => runBorder_apart hdb hapart hunused hkl ht hP
  have hstart : (runBorder requests db sys.trace organizationId).part.mine db' =
      (runBorder requests db sys.trace organizationId).part.mine db :=
    hother.mine_eq.trans (hself organizationId).mine_eq.symm
  obtain ⟨hbordered, sys', hr', hshadow⟩ := Reachable.restrict hB hrows
    (fun i _ => (requests i).scope_users) (fun i => orderly_route (requests i))
    (fun i => inTenant_request (requests i).request (requests i).userId) hdb.unclashing
    (fun k => (hself k).good) hdb'.unclashing hother.good hstart hr runBorder_expected
  refine ⟨sys', hr', hshadow.own, hshadow.idle, hshadow.trace, ?_⟩
  rw [← mine_of_reachable hdb hr (hbordered.good organizationId),
    ← mine_of_reachable hdb' hr' hshadow.good]
  exact hshadow.same

end Runs

section Sample

attribute [local instance] samplePlatform

/-- The sample organization loses its project, and the neighbour gets one. -/
def neighbourRoutes : Bool → RouteRequest
  | false => ⟨sampleOrganization.id, sampleUser.id, .deleteProject (some sampleProject.id)⟩
  | true => ⟨neighbour.id, sampleUser.id, .createProject (some ⟨"Loom", none⟩)⟩

def neighbourDraws (i : Bool) : Oracle Answer := boundedOracle i.toNat

/-- The first request alone. -/
def afterDeletion : Except Failure Response × Session Row :=
  (neighbourRoutes false).toRequest.handler.run (execStmt (neighbourDraws false)) ⟨neighbourDb, 0⟩

def drawsToken : Entry Row UUID Answer → Bool
  | .called (.tokenUrlsafe _) _ => true
  | _ => false

theorem neighbourRoutes_delete : Prog.endsWith (fun _ => true) afterDeletion = true := by
  decide +kernel

theorem neighbourRoutes_delete_draws : (callsOf (neighbourDraws false)
    (neighbourRoutes false).toRequest.handler ⟨neighbourDb, 0⟩).any drawsToken = false := by
  decide +kernel

theorem neighbourRoutes_create : Prog.endsWith (fun _ => true)
    ((neighbourRoutes true).toRequest.handler.run (execStmt (neighbourDraws true))
      ⟨afterDeletion.2.db, 0⟩) = true := by
  decide +kernel

theorem exists_neighbours_run : ∃ sys : RouteSys Bool,
    Reachable (fun i => (neighbourRoutes i).toRequest.handler) neighbourDb sys ∧
      (∀ i, ∃ a, sys.proc i = .committed a) ∧
      (∀ i c x, (i, .called c x) ∈ sys.trace → ∃ n, x = neighbourDraws i n c) ∧
      ∀ n x, (false, .called (.tokenUrlsafe n) x) ∉ sys.trace := by
  obtain ⟨a, st, hrun, _⟩ := Prog.exists_of_endsWith neighbourRoutes_delete
  obtain ⟨b, st', hrun', _⟩ := Prog.exists_of_endsWith neighbourRoutes_create
  have hr₀ : Reachable (fun i => (neighbourRoutes i).toRequest.handler) neighbourDb
    (Sys.init (fun i => (neighbourRoutes i).toRequest.handler) neighbourDb) := .refl
  obtain ⟨sys, ops, hr, hquiet, hdb, hproc, htrace⟩ :=
    hr₀.run_next (i := false) (neighbourDraws false) (quiet_init _ neighbourDb) rfl hrun
  have hidle : sys.proc true = .active { prog := (neighbourRoutes true).toRequest.handler } := by
    rw [hproc]
    rfl
  rw [hrun] at hrun'
  rw [← hdb] at hrun'
  obtain ⟨sys', ops', hr', _, _, hproc', htrace'⟩ :=
    hr.run_next (i := true) (neighbourDraws true) hquiet hidle hrun'
  refine ⟨sys', hr', fun i => ?_, fun i c x hmem => ?_, fun n x hmem => ?_⟩
  · rw [hproc', hproc]
    cases i with
    | false => exact ⟨a, rfl⟩
    | true => exact ⟨b, rfl⟩
  · rw [htrace', htrace] at hmem
    simp only [Sys.init, List.nil_append, List.mem_append, List.mem_map, List.mem_singleton,
      Prod.mk.injEq, reduceCtorEq, and_false, or_false] at hmem
    rcases hmem with ⟨e, he, rfl, rfl⟩ | ⟨e, he, rfl, rfl⟩
    · obtain ⟨n, c', heq⟩ := mem_callsOf he
      cases heq
      exact ⟨n, rfl⟩
    · obtain ⟨n, c', heq⟩ := mem_callsOf he
      cases heq
      exact ⟨n, rfl⟩
  · rw [htrace', htrace] at hmem
    simp only [Sys.init, List.nil_append, List.mem_append, List.mem_map, List.mem_singleton,
      Prod.mk.injEq, reduceCtorEq, and_false, or_false, false_and] at hmem
    rcases hmem with ⟨e, he, _, rfl⟩ | ⟨_, hfalse⟩
    · exact List.any_eq_false.mp neighbourRoutes_delete_draws _ he rfl
    · exact hfalse

theorem small_neighbourDb {t : Table} {r : Row t} (hr : r ∈ neighbourDb t) :
    (pk r).bits.toNat < 1000 := by
  have hall : ∀ t, ∀ r ∈ neighbourDb t, (pk r).bits.toNat < 1000 := by
    intro t
    cases t <;> decide +kernel
  exact hall t r hr

/-- The ids of each request are from a range of its own. -/
theorem bits_of_draw {i : Bool} {id : UUID} (h : ∃ n, id = neighbourDraws i n .uuid4) :
    id.bits.toNat / 1000 = 1 + i.toNat := by
  obtain ⟨n, rfl⟩ := h
  have hlt : i.toNat ≤ 1 := Bool.toNat_le i
  have hdrawn : (neighbourDraws i n .uuid4).bits.toNat = 1000 + (1000 * i.toNat + n % 1000) := by
    simp only [neighbourDraws, boundedOracle, sampleOracle, BitVec.toNat_ofNat]
    omega
  omega

/-- Both requests have committed; the first would have done the same without the neighbour. -/
theorem sample_left_out : ∃ sys sys' : RouteSys Bool,
    Reachable (fun i => (neighbourRoutes i).toRequest.handler) neighbourDb sys ∧
      (∀ i, ∃ a, sys.proc i = .committed a) ∧
      Reachable (fun i => (neighbourRoutes i).toRequest.handler) taskedDb sys' ∧
      sys'.proc false = sys.proc false ∧
      sys'.trace = ownTrace neighbourRoutes sampleOrganization.id sys.trace ∧
      tenantRows sampleOrganization.id sys'.db = tenantRows sampleOrganization.id sys.db := by
  obtain ⟨sys, hr, hdone, hdraws, htokens⟩ := exists_neighbours_run
  have hbits : ∀ i id, (i, .called .uuid4 id) ∈ sys.trace → id.bits.toNat / 1000 = 1 + i.toNat :=
    fun i id hmem => bits_of_draw (hdraws i _ _ hmem)
  have hunused : ∀ {d : Db Row}, (∀ t, ∀ r ∈ d t, (pk r).bits.toNat < 1000) →
      d .invitations = [] → ∀ {trace : Trace Bool}, (∀ e ∈ trace, e ∈ sys.trace) →
      DrawnUnused trace d := by
    intro d hsmall hempty trace htrace
    refine ⟨fun i id hmem t r hr hid => ?_, fun i n x hmem r hr => ?_⟩
    · have hbits := hbits i id (htrace _ hmem)
      have hlt := hsmall t r hr
      rw [hid] at hlt
      omega
    · rw [hempty] at hr
      cases hr
  have hapart : DrawnApart neighbourRoutes sys.trace := by
    refine ⟨fun i j id hi hj => ?_, fun i j n m x y hi hj _ => ?_⟩
    · have hsame := (hbits i id hi).symm.trans (hbits j id hj)
      have heq : i = j := by cases i <;> cases j <;> simp_all
      rw [heq]
    · cases i with
      | false => exact absurd hi (htokens n x)
      | true =>
        cases j with
        | false => exact absurd hj (htokens m y)
        | true => rfl
  have htasked : Attributed taskedDb :=
    ⟨unclashing_taskedDb, tagged_of_empty rfl rfl, fun d hd => by cases hd⟩
  have hsame : tenantRows sampleOrganization.id taskedDb =
      tenantRows sampleOrganization.id neighbourDb := by
    funext t
    cases t <;> rfl
  obtain ⟨sys', hr', hown, _, htrace, hrows⟩ := other_tenants_can_be_left_out
    sampleOrganization.id attributed_neighbourDb htasked hsame hr hapart
    (hunused (fun _ _ => small_neighbourDb) rfl fun _ he => he)
    (hunused (fun t r hr => by revert r; cases t <;> decide +kernel) rfl
      fun _ he => (List.mem_filter.mp he).1)
  exact ⟨sys, sys', hr, hdone, hr', hown false rfl, htrace, hrows⟩

end Sample

end TenantFlow
