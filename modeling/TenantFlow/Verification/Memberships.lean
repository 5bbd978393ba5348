import TenantFlow.Verification.AccountJournals
import TenantFlow.Verification.Sample

/-!
# Invitations and memberships over whole runs

For any requests, interleaved in any way: what becomes of an invitation, and where every
membership comes from.
-/

namespace TenantFlow

open JsonText Transactional

section Runs

variable [Platform] {ι : Type} {requests : ι → Request} {db : Db Row}
  {journals : ι → Journal} {sys : Sys Row UUID Answer Failure Response ι} {i j : ι}
  {before mid after : List (ι × Entry Row UUID Answer)} {ops ops' : List (Op Row UUID)}

theorem AccountRun.deed (hrun : AccountRun requests db journals sys)
    (htrace : sys.trace = before ++ (i, .committed ops) :: after) :
    Deed (journals i) (requests i) := by
  obtain ⟨_, _, _, hdeed⟩ := hrun.committed i before ops after htrace
  exact hdeed

/-- What a commit can write. -/
theorem AccountRun.write (hrun : AccountRun requests db journals sys)
    (htrace : sys.trace = before ++ (i, .committed ops) :: after) {op : Op Row UUID}
    (ht : accountTables op.table = true) (hop : op ∈ ops) :
    AccountWrite (journals i) (requests i) op :=
  (hrun.deed htrace).write ((hrun.mem_writesIn htrace ht).mpr hop)

/-! ## Invitations -/

omit [Platform] in
/-- Writes that only set one status mark the row or leave it. -/
theorem replay_marked {status : InvitationStatus} {r : Invitation} {db : Db Row}
    (hops : ∀ op ∈ ops, op.table = .invitations → (∃ s, op = .insert .invitations s) ∨
      ∃ id at_, op = .update .invitations id (Invitation.setStatus status at_))
    (hr : r ∈ db .invitations) :
    r ∈ replay ops db .invitations ∨
      ∃ at_ id at', Invitation.setStatus status at_ r ∈ replay ops db .invitations ∧
        id = r.id ∧ .update .invitations id (Invitation.setStatus status at') ∈ ops := by
  induction ops generalizing db r with
  | nil => exact .inl hr
  | cons op ops ih =>
    have hrest := fun o ho => hops o (List.mem_cons_of_mem _ ho)
    have hweaken : ∀ {s : Invitation}, s.id = r.id → s ∈ op.apply db .invitations →
        s ∈ replay (op :: ops) db .invitations ∨
          ∃ at_ id at', Invitation.setStatus status at_ s ∈ replay (op :: ops) db .invitations ∧
            id = r.id ∧ .update .invitations id (Invitation.setStatus status at') ∈ op :: ops := by
      intro s hid hs
      rcases ih hrest hs with h | ⟨at_, id, at', h, hid', hop⟩
      · exact .inl h
      · exact .inr ⟨at_, id, at', h, hid'.trans hid, List.mem_cons_of_mem _ hop⟩
    by_cases ht : op.table = .invitations
    · rcases hops op List.mem_cons_self ht with ⟨s, rfl⟩ | ⟨id, at', rfl⟩
      · exact hweaken rfl (by simp [hr])
      · by_cases hid : r.id = id
        · have hmem : Invitation.setStatus status at' r ∈
              (Op.update .invitations id (Invitation.setStatus status at') :
                Op Row UUID).apply db .invitations := by
            rw [apply_update_self]
            exact List.mem_map.mpr ⟨r, hr, if_pos hid⟩
          rcases hweaken (s := r.setStatus status at') rfl hmem with h | ⟨at_, _, _, h, _, _⟩
          · exact .inr ⟨at', id, at', h, hid.symm, List.mem_cons_self⟩
          · exact .inr ⟨at_, id, at', h, hid.symm, List.mem_cons_self⟩
        · refine hweaken rfl ?_
          rw [apply_update_self]
          exact List.mem_map.mpr ⟨r, hr, if_neg hid⟩
    · exact hweaken rfl (by rwa [apply_of_table_ne db ht])

/-- What one commit does to an invitation; `Was` are the rows that there have been before. -/
inductive InvitationMove (Was : Invitation → Prop) : Request → Invitation → Invitation → Prop where
  | kept {request r} : InvitationMove Was request r r
  | accepted {userId args r at_} (h : r.status = .pending) :
    InvitationMove Was (.acceptInvitation userId args) r (r.setStatus .accepted at_)
  | swept {r at_} (h : r.status = .pending) :
    InvitationMove Was .cleanup r (r.setStatus .expired at_)
  /-- `invite_member` marks what it has read as pending, whatever it has become. -/
  | lapsed {organizationId userId args r at_} (s : Invitation) (hwas : Was s) (hid : s.id = r.id)
      (hpending : s.status = .pending) :
    InvitationMove Was (.organization organizationId userId (.createInvitation args)) r
      (r.setStatus .expired at_)

theorem AccountRun.invitation_moves (hrun : AccountRun requests db journals sys)
    (htrace : sys.trace = before ++ (i, .committed ops) :: after) {r : Invitation}
    (hr : r ∈ dbAfter db before .invitations) :
    ∃ r' ∈ dbAfter db (before ++ [(i, .committed ops)]) .invitations,
      InvitationMove (WasCommitted db before .invitations) (requests i) r r' := by
  have htimed := (hrun.committed i before ops after htrace).1.timed
  rw [hrun.dbAfter_commit htrace rfl]
  have hdeed := hrun.deed htrace
  generalize requests i = request at hdeed
  cases hdeed with
  | none h =>
    refine ⟨r, ?_, .kept⟩
    rwa [replay_of_table_ne _ fun op hop => by rw [h op hop]; decide]
  | founded organization owner h =>
    refine ⟨r, ?_, .kept⟩
    rw [h.writes]
    exact hr
  | invited lapsed invitation h =>
    obtain ⟨updatedAt, hw⟩ := h.writes
    have hmarks : ∀ op ∈ writesIn (journals i), (∃ s, op = .insert .invitations s) ∨
        ∃ r ∈ lapsed, op = .update .invitations r.id (Invitation.setStatus .expired updatedAt) := by
      intro op hop
      rw [hw] at hop
      cases lapsed <;> simp at hop <;> grind
    have hops : ∀ op ∈ writesIn (journals i), op.table = .invitations →
        (∃ s, op = .insert .invitations s) ∨
          ∃ id at_, op = .update .invitations id (Invitation.setStatus .expired at_) := by
      intro op hop _
      rcases hmarks op hop with hinsert | ⟨r, _, hmark⟩
      · exact .inl hinsert
      · exact .inr ⟨r.id, updatedAt, hmark⟩
    rcases replay_marked hops hr with hr' | ⟨at_, id, at', hr', hid, hop⟩
    · exact ⟨r, hr', .kept⟩
    · obtain ⟨marked, hmarked, heq⟩ : ∃ marked ∈ lapsed, marked.id = r.id := by
        rcases hmarks _ hop with ⟨s, heq⟩ | ⟨marked, hmarked, heq⟩
        · cases heq
        · exact ⟨marked, hmarked, (Op.update.inj heq).2.1.symm.trans hid⟩
      obtain ⟨s, hread, hsid, hpending⟩ := h.read marked hmarked
      exact ⟨_, hr', .lapsed s (htimed.of_mem hread) (hsid.trans heq) hpending⟩
  | accepted user invitation at_ joined h =>
    obtain ⟨updatedAt, hw⟩ := h.writes
    have hops : ∀ op ∈ writesIn (journals i), op.table = .invitations →
        op = .update .invitations invitation.id (Invitation.setStatus .accepted updatedAt) := by
      intro op hop ht
      rw [hw] at hop
      cases joined with
      | none => simpa using hop
      | some m =>
        rcases List.mem_cons.mp hop with rfl | hop
        · cases ht
        · simpa using hop
    rcases replay_marked (fun op hop ht => .inr ⟨_, _, hops op hop ht⟩) hr with
      hr' | ⟨at', id, _, hr', rfl, hop⟩
    · exact ⟨r, hr', .kept⟩
    · have hid : r.id = invitation.id := (Op.update.inj (hops _ hop rfl)).2.1
      obtain rfl : r = invitation := hrun.eq_of_pk htrace hr (hrun.held htrace h.held) hid
      exact ⟨_, hr', .accepted h.pending⟩
  | managed membership op h =>
    refine ⟨r, ?_, .kept⟩
    rw [h.writes]
    rcases h.op with rfl | ⟨role, updatedAt, _, rfl⟩
    · exact hr
    · exact hr
  | swept h =>
    have hops : ∀ op ∈ writesIn (journals i), op.table = .invitations →
        (∃ s, op = .insert .invitations s) ∨
          ∃ id at_, op = .update .invitations id (Invitation.setStatus .expired at_) := by
      intro op hop _
      obtain ⟨s, at_, rfl, _⟩ := h op hop
      exact .inr ⟨s.id, at_, rfl⟩
    rcases replay_marked hops hr with hr' | ⟨at_, id, at', hr', hid, hop⟩
    · exact ⟨r, hr', .kept⟩
    · obtain ⟨s, _, heq, hheld, hpending⟩ := h _ hop
      have hsid : s.id = r.id := (Op.update.inj heq).2.1.symm.trans hid
      obtain rfl : s = r := hrun.eq_of_pk htrace (hrun.held htrace hheld) hr hsid
      exact ⟨_, hr', .swept hpending⟩

/-- The status of an invitation, now and later. -/
def LaterStatus (s s' : InvitationStatus) : Prop :=
  s' = s ∨ s' = .expired ∨ (s = .pending ∧ s' = .accepted)

omit [Platform] in
theorem LaterStatus.trans {s s' s'' : InvitationStatus} (h : LaterStatus s s')
    (h' : LaterStatus s' s'') : LaterStatus s s'' := by
  unfold LaterStatus at *
  grind

omit [Platform] in
/-- What is settled does not become pending again. -/
theorem LaterStatus.settled {s s' : InvitationStatus} (h : LaterStatus s s') (hs : s ≠ .pending) :
    s' ≠ .pending := by
  rcases h with rfl | rfl | ⟨rfl, _⟩
  · exact hs
  · decide
  · exact absurd rfl hs

omit [Platform] in
theorem InvitationMove.blank_eq {Was : Invitation → Prop} {request : Request} {r r' : Invitation}
    (h : InvitationMove Was request r r') :
    blank (t := .invitations) r' = blank (t := .invitations) r := by
  cases h <;> rfl

omit [Platform] in
theorem InvitationMove.later {Was : Invitation → Prop} {request : Request} {r r' : Invitation}
    (h : InvitationMove Was request r r') : LaterStatus r.status r'.status := by
  cases h with
  | kept => exact .inl rfl
  | accepted h => exact .inr (.inr ⟨h, rfl⟩)
  | swept h => exact .inr (.inl rfl)
  | lapsed => exact .inr (.inl rfl)

def Request.invites : Request → Bool
  | .organization _ _ (.createInvitation _) => true
  | _ => false

omit [Platform] in
theorem InvitationMove.eq_of_settled {Was : Invitation → Prop} {request : Request}
    {r r' : Invitation} (h : InvitationMove Was request r r') (hr : r.status ≠ .pending)
    (hrequest : request.invites = false) : r' = r := by
  cases h with
  | kept => rfl
  | accepted h => exact absurd h hr
  | swept h => exact absurd h hr
  | lapsed => cases hrequest

omit [Platform] in
/-- Only a stale `invite_member` changes an accepted invitation. -/
theorem InvitationMove.stale {Was : Invitation → Prop} {request : Request} {r r' : Invitation}
    (h : InvitationMove Was request r r') (hr : r.status = .accepted) :
    r' = r ∨ request.invites = true ∧ ∃ s, Was s ∧ s.id = r.id ∧ s.status = .pending := by
  cases h with
  | kept => exact .inl rfl
  | accepted h => simp [h] at hr
  | swept h => simp [h] at hr
  | lapsed s hwas hid hpending => exact .inr ⟨rfl, s, hwas, hid, hpending⟩

/-- Between `before` and the end of `mid`, an `invite_member` commits that had read the invitation
as pending. -/
def InvitedMeanwhile (requests : ι → Request) (db : Db Row)
    (before mid : List (ι × Entry Row UUID Answer)) (r : Invitation) : Prop :=
  ∃ start i ops rest s, mid = start ++ (i, .committed ops) :: rest ∧
    (requests i).invites = true ∧ WasCommitted db (before ++ start) .invitations s ∧
    s.id = r.id ∧ s.status = .pending

omit [Platform] in
theorem InvitedMeanwhile.cons {e : ι × Entry Row UUID Answer} {r : Invitation}
    (h : InvitedMeanwhile requests db (before ++ [e]) mid r) :
    InvitedMeanwhile requests db before (e :: mid) r := by
  obtain ⟨start, i, ops, rest, s, rfl, hinvites, hwas, hs⟩ := h
  exact ⟨e :: start, i, ops, rest, s, rfl, hinvites, by simpa using hwas, hs⟩

/-- An invitation stays, with a later status. -/
theorem AccountRun.invitation_later (hrun : AccountRun requests db journals sys)
    (htrace : sys.trace = before ++ mid ++ after) {r : Invitation}
    (hr : r ∈ dbAfter db before .invitations) :
    ∃ r' ∈ dbAfter db (before ++ mid) .invitations,
      blank (t := .invitations) r' = blank (t := .invitations) r ∧
        LaterStatus r.status r'.status ∧
        (r.status ≠ .pending →
          (∀ i ops, (i, .committed ops) ∈ mid → (requests i).invites = false) → r' = r) ∧
        (r.status = .accepted → r'.status = .expired →
          InvitedMeanwhile requests db before mid r) := by
  induction mid generalizing before r with
  | nil =>
    refine ⟨r, by simpa using hr, rfl, .inl rfl, fun _ _ => rfl, fun haccepted hexpired => ?_⟩
    rw [haccepted] at hexpired
    cases hexpired
  | cons e mid ih =>
    obtain ⟨i, e⟩ := e
    have hsplit : sys.trace = before ++ (i, e) :: (mid ++ after) := by simpa using htrace
    obtain ⟨r₁, hr₁, hmove⟩ : ∃ r₁ ∈ dbAfter db (before ++ [(i, e)]) .invitations,
        r₁ = r ∨ (∃ ops, e = .committed ops) ∧
          InvitationMove (WasCommitted db before .invitations) (requests i) r r₁ := by
      cases e with
      | called c x => exact ⟨r, by simpa using hr, .inl rfl⟩
      | committed ops =>
        obtain ⟨r₁, hr₁, hmove⟩ := hrun.invitation_moves hsplit hr
        exact ⟨r₁, hr₁, .inr ⟨⟨ops, rfl⟩, hmove⟩⟩
    obtain ⟨r', hr', hblank, hlater, hsame, hstale⟩ := ih (by simpa using htrace) hr₁
    refine ⟨r', by simpa using hr', ?_⟩
    rcases hmove with rfl | ⟨⟨ops, rfl⟩, hmove⟩
    · exact ⟨hblank, hlater, fun hs hno => hsame hs fun j ops hj =>
        hno j ops (List.mem_cons_of_mem _ hj), fun haccepted hexpired =>
          (hstale haccepted hexpired).cons⟩
    · refine ⟨hblank.trans hmove.blank_eq, hmove.later.trans hlater, fun hs hno => ?_,
        fun haccepted hexpired => ?_⟩
      · obtain rfl : r₁ = r := hmove.eq_of_settled hs (hno i ops List.mem_cons_self)
        exact hsame hs fun j ops hj => hno j ops (List.mem_cons_of_mem _ hj)
      · rcases hmove.stale haccepted with rfl | ⟨hinvites, s, hwas, hs⟩
        · exact (hstale haccepted hexpired).cons
        · exact ⟨[], i, ops, mid, s, rfl, hinvites, by simpa using hwas, hs⟩

/-- In every run, whatever is interleaved with what: an invitation is never deleted and keeps
its terms, it only goes from pending to accepted or expired, or from accepted to expired by an
`invite_member` that had read it as pending, and once settled it changes only when an
`invite_member` commits. -/
theorem invitations_settle [DecidableEq ι] (hdb : Unclashing db)
    (hr : Reachable (fun i => (requests i).handler) db sys)
    {sys' : Sys Row UUID Answer Failure Response ι} (hsteps : Relation.ReflTransGen Step sys sys')
    {r : Invitation} (hmem : r ∈ sys.db .invitations) :
    ∃ r' ∈ sys'.db .invitations, blank (t := .invitations) r' = blank (t := .invitations) r ∧
      LaterStatus r.status r'.status ∧
      (r.status ≠ .pending →
        (∀ i ops, (i, .committed ops) ∈ sys'.trace → (i, .committed ops) ∉ sys.trace →
          (requests i).invites = false) → r' = r) ∧
      (r.status = .accepted → r'.status = .expired → ∃ mid, sys'.trace = sys.trace ++ mid ∧
        InvitedMeanwhile requests db sys.trace mid r) := by
  have hr' := hr.steps hsteps
  obtain ⟨journals, hrun⟩ := exists_deeds hdb hr'
  obtain ⟨mid, hmid⟩ := exists_trace_of_steps hsteps
  have hstart : sys.db = dbAfter db sys.trace := hr.db_eq
  rw [hstart] at hmem
  rw [hrun.db_eq, hmid]
  obtain ⟨r', hr₁, hblank, hlater, hsame, hstale⟩ :=
    hrun.invitation_later (hmid.trans (List.append_nil _).symm) hmem
  refine ⟨r', hr₁, hblank, hlater, fun hs hno => hsame hs fun i ops hi => ?_,
    fun haccepted hexpired => ⟨mid, rfl, hstale haccepted hexpired⟩⟩
  refine hno i ops (List.mem_append_right _ hi) fun hold => ?_
  -- No process commits twice.
  have hpairs := hr'.commits_pairwise
  rw [hmid] at hpairs
  exact (List.pairwise_append.mp hpairs).2.2 _ hold _ hi rfl rfl rfl

/-! ## Where memberships come from -/

/-- A founding: the membership is that of the owner of an organization that is new as well. -/
structure FoundedBy (request : Request) (ops : List (Op Row UUID)) (m : OrganizationMembership) :
    Prop where
  request : ∃ args, request = .createOrganization m.userId args
  role : m.role = .owner
  organization : ∃ organization : Organization, .insert .organizations organization ∈ ops ∧
    organization.id = m.organizationId ∧ organization.createdBy = m.userId

/-- An accepted invitation: it was locked as pending, found unexpired after that and addressed
to the user, and the commit leaves it accepted. -/
structure JoinedBy (request : Request) (db : Db Row) (i : ι)
    (before : List (ι × Entry Row UUID Answer)) (ops : List (Op Row UUID))
    (m : OrganizationMembership) (invitation : Invitation) : Prop where
  request : ∃ rawToken, request = .acceptInvitation m.userId (some rawToken) ∧
    invitation.tokenHash = tokenFingerprint rawToken
  user : ∃ user : User, WasCommitted db before .users user ∧ user.id = m.userId ∧
    invitation.email = Platform.lower user.email
  locked : ∃ start rest at_, before = start ++ rest ∧ invitation ∈ dbAfter db start .invitations ∧
    (i, .called .now at_) ∈ rest ∧ at_ < invitation.expiresAt
  held : invitation ∈ dbAfter db before .invitations
  pending : invitation.status = .pending
  accepted : ∃ at_, invitation.setStatus .accepted at_ ∈
    dbAfter db (before ++ [(i, .committed ops)]) .invitations
  organization : m.organizationId = invitation.organizationId
  role : m.role = invitation.role

theorem AccountRun.joined (hrun : AccountRun requests db journals sys)
    (htrace : sys.trace = before ++ (i, .committed ops) :: after) {userId : UUID}
    {rawToken : String} (hi : requests i = .acceptInvitation userId (some rawToken)) {user : User}
    {invitation : Invitation} {at_ : Datetime} {joined : Option OrganizationMembership}
    (h : Accepting userId rawToken (journals i) user invitation at_ joined)
    {m : OrganizationMembership} (hm : m ∈ joined) :
    JoinedBy (requests i) db i before ops m invitation := by
  obtain ⟨rest, hjournal⟩ := h.reads
  obtain ⟨horg, huser, hrole⟩ := h.joined m hm
  have htimed := (hrun.committed i before ops after htrace).1.timed
  have hheld : invitation ∈ dbAfter db before .invitations := hrun.held htrace h.held
  refine ⟨⟨rawToken, huser ▸ hi, h.token⟩, ⟨user, ?_, h.account.trans huser.symm, h.email⟩, ?_,
    hheld, h.pending, ?_, horg, hrole⟩
  · exact htimed.of_mem (f := .read .users user) (by rw [hjournal]; simp)
  · obtain ⟨start, rest', hsplit, hlocked, _, hcalled⟩ :=
      htimed [.read .users user] (.held .invitations invitation) (.called .now at_ :: rest) hjournal
    exact ⟨start, rest', at_, hsplit, hlocked, hcalled .now at_ List.mem_cons_self, h.unexpired⟩
  · obtain ⟨updatedAt, hw⟩ := h.writes
    refine ⟨updatedAt, ?_⟩
    rw [hrun.dbAfter_commit htrace rfl, hw, replay_append]
    have hmem : invitation ∈ replay (joined.map fun m => .insert .organizationMemberships m).toList
        (dbAfter db before) .invitations := by
      cases joined <;> exact hheld
    rw [replay_cons, replay_nil, apply_update_self]
    exact List.mem_map.mpr ⟨invitation, hmem, if_pos rfl⟩

theorem AccountRun.origin (hrun : AccountRun requests db journals sys)
    (htrace : sys.trace = before ++ (i, .committed ops) :: after) {m : OrganizationMembership}
    (hm : .insert .organizationMemberships m ∈ ops) :
    FoundedBy (requests i) ops m ∨
      ∃ invitation, JoinedBy (requests i) db i before ops m invitation := by
  have hwrite := hrun.write htrace rfl hm
  rcases hwrite.insert_membership with ⟨userId, args, organization, hi, h⟩ |
    ⟨userId, rawToken, user, invitation, at_, hi, h⟩
  · refine .inl ⟨⟨args, by rw [hi, h.user]⟩, h.role, organization, ?_, h.organization.symm, ?_⟩
    · exact (hrun.mem_writesIn htrace rfl).mp (by rw [h.writes]; simp)
    · rw [h.createdBy, h.user]
  · exact .inr ⟨invitation, hrun.joined htrace hi h rfl⟩

/-- An accepted invitation adds no second membership. -/
theorem AccountRun.joined_once (hrun : AccountRun requests db journals sys)
    {before' after' : List (ι × Entry Row UUID Answer)} {m m' : OrganizationMembership}
    {invitation invitation' : Invitation}
    (htrace' : sys.trace = before' ++ (j, .committed ops') :: after')
    (h : JoinedBy (requests i) db i before ops m invitation)
    (h' : JoinedBy (requests j) db j before' ops' m' invitation')
    (hid : invitation'.id = invitation.id) : ¬ before ++ [(i, .committed ops)] <+: before' := by
  rintro ⟨mid, rfl⟩
  obtain ⟨at_, haccepted⟩ := h.accepted
  obtain ⟨r, hr, hblank, hlater, _⟩ := hrun.invitation_later htrace' haccepted
  have hpk : r.id = invitation.id := pk_of_blank hblank
  obtain rfl : invitation' = r :=
    hrun.eq_of_pk (t := .invitations) htrace' h'.held hr (hid.trans hpk.symm)
  exact hlater.settled (by simp [Invitation.setStatus]) h'.pending

/-- No commit adds two memberships. -/
theorem AccountRun.insert_unique (hrun : AccountRun requests db journals sys)
    (htrace : sys.trace = before ++ (i, .committed ops) :: after) {m m' : OrganizationMembership}
    (hm : .insert .organizationMemberships m ∈ ops)
    (hm' : .insert .organizationMemberships m' ∈ ops) : m = m' := by
  have hop : .insert .organizationMemberships m ∈ writesIn (journals i) :=
    (hrun.mem_writesIn htrace rfl).mpr hm
  have hop' : .insert .organizationMemberships m' ∈ writesIn (journals i) :=
    (hrun.mem_writesIn htrace rfl).mpr hm'
  rcases ((hrun.deed htrace).write hop).insert_membership with ⟨_, _, organization, _, h⟩ |
    ⟨_, _, _, _, _, _, h⟩
  · rw [h.writes] at hop'
    exact Eq.symm (by simpa using hop')
  · obtain ⟨updatedAt, hw⟩ := h.writes
    rw [hw] at hop'
    exact Eq.symm (by simpa using hop')

/-- A membership of the start, or one that a commit has added. -/
def Stems (db : Db Row) (trace : List (ι × Entry Row UUID Answer)) (m : OrganizationMembership) :
    Prop :=
  (∃ s ∈ db .organizationMemberships, blank (t := .organizationMemberships) m = blank s) ∨
    ∃ (i : ι) (ops : List (Op Row UUID)) (s : OrganizationMembership),
      (i, .committed ops) ∈ trace ∧ .insert .organizationMemberships s ∈ ops ∧
        blank (t := .organizationMemberships) m = blank (t := .organizationMemberships) s

/-- The memberships of the database stem. -/
def StemsAt (db : Db Row) (trace : List (ι × Entry Row UUID Answer)) : (t : Table) → Row t → Prop
  | .organizationMemberships, m => Stems db trace m
  | _, _ => True

omit [Platform] in
theorem Stems.extend {trace : List (ι × Entry Row UUID Answer)} {m : OrganizationMembership}
    (h : Stems db trace m) (more : List (ι × Entry Row UUID Answer)) : Stems db (trace ++ more) m :=
  h.imp_right fun ⟨i, ops, s, hi, hins, hblank⟩ =>
    ⟨i, ops, s, List.mem_append_left _ hi, hins, hblank⟩

theorem AccountRun.stems (hrun : AccountRun requests db journals sys)
    (htrace : sys.trace = before ++ after) {m : OrganizationMembership}
    (hm : m ∈ dbAfter db before .organizationMemberships) : Stems db before m := by
  have hall : ∀ before after, sys.trace = before ++ after →
      AllGood (StemsAt db before) (dbAfter db before) := by
    refine prefix_induction (fun t r hr => ?_) ?_
    · cases t with
      | organizationMemberships => exact .inl ⟨r, hr, rfl⟩
      | _ => trivial
    · rintro before ⟨i, e⟩ after htrace hbefore
      have hextend : AllGood (StemsAt db (before ++ [(i, e)])) (dbAfter db before) := by
        intro t r hr
        cases t with
        | organizationMemberships => exact (hbefore .organizationMemberships r hr).extend _
        | _ => trivial
      cases e with
      | called c x => simpa using hextend
      | committed ops =>
        rw [dbAfter_append, dbAfter_committed]
        refine hextend.replay (fun t r hop => ?_) fun t id f hop r hr => ?_
        · cases t with
          | organizationMemberships => exact .inr ⟨i, ops, r, by simp, hop, rfl⟩
          | _ => trivial
        · cases t with
          | organizationMemberships =>
            have hblank : blank (t := .organizationMemberships) (f r) = blank r := by
              obtain ⟨_, _, _, rfl⟩ := (hrun.write htrace rfl hop).update_membership
              rfl
            rcases hr with ⟨s, hs, hr⟩ | ⟨j, ops', s, hj, hins, hr⟩
            · exact .inl ⟨s, hs, hblank.trans hr⟩
            · exact .inr ⟨j, ops', s, hj, hins, hblank.trans hr⟩
          | _ => trivial
  exact hall before after htrace .organizationMemberships m hm

/-- What is known of the memberships of a run. -/
structure Provenance (requests : ι → Request) (db : Db Row)
    (sys : Sys Row UUID Answer Failure Response ι) : Prop where
  /-- Every stored membership is one of the start or has been added by a commit. -/
  stored : ∀ m ∈ sys.db .organizationMemberships, Stems db sys.trace m
  /-- Every membership ever added is that of a founder or of who accepted an invitation. -/
  origin : ∀ before i ops after m, sys.trace = before ++ (i, .committed ops) :: after →
    .insert .organizationMemberships m ∈ ops → FoundedBy (requests i) ops m ∨
      ∃ invitation, JoinedBy (requests i) db i before ops m invitation
  /-- No invitation adds two. -/
  once : ∀ before i ops after m invitation before' j ops' after' m' invitation',
    sys.trace = before ++ (i, .committed ops) :: after →
    .insert .organizationMemberships m ∈ ops → JoinedBy (requests i) db i before ops m invitation →
    sys.trace = before' ++ (j, .committed ops') :: after' →
    .insert .organizationMemberships m' ∈ ops' →
    JoinedBy (requests j) db j before' ops' m' invitation' →
    invitation'.id = invitation.id → i = j ∧ m = m'
  /-- A user is a member of an organization at most once. -/
  unique : ∀ m ∈ sys.db .organizationMemberships, ∀ m' ∈ sys.db .organizationMemberships,
    m.organizationId = m'.organizationId → m.userId = m'.userId → m = m'

/-- Every membership of every run of requests has a legitimate origin. -/
theorem memberships_have_origins [DecidableEq ι] (hdb : Unclashing db)
    (hr : Reachable (fun i => (requests i).handler) db sys) : Provenance requests db sys := by
  obtain ⟨journals, hrun⟩ := exists_deeds hdb hr
  refine ⟨fun m hm => hrun.stems (List.append_nil _).symm (hrun.db_eq ▸ hm),
    fun before i ops after m htrace hm => hrun.origin htrace hm, ?_,
    fun m hm m' hm' horg huser => ?_⟩
  · intro before i ops after m invitation before' j ops' after' m' invitation' htrace hm h htrace'
      hm' h' hid
    have heq : before ++ (i, .committed ops) :: after = before' ++ (j, .committed ops') :: after' :=
      htrace.symm.trans htrace'
    rcases append_cons_cases heq with ⟨rfl, hentry⟩ | hbefore | hbefore
    · obtain ⟨rfl, hops⟩ := Prod.mk.inj hentry
      obtain rfl := Entry.committed.inj hops
      exact ⟨rfl, hrun.insert_unique htrace hm hm'⟩
    · exact absurd hbefore (hrun.joined_once htrace' h h' hid)
    · exact absurd hbefore (hrun.joined_once htrace h' h hid.symm)
  · have hunique := hrun.unclashing sys.trace [] (by simp)
    rw [← hrun.db_eq] at hunique
    by_contra hne
    have hclash := hunique.unique .organizationMemberships m hm m' hm' fun hpk =>
      hne (hunique.eq_of_pk hm hm' hpk)
    simp [clash, uniqueClash, horg, huser] at hclash

end Runs

section Sample

attribute [local instance] samplePlatform

def sampleGuest : User := ⟨⟨5⟩, "bob@example.com", "argon2", "Bob", true⟩

/-- An invitation of the guest that does not lapse in the samples. -/
def sampleInvitation : Invitation :=
  { id := ⟨6⟩, organizationId := sampleOrganization.id, email := "bob@example.com", role := .member,
    tokenHash := sampleSha256 sampleToken, status := .pending, invitedBy := sampleUser.id,
    expiresAt := days 7, createdAt := 0, updatedAt := 0 }

def invitedDb : Db Row
  | .users => [sampleUser, sampleGuest]
  | .invitations => [sampleInvitation]
  | t => sampleDb t

theorem consistent_invitedDb : Consistent invitedDb := by
  refine ⟨fun t => ?_, fun t => ?_, fun t => ?_⟩ <;> cases t <;> decide +kernel

/-- The guest accepts, and the cleanup runs. -/
def sampleGuests : Bool → Request
  | true => .acceptInvitation sampleGuest.id (some sampleToken)
  | false => .cleanup

theorem sampleGuests_accept : Prog.endsWith (fun _ => true)
    ((sampleGuests true).handler.run (execStmt sampleOracle) ⟨invitedDb, 0⟩) = true := by
  decide +kernel

theorem exists_guest_run : ∃ (sys : Sys Row UUID Answer Failure Response Bool)
      (ops : List (Op Row UUID)),
    Reachable (fun i => (sampleGuests i).handler) invitedDb sys ∧
      Relation.ReflTransGen Step (Sys.init (fun i => (sampleGuests i).handler) invitedDb) sys ∧
      sys.db = ((sampleGuests true).handler.run (execStmt sampleOracle) ⟨invitedDb, 0⟩).2.db ∧
      sys.trace = ((callsOf sampleOracle (sampleGuests true).handler ⟨invitedDb, 0⟩).map
        fun e => (true, e)) ++ [(true, .committed ops)] := by
  obtain ⟨a, st, hrun, _⟩ := Prog.exists_of_endsWith sampleGuests_accept
  have hinit : (Sys.init (fun i => (sampleGuests i).handler) invitedDb).proc true =
    .active { prog := (sampleGuests true).handler } := rfl
  obtain ⟨sys, ops, hsteps, hdb, _, htrace⟩ :=
    run_alone sampleOracle hinit rfl (fun j _ => quiet_init _ _ j) hrun
  have hr₀ : Reachable (fun i => (sampleGuests i).handler) invitedDb
    (Sys.init (fun i => (sampleGuests i).handler) invitedDb) := .refl
  exact ⟨sys, ops, hr₀.steps hsteps, hsteps, by rw [hdb, hrun], htrace⟩

theorem sampleGuests_accepted :
    (((sampleGuests true).handler.run (execStmt sampleOracle) ⟨invitedDb, 0⟩).2.db
      .invitations).map Invitation.status = [.accepted] := by
  decide +kernel

/-- The invitation of the guest has been accepted and has kept its terms. -/
theorem sample_invitation_settles : ∃ sys : Sys Row UUID Answer Failure Response Bool,
    Reachable (fun i => (sampleGuests i).handler) invitedDb sys ∧
      ∃ r' ∈ sys.db .invitations,
        blank (t := .invitations) r' = blank (t := .invitations) sampleInvitation ∧
          r'.status = .accepted := by
  obtain ⟨sys, _, hr, hsteps, hdb, _⟩ := exists_guest_run
  obtain ⟨r', hr', hblank, _⟩ := invitations_settle consistent_invitedDb.unclashing .refl hsteps
    (r := sampleInvitation) List.mem_cons_self
  refine ⟨sys, hr, r', hr', hblank, ?_⟩
  have hstatus := sampleGuests_accepted
  rw [← hdb] at hstatus
  have hmem := List.mem_map_of_mem (f := Invitation.status) hr'
  rw [hstatus] at hmem
  exact List.mem_singleton.mp hmem

/-- The guest has become a member, and the run tells by which invitation. -/
theorem sample_memberships_have_origins : ∃ sys : Sys Row UUID Answer Failure Response Bool,
    Reachable (fun i => (sampleGuests i).handler) invitedDb sys ∧
      (sys.db .organizationMemberships).map OrganizationMembership.userId =
        [sampleUser.id, sampleGuest.id] ∧
      Provenance sampleGuests invitedDb sys := by
  obtain ⟨sys, _, hr, _, hdb, _⟩ := exists_guest_run
  refine ⟨sys, hr, ?_, memberships_have_origins consistent_invitedDb.unclashing hr⟩
  rw [hdb]
  decide +kernel

end Sample

end TenantFlow
