import TenantFlow.Verification.Journals

/-!
# What requests do to accounts

The journals over users, organizations, memberships and invitations: what each request that
commits has read and locked of them, and what it has written.
-/

namespace TenantFlow

open JsonText Transactional

/-- The tables that decide who belongs to an organization. -/
def accountTables (t : Table) : Bool :=
  t = .users ∨ t = .organizations ∨ t = .organizationMemberships ∨ t = .invitations

abbrev accountDiscipline (ι : Type) : Discipline Row UUID Answer Failure ι Journal :=
  tracking accountTables ι

/-! ## Deeds -/

/-- `create_organization` adds an organization and its owner. -/
structure Founding (userId : UUID) (journal : Journal) (organization : Organization)
    (owner : OrganizationMembership) : Prop where
  writes : writesIn journal =
    [.insert .organizations organization, .insert .organizationMemberships owner]
  drawn : .called .uuid4 owner.id ∈ journal
  createdBy : organization.createdBy = userId
  organization : owner.organizationId = organization.id
  user : owner.userId = userId
  role : owner.role = .owner

/-- `invite_member` adds an invitation. If it has read one as pending that has lapsed, it marks it
first: `lapsed` is that row as it is when the update reaches it. -/
structure Inviting (organizationId : UUID) (journal : Journal) (lapsed : Option Invitation)
    (invitation : Invitation) : Prop where
  writes : ∃ updatedAt, writesIn journal =
    (lapsed.map fun r => .update .invitations r.id (Invitation.setStatus .expired updatedAt)).toList ++
      [.insert .invitations invitation]
  held : ∀ r ∈ lapsed, .held .invitations r ∈ journal
  read : ∀ r ∈ lapsed, ∃ s : Invitation, .read .invitations s ∈ journal ∧ s.id = r.id ∧
    s.status = .pending
  organization : invitation.organizationId = organizationId
  role : invitation.role ≠ .owner
  pending : invitation.status = .pending

/-- `accept_invitation` of a locked invitation. `joined` is the new membership, unless the user
has been a member before. -/
structure Accepting [Platform] (userId : UUID) (rawToken : String) (journal : Journal)
    (user : User) (invitation : Invitation) (at_ : Datetime)
    (joined : Option OrganizationMembership) : Prop where
  reads : ∃ rest, journal =
    .read .users user :: .held .invitations invitation :: .called .now at_ :: rest
  writes : ∃ updatedAt, writesIn journal =
    (joined.map fun m => .insert .organizationMemberships m).toList ++
      [.update .invitations invitation.id (Invitation.setStatus .accepted updatedAt)]
  drawn : ∀ m ∈ joined, .called .uuid4 m.id ∈ journal
  account : user.id = userId
  token : invitation.tokenHash = tokenFingerprint rawToken
  pending : invitation.status = .pending
  unexpired : at_ < invitation.expiresAt
  email : invitation.email = Platform.lower user.email
  joined : ∀ m ∈ joined, m.organizationId = invitation.organizationId ∧ m.userId = userId ∧
    m.role = invitation.role

theorem Accepting.held [Platform] {userId : UUID} {rawToken : String} {journal : Journal}
    {user : User} {invitation : Invitation} {at_ : Datetime} {joined : Option OrganizationMembership}
    (h : Accepting userId rawToken journal user invitation at_ joined) :
    .held .invitations invitation ∈ journal := by
  obtain ⟨rest, rfl⟩ := h.reads
  simp

/-- `update_membership_role` and `remove_membership` act on a membership that they have read
without a lock. -/
structure Managing (journal : Journal) (membership : OrganizationMembership)
    (op : Op Row UUID) : Prop where
  reads : .read .organizationMemberships membership ∈ journal
  writes : writesIn journal = [op]
  role : membership.role ≠ .owner
  op : op = .delete .organizationMemberships membership.id ∨ ∃ role updatedAt, role ≠ .owner ∧
    op = .update .organizationMemberships membership.id fun r => { r with role, updatedAt }

/-- The cleanup marks pending invitations that it has locked. -/
def Sweeping (journal : Journal) : Prop :=
  ∀ op ∈ writesIn journal, ∃ r updatedAt,
    op = .update .invitations r.id (Invitation.setStatus .expired updatedAt) ∧
      .held .invitations r ∈ journal ∧ r.status = .pending

/-- What a request has done to the accounts when it commits. -/
inductive Deed [Platform] (journal : Journal) : Request → Prop where
  | none {request} (h : ∀ op ∈ writesIn journal, op.table = .users) : Deed journal request
  | founded {userId args} (organization : Organization) (owner : OrganizationMembership)
    (h : Founding userId journal organization owner) :
    Deed journal (.createOrganization userId args)
  | invited {organizationId userId args} (lapsed : Option Invitation) (invitation : Invitation)
    (h : Inviting organizationId journal lapsed invitation) :
    Deed journal (.organization organizationId userId (.createInvitation args))
  | accepted {userId rawToken} (user : User) (invitation : Invitation) (at_ : Datetime)
    (joined : Option OrganizationMembership)
    (h : Accepting userId rawToken journal user invitation at_ joined) :
    Deed journal (.acceptInvitation userId (some rawToken))
  | managed {organizationId userId request} (membership : OrganizationMembership)
    (op : Op Row UUID) (h : Managing journal membership op) :
    Deed journal (.organization organizationId userId request)
  | swept (h : Sweeping journal) : Deed journal .cleanup

/-- The writes of a request that commits. -/
inductive AccountWrite [Platform] (journal : Journal) : Request → Op Row UUID → Prop where
  | user {request op} (h : op.table = .users) : AccountWrite journal request op
  | founded {userId args organization owner} (h : Founding userId journal organization owner) :
    AccountWrite journal (.createOrganization userId args) (.insert .organizations organization)
  | owned {userId args organization owner} (h : Founding userId journal organization owner) :
    AccountWrite journal (.createOrganization userId args) (.insert .organizationMemberships owner)
  | invited {organizationId userId args lapsed invitation}
    (h : Inviting organizationId journal lapsed invitation) :
    AccountWrite journal (.organization organizationId userId (.createInvitation args))
      (.insert .invitations invitation)
  | lapsed {organizationId userId args invitation r at_}
    (h : Inviting organizationId journal (some r) invitation) :
    AccountWrite journal (.organization organizationId userId (.createInvitation args))
      (.update .invitations r.id (Invitation.setStatus .expired at_))
  | joined {userId rawToken user invitation at_ m}
    (h : Accepting userId rawToken journal user invitation at_ (some m)) :
    AccountWrite journal (.acceptInvitation userId (some rawToken))
      (.insert .organizationMemberships m)
  | accepted {userId rawToken user invitation at_ joined updatedAt}
    (h : Accepting userId rawToken journal user invitation at_ joined) :
    AccountWrite journal (.acceptInvitation userId (some rawToken))
      (.update .invitations invitation.id (Invitation.setStatus .accepted updatedAt))
  | managed {organizationId userId request membership op} (h : Managing journal membership op) :
    AccountWrite journal (.organization organizationId userId request) op
  | swept {r updatedAt} (held : .held .invitations r ∈ journal) (pending : r.status = .pending) :
    AccountWrite journal .cleanup (.update .invitations r.id (Invitation.setStatus .expired updatedAt))

theorem Deed.write [Platform] {journal : Journal} {request : Request} {op : Op Row UUID}
    (h : Deed journal request) (hop : op ∈ writesIn journal) : AccountWrite journal request op := by
  cases h with
  | none h => exact .user (h op hop)
  | founded organization owner h =>
    rw [h.writes] at hop
    simp only [List.mem_cons, List.not_mem_nil, or_false] at hop
    rcases hop with rfl | rfl
    · exact .founded h
    · exact .owned h
  | invited lapsed invitation h =>
    obtain ⟨updatedAt, hw⟩ := h.writes
    rw [hw] at hop
    rcases List.mem_append.mp hop with hop | hop
    · obtain ⟨r, rfl, rfl⟩ : ∃ r, lapsed = some r ∧
          op = .update .invitations r.id (Invitation.setStatus .expired updatedAt) := by
        cases lapsed with
        | none => simp at hop
        | some r => exact ⟨r, rfl, by simpa using hop⟩
      exact .lapsed h
    · obtain rfl := List.mem_singleton.mp hop
      exact .invited h
  | accepted user invitation at_ joined h =>
    obtain ⟨updatedAt, hw⟩ := h.writes
    rw [hw] at hop
    rcases List.mem_append.mp hop with hop | hop
    · obtain ⟨m, rfl, rfl⟩ : ∃ m, joined = some m ∧ op = .insert .organizationMemberships m := by
        cases joined with
        | none => simp at hop
        | some m => exact ⟨m, rfl, by simpa using hop⟩
      exact .joined h
    · obtain rfl := List.mem_singleton.mp hop
      exact .accepted h
  | managed membership op' h =>
    rw [h.writes] at hop
    obtain rfl := List.mem_singleton.mp hop
    exact .managed h
  | swept h =>
    obtain ⟨r, updatedAt, rfl, hheld, hpending⟩ := h op hop
    exact .swept hheld hpending

section Write

variable [Platform] {journal : Journal} {request : Request}

theorem AccountWrite.insert_membership {m : OrganizationMembership}
    (h : AccountWrite journal request (.insert .organizationMemberships m)) :
    (∃ userId args organization, request = .createOrganization userId args ∧
        Founding userId journal organization m) ∨
      ∃ userId rawToken user invitation at_, request = .acceptInvitation userId (some rawToken) ∧
        Accepting userId rawToken journal user invitation at_ (some m) := by
  generalize hop : (Op.insert .organizationMemberships m : Op Row UUID) = op at h
  cases h with
  | user h =>
    subst hop
    cases h
  | owned h =>
    cases hop
    exact .inl ⟨_, _, _, rfl, h⟩
  | joined h =>
    cases hop
    exact .inr ⟨_, _, _, _, _, rfl, h⟩
  | managed h => rcases h.op with rfl | ⟨_, _, _, rfl⟩ <;> cases hop
  | founded _ => cases hop
  | invited _ => cases hop
  | lapsed _ => cases hop
  | accepted _ => cases hop
  | swept _ _ => cases hop

/-- Only roles are updated, and none to that of an owner. -/
theorem AccountWrite.update_membership {id : UUID}
    {f : OrganizationMembership → OrganizationMembership}
    (h : AccountWrite journal request (.update .organizationMemberships id f)) :
    ∃ role updatedAt, role ≠ .owner ∧
      f = fun m : OrganizationMembership => { m with role, updatedAt } := by
  generalize hop : (Op.update .organizationMemberships id f : Op Row UUID) = op at h
  cases h with
  | user h =>
    subst hop
    cases h
  | managed h =>
    rcases h.op with rfl | ⟨role, updatedAt, hrole, rfl⟩
    · cases hop
    · cases hop
      exact ⟨role, updatedAt, hrole, rfl⟩
  | founded _ => cases hop
  | owned _ => cases hop
  | invited _ => cases hop
  | lapsed _ => cases hop
  | joined _ => cases hop
  | accepted _ => cases hop
  | swept _ _ => cases hop

theorem AccountWrite.on_membership {op : Op Row UUID} (h : AccountWrite journal request op)
    (ht : op.table = .organizationMemberships) :
    (∃ m, op = .insert .organizationMemberships m) ∨ ∃ m, Managing journal m op := by
  cases h with
  | user h =>
    rw [ht] at h
    cases h
  | owned _ => exact .inl ⟨_, rfl⟩
  | joined _ => exact .inl ⟨_, rfl⟩
  | managed h => exact .inr ⟨_, h⟩
  | founded _ => cases ht
  | invited _ => cases ht
  | lapsed _ => cases ht
  | accepted _ => cases ht
  | swept _ _ => cases ht

theorem AccountWrite.on_organization {op : Op Row UUID} (h : AccountWrite journal request op)
    (ht : op.table = .organizations) :
    ∃ userId organization owner, Founding userId journal organization owner := by
  cases h with
  | user h =>
    rw [ht] at h
    cases h
  | founded h => exact ⟨_, _, _, h⟩
  | managed h => rcases h.op with rfl | ⟨_, _, _, rfl⟩ <;> cases ht
  | owned _ => cases ht
  | invited _ => cases ht
  | lapsed _ => cases ht
  | joined _ => cases ht
  | accepted _ => cases ht
  | swept _ _ => cases ht

theorem AccountWrite.insert_invitation {r : Invitation}
    (h : AccountWrite journal request (.insert .invitations r)) :
    ∃ organizationId lapsed, Inviting organizationId journal lapsed r := by
  generalize hop : (Op.insert .invitations r : Op Row UUID) = op at h
  cases h with
  | user h =>
    subst hop
    cases h
  | invited h =>
    cases hop
    exact ⟨_, _, h⟩
  | managed h => rcases h.op with rfl | ⟨_, _, _, rfl⟩ <;> cases hop
  | founded _ => cases hop
  | owned _ => cases hop
  | lapsed _ => cases hop
  | joined _ => cases hop
  | accepted _ => cases hop
  | swept _ _ => cases hop

/-- Only the status of an invitation is updated. -/
theorem AccountWrite.update_invitation {id : UUID} {f : Invitation → Invitation}
    (h : AccountWrite journal request (.update .invitations id f)) :
    ∃ status updatedAt, f = Invitation.setStatus status updatedAt := by
  generalize hop : (Op.update .invitations id f : Op Row UUID) = op at h
  cases h with
  | user h =>
    subst hop
    cases h
  | lapsed _ =>
    cases hop
    exact ⟨_, _, rfl⟩
  | accepted _ =>
    cases hop
    exact ⟨_, _, rfl⟩
  | swept _ _ =>
    cases hop
    exact ⟨_, _, rfl⟩
  | managed h => rcases h.op with rfl | ⟨_, _, _, rfl⟩ <;> cases hop
  | founded _ => cases hop
  | owned _ => cases hop
  | invited _ => cases hop
  | joined _ => cases hop

end Write

/-! ## Requests -/

section Requests

variable {ι β : Type} {i : ι} {post : Journal → β → Prop}
  {journal : Journal}

theorem accounts_currentUser {userId : UUID} (hw : writesIn journal = []) {k : User → App β}
    (hk : ∀ user : User, user.id = userId →
      (accountDiscipline ι).Obeys i post (journal ++ [.read .users user]) (k user)) :
    (accountDiscipline ι).Obeys i post journal ((getCurrentUser userId).bind k) := by
  unfold getCurrentUser
  rw [Prog.bind_eq, Prog.bind_assoc]
  refine tracking_read (t := .users) rfl (fun db r h => List.mem_of_find?_eq_some h) (by simp [hw])
    trivial fun db user hfound => ?_
  have hid : user.id = userId := by simpa using List.find?_some hfound
  dsimp only
  split
  · exact hk user hid
  · trivial

variable [Platform]

/-- The frame of the idempotent endpoints records nothing itself. -/
theorem accounts_idempotently {ρ : Type} {P : Journal → Prop} {userId : UUID}
    {organizationId : Option UUID} {scope key missingBody : String} {payload : Json}
    {modelValidate : Json → Except Failure ρ} {modelDump : ρ → Json} {execute : App ρ}
    (hexecute : (accountDiscipline ι).Obeys i (fun journal' _ => P journal') journal execute) :
    (accountDiscipline ι).Obeys i (fun journal' _ => P journal' ∨ journal' = journal) journal
      (idempotently userId organizationId scope key payload missingBody modelValidate modelDump
        execute) := by
  refine tracking_skip (F := { writes := [.idempotencyRecords] })
    (confined_acquireIdempotency (by simp) _ _ _ _ _) (by decide) (by decide) (by simp)
    fun state => ?_
  split
  · cases state.replayBody with
    | none => trivial
    | some body =>
      refine tracking_quiet (confined_ofExcept (modelValidate body)) fun response => ?_
      exact .inr rfl
  · refine hexecute.bind fun journal' response hP => ?_
    refine tracking_skip (F := { writes := [.idempotencyRecords] })
      (confined_updateRow (by simp) _ fun _ => rfl) (by decide) (by decide) (by simp) fun _ => ?_
    exact .inl hP

omit [Platform] in
theorem obeys_founding (user : User) (payload : OrganizationCreate) (hw : writesIn journal = []) :
    (accountDiscipline ι).Obeys i
      (fun journal' _ => ∃ organization owner, Founding user.id journal' organization owner) journal
      (createOrganization user payload) := by
  refine tracking_select fun view => ?_
  split
  · trivial
  · refine tracking_rowDefaults fun d => ?_
    refine tracking_insert (t := .organizations) rfl ?_
    refine tracking_rowDefaults fun d' => ?_
    refine tracking_insert (t := .organizationMemberships) rfl ?_
    refine tracking_audit rfl ?_
    refine ⟨⟨d.id, strip payload.name, payload.slug, user.id, d.createdAt, d.updatedAt⟩,
      ⟨d'.id, d.id, user.id, .owner, d'.createdAt, d'.updatedAt⟩, ?_⟩
    exact
      { writes := by simp [hw, writesIn_cons, Fact.op?]
        drawn := by simp
        createdBy := rfl
        organization := rfl
        user := rfl
        role := rfl }

/-- The second half of `invite_member`. `lapsed` has been marked before. -/
theorem obeys_addInvitation {organizationId : UUID} (invitedBy : User) (email : String)
    {role : Role} (hrole : role ≠ .owner) (lapsed : Option Invitation)
    (hw : ∃ updatedAt, writesIn journal = (lapsed.map fun r =>
      .update .invitations r.id (Invitation.setStatus .expired updatedAt)).toList)
    (hheld : ∀ r ∈ lapsed, .held .invitations r ∈ journal)
    (hread : ∀ r ∈ lapsed, ∃ s : Invitation, .read .invitations s ∈ journal ∧ s.id = r.id ∧
      s.status = .pending) :
    (accountDiscipline ι).Obeys i
      (fun journal' _ => ∃ invitation, Inviting organizationId journal' lapsed invitation) journal
      (addInvitation organizationId invitedBy email role) := by
  refine tracking_quiet (confined_call _ trivial) fun rawToken => ?_
  refine tracking_quiet confined_now fun at_ => ?_
  refine tracking_quiet confined_rowDefaults fun d => ?_
  refine tracking_insert (t := .invitations) rfl ?_
  refine tracking_audit rfl ?_
  refine tracking_quiet (confined_call _ trivial) fun sent => ?_
  refine tracking_quiet (confined_orRaise _ _) fun _ => ?_
  obtain ⟨updatedAt, hw⟩ := hw
  exact ⟨⟨d.id, organizationId, email, role, tokenFingerprint rawToken, .pending, invitedBy.id,
      at_ + days 7, d.createdAt, d.updatedAt⟩,
    { writes := ⟨updatedAt, by simp [hw, writesIn_cons, Fact.op?]⟩
      held := fun r hr => List.mem_append_left _ (hheld r hr)
      read := fun r hr => (hread r hr).imp fun s hs => ⟨List.mem_append_left _ hs.1, hs.2⟩
      organization := rfl
      role := hrole
      pending := rfl }⟩

theorem obeys_inviting {organizationId : UUID} (invitedBy : User) {payload : InviteMemberRequest}
    (hvalid : payload.valid = true) (hw : writesIn journal = []) :
    (accountDiscipline ι).Obeys i (fun journal' _ => ∃ lapsed invitation,
      Inviting organizationId journal' lapsed invitation) journal
      (inviteMember organizationId invitedBy payload) := by
  have hrole : payload.role ≠ .owner := by simpa [InviteMemberRequest.valid] using hvalid
  have hplain : (accountDiscipline ι).Obeys i (fun journal' _ => ∃ lapsed invitation,
      Inviting organizationId journal' lapsed invitation) journal
      (addInvitation organizationId invitedBy (Platform.lower payload.email) payload.role) :=
    (obeys_addInvitation invitedBy _ hrole none ⟨0, hw⟩ (by simp) (by simp)).mono
      fun _ _ h => ⟨none, h⟩
  refine tracking_quiet (confined_isMember _ _) fun member => ?_
  split
  · trivial
  · refine journal_select fun view => ?_
    cases hfound : findPending organizationId (Platform.lower payload.email) view with
    | none =>
      refine ⟨[], by simp, trivial, ?_⟩
      rw [List.append_nil]
      exact hplain
    | some pending =>
      refine ⟨[.read .invitations pending], fun f hf => ?_, trivial, ?_⟩
      · obtain rfl := List.mem_singleton.mp hf
        exact ⟨_, _, rfl, rfl, by simp [hw], List.mem_of_find?_eq_some hfound⟩
      · have hpending : pending.status = .pending := by
          have hmatches := List.find?_some hfound
          simp only [decide_eq_true_eq] at hmatches
          exact hmatches.2.2
        change (accountDiscipline ι).Obeys i _ _ (now.bind _)
        refine tracking_quiet confined_now fun at_ => ?_
        split
        · trivial
        · refine tracking_flush (t := .invitations) rfl fun r updatedAt hid => ?_
          have hid : r.id = pending.id := hid
          refine ⟨[.held .invitations r], .inr ⟨rfl, ?_⟩, ?_⟩
          · simp [hw, writesIn_cons, Fact.op?]
          · refine (obeys_addInvitation invitedBy _ hrole (some r) ⟨updatedAt, ?_⟩ ?_ ?_).mono
              fun _ _ h => ⟨some r, h⟩
            · simp [hw, writesIn_cons, Fact.op?, hid]
            · simp
            · rintro _ ⟨⟩
              exact ⟨pending, by simp, hid.symm, hpending⟩

omit [Platform] in
/-- The membership of who accepts an invitation. -/
theorem obeys_joinOrganization (user : User) (invitation : Invitation)
    {k : OrganizationMembership → App β}
    (hold : ∀ m, (accountDiscipline ι).Obeys i post journal (k m))
    (hnew : ∀ m : OrganizationMembership, m.organizationId = invitation.organizationId →
      m.userId = user.id → m.role = invitation.role → (accountDiscipline ι).Obeys i post
        (journal ++ [.called .uuid4 m.id] ++ [.wrote (.insert .organizationMemberships m)]) (k m)) :
    (accountDiscipline ι).Obeys i post journal ((joinOrganization user invitation).bind k) := by
  unfold joinOrganization
  rw [Prog.bind_eq, Prog.bind_assoc]
  refine tracking_select fun view => ?_
  cases findMembership invitation.organizationId user.id view with
  | some membership => exact hold membership
  | none =>
    simp only [Prog.bind_eq, Prog.pure_eq, Prog.bind_assoc, Prog.ret_bind]
    refine tracking_rowDefaults fun d => ?_
    refine tracking_insert (t := .organizationMemberships) rfl ?_
    exact hnew ⟨d.id, invitation.organizationId, user.id, invitation.role, d.createdAt,
      d.updatedAt⟩ rfl rfl rfl

theorem obeys_accepting {userId : UUID} {user : User} (huser : user.id = userId) (rawToken : String) :
    (accountDiscipline ι).Obeys i (fun journal' _ => ∃ invitation at_ joined,
      Accepting userId rawToken journal' user invitation at_ joined) [.read .users user]
      (acceptInvitation user rawToken) := by
  refine journal_selectForUpdate fun view => ?_
  cases hfound : findInvitation rawToken view with
  | none => exact ⟨[], by simp, trivial, trivial⟩
  | some invitation =>
    have htoken : invitation.tokenHash = tokenFingerprint rawToken := by
      simpa using List.find?_some hfound
    refine ⟨[.held .invitations invitation], fun f hf => ?_, trivial, ?_⟩
    · obtain rfl := List.mem_singleton.mp hf
      exact ⟨_, _, rfl, rfl, by simp [writesIn_cons, Fact.op?], List.mem_of_find?_eq_some hfound,
        by simp⟩
    · change (accountDiscipline ι).Obeys i _ _ (if invitation.status ≠ .pending then _ else _)
      split
      · trivial
      · rename_i hpending
        refine tracking_call fun at_ => ?_
        split
        · refine tracking_flush (t := .invitations) rfl fun r at' hid => ?_
          exact ⟨[], .inl rfl, trivial⟩
        · rename_i hexpired
          split
          · trivial
          · rename_i hemail
            have hmark : ∀ (joined : Option OrganizationMembership) (m : OrganizationMembership)
                (new : Journal),
                (∀ m ∈ joined, m.organizationId = invitation.organizationId ∧ m.userId = userId ∧
                  m.role = invitation.role) →
                (∀ m ∈ joined, .called .uuid4 m.id ∈ new) →
                writesIn new = (joined.map fun m => .insert .organizationMemberships m).toList →
                (accountDiscipline ι).Obeys i (fun journal' _ => ∃ invitation at_ joined,
                  Accepting userId rawToken journal' user invitation at_ joined)
                  ([.read .users user] ++ [.held .invitations invitation] ++ [.called .now at_] ++ new)
                  (do
                    let _ ← flush .invitations invitation.id true (Invitation.setStatus .accepted)
                    recordAudit invitation.organizationId (some user.id) "member.joined"
                      "organization_membership" (some m.id) [("role", .str m.role.str)]
                    return m) := by
              intro joined m new hjoined hdrawn hw
              refine tracking_flush (t := .invitations) rfl fun r updatedAt hid => ?_
              refine ⟨[], .inl rfl, tracking_audit rfl ?_⟩
              refine ⟨invitation, at_, joined,
                { reads := ⟨new ++ [.wrote (.update .invitations invitation.id
                    (Invitation.setStatus .accepted updatedAt))], by simp⟩
                  writes := ⟨updatedAt, by simp [writesIn_cons, Fact.op?, hw]⟩
                  drawn := fun m hm => by simp [hdrawn m hm]
                  account := huser
                  token := htoken
                  pending := by simpa using hpending
                  unexpired := by simpa using hexpired
                  email := by simpa using hemail
                  joined := hjoined }⟩
            refine obeys_joinOrganization user invitation (fun m => ?_) fun m horg hm hrole => ?_
            · have h := hmark none m [] (by simp) (by simp) rfl
              rwa [List.append_nil] at h
            · have h := hmark (some m) m
                [.called .uuid4 m.id, .wrote (.insert .organizationMemberships m)]
                (by rintro _ ⟨⟩; exact ⟨horg, hm.trans huser, hrole⟩) (by simp) rfl
              simpa using h

omit [Platform] in
/-- Both operations on a membership first read it. -/
theorem accounts_findMembership {organizationId membershipId : UUID}
    {k : Option OrganizationMembership → App β} (hnone : (accountDiscipline ι).Obeys i post [] (k none))
    (hsome : ∀ m : OrganizationMembership, (accountDiscipline ι).Obeys i post
      [.read .organizationMemberships m] (k (some m))) :
    (accountDiscipline ι).Obeys i post []
      ((select (findMembershipById organizationId membershipId)).bind k) :=
  tracking_read (t := .organizationMemberships) rfl (fun _ _ h => List.mem_of_find?_eq_some h)
    (by simp) hnone fun _ m _ => hsome m

omit [Platform] in
theorem obeys_promoting (organizationId membershipId : UUID) (actor : User) {role : Role}
    (hrole : role ≠ .owner) :
    (accountDiscipline ι).Obeys i
      (fun journal' _ => writesIn journal' = [] ∨ ∃ m op, Managing journal' m op) []
      (updateMembershipRole organizationId membershipId actor role) := by
  refine accounts_findMembership trivial fun m => ?_
  change (accountDiscipline ι).Obeys i _ _ (if m.role = .owner then _ else _)
  split
  · trivial
  · rename_i hm
    by_cases hdirty : role = m.role
    · have hclean : decide (role ≠ m.role) = false := by simp [hdirty]
      rw [hclean]
      exact tracking_audit rfl (.inl rfl)
    · have hdirty : decide (role ≠ m.role) = true := by simp [hdirty]
      rw [hdirty]
      refine tracking_flush (t := .organizationMemberships) rfl fun r updatedAt hid => ?_
      refine ⟨[], .inl rfl, tracking_audit rfl (.inr ⟨m, .update .organizationMemberships m.id
        fun r => { r with role, updatedAt }, ?_⟩)⟩
      exact
        { reads := by simp
          writes := by simp [writesIn_cons, Fact.op?]
          role := hm
          op := .inr ⟨role, updatedAt, hrole, rfl⟩ }

omit [Platform] in
theorem obeys_removing (organizationId membershipId : UUID) (actor : User) :
    (accountDiscipline ι).Obeys i
      (fun journal' _ => writesIn journal' = [] ∨ ∃ m op, Managing journal' m op) []
      (removeMembership organizationId membershipId actor) := by
  refine accounts_findMembership trivial fun m => ?_
  change (accountDiscipline ι).Obeys i _ _ (if m.role = .owner then _ else _)
  split
  · trivial
  · rename_i hm
    refine tracking_audit rfl ?_
    refine tracking_delete rfl (fun _ => rfl)
      (.inr ⟨m, .delete .organizationMemberships m.id, ?_⟩) (.inl rfl)
    exact
      { reads := by simp
        writes := by simp [writesIn_cons, Fact.op?]
        role := hm
        op := .inl rfl }

omit [Platform] in
/-- Marking invitations that have been locked as pending. -/
theorem obeys_markRows {updatedAt : Datetime} (ids : List UUID)
    (hheld : ∀ id ∈ ids, ∃ r : Invitation, r.id = id ∧ .held .invitations r ∈ journal ∧
      r.status = .pending) (hI : Sweeping journal) :
    (accountDiscipline ι).Obeys i (fun journal' _ => Sweeping journal') journal
      (updateRows .invitations (Invitation.setStatus .expired updatedAt) ids) := by
  induction ids generalizing journal with
  | nil => exact hI
  | cons id ids ih =>
    obtain ⟨r, rfl, hr, hpending⟩ := hheld id List.mem_cons_self
    refine tracking_update (t := .invitations) rfl ?_
    refine ih (fun id hid => ?_) fun op hop => ?_
    · obtain ⟨s, hs, hheld, hpending⟩ := hheld id (List.mem_cons_of_mem _ hid)
      exact ⟨s, hs, List.mem_append_left _ hheld, hpending⟩
    · rw [writesIn_append] at hop
      rcases List.mem_append.mp hop with hop | hop
      · obtain ⟨s, at_, hop, hheld, hpending⟩ := hI op hop
        exact ⟨s, at_, hop, List.mem_append_left _ hheld, hpending⟩
      · obtain rfl := List.mem_singleton.mp hop
        exact ⟨r, updatedAt, rfl, List.mem_append_left _ hr, hpending⟩

omit [Platform] in
theorem obeys_sweeping : (accountDiscipline ι).Obeys i (fun journal' _ => Sweeping journal') []
    cleanupExpiredState := by
  refine tracking_quiet confined_now fun at_ => ?_
  refine tracking_skip (F := { deletes := [.idempotencyRecords] })
    (confined_deleteWhere (by simp) (by simp [cascadeTables]) _) (by simp) (by simp) (by decide)
    fun _ => ?_
  refine tracking_skip (F := { deletes := [.refreshTokens] })
    (confined_deleteWhere (by simp) (by simp [cascadeTables]) _) (by simp) (by simp) (by decide)
    fun _ => ?_
  refine tracking_quiet confined_now fun updatedAt => ?_
  refine journal_selectForUpdate fun view => ?_
  let locked := (view .invitations).filter fun r => decide (r.status = .pending ∧ r.expiresAt < at_)
  have hlocked : ∀ r ∈ locked, r ∈ view .invitations ∧ r.status = .pending := by
    intro r hr
    obtain ⟨hmem, hp⟩ := List.mem_filter.mp hr
    exact ⟨hmem, (of_decide_eq_true hp).1⟩
  refine ⟨locked.map (.held .invitations), fun f hf => ?_, trivial, ?_⟩
  · obtain ⟨r, hr, rfl⟩ := List.mem_map.mp hf
    exact ⟨.invitations, r, rfl, rfl, by simp, (hlocked r hr).1,
      List.mem_map_of_mem (List.mem_map_of_mem hr)⟩
  · refine obeys_markRows _ (fun id hid => ?_) fun op hop => ?_
    · obtain ⟨r, hr, rfl⟩ := List.mem_map.mp hid
      exact ⟨r, rfl, List.mem_map_of_mem hr, (hlocked r hr).2⟩
    · have hnone := mem_writesIn.mp hop
      simp at hnone

omit [Platform] in
theorem accounts_route {α : Type} {permission : Permission} {organizationId userId : UUID}
    {args : Option α} {ok : α → Bool} {f : OrganizationContext → α → App β}
    (h : ∀ context a, args = some a → ok a = true →
      (accountDiscipline ι).Obeys i post journal (f context a)) :
    (accountDiscipline ι).Obeys i post journal
      ((requirePermission permission organizationId userId).bind fun context =>
        (validated args ok).bind fun a => f context a) :=
  tracking_quiet (confined_requirePermission _ _ _) fun context => tracking_validated (h context)

theorem obeys_createOrganization (userId : UUID) (args : Option (OrganizationCreate × String)) :
    (accountDiscipline ι).Obeys i
      (fun journal _ => Deed journal (.createOrganization userId args)) []
      (Request.createOrganization userId args).handler := by
  have hcreate : (accountDiscipline ι).Obeys i
      (fun journal _ => Deed journal (.createOrganization userId args)) [] (create userId args) := by
    refine accounts_currentUser rfl fun user huser => ?_
    refine tracking_validated fun a _ _ => ?_
    refine (accounts_idempotently (P := fun journal => ∃ organization owner,
      Founding user.id journal organization owner) ?_).mono fun journal outcome h => ?_
    · exact (obeys_founding user a.1 rfl).bind fun journal organization h => h
    · rcases h with ⟨organization, owner, h⟩ | rfl
      · exact .founded organization owner (huser ▸ h)
      · exact .none (by simp [writesIn_cons, Fact.op?])
  exact hcreate.bind fun journal outcome h => h

theorem obeys_createInvitation (organizationId userId : UUID)
    (args : Option (InviteMemberRequest × String)) :
    (accountDiscipline ι).Obeys i
      (fun journal _ => Deed journal (.organization organizationId userId (.createInvitation args)))
      [] (Request.organization organizationId userId (.createInvitation args)).handler := by
  have hinvite : (accountDiscipline ι).Obeys i
      (fun journal _ => Deed journal (.organization organizationId userId (.createInvitation args)))
      [] (createInvitation organizationId userId args) := by
    refine accounts_route fun context a _ hok => ?_
    have hvalid : a.1.valid = true := by
      simp only [Bool.and_eq_true] at hok
      exact hok.1
    refine (accounts_idempotently (P := fun journal => ∃ lapsed invitation,
      Inviting organizationId journal lapsed invitation) ?_).mono fun journal outcome h => ?_
    · refine (obeys_inviting context.user hvalid rfl).bind fun journal invitation h => ?_
      cases InvitationResponse.make invitation.id invitation.email invitation.role.str
        invitation.status.str with
      | ok response => exact h
      | error e => trivial
    · rcases h with ⟨lapsed, invitation, h⟩ | rfl
      · exact .invited lapsed invitation h
      · exact .none (by simp)
  exact hinvite.bind fun journal outcome h => h

theorem obeys_acceptInvitation (userId : UUID) (args : Option String) :
    (accountDiscipline ι).Obeys i
      (fun journal _ => Deed journal (.acceptInvitation userId args)) []
      (Request.acceptInvitation userId args).handler := by
  have haccept : (accountDiscipline ι).Obeys i
      (fun journal _ => Deed journal (.acceptInvitation userId args)) []
      (acceptMemberInvitation userId args) := by
    refine accounts_currentUser rfl fun user huser => ?_
    refine tracking_validated fun rawToken hargs _ => ?_
    subst hargs
    refine (obeys_accepting huser rawToken).bind fun journal m h => ?_
    obtain ⟨invitation, at_, joined, h⟩ := h
    have hdone : Deed journal (.acceptInvitation userId (some rawToken)) :=
      .accepted user invitation at_ joined h
    cases membershipResponse m user with
    | ok response => exact hdone
    | error e => trivial
  exact haccept.bind fun journal response h => h

/-- Requests that change a role or remove a member. -/
theorem Deed.of_managing {organizationId userId : UUID} {request : OrganizationRequest}
    (h : writesIn journal = [] ∨ ∃ m op, Managing journal m op) :
    Deed journal (.organization organizationId userId request) := by
  rcases h with h | ⟨m, op, h⟩
  · exact .none (by simp [h])
  · exact .managed m op h

theorem obeys_changeMemberRole (organizationId userId : UUID) (args : Option (UUID × Role)) :
    (accountDiscipline ι).Obeys i
      (fun journal _ => Deed journal (.organization organizationId userId (.changeMemberRole args)))
      [] (Request.organization organizationId userId (.changeMemberRole args)).handler := by
  have hchange : (accountDiscipline ι).Obeys i
      (fun journal _ => Deed journal (.organization organizationId userId (.changeMemberRole args)))
      [] (changeMemberRole organizationId userId args) := by
    refine accounts_route fun context a _ hok => ?_
    refine (obeys_promoting _ _ _ (of_decide_eq_true hok)).bind fun journal m h => ?_
    have h : Deed journal (.organization organizationId userId (.changeMemberRole args)) :=
      .of_managing h
    refine tracking_select fun view => ?_
    cases (view .users).find? (·.id = m.userId) with
    | none => trivial
    | some member =>
      change (accountDiscipline ι).Obeys i _ journal (Prog.ofExcept (membershipResponse m member))
      cases membershipResponse m member with
      | ok response => exact h
      | error e => trivial
  exact hchange.bind fun journal response h => h

theorem obeys_deleteMember (organizationId userId : UUID) (args : Option UUID) :
    (accountDiscipline ι).Obeys i
      (fun journal _ => Deed journal (.organization organizationId userId (.deleteMember args)))
      [] (Request.organization organizationId userId (.deleteMember args)).handler := by
  have hdelete : (accountDiscipline ι).Obeys i
      (fun journal _ => Deed journal (.organization organizationId userId (.deleteMember args)))
      [] (deleteMember organizationId userId args) := by
    refine accounts_route fun context membershipId _ _ => ?_
    exact (obeys_removing _ _ _).mono fun journal _ h => .of_managing h
  exact hdelete.bind fun journal response h => h

/-- The journal of every request that commits tells what it has done. -/
theorem obeys_deed (request : Request) :
    (accountDiscipline ι).Obeys i (fun journal _ => Deed journal request) [] request.handler := by
  have hother : (∀ t ∈ request.scope.writes ++ request.scope.deletes,
      accountTables t = true → t = .users) →
      (accountDiscipline ι).Obeys i (fun journal _ => Deed journal request) [] request.handler :=
    fun h => (tracking_other (confined_request request) h).mono fun _ _ h => .none h
  cases request with
  | createOrganization userId args => exact obeys_createOrganization userId args
  | acceptInvitation userId args => exact obeys_acceptInvitation userId args
  | cleanup => exact obeys_sweeping.bind fun journal _ h => .swept h
  | organization organizationId userId request =>
    cases request with
    | createInvitation args => exact obeys_createInvitation organizationId userId args
    | changeMemberRole args => exact obeys_changeMemberRole organizationId userId args
    | deleteMember args => exact obeys_deleteMember organizationId userId args
    | _ => exact hother (by simp [Request.scope, OrganizationRequest.scope, accountTables])
  | _ => exact hother (by simp [Request.scope, accountTables])

/-- The journals over the accounts of a run. -/
abbrev AccountRun (requests : ι → Request) (db : Db Row) (journals : ι → Journal)
    (sys : Sys Row UUID Answer Failure Response ι) : Prop :=
  Recorded (tableTopic accountTables) (fun i => (requests i).scope) (fun _ _ => True)
    (fun i journal _ => Deed journal (requests i)) db journals sys

/-- Every run of requests has journals that tell what each has done. -/
theorem exists_deeds [DecidableEq ι] {requests : ι → Request} {db : Db Row}
    {sys : Sys Row UUID Answer Failure Response ι} (hdb : Unclashing db)
    (hr : Reachable (fun i => (requests i).handler) db sys) :
    ∃ journals, AccountRun requests db journals sys :=
  exists_chronicle hdb (fun i => obeys_deed (requests i)) (fun _ => trivial) hr

end Requests

end TenantFlow
