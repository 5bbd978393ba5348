import TenantFlow.Verification.Memberships

/-!
# Owners

`update_membership_role` and `remove_membership` check the role on a row that they have not
locked. In every run each organization still has exactly one owner, who created it, and the
owner's membership is never touched.
-/

namespace TenantFlow

open JsonText Transactional

/-- Every organization has exactly one owner, its creator, and nobody else is an owner. -/
structure SingleOwner (db : Db Row) : Prop where
  owner : ∀ o ∈ db .organizations, ∃ m ∈ db .organizationMemberships,
    m.organizationId = o.id ∧ m.role = .owner ∧ m.userId = o.createdBy ∧
      ∀ m' ∈ db .organizationMemberships, m'.organizationId = o.id → m'.role = .owner → m' = m
  organization : ∀ m ∈ db .organizationMemberships, m.role = .owner →
    ∃ o ∈ db .organizations, o.id = m.organizationId

section Runs

variable [Platform] {ι : Type} {requests : ι → Request} {db : Db Row}
  {journals : ι → Journal} {sys : Sys Row UUID Answer Failure Response ι} {i j : ι}
  {before mid after : List (ι × Entry Row UUID Answer)} {ops : List (Op Row UUID)}

/-- The ids that were drawn. -/
def drawnIds (trace : List (ι × Entry Row UUID Answer)) : List UUID :=
  trace.filterMap fun e => match e.2 with
    | .called .uuid4 a => some a
    | _ => none

/-- `uuid4` gives no value twice and none that is the key of a membership of the start. -/
structure FreshIds (db : Db Row) (trace : List (ι × Entry Row UUID Answer)) : Prop where
  distinct : (drawnIds trace).Nodup
  unused : ∀ m ∈ db .organizationMemberships, m.id ∉ drawnIds trace

omit [Platform] in
theorem mem_drawnIds {trace : List (ι × Entry Row UUID Answer)} {a : UUID}
    (h : (i, .called .uuid4 a) ∈ trace) : a ∈ drawnIds trace :=
  List.mem_filterMap.mpr ⟨_, h, rfl⟩

omit [Platform] in
theorem FreshIds.eq (h : FreshIds db sys.trace) {a : UUID} (hi : (i, .called .uuid4 a) ∈ sys.trace)
    (hj : (j, .called .uuid4 a) ∈ sys.trace) : i = j :=
  congrArg Prod.fst (eq_of_filterMap_nodup h.distinct hi hj rfl rfl)

/-! ## New owners -/

/-- The row is no invitation for an owner. -/
def InvitesNoOwner : (t : Table) → Row t → Prop
  | .invitations, r => r.role ≠ .owner
  | _, _ => True

theorem AccountRun.invitation_role (hrun : AccountRun requests db journals sys)
    (hdb : ∀ r ∈ db .invitations, r.role ≠ .owner) (htrace : sys.trace = before ++ after)
    {r : Invitation} (hr : r ∈ dbAfter db before .invitations) : r.role ≠ .owner := by
  have hall : ∀ before after, sys.trace = before ++ after →
      AllGood InvitesNoOwner (dbAfter db before) := by
    refine prefix_induction (fun t r hr => ?_) ?_
    · cases t with
      | invitations => exact hdb r hr
      | _ => trivial
    · rintro before ⟨i, e⟩ after htrace hbefore
      cases e with
      | called c x => simpa using hbefore
      | committed ops =>
        rw [dbAfter_append, dbAfter_committed]
        refine hbefore.replay (fun t r hop => ?_) fun t id f hop r hr => ?_
        · cases t with
          | invitations =>
            obtain ⟨_, _, h⟩ := (hrun.write htrace rfl hop).insert_invitation
            exact h.role
          | _ => trivial
        · cases t with
          | invitations =>
            obtain ⟨_, _, rfl⟩ := (hrun.write htrace rfl hop).update_invitation
            exact hr
          | _ => trivial
  exact hall before after htrace .invitations r hr

/-- The row is no owner's membership, unless it was there or has been founded. -/
def OwnerFrom (old : Db Row) (journal : Journal) : (t : Table) → Row t → Prop
  | .organizationMemberships, m => m.role = .owner → m ∈ old .organizationMemberships ∨
      ∃ userId organization, Founding userId journal organization m
  | _, _ => True

theorem AccountRun.new_owner (hrun : AccountRun requests db journals sys)
    (hdb : ∀ r ∈ db .invitations, r.role ≠ .owner)
    (htrace : sys.trace = before ++ (i, .committed ops) :: after) {m : OrganizationMembership}
    (hm : m ∈ dbAfter db (before ++ [(i, .committed ops)]) .organizationMemberships)
    (howner : m.role = .owner) : m ∈ dbAfter db before .organizationMemberships ∨
      ∃ userId organization, Founding userId (journals i) organization m := by
  have hall : AllGood (OwnerFrom (dbAfter db before) (journals i)) (dbAfter db before) := by
    intro t r hr
    cases t with
    | organizationMemberships => exact fun _ => .inl hr
    | _ => trivial
  rw [dbAfter_append, dbAfter_committed] at hm
  refine hall.replay (fun t r hop => ?_) (fun t id f hop r hr => ?_) .organizationMemberships m hm
    howner
  · cases t with
    | organizationMemberships =>
      rcases (hrun.write htrace rfl hop).insert_membership with ⟨userId, _, organization, _, h⟩ |
        ⟨_, _, _, invitation, _, _, h⟩
      · exact fun _ => .inr ⟨userId, organization, h⟩
      · intro hr
        have hinvited := hrun.invitation_role hdb htrace (hrun.held htrace h.held)
        exact absurd ((h.joined r rfl).2.2.symm.trans hr) hinvited
    | _ => trivial
  · cases t with
    | organizationMemberships =>
      obtain ⟨role, _, hrole, rfl⟩ := (hrun.write htrace rfl hop).update_membership
      exact fun h => absurd h hrole
    | _ => trivial

/-- The id of a new owner's membership is that of no membership before. -/
theorem AccountRun.founding_fresh (hrun : AccountRun requests db journals sys)
    (hpairs : sys.trace.Pairwise fun x y => x.2.isCommit = true → y.2.isCommit = true → x.1 ≠ y.1)
    (hfresh : FreshIds db sys.trace)
    (htrace : sys.trace = before ++ mid ++ (i, .committed ops) :: after) {userId : UUID}
    {organization : Organization} {owner m : OrganizationMembership}
    (h : Founding userId (journals i) organization owner)
    (hm : m ∈ dbAfter db before .organizationMemberships) : m.id ≠ owner.id := by
  intro hid
  have hdrawn : (i, .called .uuid4 owner.id) ∈ sys.trace := (hrun.timed i).called h.drawn
  have hbehind : sys.trace = before ++ (mid ++ (i, .committed ops) :: after) := by
    rw [htrace, List.append_assoc]
  rcases hrun.stems hbehind hm with ⟨s, hs, hblank⟩ | ⟨j, ops', s, hj, hins, hblank⟩
  · have hsid : m.id = s.id := pk_of_blank hblank
    exact hfresh.unused s hs (hsid ▸ hid ▸ mem_drawnIds hdrawn)
  · have hsid : m.id = s.id := pk_of_blank hblank
    obtain ⟨start, rest, hsplit⟩ := List.append_of_mem hj
    have hcommit : sys.trace =
        start ++ (j, .committed ops') :: (rest ++ (mid ++ (i, .committed ops) :: after)) := by
      simp [hbehind, hsplit]
    have hwrite := hrun.write hcommit rfl hins
    have hdrawn' : .called .uuid4 s.id ∈ journals j := by
      rcases hwrite.insert_membership with ⟨_, _, _, _, h⟩ | ⟨_, _, _, _, _, _, h⟩
      · exact h.drawn
      · exact h.drawn s rfl
    have hji : j = i := by
      refine hfresh.eq ((hrun.timed j).called hdrawn') ?_
      rw [← hsid, hid]
      exact hdrawn
    rw [hbehind] at hpairs
    exact (List.pairwise_append.mp hpairs).2.2 _ hj (i, .committed ops) (by simp) rfl rfl hji

/-! ## Who is read as no owner is none -/

section Fresh

variable (hrun : AccountRun requests db journals sys)
  (hpairs : sys.trace.Pairwise fun x y => x.2.isCommit = true → y.2.isCommit = true → x.1 ≠ y.1)
  (hfresh : FreshIds db sys.trace) (hdb : ∀ r ∈ db .invitations, r.role ≠ .owner)

include hrun hpairs hfresh hdb

/-- A membership that was no owner's at some time has not become one. -/
theorem AccountRun.never_owner (htrace : sys.trace = before ++ mid ++ after)
    {m r : OrganizationMembership} (hm : m ∈ dbAfter db before .organizationMemberships)
    (hrole : m.role ≠ .owner) (hr : r ∈ dbAfter db (before ++ mid) .organizationMemberships)
    (hid : r.id = m.id) : r.role ≠ .owner := by
  induction mid using List.reverseRecOn generalizing after r with
  | nil =>
    rw [List.append_nil] at hr htrace
    have hrm : r = m := hrun.eq_of_pk (t := .organizationMemberships) htrace hr hm hid
    rwa [hrm]
  | append_singleton mid e ih =>
    obtain ⟨i, e⟩ := e
    have hsplit : sys.trace = before ++ mid ++ (i, e) :: after := by simpa using htrace
    rw [← List.append_assoc] at hr
    cases e with
    | called c x => exact ih hsplit (by simpa using hr) hid
    | committed ops =>
      intro howner
      rcases hrun.new_owner hdb hsplit hr howner with hold | ⟨userId, organization, h⟩
      · exact ih hsplit hold hid howner
      · exact hrun.founding_fresh hpairs hfresh hsplit h hm hid.symm

/-- A commit leaves the membership of an owner as it is. -/
theorem AccountRun.owner_kept (htrace : sys.trace = before ++ (i, .committed ops) :: after)
    {m : OrganizationMembership} (hm : m ∈ dbAfter db before .organizationMemberships)
    (howner : m.role = .owner) :
    m ∈ dbAfter db (before ++ [(i, .committed ops)]) .organizationMemberships := by
  rw [dbAfter_append, dbAfter_committed]
  refine mem_replay_of_inserts (fun op hop hkey => ?_) hm
  have htable : op.table = .organizationMemberships := by
    cases op <;> exact congrArg Prod.fst hkey
  refine ((hrun.write htrace (by rw [htable]; rfl) hop).on_membership htable).resolve_right ?_
  -- Whoever changes or deletes a membership has read it as no owner's.
  rintro ⟨s, h⟩
  have hid : m.id = s.id := by
    rcases h.op with rfl | ⟨_, _, _, rfl⟩ <;> exact (congrArg Prod.snd hkey).symm
  obtain ⟨start, rest, rfl, hread⟩ :=
    (hrun.committed i before ops after htrace).1.timed.of_mem h.reads
  exact hrun.never_owner hpairs hfresh hdb htrace hread h.role hm hid howner

/-- Later on the membership of an owner is as it was. -/
theorem AccountRun.owner_stays (htrace : sys.trace = before ++ mid ++ after)
    {m : OrganizationMembership} (hm : m ∈ dbAfter db before .organizationMemberships)
    (howner : m.role = .owner) : m ∈ dbAfter db (before ++ mid) .organizationMemberships := by
  induction mid using List.reverseRecOn generalizing after with
  | nil => rwa [List.append_nil]
  | append_singleton mid e ih =>
    obtain ⟨i, e⟩ := e
    have hsplit : sys.trace = before ++ mid ++ (i, e) :: after := by simpa using htrace
    rw [← List.append_assoc]
    cases e with
    | called c x => simpa using ih hsplit
    | committed ops => exact hrun.owner_kept hpairs hfresh hdb hsplit (ih hsplit) howner

omit hpairs hfresh hdb in
theorem AccountRun.founded (htrace : sys.trace = before ++ (i, .committed ops) :: after)
    {userId : UUID} {organization : Organization} {owner : OrganizationMembership}
    (h : Founding userId (journals i) organization owner) :
    dbAfter db (before ++ [(i, .committed ops)]) .organizations =
        dbAfter db before .organizations ++ [organization] ∧
      dbAfter db (before ++ [(i, .committed ops)]) .organizationMemberships =
        dbAfter db before .organizationMemberships ++ [owner] := by
  rw [hrun.dbAfter_commit htrace rfl, hrun.dbAfter_commit htrace rfl, h.writes]
  exact ⟨rfl, rfl⟩

omit hpairs hfresh hdb in
/-- Without a founding the organizations are the same. -/
theorem AccountRun.organizations_eq (htrace : sys.trace = before ++ (i, .committed ops) :: after)
    (h : ¬ ∃ userId organization owner, Founding userId (journals i) organization owner) :
    dbAfter db (before ++ [(i, .committed ops)]) .organizations =
      dbAfter db before .organizations := by
  rw [dbAfter_append, dbAfter_committed]
  refine replay_of_table_ne _ fun op hop ht => h ?_
  exact (hrun.write htrace (by rw [ht]; rfl) hop).on_organization ht

omit hpairs hfresh hdb in
/-- The organization founded is new. -/
theorem AccountRun.founded_new (htrace : sys.trace = before ++ (i, .committed ops) :: after)
    {userId : UUID} {organization : Organization} {owner : OrganizationMembership}
    (h : Founding userId (journals i) organization owner) {o : Organization}
    (ho : o ∈ dbAfter db before .organizations) : o.id ≠ organization.id := by
  refine hrun.fresh_key (t := .organizations) htrace ?_ (fun hdel => ?_) o ho
  · exact (hrun.mem_writesIn htrace rfl).mp (by rw [h.writes]; simp)
  · have hwrite := (hrun.mem_writesIn htrace rfl).mpr hdel
    simp [h.writes] at hwrite

theorem AccountRun.singleOwner (howners : SingleOwner db) (htrace : sys.trace = before ++ after) :
    SingleOwner (dbAfter db before) := by
  revert htrace
  refine prefix_induction (P := fun before => SingleOwner (dbAfter db before)) howners ?_ before after
  rintro before ⟨i, e⟩ after htrace hbefore
  cases e with
  | called c x => simpa using hbefore
  | committed ops =>
    have hkept : ∀ m ∈ dbAfter db before .organizationMemberships, m.role = .owner →
        m ∈ dbAfter db (before ++ [(i, .committed ops)]) .organizationMemberships :=
      fun m hm hrole => hrun.owner_kept hpairs hfresh hdb htrace hm hrole
    by_cases hfounding : ∃ userId organization owner,
        Founding userId (journals i) organization owner
    · obtain ⟨userId, organization, owner, h⟩ := hfounding
      obtain ⟨horganizations, hmemberships⟩ := hrun.founded htrace h
      have hnew : ∀ m ∈ dbAfter db (before ++ [(i, .committed ops)]) .organizationMemberships,
          m ∈ dbAfter db before .organizationMemberships ∨ m = owner := by
        intro m hm
        rw [hmemberships] at hm
        simpa using hm
      have howner : owner ∈
          dbAfter db (before ++ [(i, .committed ops)]) .organizationMemberships := by
        rw [hmemberships]
        simp
      constructor
      · intro o ho
        rw [horganizations] at ho
        rcases List.mem_append.mp ho with ho | ho
        · obtain ⟨m, hm, horg, hrole, huser, hunique⟩ := hbefore.owner o ho
          refine ⟨m, hkept m hm hrole, horg, hrole, huser, fun m' hm' horg' hrole' => ?_⟩
          rcases hnew m' hm' with hold | rfl
          · exact hunique m' hold horg' hrole'
          · exact absurd (horg'.symm.trans h.organization) (hrun.founded_new htrace h ho)
        · obtain rfl := List.mem_singleton.mp ho
          refine ⟨owner, howner, h.organization, h.role, h.user.trans h.createdBy.symm,
            fun m' hm' horg' hrole' => ?_⟩
          rcases hnew m' hm' with hold | rfl
          · obtain ⟨o', ho', hid⟩ := hbefore.organization m' hold hrole'
            exact absurd (hid.trans horg') (hrun.founded_new htrace h ho')
          · rfl
      · intro m hm hrole
        rw [horganizations]
        rcases hnew m hm with hold | rfl
        · obtain ⟨o, ho, hid⟩ := hbefore.organization m hold hrole
          exact ⟨o, List.mem_append_left _ ho, hid⟩
        · exact ⟨organization, by simp, h.organization.symm⟩
    · have hold : ∀ m ∈ dbAfter db (before ++ [(i, .committed ops)]) .organizationMemberships,
          m.role = .owner → m ∈ dbAfter db before .organizationMemberships := by
        intro m hm hrole
        refine (hrun.new_owner hdb htrace hm hrole).resolve_right ?_
        rintro ⟨userId, organization, h⟩
        exact hfounding ⟨userId, organization, m, h⟩
      have horganizations := hrun.organizations_eq htrace hfounding
      constructor
      · intro o ho
        rw [horganizations] at ho
        obtain ⟨m, hm, horg, hrole, huser, hunique⟩ := hbefore.owner o ho
        exact ⟨m, hkept m hm hrole, horg, hrole, huser, fun m' hm' horg' hrole' =>
          hunique m' (hold m' hm' hrole') horg' hrole'⟩
      · intro m hm hrole
        rw [horganizations]
        exact hbefore.organization m (hold m hm hrole) hrole

end Fresh

/-- In every run of any requests each organization has exactly one owner, its creator, nobody
else is ever an owner, and the membership of an owner is never changed or deleted. -/
theorem single_immutable_owner [DecidableEq ι] (hdb : Consistent db) (howners : SingleOwner db)
    (hr : Reachable (fun i => (requests i).handler) db sys)
    {sys' : Sys Row UUID Answer Failure Response ι} (hsteps : Relation.ReflTransGen Step sys sys')
    (hfresh : FreshIds db sys'.trace) :
    SingleOwner sys'.db ∧ ∀ m ∈ sys.db .organizationMemberships, m.role = .owner →
      m ∈ sys'.db .organizationMemberships := by
  have hr' := hr.steps hsteps
  obtain ⟨journals, hrun⟩ := exists_deeds hdb.unclashing hr'
  obtain ⟨mid, hmid⟩ := exists_trace_of_steps hsteps
  have hinvitations : ∀ r ∈ db .invitations, r.role ≠ .owner := fun r hmem => by
    simpa [constraintsOk] using (check_eq_none_iff.mp (hdb.checks .invitations r hmem)).2.1
  rw [hrun.db_eq]
  refine ⟨hrun.singleOwner hr'.commits_pairwise hfresh hinvitations howners
    (List.append_nil _).symm, fun m hm howner => ?_⟩
  have hstart : sys.db = dbAfter db sys.trace := hr.db_eq
  rw [hstart] at hm
  rw [hmid]
  exact hrun.owner_stays hr'.commits_pairwise hfresh hinvitations
    (hmid.trans (List.append_nil _).symm) hm howner

end Runs

section Sample

attribute [local instance] samplePlatform

theorem singleOwner_invitedDb : SingleOwner invitedDb where
  owner o ho := by
    obtain rfl : o = sampleOrganization := List.mem_singleton.mp ho
    refine ⟨_, List.mem_cons_self, rfl, rfl, rfl, fun m' hm' _ _ => ?_⟩
    exact List.mem_singleton.mp hm'
  organization m hm _ := by
    obtain rfl := List.mem_singleton.mp hm
    exact ⟨sampleOrganization, List.mem_cons_self, rfl⟩

theorem sampleGuests_fresh :
    (drawnIds ((callsOf sampleOracle (sampleGuests true).handler ⟨invitedDb, 0⟩).map
      fun e => (true, e))).Nodup ∧
    ∀ m ∈ invitedDb .organizationMemberships, m.id ∉ drawnIds
      ((callsOf sampleOracle (sampleGuests true).handler ⟨invitedDb, 0⟩).map fun e => (true, e)) := by
  decide +kernel

/-- The founder still is the only owner after the guest has joined. -/
theorem sample_single_owner : ∃ sys : Sys Row UUID Answer Failure Response Bool,
    Reachable (fun i => (sampleGuests i).handler) invitedDb sys ∧ SingleOwner sys.db ∧
      (⟨⟨3⟩, sampleOrganization.id, sampleUser.id, .owner, 0, 0⟩ : OrganizationMembership) ∈
        sys.db .organizationMemberships := by
  obtain ⟨sys, ops, hr, hsteps, _, htrace⟩ := exists_guest_run
  have hdrawn : drawnIds sys.trace = drawnIds ((callsOf sampleOracle (sampleGuests true).handler
      ⟨invitedDb, 0⟩).map fun e => (true, e)) := by
    rw [htrace]
    simp [drawnIds]
  have hfresh : FreshIds invitedDb sys.trace := by
    constructor
    · rw [hdrawn]
      exact sampleGuests_fresh.1
    · rw [hdrawn]
      exact sampleGuests_fresh.2
  obtain ⟨howners, hkept⟩ := single_immutable_owner consistent_invitedDb singleOwner_invitedDb .refl
    hsteps hfresh
  exact ⟨sys, hr, howners, hkept _ List.mem_cons_self rfl⟩

end Sample

end TenantFlow
