import TenantFlow.Verification.Sample
import TenantFlow.Verification.Sequential

/-!
# Memberships from the audit trail

A `Roster` is what a reader of an organization's audit rows knows about its members. Reading
the rows in the order of their insertion gives the memberships that the table holds.
-/

namespace TenantFlow

open JsonText Transactional

/-! ## Rosters -/

/-- The users who founded the organization, and the role of every recorded membership. -/
structure Roster where
  owners : List UUID
  members : List (UUID × String)

namespace Roster

def put (roster : Roster) (id : UUID) (role : String) : Roster :=
  { roster with members := roster.members.filter (·.1 ≠ id) ++ [(id, role)] }

def remove (roster : Roster) (id : UUID) : Roster :=
  { roster with members := roster.members.filter (·.1 ≠ id) }

/-- What an audit row changes; `none` if it names a role other than the one known. -/
def record (roster : Roster) (row : AuditLog) : Option Roster :=
  if row.action = "organization.created" then
    row.actorId.map fun actor => { roster with owners := roster.owners ++ [actor] }
  else if row.action = "member.joined" then
    match row.entityId, lookup row.metadata "role" with
    | some id, some (.str role) => some (roster.put id role)
    | _, _ => none
  else if row.action = "member.role_changed" then
    match row.entityId, lookup row.metadata "from", lookup row.metadata "to" with
    | some id, some (.str old), some (.str new) =>
      if (id, old) ∈ roster.members then some (roster.put id new) else none
    | _, _, _ => none
  else if row.action = "member.removed" then
    match row.entityId, lookup row.metadata "role" with
    | some id, some (.str role) =>
      if (id, role) ∈ roster.members then some (roster.remove id) else none
    | _, _ => none
  else some roster

/-- The roster after a list of audit rows, oldest first. -/
def read (rows : List AuditLog) : Option Roster := rows.foldlM record ⟨[], []⟩

/-- The roster and the rows list the same members. -/
structure Describes (roster : Roster) (ms : List OrganizationMembership) : Prop where
  rows : ∀ m ∈ ms, (m.role = .owner ∧ m.userId ∈ roster.owners) ∨
    (m.id, m.role.str) ∈ roster.members
  owners : ∀ userId ∈ roster.owners, ∃ m ∈ ms, m.userId = userId ∧ m.role = .owner
  members : ∀ e ∈ roster.members, ∃ m ∈ ms, m.id = e.1 ∧ m.role.str = e.2
  distinct : (roster.members.map Prod.fst).Nodup

variable {roster : Roster} {ms ms' : List OrganizationMembership} {m : OrganizationMembership}

theorem describes_nil : Describes ⟨[], []⟩ [] := by
  constructor <;> simp

theorem mem_filter_ne {members : List (UUID × String)} {id : UUID} {e : UUID × String} :
    e ∈ members.filter (·.1 ≠ id) ↔ e ∈ members ∧ e.1 ≠ id := by
  simp

/-- A founder. -/
theorem Describes.found (h : roster.Describes ms) (hrole : m.role = .owner)
    (hms : ∀ x, x ∈ ms' ↔ x ∈ ms ∨ x = m) :
    Describes { roster with owners := roster.owners ++ [m.userId] } ms' := by
  refine ⟨fun x hx => ?_, fun userId huser => ?_, fun e he => ?_, h.distinct⟩
  · rcases (hms x).mp hx with hx | rfl
    · exact (h.rows x hx).imp_left fun ho => ⟨ho.1, List.mem_append_left _ ho.2⟩
    · exact .inl ⟨hrole, by simp⟩
  · rcases List.mem_append.mp huser with huser | huser
    · obtain ⟨x, hx, hfound⟩ := h.owners userId huser
      exact ⟨x, (hms x).mpr (.inl hx), hfound⟩
    · exact ⟨m, (hms m).mpr (.inr rfl), (List.mem_singleton.mp huser).symm, hrole⟩
  · obtain ⟨x, hx, hfound⟩ := h.members e he
    exact ⟨x, (hms x).mpr (.inl hx), hfound⟩

/-- A row that is new or replaces the one of its id; founders keep theirs. -/
theorem Describes.put (h : roster.Describes ms)
    (hms : ∀ x, x ∈ ms' ↔ x ∈ ms ∧ x.id ≠ m.id ∨ x = m)
    (hown : ∀ x ∈ ms, x.role = .owner → x ∈ ms') : (roster.put m.id m.role.str).Describes ms' := by
  refine ⟨fun x hx => ?_, fun userId huser => ?_, fun e he => ?_, ?_⟩
  · rcases (hms x).mp hx with ⟨hx, hid⟩ | rfl
    · refine (h.rows x hx).imp_right fun hmember => ?_
      exact List.mem_append_left _ (mem_filter_ne.mpr ⟨hmember, hid⟩)
    · exact .inr (List.mem_append_right _ List.mem_cons_self)
  · obtain ⟨x, hx, huser, hrole⟩ := h.owners userId huser
    exact ⟨x, hown x hx hrole, huser, hrole⟩
  · rcases List.mem_append.mp he with he | he
    · obtain ⟨he, hne⟩ := mem_filter_ne.mp he
      obtain ⟨x, hx, hid, hrole⟩ := h.members e he
      exact ⟨x, (hms x).mpr (.inl ⟨hx, hid ▸ hne⟩), hid, hrole⟩
    · obtain rfl := List.mem_singleton.mp he
      exact ⟨m, (hms m).mpr (.inr rfl), rfl, rfl⟩
  · have hkept : ((roster.members.filter (·.1 ≠ m.id)).map Prod.fst).Nodup :=
      h.distinct.sublist (List.filter_sublist.map _)
    simp only [Roster.put, List.map_append, List.map_cons, List.map_nil]
    refine List.nodup_append.mpr ⟨hkept, List.nodup_singleton _, fun id hid id' hid' => ?_⟩
    obtain ⟨e, he, rfl⟩ := List.mem_map.mp hid
    rw [List.mem_singleton.mp hid']
    exact (mem_filter_ne.mp he).2

theorem Describes.remove (h : roster.Describes ms) {id : UUID}
    (hms : ∀ x, x ∈ ms' ↔ x ∈ ms ∧ x.id ≠ id)
    (hown : ∀ x ∈ ms, x.role = .owner → x.id ≠ id) : (roster.remove id).Describes ms' := by
  refine ⟨fun x hx => ?_, fun userId huser => ?_, fun e he => ?_, ?_⟩
  · obtain ⟨hx, hid⟩ := (hms x).mp hx
    exact (h.rows x hx).imp_right fun hmember => mem_filter_ne.mpr ⟨hmember, hid⟩
  · obtain ⟨x, hx, huser, hrole⟩ := h.owners userId huser
    exact ⟨x, (hms x).mpr ⟨hx, hown x hx hrole⟩, huser, hrole⟩
  · obtain ⟨he, hne⟩ := mem_filter_ne.mp he
    obtain ⟨x, hx, hid, hrole⟩ := h.members e he
    exact ⟨x, (hms x).mpr ⟨hx, hid ▸ hne⟩, hid, hrole⟩
  · exact h.distinct.sublist (List.filter_sublist.map _)

/-- The role of a membership that is no owner's is known. -/
theorem Describes.known (h : roster.Describes ms) (hm : m ∈ ms) (hrole : m.role ≠ .owner) :
    (m.id, m.role.str) ∈ roster.members :=
  (h.rows m hm).resolve_left fun ho => hrole ho.1

theorem read_append (rows : List AuditLog) (row : AuditLog) :
    read (rows ++ [row]) = (read rows).bind fun roster => roster.record row := by
  simp only [read, List.foldlM_append, List.foldlM_cons, List.foldlM_nil, bind_pure]
  rfl

/-- The actions that say something about members. -/
def actions : List String :=
  ["organization.created", "member.joined", "member.role_changed", "member.removed"]

theorem record_neutral {row : AuditLog} (h : row.action ∉ actions) :
    roster.record row = some roster := by
  simp only [actions, List.mem_cons, List.not_mem_nil, or_false, not_or] at h
  simp [record, h]

theorem read_neutral {rows new : List AuditLog} (h : ∀ row ∈ new, row.action ∉ actions) :
    read (rows ++ new) = read rows := by
  induction new generalizing rows with
  | nil => rw [List.append_nil]
  | cons row new ih =>
    rw [List.append_cons, ih fun r hr => h r (List.mem_cons_of_mem _ hr), read_append]
    cases read rows with
    | none => rfl
    | some roster => exact record_neutral (h row List.mem_cons_self)

end Roster

/-! ## The table and the trail -/

def membersOf (db : Db Row) (organizationId : UUID) : List OrganizationMembership :=
  (db .organizationMemberships).filter (·.organizationId = organizationId)

def auditRowsOf (db : Db Row) (organizationId : UUID) : List AuditLog :=
  (db .auditLogs).filter (·.organizationId = organizationId)

/-- The audit rows of every organization can be read, and give its memberships. -/
def Reconstructs (db : Db Row) : Prop :=
  ∀ organizationId, ∃ roster, Roster.read (auditRowsOf db organizationId) = some roster ∧
    roster.Describes (membersOf db organizationId)

section Tables

variable {db db' : Db Row}

theorem mem_membersOf {organizationId : UUID} {m : OrganizationMembership} :
    m ∈ membersOf db organizationId ↔
      m ∈ db .organizationMemberships ∧ m.organizationId = organizationId := by
  simp [membersOf]

theorem Reconstructs.congr (h : Reconstructs db) (haudit : db' .auditLogs = db .auditLogs)
    (hmembers : db' .organizationMemberships = db .organizationMemberships) :
    Reconstructs db' := by
  unfold Reconstructs auditRowsOf membersOf
  rw [haudit, hmembers]
  exact h

/-- Audit rows that say nothing about members. -/
theorem Reconstructs.neutral (h : Reconstructs db) {new : List AuditLog}
    (haudit : db' .auditLogs = db .auditLogs ++ new)
    (hnew : ∀ row ∈ new, row.action ∉ Roster.actions)
    (hmembers : db' .organizationMemberships = db .organizationMemberships) :
    Reconstructs db' := by
  intro organizationId
  obtain ⟨roster, hread, hdescribes⟩ := h organizationId
  refine ⟨roster, ?_, by rwa [membersOf, hmembers]⟩
  rw [auditRowsOf, haudit, List.filter_append, Roster.read_neutral]
  · exact hread
  · exact fun row hrow => hnew row (List.mem_filter.mp hrow).1

/-- One audit row, with what it says about the members of its organization. -/
theorem Reconstructs.record (h : Reconstructs db) (row : AuditLog)
    (haudit : db' .auditLogs = db .auditLogs ++ [row])
    (hother : ∀ organizationId, organizationId ≠ row.organizationId →
      membersOf db' organizationId = membersOf db organizationId)
    (hstep : ∀ roster : Roster, roster.Describes (membersOf db row.organizationId) →
      ∃ roster', roster.record row = some roster' ∧
        roster'.Describes (membersOf db' row.organizationId)) : Reconstructs db' := by
  intro organizationId
  obtain ⟨roster, hread, hdescribes⟩ := h organizationId
  by_cases horg : organizationId = row.organizationId
  · subst horg
    obtain ⟨roster', hrecord, hdescribes'⟩ := hstep roster hdescribes
    refine ⟨roster', ?_, hdescribes'⟩
    have hrows : auditRowsOf db' row.organizationId = auditRowsOf db row.organizationId ++ [row] := by
      simp [auditRowsOf, haudit]
    have hread' : Roster.read (auditRowsOf db row.organizationId) = some roster := hread
    rw [hrows, Roster.read_append, hread', Option.bind_some, hrecord]
  · refine ⟨roster, ?_, by rwa [hother organizationId horg]⟩
    have hrows : auditRowsOf db' organizationId = auditRowsOf db organizationId := by
      simp [auditRowsOf, haudit, Ne.symm horg]
    rw [hrows, hread]

end Tables

/-! ## The requests that change members -/

section Services

variable {oracle : Oracle Answer} {db : Db Row}

/-- The audit row that goes out, whatever its id and its time. -/
theorem ends_auditRow {β : Type} {Q : β → Db Row → Prop} {organizationId : UUID}
    {actorId : Option UUID} {action entityType : String} {entityId : Option UUID}
    {metadata : List (String × Json)} {f : Unit → App β}
    (h : ∀ row : AuditLog, row.organizationId = organizationId → row.actorId = actorId →
      row.action = action → row.entityId = entityId → row.metadata = metadata →
      Ends oracle Q (f ()) ((Op.insert .auditLogs row).apply db)) :
    Ends oracle Q
      ((recordAudit organizationId actorId action entityType entityId metadata).bind f) db :=
  ends_call fun _ => ends_call fun _ => ends_insertRow fun _ => h _ rfl rfl rfl rfl rfl

theorem reconstructs_createOrganization (h : Reconstructs db) {user : User}
    {payload : OrganizationCreate} :
    Ends oracle (fun _ db' => Reconstructs db') (createOrganization user payload) db := by
  refine ends_select ?_
  split
  · exact runs_raise _
  · refine ends_rowDefaults fun d => ends_insertRow fun _ => ends_rowDefaults fun d' => ?_
    refine ends_insertRow fun _ => ends_auditRow fun row horg hactor haction _ _ => runs_ret ?_
    refine h.record row (by simp [Op.apply]) (fun organizationId hne => ?_)
      fun roster hroster => ⟨_, by simp [Roster.record, haction, hactor], hroster.found
        (m := ⟨d'.id, d.id, user.id, .owner, d'.createdAt, d'.updatedAt⟩) rfl fun x => ?_⟩
    · rw [horg] at hne
      simp [membersOf, Op.apply, hne.symm]
    · rw [horg]
      simp [membersOf, Op.apply]

/-- The membership that an invitation gives, found or new. -/
theorem ends_joinOrganization {β : Type} {Q : β → Db Row → Prop} {user : User}
    {invitation : Invitation} {f : OrganizationMembership → App β}
    (hfound : ∀ m ∈ db .organizationMemberships, m.organizationId = invitation.organizationId →
      Ends oracle Q (f m) db)
    (hnew : ∀ m : OrganizationMembership, m.organizationId = invitation.organizationId →
      (∀ x ∈ db .organizationMemberships, x.id ≠ m.id) →
      Ends oracle Q (f m) ((Op.insert .organizationMemberships m).apply db)) :
    Ends oracle Q ((joinOrganization user invitation).bind f) db := by
  refine runs_bind (ends_select ?_)
  cases hm : findMembership invitation.organizationId user.id db with
  | some m =>
    have hmatch : m.organizationId = invitation.organizationId ∧ m.userId = user.id := by
      simpa using List.find?_some hm
    exact runs_ret (hfound m (List.mem_of_find?_eq_some hm) hmatch.1)
  | none =>
    refine ends_rowDefaults fun d => ends_insertRow fun hins => runs_ret (hnew _ rfl ?_)
    intro x hx hid
    exact pk_ne_of_clash ((insertable_ok hins).2 x hx) hid.symm

theorem reconstructs_acceptInvitation [Platform] (h : Reconstructs db) (hdb : Unclashing db)
    {user : User} {rawToken : String} :
    Ends oracle (fun _ db' => Reconstructs db') (acceptInvitation user rawToken) db := by
  refine ends_selectForUpdate (t := .invitations) ?_
  cases findInvitation rawToken db with
  | none => exact runs_raise _
  | some invitation =>
    dsimp only
    split
    · exact runs_raise _
    refine ends_call fun at_ => ?_
    split
    · exact ends_flush (fun _ _ _ => runs_raise _) fun _ => runs_raise _
    split
    · exact runs_raise _
    -- The table afterwards has the membership beside those that it had.
    have hjoined : ∀ (m : OrganizationMembership) (db₁ : Db Row),
        m.organizationId = invitation.organizationId → db₁ .auditLogs = db .auditLogs →
        (∀ o, o ≠ m.organizationId → membersOf db₁ o = membersOf db o) →
        (∀ x, x ∈ membersOf db₁ m.organizationId ↔
          x ∈ membersOf db m.organizationId ∧ x.id ≠ m.id ∨ x = m) →
        (∀ x ∈ membersOf db m.organizationId, x ∈ membersOf db₁ m.organizationId) →
        Ends oracle (fun _ db' => Reconstructs db') (do
          let _ ← flush .invitations invitation.id true (Invitation.setStatus .accepted)
          recordAudit invitation.organizationId (some user.id) "member.joined"
            "organization_membership" (some m.id) [("role", .str m.role.str)]
          return m) db₁ := by
      intro m db₁ hm haudit hother hmembers hkept
      refine ends_flush (fun at_ _ _ => ?_) fun hclean => absurd hclean (by simp)
      refine ends_auditRow fun row horg _ haction hentity hmetadata => runs_ret ?_
      rw [← hm] at horg
      refine h.record row (by simp [Op.apply, haudit]) (fun o hne => ?_)
        fun roster hroster => ⟨roster.put m.id m.role.str, ?_, ?_⟩
      · rw [horg] at hne
        rw [← hother o hne]
        simp [membersOf, Op.apply]
      · simp [Roster.record, haction, hentity, hmetadata, lookup]
      · rw [horg] at hroster ⊢
        refine hroster.put (m := m) (fun x => ?_) fun x hx _ => ?_
        · rw [← hmembers x]
          simp [membersOf, Op.apply]
        · have hx' := hkept x hx
          simpa [membersOf, Op.apply] using hx'
    refine ends_joinOrganization (fun m hm horg => hjoined m db horg rfl (fun _ _ => rfl) ?_
      fun _ hx => hx) fun m horg hfresh => hjoined m _ horg (by simp [Op.apply]) ?_ ?_ ?_
    · intro x
      constructor
      · intro hx
        by_cases hid : x.id = m.id
        · exact .inr (hdb.eq_of_pk (mem_membersOf.mp hx).1 hm hid)
        · exact .inl ⟨hx, hid⟩
      · rintro (⟨hx, _⟩ | rfl)
        · exact hx
        · exact mem_membersOf.mpr ⟨hm, rfl⟩
    · intro o hne
      simp [membersOf, hne.symm]
    · intro x
      simp only [mem_membersOf, apply_insert_self, List.mem_append, List.mem_singleton]
      constructor
      · rintro ⟨hx | rfl, ho⟩
        · exact .inl ⟨⟨hx, ho⟩, hfresh x hx⟩
        · exact .inr rfl
      · rintro (⟨⟨hx, ho⟩, _⟩ | rfl)
        · exact ⟨.inl hx, ho⟩
        · exact ⟨.inr rfl, rfl⟩
    · intro x hx
      simp only [mem_membersOf] at hx
      simp [mem_membersOf, hx]

theorem reconstructs_updateMembershipRole (h : Reconstructs db) (hdb : Unclashing db)
    {organizationId membershipId : UUID} {actor : User} {role : Role} :
    Ends oracle (fun _ db' => Reconstructs db')
      (updateMembershipRole organizationId membershipId actor role) db := by
  refine ends_select ?_
  cases hfound : findMembershipById organizationId membershipId db with
  | none => exact runs_raise _
  | some m =>
    obtain ⟨hm, _, rfl⟩ := mem_of_findMembershipById hfound
    dsimp only
    split
    · exact runs_raise _
    rename_i hrole
    have hchanged : ∀ (m' : OrganizationMembership) (db₁ : Db Row),
        m'.id = m.id → m'.role = role → db₁ .auditLogs = db .auditLogs →
        (∀ o, o ≠ m.organizationId → membersOf db₁ o = membersOf db o) →
        (∀ x, x ∈ membersOf db₁ m.organizationId ↔
          x ∈ membersOf db m.organizationId ∧ x.id ≠ m'.id ∨ x = m') →
        Ends oracle (fun _ db' => Reconstructs db') (do
          recordAudit m.organizationId (some actor.id) "member.role_changed"
            "organization_membership" (some m.id)
            [("from", .str m.role.str), ("to", .str role.str)]
          return { m with role }) db₁ := by
      intro m' db₁ hid hrole' haudit hother hmembers
      refine ends_auditRow fun row horg _ haction hentity hmetadata => runs_ret ?_
      refine h.record row (by simp [Op.apply, haudit]) (fun o hne => ?_)
        fun roster hroster => ⟨roster.put m'.id m'.role.str, ?_, ?_⟩
      · rw [horg] at hne
        rw [← hother o hne]
        simp [membersOf, Op.apply]
      · rw [horg] at hroster
        have hknown := hroster.known (mem_membersOf.mpr ⟨hm, rfl⟩) hrole
        simp [Roster.record, haction, hentity, hmetadata, lookup, hknown, hid, hrole']
      · rw [horg] at hroster ⊢
        have hmembers' : ∀ x, x ∈ membersOf ((Op.insert .auditLogs row).apply db₁) m.organizationId ↔
            x ∈ membersOf db m.organizationId ∧ x.id ≠ m'.id ∨ x = m' := by
          intro x
          rw [← hmembers x]
          simp [membersOf, Op.apply]
        refine hroster.put (m := m') hmembers' fun x hx hown => (hmembers' x).mpr (.inl ⟨hx, ?_⟩)
        intro hxid
        obtain rfl : x = m := hdb.eq_of_pk (mem_membersOf.mp hx).1 hm (hxid.trans hid)
        exact hrole hown
    refine ends_flush (fun at_ _ _ => ?_) fun hclean => ?_
    · refine hchanged { m with role, updatedAt := at_ } _ rfl rfl (by simp [Op.apply]) ?_ ?_
      · intro o hne
        rw [membersOf, apply_update_self]
        refine filter_map_eq fun r hr => ?_
        by_cases hid : r.id = m.id
        · obtain rfl : r = m := hdb.eq_of_pk hr hm hid
          simp [hne.symm]
        · simp [hid]
      · intro x
        rw [mem_membersOf, mem_membersOf]
        constructor
        · rintro ⟨hx, ho⟩
          rcases mem_apply_update hx with ⟨hx, hid⟩ | ⟨r, hr, hid, rfl⟩
          · exact .inl ⟨⟨hx, ho⟩, hid⟩
          · obtain rfl : r = m := hdb.eq_of_pk hr hm hid
            exact .inr rfl
        · rintro (⟨⟨hx, ho⟩, hid⟩ | rfl)
          · refine ⟨?_, ho⟩
            rw [apply_update_self]
            exact List.mem_map.mpr ⟨x, hx, if_neg hid⟩
          · refine ⟨?_, rfl⟩
            rw [apply_update_self]
            exact List.mem_map.mpr ⟨m, hm, if_pos rfl⟩
    · have hsame : role = m.role := by simpa using hclean
      refine hchanged m _ rfl hsame.symm rfl (fun _ _ => rfl) fun x => ?_
      constructor
      · intro hx
        by_cases hid : x.id = m.id
        · exact .inr (hdb.eq_of_pk (mem_membersOf.mp hx).1 hm hid)
        · exact .inl ⟨hx, hid⟩
      · rintro (⟨hx, _⟩ | rfl)
        · exact hx
        · exact mem_membersOf.mpr ⟨hm, rfl⟩

theorem reconstructs_removeMembership (h : Reconstructs db) (hdb : Unclashing db)
    {organizationId membershipId : UUID} {actor : User} :
    Ends oracle (fun _ db' => Reconstructs db')
      (removeMembership organizationId membershipId actor) db := by
  refine ends_select ?_
  cases hfound : findMembershipById organizationId membershipId db with
  | none => exact runs_raise _
  | some m =>
    obtain ⟨hm, _, rfl⟩ := mem_of_findMembershipById hfound
    dsimp only
    split
    · exact runs_raise _
    rename_i hrole
    refine ends_auditRow fun row horg _ haction hentity hmetadata => ?_
    refine runs_delete trivial (runs_ret ?_)
    rw [replay_deleteOps rfl]
    have hunique : ∀ x ∈ db .organizationMemberships, x.id = m.id → x = m :=
      fun x hx hid => hdb.eq_of_pk hx hm hid
    refine h.record row (by simp [Op.apply]) (fun o hne => ?_)
      fun roster hroster => ⟨roster.remove m.id, ?_, ?_⟩
    · rw [horg] at hne
      have hrows : (Op.delete .organizationMemberships m.id).apply ((Op.insert .auditLogs row).apply db)
          .organizationMemberships = (db .organizationMemberships).filter fun r => r.id ≠ m.id := by
        simp only [Op.apply, Function.update_self]
        rfl
      rw [membersOf, hrows, List.filter_filter, membersOf]
      refine List.filter_congr fun r hr => ?_
      by_cases hid : r.id = m.id
      · obtain rfl := hunique r hr hid
        simp [hne.symm]
      · simp [hid]
    · rw [horg] at hroster
      have hknown := hroster.known (mem_membersOf.mpr ⟨hm, rfl⟩) hrole
      simp [Roster.record, haction, hentity, hmetadata, lookup, hknown]
    · rw [horg] at hroster ⊢
      refine hroster.remove (fun x => ?_) fun x hx hown hid => ?_
      · simp only [mem_membersOf, Op.apply, Function.update_self, List.mem_filter,
          decide_eq_true_eq, and_right_comm]
        exact Iff.rfl
      · obtain rfl := hunique x (mem_membersOf.mp hx).1 hid
        exact hrole hown

end Services

/-! ## Runs -/

section Runs

variable {oracle : Oracle Answer} {db : Db Row}

/-- What a part of the program adds to the audit trail: rows of its own actions, at the end. -/
theorem Confined.transaction_audit {α : Type} {F : Scope} {p : App α} (h : Confined F p)
    (hd : Table.auditLogs ∉ F.deletes) :
    ∃ new, (transaction oracle p db).2 .auditLogs = db .auditLogs ++ new ∧
      ∀ row ∈ new, F.audits row.action := by
  refine h.runs.transaction_invariant (I := fun db' => ∃ new,
    db' .auditLogs = db .auditLogs ++ new ∧ ∀ row ∈ new, F.audits row.action)
    (fun s db' env hs hI => ?_) ⟨[], (List.append_nil _).symm, by simp⟩
  obtain ⟨new, hdb', hnew⟩ := hI
  refine Stmt.eval_keeps (I := fun db' => ∃ new,
    db' .auditLogs = db .auditLogs ++ new ∧ ∀ row ∈ new, F.audits row.action)
    ⟨new, hdb', hnew⟩ (fun t r hstmt _ => ?_) (fun t id f hstmt _ => ?_) fun t id hstmt => ?_
  · by_cases ht : t = .auditLogs
    · subst ht
      have hadmits : F.audits r.action := by
        rcases hstmt with rfl | ⟨a, rfl⟩
        · exact hs.2
        · exact hs.2
      refine ⟨new ++ [r], by rw [apply_insert_self, hdb', List.append_assoc], fun row hrow => ?_⟩
      rcases List.mem_append.mp hrow with hrow | hrow
      · exact hnew row hrow
      · rw [List.mem_singleton.mp hrow]
        exact hadmits
    · exact ⟨new, by rw [apply_of_table_ne db' (o := .insert t r) ht, hdb'], hnew⟩
  · subst hstmt
    refine ⟨new, ?_, hnew⟩
    by_cases ht : t = .auditLogs
    · subst ht
      -- No column of an audit row is ever assigned.
      have hsame : ∀ r : Row .auditLogs, f r = r := hs.2
      rw [apply_update_self, ← hdb']
      simp [hsame]
    · rw [apply_of_table_ne db' (o := .update t id f) ht, hdb']
  · subst hstmt
    refine ⟨new, ?_, hnew⟩
    rw [replay_of_table_ne, hdb']
    intro op hop htable
    obtain ⟨_, k, rfl, rfl | hk⟩ := mem_deleteOps hop
    · exact hd (htable ▸ hs.1)
    · exact hd (htable ▸ hs.2 (cascade_table hk))

theorem Request.keeps_auditLogs (request : Request) : Table.auditLogs ∉ request.scope.deletes := by
  cases request with
  | organization organizationId userId request =>
    cases request <;> simp [Request.scope, OrganizationRequest.scope]
  | _ => simp [Request.scope]

variable [Platform]

/-- A request that leaves the memberships alone writes no audit row about them. -/
theorem respond_reconstructs_other (h : Reconstructs db) {request : Request}
    (hmembers : Table.organizationMemberships ∉ request.scope.writes ++ request.scope.deletes)
    (haudits : ∀ action, request.scope.audits action →
      Table.auditLogs ∈ request.scope.writes → action ∉ Roster.actions) :
    Reconstructs (respond oracle request db).2 := by
  simp only [List.mem_append, not_or] at hmembers
  have hconfined := confined_request request
  have htable : (respond oracle request db).2 .organizationMemberships =
      db .organizationMemberships := hconfined.transaction_table hmembers.1 hmembers.2
  by_cases hA : Table.auditLogs ∈ request.scope.writes
  · obtain ⟨new, haudit, hnew⟩ :=
      hconfined.transaction_audit request.keeps_auditLogs
    exact h.neutral haudit (fun row hrow => haudits _ (hnew row hrow) hA) htable
  · exact h.congr (hconfined.transaction_table hA request.keeps_auditLogs) htable

theorem respond_reconstructs (h : Reconstructs db) (hdb : Unclashing db) (request : Request)
    (oracle : Oracle Answer) : Reconstructs (respond oracle request db).2 := by
  cases request with
  | createOrganization userId args =>
    refine Runs.transaction_either (I := Reconstructs) ?_ h
    refine runs_bind (ends_getCurrentUser fun user _ _ => ends_validated fun a _ _ => ?_)
    refine (ends_idempotently (fun db db' hagree hdb => ?_) (fun db hdb => ?_) h).mono
      fun _ _ h₁ => runs_ret h₁
    · exact hdb.congr (hagree .auditLogs (by simp) (by simp))
        (hagree .organizationMemberships (by simp) (by simp))
    · exact runs_bind ((reconstructs_createOrganization hdb).mono fun _ _ h₁ => runs_ret h₁)
  | acceptInvitation userId args =>
    refine Runs.transaction_either (I := Reconstructs) ?_ h
    refine runs_bind (ends_getCurrentUser fun user _ _ => ends_validated fun rawToken _ _ => ?_)
    refine runs_bind ((reconstructs_acceptInvitation h hdb).mono fun m db₁ h₁ => ?_)
    exact ends_of_ofExcept fun _ _ => runs_ret h₁
  | organization organizationId userId request =>
    cases request with
    | changeMemberRole args =>
      refine Runs.transaction_either (I := Reconstructs) ?_ h
      refine runs_bind (ends_requirePermission fun context _ => ends_validated fun a _ _ => ?_)
      refine runs_bind ((reconstructs_updateMembershipRole h hdb).mono fun m db₁ h₁ => ?_)
      refine ends_select ?_
      cases (db₁ .users).find? (·.id = m.userId) with
      | none => exact runs_raise _
      | some member => exact ends_of_ofExcept fun _ _ => runs_ret h₁
    | deleteMember args =>
      refine Runs.transaction_either (I := Reconstructs) ?_ h
      refine runs_bind (ends_requirePermission fun context _ => ends_validated fun a _ _ => ?_)
      exact (reconstructs_removeMembership h hdb).mono fun _ _ h₁ => runs_ret h₁
    | _ =>
      refine respond_reconstructs_other h ?_ ?_
      · simp [Request.scope, OrganizationRequest.scope]
      · simp [Request.scope, OrganizationRequest.scope, Roster.actions]
  | _ =>
    refine respond_reconstructs_other h ?_ ?_
    · simp [Request.scope]
    · simp [Request.scope, Roster.actions]

/-- The audit trail of a database, and what any further request does to it. -/
structure AuditTrail (db : Db Row) : Prop where
  reconstructs : Reconstructs db
  failed : ∀ request oracle e, (respond oracle request db).1 = .error e →
    (respond oracle request db).2 .auditLogs = db .auditLogs
  appended : ∀ request oracle, db .auditLogs <+: (respond oracle request db).2 .auditLogs

/-- In every reachable state the audit rows give the memberships, and no request changes an
audit row. -/
theorem audit_trail_reconstructs (h : Served (fun _ _ => True) db) : AuditTrail db := by
  refine ⟨?_, fun request oracle e herror => ?_, fun request oracle => ?_⟩
  · induction h with
    | empty => exact fun _ => ⟨⟨[], []⟩, rfl, Roster.describes_nil⟩
    | request hserved request oracle _ ih =>
      exact respond_reconstructs ih hserved.unclashing request oracle
  · exact congrFun (transaction_error herror) _
  · obtain ⟨new, hnew, _⟩ :=
      (confined_request request).transaction_audit request.keeps_auditLogs
    exact ⟨new, hnew.symm⟩

end Runs

section Sample

attribute [local instance] samplePlatform

/-- Ada founds an organization, Bob joins it and becomes an administrator. -/
def promotionRun : List (Request × Oracle Answer) :=
  [(.register (some ⟨"ada@example.com", "correct horse", "Ada"⟩), tokenOracle 0),
    (.register (some ⟨"bob@example.com", "battery staple", "Bob"⟩), tokenOracle 100),
    (.createOrganization ⟨1002⟩ (some (⟨"Acme", "acme"⟩, "first-key")), tokenOracle 200),
    (.organization ⟨1206⟩ ⟨1002⟩
      (.createInvitation (some (⟨"bob@example.com", .member⟩, "second-key"))), tokenOracle 300),
    (.acceptInvitation ⟨1102⟩ (some sampleToken), tokenOracle 400),
    (.organization ⟨1206⟩ ⟨1002⟩ (.changeMemberRole (some (⟨1404⟩, .admin))), tokenOracle 500)]

/-- The trail of the run has Ada as owner and Bob as administrator. -/
theorem promotion_reconstructed :
    (Roster.read (auditRowsOf (respondAll promotionRun fun _ => []) ⟨1206⟩)).map
        (fun roster => (roster.owners, roster.members)) = some ([⟨1002⟩], [(⟨1404⟩, "admin")]) ∧
      AuditTrail (respondAll promotionRun fun _ => []) :=
  ⟨by decide +kernel, audit_trail_reconstructs (Served.empty.respondAll fun _ _ _ => trivial)⟩

end Sample

end TenantFlow
