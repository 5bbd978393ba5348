import TenantFlow.Verification.Sample
import TenantFlow.Verification.Sequential

/-!
# What becomes of invitations

An expired invitation is refused by an exception that also takes back the status written before
it, so a pending invitation that has expired stays pending until the cleanup task marks it.
-/

namespace TenantFlow

open JsonText Transactional

/-! ## Refusals of expired invitations -/

/-- The refusal, no membership, and the invitation marked as expired. -/
structure ExpiryRecorded (invitation : Invitation) (db : Db Row)
    (result : Except Failure Response × Db Row) : Prop where
  refused : result.1 = .error (conflictError "INVITATION_EXPIRED" "Invitation has expired")
  memberships : result.2 .organizationMemberships = db .organizationMemberships
  marked : ∃ r ∈ result.2 .invitations, r.id = invitation.id ∧ r.status = .expired

section Expiry

variable [Platform] {oracle : Oracle Answer} {db : Db Row} {invitation : Invitation}
  {rawToken : String} {userId : UUID}

/-- A token leads to the one invitation that was made with it. -/
theorem findInvitation_of_mem (hdb : Consistent db) (hinv : invitation ∈ db .invitations)
    (htoken : invitation.tokenHash = tokenFingerprint rawToken) :
    findInvitation rawToken db = some invitation := by
  cases hfound : findInvitation rawToken db with
  | none =>
    have hno := List.find?_eq_none.mp hfound invitation hinv
    exact absurd htoken (by simpa using hno)
  | some r =>
    have hr : r ∈ db .invitations := List.mem_of_find?_eq_some hfound
    have hhash : r.tokenHash = tokenFingerprint rawToken := by simpa using List.find?_some hfound
    by_cases hid : r.id = invitation.id
    · rw [hdb.eq_of_pk hr hinv hid]
    · have hclash := hdb.unique .invitations r hr invitation hinv hid
      simp [Schema.clash, uniqueClash, hhash, htoken] at hclash

omit [Platform] in
/-- Nothing stands in the way of marking an invitation as expired. -/
theorem updatable_expired (hdb : Consistent db) (hinv : invitation ∈ db .invitations)
    (updatedAt : Datetime) : updatable db .invitations invitation.id
      (Invitation.setStatus .expired updatedAt) = .ok () := by
  refine updatable_of (hdb.unclashing.find hinv) ?_ fun r hr hne => ?_
  · have hcheck := check_eq_none_iff.mp (hdb.checks .invitations invitation hinv)
    exact check_eq_none_iff.mpr hcheck
  · have hclash := hdb.unique .invitations invitation hinv r hr (Ne.symm hne)
    have hid : invitation.id ≠ r.id := Ne.symm hne
    simp only [Schema.clash, uniqueClash, Bool.or_eq_false_iff, decide_eq_false_iff_not] at hclash ⊢
    refine ⟨hid, fun hsame => hclash.2 (hsame.imp_right fun h => ?_)⟩
    cases h.1

/-- Running alone from `db`, the program raises `e`. -/
def Raises {β : Type} (oracle : Oracle Answer) (e : Failure) (p : App β) (db : Db Row) : Prop :=
  ∀ n, (p.run (execStmt oracle) ⟨db, n⟩).1 = .error e

omit [Platform] in
theorem Raises.bind {β γ : Type} {e : Failure} {p : App β} {f : β → App γ}
    (h : Raises oracle e p db) : Raises oracle e (p.bind f) db := by
  intro n
  have hrun : p.run (execStmt oracle) ⟨db, n⟩ =
      (.error e, (p.run (execStmt oracle) ⟨db, n⟩).2) := Prod.ext (h n) rfl
  rw [Prog.run_bind_error hrun]

/-- Accepting an expired invitation raises after the status has been written. -/
theorem raises_acceptInvitation (hdb : Consistent db) (hinv : invitation ∈ db .invitations)
    (hpending : invitation.status = .pending)
    (htoken : invitation.tokenHash = tokenFingerprint rawToken)
    (hexpired : ∀ n, invitation.expiresAt ≤ oracle n .now) (user : User) :
    Raises oracle (conflictError "INVITATION_EXPIRED" "Invitation has expired")
      (acceptInvitation user rawToken) db := by
  intro n
  have hmarked : ∀ m, ((flush .invitations invitation.id true (Invitation.setStatus .expired)).bind
      fun _ => (raise (conflictError "INVITATION_EXPIRED" "Invitation has expired") :
        App OrganizationMembership)).run (execStmt oracle) ⟨db, m⟩ =
      (.error (conflictError "INVITATION_EXPIRED" "Invitation has expired"),
        ⟨(Op.update .invitations invitation.id
          (Invitation.setStatus .expired (oracle m .now))).apply db, m + 2⟩) := fun m =>
    Prog.run_bind_ok (run_flush (updatable_expired hdb hinv) m)
  unfold acceptInvitation
  rw [Prog.bind_eq, Prog.run_bind_ok (a := some invitation)
    (congrArg (fun found => (Except.ok found, (⟨db, n + 1⟩ : Session Row)))
      (findInvitation_of_mem hdb hinv htoken))]
  simp only [hpending, ne_eq, not_true_eq_false, ↓reduceIte]
  change (Prog.run (execStmt oracle) (if invitation.expiresAt ≤ oracle (n + 1) .now then _ else _)
    ⟨db, n + 2⟩).1 = _
  rw [if_pos (hexpired (n + 1))]
  exact congrArg Prod.fst (hmarked (n + 2))

/-- A user who may use the API. -/
def ActiveUser (userId : UUID) (db : Db Row) : Prop :=
  ((db .users).find? (·.id = userId)).any (·.isActive) = true

instance : Decidable (ActiveUser userId db) := inferInstanceAs (Decidable (_ = true))

/-- Every request to accept an expired invitation fails; a request that gets so far with the
answer that the invitation has expired. -/
theorem respond_expired (userId : UUID) (hdb : Consistent db) (hinv : invitation ∈ db .invitations)
    (hpending : invitation.status = .pending)
    (htoken : invitation.tokenHash = tokenFingerprint rawToken)
    (hexpired : ∀ n, invitation.expiresAt ≤ oracle n .now) :
    ∃ e, respond oracle (.acceptInvitation userId (some rawToken)) db = (.error e, db) ∧
      (ActiveUser userId db → 32 ≤ rawToken.length → rawToken.length ≤ 256 →
        e = conflictError "INVITATION_EXPIRED" "Invitation has expired") := by
  have hrespond : ∀ {e}, (∃ st, (acceptMemberInvitation userId (some rawToken)).run
      (execStmt oracle) ⟨db, 0⟩ = (.error e, st)) →
      respond oracle (.acceptInvitation userId (some rawToken)) db = (.error e, db) := by
    rintro e ⟨st, hrun⟩
    have hhandler : ((Request.acceptInvitation userId (some rawToken)).handler).run
      (execStmt oracle) ⟨db, 0⟩ = (.error e, st) := Prog.run_bind_error hrun
    rw [respond, transaction, hhandler]
  have hrun := run_getCurrentUser oracle userId ⟨db, 0⟩
  cases huser : ((db .users).find? (·.id = userId)).filter (·.isActive) with
  | none =>
    rw [huser] at hrun
    refine ⟨_, hrespond ⟨_, Prog.run_bind_error hrun⟩, fun hactive => ?_⟩
    obtain ⟨user, hfound, hactive⟩ := (Option.any_eq_true _ _).mp hactive
    simp [hfound, hactive] at huser
  | some user =>
    rw [huser] at hrun
    by_cases hlength : (decide (32 ≤ rawToken.length) && decide (rawToken.length ≤ 256)) = true
    · obtain ⟨st, hraise⟩ : ∃ st, ((acceptInvitation user rawToken).bind fun membership =>
          Prog.ofExcept (membershipResponse membership user)).run (execStmt oracle) ⟨db, 1⟩ =
          (.error (conflictError "INVITATION_EXPIRED" "Invitation has expired"), st) :=
        ⟨_, Prod.ext
          ((raises_acceptInvitation hdb hinv hpending htoken hexpired user).bind 1) rfl⟩
      refine ⟨_, hrespond ?_, fun _ _ _ => rfl⟩
      rw [acceptMemberInvitation, Prog.bind_eq, Prog.run_bind_ok hrun, validated]
      simp only [hlength, ↓reduceIte]
      exact ⟨st, hraise⟩
    · refine ⟨.validation, hrespond ?_, fun _ h32 h256 => ?_⟩
      · rw [acceptMemberInvitation, Prog.bind_eq, Prog.run_bind_ok hrun, validated]
        simp only [hlength, Bool.false_eq_true, ↓reduceIte]
        exact ⟨_, rfl⟩
      · simp [h32, h256] at hlength

/-- No request to accept an expired invitation records that it has expired: the invitation
stays pending. -/
theorem expiry_never_recorded (hdb : Consistent db) (hinv : invitation ∈ db .invitations)
    (hpending : invitation.status = .pending)
    (htoken : invitation.tokenHash = tokenFingerprint rawToken)
    (hexpired : ∀ n, invitation.expiresAt ≤ oracle n .now) :
    ¬ ExpiryRecorded invitation db
        (respond oracle (.acceptInvitation userId (some rawToken)) db) ∧
      (respond oracle (.acceptInvitation userId (some rawToken)) db).2 = db ∧
      (ActiveUser userId db → 32 ≤ rawToken.length → rawToken.length ≤ 256 →
        (respond oracle (.acceptInvitation userId (some rawToken)) db).1 =
          .error (conflictError "INVITATION_EXPIRED" "Invitation has expired")) := by
  obtain ⟨e, hresult, hanswer⟩ :=
    respond_expired userId hdb hinv hpending htoken hexpired
  rw [hresult]
  refine ⟨fun h => ?_, rfl, fun hactive h32 h256 => by rw [hanswer hactive h32 h256]⟩
  obtain ⟨r, hr, hid, hstatus⟩ := h.marked
  rw [hdb.eq_of_pk hr hinv hid, hpending] at hstatus
  cases hstatus

end Expiry

section Sample

attribute [local instance] samplePlatform

def invitedUser : User := ⟨⟨5⟩, "bob@example.com", "argon2", "Bob", true⟩

/-- An invitation that has expired at every time of the samples. -/
def lapsedInvitation : Invitation :=
  { id := ⟨6⟩, organizationId := sampleOrganization.id, email := "bob@example.com", role := .member,
    tokenHash := sampleSha256 sampleToken, status := .pending, invitedBy := sampleUser.id,
    expiresAt := 0, createdAt := 0, updatedAt := 0 }

def lapsedDb : Db Row
  | .users => [sampleUser, invitedUser]
  | .invitations => [lapsedInvitation]
  | t => sampleDb t

theorem consistent_lapsedDb : Consistent lapsedDb := by
  refine ⟨fun t => ?_, fun t => ?_, fun t => ?_⟩ <;> cases t <;> decide +kernel

theorem sample_expiry_not_recorded : ¬ ExpiryRecorded lapsedInvitation lapsedDb
      (respond sampleOracle (.acceptInvitation invitedUser.id (some sampleToken)) lapsedDb) ∧
    (respond sampleOracle (.acceptInvitation invitedUser.id (some sampleToken)) lapsedDb).2 =
      lapsedDb ∧
    (ActiveUser invitedUser.id lapsedDb → 32 ≤ sampleToken.length → sampleToken.length ≤ 256 →
      (respond sampleOracle (.acceptInvitation invitedUser.id (some sampleToken)) lapsedDb).1 =
        .error (conflictError "INVITATION_EXPIRED" "Invitation has expired")) :=
  expiry_never_recorded consistent_lapsedDb List.mem_cons_self rfl rfl fun n => Int.natCast_nonneg n

/-- The refusal is answered, and the invitation is still pending. -/
theorem lapsed_invitation_stays_pending :
    (respond sampleOracle (.acceptInvitation invitedUser.id (some sampleToken)) lapsedDb).1 =
        .error (conflictError "INVITATION_EXPIRED" "Invitation has expired") ∧
      ¬ ExpiryRecorded lapsedInvitation lapsedDb
        (respond sampleOracle (.acceptInvitation invitedUser.id (some sampleToken)) lapsedDb) := by
  have htoken : lapsedInvitation.tokenHash = tokenFingerprint sampleToken := rfl
  have hexpired : ∀ n, lapsedInvitation.expiresAt ≤ sampleOracle n .now :=
    fun n => Int.natCast_nonneg n
  obtain ⟨e, hresult, hanswer⟩ := respond_expired invitedUser.id
    consistent_lapsedDb List.mem_cons_self rfl htoken hexpired
  obtain rfl := hanswer (by decide +kernel) (by decide) (by decide)
  refine ⟨by rw [hresult], fun h => ?_⟩
  obtain ⟨r, hr, _, hstatus⟩ := h.marked
  rw [hresult] at hr
  obtain rfl : r = lapsedInvitation := List.mem_singleton.mp hr
  cases hstatus

end Sample

end TenantFlow
