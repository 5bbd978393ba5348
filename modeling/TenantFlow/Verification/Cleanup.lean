import TenantFlow.Library.TwoRuns
import TenantFlow.Verification.Invitations
import TenantFlow.Verification.Sample
import TenantFlow.Verification.Sequential

/-!
# The cleanup task is not observed

Operations on refresh tokens, invitations and memberships, one at a time, without and with runs
of the cleanup task between them. The task removes tokens and marks invitations that are past
their expiry, and every operation refuses these already. The task compares strictly and the
operations do not, so what it touches has expired for every later operation.
-/

namespace TenantFlow

open JsonText Transactional

/-! ## Operations -/

inductive AccountCall where
  | rotateRefreshToken (rawToken : String)
  | revokeRefreshToken (rawToken : String)
  | inviteMember (organizationId : UUID) (invitedBy : User) (payload : InviteMemberRequest)
  | acceptInvitation (user : User) (rawToken : String)
  | createOrganization (user : User) (payload : OrganizationCreate)
  | updateMembershipRole (organizationId membershipId : UUID) (actor : User) (role : Role)
  | removeMembership (organizationId membershipId : UUID) (actor : User)

inductive AccountResult where
  | tokens (pair : TokenPair)
  | invitation (invitation : Invitation)
  | organization (organization : Organization)
  | membership (membership : OrganizationMembership)
  | done

def invitationExpired : Failure := conflictError "INVITATION_EXPIRED" "Invitation has expired"

def invitationNotActive : Failure :=
  conflictError "INVITATION_NOT_ACTIVE" "Invitation is no longer active"

/-- All calls but those of the clock are draws. -/
def Call.draws : Call → Bool
  | .now => false
  | _ => true

section Operations

variable [Platform]

def AccountCall.handler : AccountCall → App AccountResult
  | .rotateRefreshToken rawToken => do return .tokens (← TenantFlow.rotateRefreshToken rawToken)
  | .revokeRefreshToken rawToken => do
    TenantFlow.revokeRefreshToken rawToken
    return .done
  | .inviteMember organizationId invitedBy payload => do
    return .invitation (← TenantFlow.inviteMember organizationId invitedBy payload)
  | .acceptInvitation user rawToken => do
    return .membership (← TenantFlow.acceptInvitation user rawToken)
  | .createOrganization user payload => do
    return .organization (← TenantFlow.createOrganization user payload)
  | .updateMembershipRole organizationId membershipId actor role => do
    return .membership (← TenantFlow.updateMembershipRole organizationId membershipId actor role)
  | .removeMembership organizationId membershipId actor => do
    TenantFlow.removeMembership organizationId membershipId actor
    return .done

/-- One transaction in a world of its own. -/
def AccountCall.serve (call : AccountCall) (world : World Answer) (db : Db Row) :
    Except Failure AccountResult × Db Row :=
  visitTransaction Call.draws world call.handler db

/-- The database after a run of the cleanup task. -/
def cleanUp (world : World Answer) (db : Db Row) : Db Row :=
  (visitTransaction Call.draws world cleanupExpiredState db).2

/-- An operation, or a run of the cleanup task, with what the outside answers. -/
inductive Turn where
  | call (call : AccountCall) (world : World Answer)
  | cleanup (world : World Answer)

def Turn.world : Turn → World Answer
  | .call _ world => world
  | .cleanup world => world

def Turn.isCall : Turn → Bool
  | .call _ _ => true
  | .cleanup _ => false

/-- The operations with their results, and the database afterwards. -/
def takeTurns : List Turn → Db Row → List (AccountCall × Except Failure AccountResult) × Db Row
  | [], db => ([], db)
  | .call call world :: turns, db =>
    ((call, (call.serve world db).1) :: (takeTurns turns (call.serve world db).2).1,
      (takeTurns turns (call.serve world db).2).2)
  | .cleanup world :: turns, db => takeTurns turns (cleanUp world db)

/-- The clock does not go back from one turn to the next: all its readings lie between. -/
def InTime : Datetime → List Turn → Datetime → Prop
  | t, [], t' => t ≤ t'
  | t, turn :: turns, t' =>
    ∃ t₁, t ≤ t₁ ∧ (∀ d r, t ≤ turn.world d r .now ∧ turn.world d r .now ≤ t₁) ∧
      InTime t₁ turns t'

/-- The operation draws neither the id nor the fingerprint of a token that is stored. -/
def DrawsNew (world : World Answer) (db : Db Row) : Prop :=
  ∀ d, ∀ r ∈ db .refreshTokens, r.id ≠ world d 0 .uuid4 ∧
    r.tokenHash ≠ tokenFingerprint (world d 0 (.tokenUrlsafe 48))

/-- No operation draws the id or the fingerprint of a token that is stored at the time. -/
def AllDrawNew : List Turn → Db Row → Prop
  | [], _ => True
  | .call call world :: turns, db =>
    DrawsNew world db ∧ AllDrawNew turns (call.serve world db).2
  | .cleanup world :: turns, db => AllDrawNew turns (cleanUp world db)

end Operations

/-! ## Databases that the task has not swept and has swept -/

def sweptTables (t : Table) : Prop := t ∈ [Table.refreshTokens, .invitations, .idempotencyRecords]

instance : DecidablePred sweptTables := fun t =>
  inferInstanceAs (Decidable (t ∈ [Table.refreshTokens, .invitations, .idempotencyRecords]))

/-- Some tokens that the clock is past are gone. -/
structure TokensSwept (gone : UUID → Bool) (t : Datetime) (tokens tokens' : List RefreshToken) :
    Prop where
  kept : tokens' = tokens.filter fun r => !gone r.id
  expired : ∀ r ∈ tokens, gone r.id = true → r.expiresAt < t
  known : ∀ id, gone id = true → ∃ r ∈ tokens, r.id = id

/-- The invitation is the same, or it is marked as expired, while on the other side it is so
marked or the clock is past its expiry. -/
def InvitationSwept (t : Datetime) (i i' : Row .invitations) : Prop :=
  i = i' ∨ blank i = blank i' ∧ i'.status = .expired ∧
    (i.status = .expired ∨ i.status = .pending ∧ i.expiresAt < t)

structure Swept (t : Datetime) (db db' : Db Row) : Prop where
  rest : AgreeOff sweptTables db db'
  tokens : ∃ gone, TokensSwept gone t (db .refreshTokens) (db' .refreshTokens)
  invitations : List.Forall₂ (InvitationSwept t) (db .invitations) (db' .invitations)

section Swept

variable {gone : UUID → Bool} {t t' : Datetime} {tokens tokens' : List RefreshToken}
  {i i' : Row .invitations} {db db' : Db Row}

theorem TokensSwept.mem (h : TokensSwept gone t tokens tokens') {r : RefreshToken} :
    r ∈ tokens' ↔ r ∈ tokens ∧ gone r.id = false := by
  rw [h.kept, List.mem_filter, Bool.not_eq_true']

theorem TokensSwept.mono (h : TokensSwept gone t tokens tokens') (ht : t ≤ t') :
    TokensSwept gone t' tokens tokens' :=
  ⟨h.kept, fun r hr hgone => Int.lt_of_lt_of_le (h.expired r hr hgone) ht, h.known⟩

theorem TokensSwept.insert (h : TokensSwept gone t tokens tokens') {r : RefreshToken}
    (hr : ∀ s ∈ tokens, s.id ≠ r.id) : TokensSwept gone t (tokens ++ [r]) (tokens' ++ [r]) := by
  have hnew : gone r.id = false := by
    cases hgone : gone r.id with
    | false => rfl
    | true =>
      obtain ⟨s, hs, hid⟩ := h.known _ hgone
      exact absurd hid (hr s hs)
  refine ⟨by simp [h.kept, hnew], fun s hs hgone => ?_, fun id hid => ?_⟩
  · rcases List.mem_append.mp hs with hs | hs
    · exact h.expired s hs hgone
    · rw [List.mem_singleton.mp hs, hnew] at hgone
      cases hgone
  · obtain ⟨s, hs, hid⟩ := h.known id hid
    exact ⟨s, List.mem_append_left _ hs, hid⟩

/-- The unswept side after an assignment to a token. -/
theorem TokensSwept.assigned (h : TokensSwept gone t tokens tokens')
    {g : RefreshToken → RefreshToken} (hid : ∀ r, (g r).id = r.id)
    (hexpires : ∀ r, (g r).expiresAt = r.expiresAt) :
    TokensSwept gone t (tokens.map g) ((tokens.map g).filter fun r => !gone r.id) := by
  refine ⟨rfl, fun s hs hgone => ?_, fun id hgone => ?_⟩
  · obtain ⟨r, hr, rfl⟩ := List.mem_map.mp hs
    rw [hid] at hgone
    rw [hexpires]
    exact h.expired r hr hgone
  · obtain ⟨r, hr, rfl⟩ := h.known id hgone
    exact ⟨g r, List.mem_map_of_mem hr, hid r⟩

theorem TokensSwept.update (h : TokensSwept gone t tokens tokens')
    {g : RefreshToken → RefreshToken} (hid : ∀ r, (g r).id = r.id)
    (hexpires : ∀ r, (g r).expiresAt = r.expiresAt) :
    TokensSwept gone t (tokens.map g) (tokens'.map g) := by
  have heq : tokens'.map g = (tokens.map g).filter fun r => !gone r.id := by
    rw [h.kept, List.filter_map]
    congr 1
    refine List.filter_congr fun r _ => ?_
    simp [hid]
  rw [heq]
  exact h.assigned hid hexpires

/-- An assignment to a token that is gone from the other side. -/
theorem TokensSwept.update_gone (h : TokensSwept gone t tokens tokens')
    {g : RefreshToken → RefreshToken} (hid : ∀ r, (g r).id = r.id)
    (hexpires : ∀ r, (g r).expiresAt = r.expiresAt) (hg : ∀ r, gone r.id = false → g r = r) :
    TokensSwept gone t (tokens.map g) tokens' := by
  have heq : tokens' = (tokens.map g).filter fun r => !gone r.id := by
    rw [h.kept]
    refine (filter_map_eq fun r _ => ?_).symm
    cases hgone : gone r.id with
    | false => exact .inl (hg r hgone)
    | true => exact .inr (by simp [hid, hgone])
  rw [heq]
  exact h.assigned hid hexpires

/-- A delete of the task. -/
theorem TokensSwept.delete (h : TokensSwept gone t tokens tokens') {id : UUID}
    (hmem : ∃ r ∈ tokens, r.id = id) (hexpired : ∀ r ∈ tokens, r.id = id → r.expiresAt < t) :
    TokensSwept (fun i => gone i || decide (i = id)) t tokens
      (tokens'.filter fun r => decide (r.id ≠ id)) := by
  refine ⟨?_, fun r hr hgone => ?_, fun i hi => ?_⟩
  · rw [h.kept, List.filter_filter]
    refine List.filter_congr fun r _ => ?_
    by_cases hid : r.id = id <;> simp [hid]
  · rcases (Bool.or_eq_true _ _).mp hgone with hgone | hid
    · exact h.expired r hr hgone
    · exact hexpired r hr (of_decide_eq_true hid)
  · rcases (Bool.or_eq_true _ _).mp hi with hgone | hid
    · exact h.known i hgone
    · rw [of_decide_eq_true hid]
      exact hmem

theorem InvitationSwept.blank_eq (h : InvitationSwept t i i') : blank i = blank i' := by
  rcases h with rfl | ⟨hblank, _⟩
  · rfl
  · exact hblank

theorem InvitationSwept.mono (h : InvitationSwept t i i') (ht : t ≤ t') :
    InvitationSwept t' i i' :=
  h.imp_right fun ⟨hblank, hexpired, hi⟩ =>
    ⟨hblank, hexpired, hi.imp_right fun ⟨hpending, hlt⟩ => ⟨hpending, Int.lt_of_lt_of_le hlt ht⟩⟩

/-- An invitation that is not marked on the swept side is the same on both. -/
theorem InvitationSwept.eq (h : InvitationSwept t i i') (hi' : i'.status ≠ .expired) : i = i' := by
  rcases h with heq | ⟨_, hexpired, _⟩
  · exact heq
  · exact absurd hexpired hi'

theorem Swept.refl (t : Datetime) (db : Db Row) : Swept t db db where
  rest _ _ := rfl
  tokens := ⟨fun _ => false, by simp, by simp, by simp⟩
  invitations := List.forall₂_same.mpr fun _ _ => .inl rfl

theorem Swept.mono (h : Swept t db db') (ht : t ≤ t') : Swept t' db db' where
  rest := h.rest
  tokens := h.tokens.imp fun _ hgone => hgone.mono ht
  invitations := h.invitations.imp fun _ _ hi => hi.mono ht

end Swept

/-! ## Parts that do not see what is swept -/

/-- A part that neither depends on the swept tables nor writes them. -/
abbrev Unaware {α : Type} (p : App α) : Prop :=
  p.Every Stmt.Possible (Stmt.Blind sweptTables) (fun _ => True) (fun _ => True)

section Unaware

variable {α β : Type} {db db' : Db Row}

theorem check_congr (h : ∀ t ∈ parentTables, db' t = db t) {t : Table} (r : Row t) :
    Schema.check db' r = Schema.check db r := by
  have hu : hasUser db' = hasUser db := by
    funext id
    simp only [hasUser, h .users (by simp [parentTables])]
  have ho : hasOrganization db' = hasOrganization db := by
    funext id
    simp only [hasOrganization, h .organizations (by simp [parentTables])]
  have hp : db' .projects = db .projects := h _ (by simp [parentTables])
  have ht : db' .tasks = db .tasks := h _ (by simp [parentTables])
  have he : db' .webhookEndpoints = db .webhookEndpoints := h _ (by simp [parentTables])
  have hreferences : referencesOk db' r = referencesOk db r := by
    cases t <;> simp only [referencesOk, hu, ho, hp, ht, he]
  simp only [Schema.check, hreferences]

theorem check_of_agreeOff (h : AgreeOff sweptTables db db') {t : Table} (r : Row t) :
    Schema.check db' r = Schema.check db r :=
  check_congr (fun t ht => h t (by revert t; decide)) r

theorem unaware_call (c : Call) : Unaware (call c) := ⟨trivial, fun _ _ => trivial⟩

theorem unaware_select {q : Db Row → α}
    (h : ∀ db db', AgreeOff sweptTables db db' → q db' = q db) : Unaware (select q) :=
  ⟨h, fun _ _ => trivial⟩

theorem unaware_checked (x : Except DbError α) : Unaware (checked x) := by
  cases x <;> trivial

theorem unaware_insertRow {t : Table} (ht : ¬ sweptTables t) (r : Row t) : Unaware (insertRow r) :=
  ⟨⟨ht, fun _ _ h => check_of_agreeOff h r⟩, fun x _ => unaware_checked x⟩

theorem unaware_updateRow {t : Table} (ht : ¬ sweptTables t) (id : UUID) (f : Row t → Row t) :
    Unaware (updateRow t id f) :=
  ⟨⟨ht, fun _ _ r h => check_of_agreeOff h (f r)⟩, fun x _ => unaware_checked x⟩

theorem unaware_flush {t : Table} (ht : ¬ sweptTables t) (id : UUID) (dirty : Bool)
    (patch : Datetime → Row t → Row t) : Unaware (flush t id dirty patch) := by
  unfold flush
  split
  · refine Prog.every_bind (unaware_call _) fun at_ _ => ?_
    exact Prog.every_bind (unaware_updateRow ht id (patch at_)) fun _ _ => trivial
  · trivial

theorem unaware_rowDefaults : Unaware rowDefaults :=
  Prog.every_bind (unaware_call _) fun _ _ => Prog.every_bind (unaware_call _) fun _ _ =>
    Prog.every_bind (unaware_call _) fun _ _ => trivial

theorem unaware_recordAudit (organizationId : UUID) (actorId : Option UUID)
    (action entityType : String) (entityId : Option UUID) (metadata : List (String × Json)) :
    Unaware (recordAudit organizationId actorId action entityType entityId metadata) :=
  Prog.every_bind (unaware_call _) fun _ _ => Prog.every_bind (unaware_call _) fun _ _ =>
    unaware_insertRow (by decide) _

theorem unaware_findMembership (organizationId userId : UUID) :
    ∀ db db', AgreeOff sweptTables db db' →
      findMembership organizationId userId db' = findMembership organizationId userId db := by
  intro db db' h
  simp only [findMembership, h .organizationMemberships (by decide)]

theorem unaware_joinOrganization (user : User) (invitation : Invitation) :
    Unaware (joinOrganization user invitation) := by
  refine Prog.every_bind (unaware_select (unaware_findMembership _ _)) fun membership _ => ?_
  cases membership with
  | some membership => trivial
  | none =>
    refine Prog.every_bind unaware_rowDefaults fun d _ => ?_
    exact Prog.every_bind (unaware_insertRow (by decide) _) fun _ _ => trivial

theorem unaware_createOrganization (user : User) (payload : OrganizationCreate) :
    Unaware (createOrganization user payload) := by
  refine Prog.every_bind (unaware_select fun db db' h => ?_) fun taken _ => ?_
  · simp only [h .organizations (by decide)]
  · split
    · trivial
    · refine Prog.every_bind unaware_rowDefaults fun _ _ => ?_
      refine Prog.every_bind (unaware_insertRow (by decide) _) fun _ _ => ?_
      refine Prog.every_bind unaware_rowDefaults fun _ _ => ?_
      refine Prog.every_bind (unaware_insertRow (by decide) _) fun _ _ => ?_
      exact Prog.every_bind (unaware_recordAudit _ _ _ _ _ _) fun _ _ => trivial

theorem unaware_findMembershipById (organizationId membershipId : UUID) :
    Unaware (select (findMembershipById organizationId membershipId)) := by
  refine unaware_select fun db db' h => ?_
  simp only [findMembershipById, h .organizationMemberships (by decide)]

theorem unaware_updateMembershipRole (organizationId membershipId : UUID) (actor : User)
    (role : Role) : Unaware (updateMembershipRole organizationId membershipId actor role) := by
  refine Prog.every_bind (unaware_findMembershipById _ _) fun membership _ => ?_
  cases membership with
  | none => trivial
  | some membership =>
    dsimp only
    split
    · trivial
    · refine Prog.every_bind (unaware_flush (by decide) _ _ _) fun _ _ => ?_
      exact Prog.every_bind (unaware_recordAudit _ _ _ _ _ _) fun _ _ => trivial

theorem unaware_removeMembership (organizationId membershipId : UUID) (actor : User) :
    Unaware (removeMembership organizationId membershipId actor) := by
  refine Prog.every_bind (unaware_findMembershipById _ _) fun membership _ => ?_
  cases membership with
  | none => trivial
  | some membership =>
    dsimp only
    split
    · trivial
    · refine Prog.every_bind (unaware_recordAudit _ _ _ _ _ _) fun _ _ => ?_
      exact ⟨⟨by decide, fun _ _ _ => ⟨rfl, fun _ hk => absurd hk List.not_mem_nil⟩⟩,
        fun _ _ => trivial⟩

end Unaware

/-! ## Pairs of runs -/

/-- As far as the refusal goes, the runs differ in the code for an expired invitation. -/
def RefusedAlike (e e' : Failure) : Prop :=
  e = e' ∨ e = invitationExpired ∧ e' = invitationNotActive

/-- Both runs return the same, and leave databases that differ by a sweep. -/
def ReturnsAlike {α : Type} (t : Datetime) (a b : α) (d d' : Db Row) : Prop :=
  a = b ∧ Swept t d d'

section Pairs

variable {α β : Type} {world : World Answer} {t : Datetime} {db db' : Db Row}
  {gone : UUID → Bool} {E : Failure → Failure → Prop} {Q : β → β → Db Row → Db Row → Prop}
  {tick tick' : Tick}

/-- A part that does not see the swept tables runs the same way on both sides. -/
theorem alike_unaware {p : App α} {f f' : α → App β} (hp : Unaware p) (hE : ∀ e, E e e)
    (h : Swept t db db') (hf : ∀ a d d', Swept t d d' → d .refreshTokens = db .refreshTokens →
      d .invitations = db .invitations → d' .invitations = db' .invitations →
      Alike Call.draws world E Q (f a) (f' a) d d') :
    Alike Call.draws world E Q (p.bind f) (p.bind f') db db' := by
  refine alike_bind ((alike_blind hp hE h.rest).mono ?_)
  rintro a _ d d' ⟨rfl, _, hrest, hhidden⟩
  have ht := hhidden .refreshTokens (by decide)
  have hi := hhidden .invitations (by decide)
  refine hf a d d' ⟨hrest, ?_, ?_⟩ ht.1 hi.1 hi.2
  · rw [ht.1, ht.2]
    exact h.tokens
  · rw [hi.1, hi.2]
    exact h.invitations

theorem alike_bindCall {c : Call} {f f' : Answer c → App β}
    (hf : ∀ t : Tick, Alike Call.draws world E Q (f (t.env Call.draws world c))
      (f' (t.env Call.draws world c)) db db') :
    Alike Call.draws world E Q ((call c).bind f) ((call c).bind f') db db' :=
  alike_call hf

theorem alikeAt_bindCall {c : Call} {f f' : Answer c → App β}
    (hf : ∀ t₁ : Tick, AlikeAt Call.draws world t₁ t₁ E Q (f (tick.env Call.draws world c))
      (f' (tick.env Call.draws world c)) db db') :
    AlikeAt Call.draws world tick tick E Q ((call c).bind f) ((call c).bind f') db db' :=
  alikeAt_call hf

theorem alikeAt_bindCall_left {ρ : Type} {c : Call} {f : Answer c → App ρ} {p' : App β}
    {R : ρ → β → Db Row → Db Row → Prop} (hc : c.draws = false)
    (hf : ∀ n, AlikeAt Call.draws world ⟨tick.draws, n⟩ tick' E R
      (f (tick.env Call.draws world c)) p' db db') :
    AlikeAt Call.draws world tick tick' E R ((call c).bind f) p' db db' :=
  alikeAt_call_left hc hf

theorem alikeAt_bindDraw {c : Call} {f f' : Answer c → App β} (hc : c.draws = true)
    (ht : tick.draws = tick'.draws)
    (hf : ∀ x, Alike Call.draws world E Q (f x) (f' x) db db') :
    AlikeAt Call.draws world tick tick' E Q ((call c).bind f) ((call c).bind f') db db' :=
  alikeAt_draw hc ht (hf _)

theorem alike_rowDefaults {f f' : RowDefaults → App β}
    (hf : ∀ d, Alike Call.draws world E Q (f d) (f' d) db db') :
    Alike Call.draws world E Q (rowDefaults.bind f) (rowDefaults.bind f') db db' :=
  alike_call fun _ => alike_call fun _ => alike_call fun _ => hf _

theorem alike_bindSelect {q : Db Row → α} {f f' : α → App β} (hq : q db' = q db)
    (hf : Alike Call.draws world E Q (f (q db)) (f' (q db)) db db') :
    Alike Call.draws world E Q ((select q).bind f) ((select q).bind f') db db' := by
  refine alike_select ?_
  rw [hq]
  exact hf

theorem alikeAt_bindSelect {q : Db Row → α} {f f' : α → App β}
    (hf : AlikeAt Call.draws world tick tick' E Q (f (q db)) (f' (q db')) db db') :
    AlikeAt Call.draws world tick tick' E Q ((select q).bind f) ((select q).bind f') db db' :=
  alikeAt_select hf

theorem alikeAt_bindSelectForUpdate {T : Table} {q : Db Row → Option (Row T)}
    {f f' : Option (Row T) → App β}
    (hf : AlikeAt Call.draws world tick tick' E Q (f (q db)) (f' (q db')) db db') :
    AlikeAt Call.draws world tick tick' E Q ((selectForUpdate T q).bind f)
      ((selectForUpdate T q).bind f') db db' :=
  alikeAt_selectForUpdate hf

theorem alike_insertRow {T : Table} {r : Row T} {f f' : Unit → App β} (hE : ∀ e, E e e)
    (hsame : insertable db' r = insertable db r)
    (hf : insertable db r = .ok () →
      Alike Call.draws world E Q (f ()) (f' ()) ((Op.insert T r).apply db)
        ((Op.insert T r).apply db')) :
    Alike Call.draws world E Q ((insertRow r).bind f) ((insertRow r).bind f') db db' :=
  alike_insert hsame hf fun _ => alike_raise (hE _)

theorem alike_updateRow {T : Table} {id : UUID} {g : Row T → Row T} {f f' : Unit → App β}
    (hE : ∀ e, E e e) (hsame : updatable db' T id g = updatable db T id g)
    (hf : updatable db T id g = .ok () →
      Alike Call.draws world E Q (f ()) (f' ()) ((Op.update T id g).apply db)
        ((Op.update T id g).apply db')) :
    Alike Call.draws world E Q ((updateRow T id g).bind f) ((updateRow T id g).bind f') db db' :=
  alike_update hsame hf fun _ => alike_raise (hE _)

/-- Only the tokens have been written. -/
theorem Swept.of_tokens (h : Swept t db db') {d d' : Db Row}
    (hd : ∀ T, T ≠ .refreshTokens → d T = db T) (hd' : ∀ T, T ≠ .refreshTokens → d' T = db' T)
    (htokens : ∃ gone, TokensSwept gone t (d .refreshTokens) (d' .refreshTokens)) :
    Swept t d d' where
  rest T hT := by
    have hne : T ≠ .refreshTokens := by
      rintro rfl
      exact hT (by decide)
    rw [hd T hne, hd' T hne]
    exact h.rest T hT
  tokens := htokens
  invitations := by
    rw [hd .invitations (by decide), hd' .invitations (by decide)]
    exact h.invitations

/-- Only the invitations have been written. -/
theorem Swept.of_invitations (h : Swept t db db') {d d' : Db Row}
    (hd : ∀ T, T ≠ .invitations → d T = db T) (hd' : ∀ T, T ≠ .invitations → d' T = db' T)
    (hinvitations : List.Forall₂ (InvitationSwept t) (d .invitations) (d' .invitations)) :
    Swept t d d' where
  rest T hT := by
    have hne : T ≠ .invitations := by
      rintro rfl
      exact hT (by decide)
    rw [hd T hne, hd' T hne]
    exact h.rest T hT
  tokens := by
    rw [hd .refreshTokens (by decide), hd' .refreshTokens (by decide)]
    exact h.tokens
  invitations := hinvitations

/-! ### Tokens -/

/-- A token is found on both sides, or it is gone from the swept one, or there is none. -/
theorem findToken_swept [Platform] (hdb : Unclashing db)
    (h : TokensSwept gone t (db .refreshTokens) (db' .refreshTokens)) (rawToken : String) :
    (findToken rawToken db = none ∧ findToken rawToken db' = none) ∨
      ∃ r ∈ db .refreshTokens, findToken rawToken db = some r ∧
        (gone r.id = false ∧ findToken rawToken db' = some r ∨
          gone r.id = true ∧ findToken rawToken db' = none) := by
  have hother : ∀ r ∈ db .refreshTokens, r.tokenHash = tokenFingerprint rawToken →
      ∀ s ∈ db .refreshTokens, s.tokenHash = tokenFingerprint rawToken → s = r := by
    intro r hr hhash s hs hhash'
    by_contra hne
    have hclash := hdb.unique .refreshTokens s hs r hr fun hpk => hne (hdb.eq_of_pk hs hr hpk)
    simp [Schema.clash, uniqueClash, hhash, hhash'] at hclash
  cases hfound : findToken rawToken db with
  | none =>
    refine .inl ⟨rfl, List.find?_eq_none.mpr fun r hr => ?_⟩
    exact List.find?_eq_none.mp hfound r (h.mem.mp hr).1
  | some r =>
    have hr : r ∈ db .refreshTokens := List.mem_of_find?_eq_some hfound
    have hhash : r.tokenHash = tokenFingerprint rawToken := by simpa using List.find?_some hfound
    refine .inr ⟨r, hr, rfl, ?_⟩
    cases hgone : gone r.id with
    | true =>
      refine .inr ⟨rfl, List.find?_eq_none.mpr fun s hs hhash' => ?_⟩
      obtain ⟨hs, hkept⟩ := h.mem.mp hs
      rw [hother r hr hhash s hs (by simpa using hhash'), hgone] at hkept
      cases hkept
    | false =>
      refine .inl ⟨rfl, ?_⟩
      cases hfound' : findToken rawToken db' with
      | none =>
        have hno := List.find?_eq_none.mp hfound' r (h.mem.mpr ⟨hr, hgone⟩)
        simp [hhash] at hno
      | some s =>
        have hs := (h.mem.mp (List.mem_of_find?_eq_some hfound')).1
        rw [hother r hr hhash s hs (by simpa using List.find?_some hfound')]

theorem insertable_token (h : Swept t db db') {r : Row .refreshTokens}
    (hr : ∀ s ∈ db .refreshTokens, s.id ≠ r.id ∧ s.tokenHash ≠ r.tokenHash) :
    insertable db' r = insertable db r := by
  have hclash : ∀ s ∈ db .refreshTokens, clash r s = false := fun s hs => by
    simp [Schema.clash, uniqueClash, primaryKey, (hr s hs).1.symm, (hr s hs).2.symm]
  obtain ⟨gone, hgone⟩ := h.tokens
  have hany : (db .refreshTokens).any (clash r) = false := by
    simpa [List.any_eq_false] using hclash
  have hany' : (db' .refreshTokens).any (clash r) = false := by
    simpa [List.any_eq_false] using fun s hs => hclash s (hgone.mem.mp hs).1
  simp only [insertable, check_of_agreeOff h.rest, hany, hany']

/-- An assignment to a token that both sides have. -/
theorem updatable_token (hdb : Unclashing db) (h : AgreeOff sweptTables db db')
    (hgone : TokensSwept gone t (db .refreshTokens) (db' .refreshTokens)) {id : UUID}
    {g : Row .refreshTokens → Row .refreshTokens} (hid : gone id = false)
    (hg : ∀ r, (g r).id = r.id ∧ (g r).tokenHash = r.tokenHash) :
    updatable db' .refreshTokens id g = updatable db .refreshTokens id g := by
  have hfind : (db' .refreshTokens).find? (fun r => pk r = id) =
      (db .refreshTokens).find? (fun r => pk r = id) := by
    rw [hgone.kept, List.find?_filter]
    refine congrArg (fun p => List.find? p (db .refreshTokens)) (funext fun r => ?_)
    by_cases hr : r.id = id
    · simp [hr, hid]
    · have hne : pk r ≠ id := hr
      simp [hne]
  unfold updatable
  rw [hfind]
  cases hr : (db .refreshTokens).find? (fun r => pk r = id) with
  | none => rfl
  | some r =>
    have hmem : r ∈ db .refreshTokens := List.mem_of_find?_eq_some hr
    have hpk : pk r = id := by simpa using List.find?_some hr
    have hany : (db' .refreshTokens).any (fun s => decide (pk s ≠ id) && clash (g r) s) =
        (db .refreshTokens).any (fun s => decide (pk s ≠ id) && clash (g r) s) := by
      have hno : ∀ s ∈ db .refreshTokens, (decide (pk s ≠ id) && clash (g r) s) = false := by
        intro s hs
        by_cases hne : pk s = id
        · simp [hne]
        · have hclash := hdb.unique .refreshTokens r hmem s hs (by rw [hpk]; exact Ne.symm hne)
          simp only [Schema.clash, uniqueClash, Bool.or_eq_false_iff, decide_eq_false_iff_not,
            beq_eq_false_iff_ne, (hg r).2] at hclash ⊢
          have hkey : pk (g r) ≠ pk s := by
            rw [show pk (g r) = pk r from (hg r).1]
            exact hclash.1
          simp [show primaryKey (g r) ≠ primaryKey s from hkey, hclash.2]
      rw [List.any_eq_false.mpr fun s hs => by simpa using hno s (hgone.mem.mp hs).1,
        List.any_eq_false.mpr fun s hs => by simpa using hno s hs]
    simp only [check_of_agreeOff h, hany]

/-- An assignment to a token on both sides. -/
theorem Swept.update_token (h : Swept t db db') {id : UUID}
    {g : Row .refreshTokens → Row .refreshTokens}
    (hg : ∀ r, (g r).id = r.id ∧ (g r).expiresAt = r.expiresAt) :
    Swept t ((Op.update .refreshTokens id g).apply db)
      ((Op.update .refreshTokens id g).apply db') := by
  refine h.of_tokens (fun T hT => apply_of_table_ne db (Ne.symm hT))
    (fun T hT => apply_of_table_ne db' (Ne.symm hT)) ?_
  obtain ⟨gone, hgone⟩ := h.tokens
  rw [apply_update_self, apply_update_self]
  refine ⟨gone, hgone.update (fun r => ?_) fun r => ?_⟩
  · split
    · exact (hg r).1
    · rfl
  · split
    · exact (hg r).2
    · rfl

theorem alike_issueTokenPair [Platform] (hE : ∀ e, E e e) (h : Swept t db db')
    (hnew : DrawsNew world db) (user : User) (familyId : UUID) {f f' : TokenPair → App β}
    (hf : ∀ pair (r : Row .refreshTokens), insertable db r = .ok () →
      (∀ s ∈ db .refreshTokens, s.id ≠ r.id) → Alike Call.draws world E Q (f pair) (f' pair)
        ((Op.insert .refreshTokens r).apply db) ((Op.insert .refreshTokens r).apply db')) :
    Alike Call.draws world E Q ((issueTokenPair user (some familyId)).bind f)
      ((issueTokenPair user (some familyId)).bind f') db db' := by
  refine alike_call fun t₁ => alike_call fun t₂ => alike_call fun t₃ => ?_
  have hfresh : ∀ s ∈ db .refreshTokens, s.id ≠ t₃.env Call.draws world .uuid4 ∧
      s.tokenHash ≠ tokenFingerprint (t₁.env Call.draws world (.tokenUrlsafe 48)) :=
    fun s hs => ⟨(hnew t₃.draws s hs).1, (hnew t₁.draws s hs).2⟩
  refine alike_insert (insertable_token h hfresh) (fun hins => alike_call fun t₄ => ?_)
    fun _ => alike_raise (hE _)
  exact hf _ _ hins fun s hs => (hfresh s hs).1

/-- Rotation finds the same token, or one that has expired on one side and none on the other. -/
theorem alike_rotateRefreshToken [Platform] (hdb : Unclashing db) (h : Swept t db db')
    (hnow : ∀ d r, t ≤ world d r .now) (hnew : DrawsNew world db) (rawToken : String) :
    AlikeAt Call.draws world tick tick Eq (ReturnsAlike t) (rotateRefreshToken rawToken)
      (rotateRefreshToken rawToken) db db' := by
  obtain ⟨gone, hgone⟩ := h.tokens
  unfold rotateRefreshToken
  refine alikeAt_bindSelectForUpdate ?_
  refine Alike.at (alike_bindCall fun t₁ => ?_) tick
  have hat : t ≤ t₁.env Call.draws world .now := hnow _ _
  rcases findToken_swept hdb hgone rawToken with ⟨hnone, hnone'⟩ | ⟨token, hmem, hfound, hside⟩
  · rw [hnone, hnone']
    exact alike_raise rfl
  · rcases hside with ⟨hkept, hfound'⟩ | ⟨hswept, hfound'⟩
    · rw [hfound, hfound']
      dsimp only
      split
      · exact alike_raise rfl
      · refine alike_bindSelect (by simp only [h.rest .users (by decide)]) ?_
        cases ((db .users).find? (·.id = token.userId)).filter (·.isActive) with
        | none => exact alike_raise rfl
        | some user =>
          refine alike_issueTokenPair (fun _ => rfl) h hnew user token.familyId
            fun pair r hins hr => ?_
          have hinserted : ∀ T, T ≠ .refreshTokens → ∀ db : Db Row,
              (Op.insert .refreshTokens r).apply db T = db T := fun T hT db =>
            apply_of_table_ne db (Ne.symm hT)
          have hgone₁ : TokensSwept gone t ((Op.insert .refreshTokens r).apply db .refreshTokens)
              ((Op.insert .refreshTokens r).apply db' .refreshTokens) := by
            rw [apply_insert_self, apply_insert_self]
            exact hgone.insert hr
          have h₁ : Swept t ((Op.insert .refreshTokens r).apply db)
              ((Op.insert .refreshTokens r).apply db') :=
            h.of_tokens (fun T hT => hinserted T hT db) (fun T hT => hinserted T hT db')
              ⟨gone, hgone₁⟩
          refine alike_updateRow (fun _ => rfl) (updatable_token (hdb.insert hins) h₁.rest hgone₁
            hkept fun _ => ⟨rfl, rfl⟩) fun _ => alike_ret ⟨rfl, ?_⟩
          exact h₁.update_token fun _ => ⟨rfl, rfl⟩
    · rw [hfound, hfound']
      have hexpired : token.expiresAt ≤ t₁.env Call.draws world .now :=
        Int.le_of_lt (Int.lt_of_lt_of_le (hgone.expired token hmem hswept) hat)
      simp only [hexpired, decide_true, Bool.or_true, ↓reduceIte]
      exact alike_raise rfl

/-- Nothing stands in the way of revoking a token. -/
theorem updatable_revoke (hdb : Unclashing db) (hchecked : Checked db) {token : RefreshToken}
    (hmem : token ∈ db .refreshTokens) (at_ : Datetime) :
    updatable db .refreshTokens token.id (RefreshToken.revoke at_) = .ok () := by
  refine updatable_of (hdb.find hmem) ?_ fun r hr hne => ?_
  · exact check_eq_none_iff.mpr (check_eq_none_iff.mp (hchecked .refreshTokens token hmem))
  · exact hdb.unique .refreshTokens token hmem r hr (Ne.symm hne)

/-- Revocation writes the same token, or one that only the unswept side still has. -/
theorem alike_revokeRefreshToken [Platform] (hdb : Unclashing db) (hchecked : Checked db)
    (h : Swept t db db') (rawToken : String) :
    AlikeAt Call.draws world tick tick Eq (ReturnsAlike t) (revokeRefreshToken rawToken)
      (revokeRefreshToken rawToken) db db' := by
  obtain ⟨gone, hgone⟩ := h.tokens
  unfold revokeRefreshToken
  refine alikeAt_bindSelectForUpdate ?_
  rcases findToken_swept hdb hgone rawToken with ⟨hnone, hnone'⟩ | ⟨token, hmem, hfound, hside⟩
  · rw [hnone, hnone']
    exact alikeAt_ret ⟨rfl, h⟩
  · rcases hside with ⟨hkept, hfound'⟩ | ⟨hswept, hfound'⟩
    · rw [hfound, hfound']
      dsimp only
      split
      · refine Alike.at (alike_bindCall fun t₁ => ?_) tick
        exact alike_update (updatable_token hdb h.rest hgone hkept fun _ => ⟨rfl, rfl⟩)
          (fun _ => alike_ret ⟨rfl, h.update_token fun _ => ⟨rfl, rfl⟩⟩) fun _ => alike_raise rfl
      · exact alikeAt_ret ⟨rfl, h⟩
    · rw [hfound, hfound']
      dsimp only
      split
      · refine alikeAt_call_left rfl fun n => ?_
        refine alikeAt_update_left (updatable_revoke hdb hchecked hmem _) (alikeAt_ret ⟨rfl, ?_⟩)
        refine h.of_tokens (fun T hT => apply_of_table_ne db (Ne.symm hT)) (fun _ _ => rfl)
          ⟨gone, ?_⟩
        rw [apply_update_self]
        refine hgone.update_gone (fun r => ?_) (fun r => ?_) fun r hr => if_neg ?_
        · split <;> rfl
        · split <;> rfl
        · rintro hid
          have hid : r.id = token.id := hid
          rw [hid, hswept] at hr
          cases hr
      · exact alikeAt_ret ⟨rfl, h⟩

/-! ### Invitations -/

theorem setStatus_eq {i i' : Row .invitations} (h : blank i = blank i') (status : InvitationStatus)
    (at_ : Datetime) : Invitation.setStatus status at_ i = Invitation.setStatus status at_ i' := by
  simp only [blank, Invitation.mk.injEq] at h
  obtain ⟨hid, horg, hemail, hrole, hhash, _, hby, hexpires, hcreated, _⟩ := h
  simp only [Invitation.setStatus, hid, horg, hemail, hrole, hhash, hby, hexpires, hcreated]

/-- As long as the first is not pending, the index on pending invitations plays no part. -/
theorem clash_invitation {i r r' : Row .invitations} (hi : i.status ≠ .pending)
    (h : blank r = blank r') : clash i r = clash i r' := by
  have hkey : primaryKey r = primaryKey r' := pk_of_blank h
  simp only [blank, Invitation.mk.injEq] at h
  simp only [Schema.clash, hkey]
  congr 1
  simp [uniqueClash, hi, h.2.2.2.2.1]

theorem updatable_invitation (h : Swept t db db') (id : UUID) {status : InvitationStatus}
    (hstatus : status ≠ .pending) (at_ : Datetime) :
    updatable db' .invitations id (Invitation.setStatus status at_) =
      updatable db .invitations id (Invitation.setStatus status at_) := by
  unfold updatable
  rcases find_match h.invitations (p := fun r => decide (pk r = id))
      (fun i i' hi => by rw [pk_of_blank hi.blank_eq]) with
    ⟨hnone, hnone'⟩ | ⟨i, i', hfound, hfound', hi⟩
  · rw [hnone, hnone']
  · have hclash : ∀ r r' : Row .invitations, blank r = blank r' →
        clash (Invitation.setStatus status at_ i) r =
          clash (Invitation.setStatus status at_ i) r' := fun _ _ hr => clash_invitation hstatus hr
    rw [hfound, hfound']
    dsimp only
    rw [← setStatus_eq hi.blank_eq, check_of_agreeOff h.rest, any_match h.invitations
      fun r _ r' hr => by
        rw [pk_of_blank hr.blank_eq, hclash r r' hr.blank_eq]]

/-- A status assigned on both sides. -/
theorem Swept.update_invitation (h : Swept t db db') (id : UUID) (status : InvitationStatus)
    (at_ : Datetime) :
    Swept t ((Op.update .invitations id (Invitation.setStatus status at_)).apply db)
      ((Op.update .invitations id (Invitation.setStatus status at_)).apply db') := by
  refine h.of_invitations (fun T hT => apply_of_table_ne db (Ne.symm hT))
    (fun T hT => apply_of_table_ne db' (Ne.symm hT)) ?_
  rw [apply_update_self, apply_update_self]
  refine map_match h.invitations fun i _ i' _ hi => ?_
  by_cases hid : pk i = id
  · have hid' : pk i' = id := (pk_of_blank hi.blank_eq).symm.trans hid
    rw [if_pos hid, if_pos hid']
    exact .inl (setStatus_eq hi.blank_eq status at_)
  · have hid' : pk i' ≠ id := fun h => hid ((pk_of_blank hi.blank_eq).trans h)
    rw [if_neg hid, if_neg hid']
    exact hi

/-- The unswept side marks an invitation that is marked on the other. -/
theorem Swept.mark_left (h : Swept t db db') {id : UUID} {at_ : Datetime}
    (hid : ∀ i' ∈ db' .invitations, pk i' = id → i'.status = .expired) :
    Swept t ((Op.update .invitations id (Invitation.setStatus .expired at_)).apply db) db' := by
  refine h.of_invitations (fun T hT => apply_of_table_ne db (Ne.symm hT)) (fun _ _ => rfl) ?_
  rw [apply_update_self, ← List.map_id (db' .invitations)]
  refine map_match h.invitations fun i _ i' hmem' hi => ?_
  by_cases hkey : pk i = id
  · rw [if_pos hkey]
    have hexpired := hid i' hmem' ((pk_of_blank hi.blank_eq).symm.trans hkey)
    exact .inr ⟨hi.blank_eq, hexpired, .inl rfl⟩
  · rw [if_neg hkey]
    exact hi

/-- A flush of a status on both sides. -/
theorem alike_markInvitation (hE : ∀ e, E e e) (h : Swept t db db') (id : UUID)
    {status : InvitationStatus} (hstatus : status ≠ .pending) :
    Alike Call.draws world E (fun a b d d' => a = b ∧ ∃ at_,
        d = (Op.update .invitations id (Invitation.setStatus status at_)).apply db ∧
        d' = (Op.update .invitations id (Invitation.setStatus status at_)).apply db')
      (flush .invitations id true (Invitation.setStatus status))
      (flush .invitations id true (Invitation.setStatus status)) db db' :=
  alike_call fun _ => alike_update (updatable_invitation h id hstatus _)
    (fun _ => alike_ret ⟨rfl, _, rfl, rfl⟩) fun _ => alike_raise (hE _)

/-- A flush that marks an invitation as expired on the unswept side. -/
theorem alikeAt_mark_left {ρ : Type} {f : Option Datetime → App ρ} {p' : App β}
    {R : ρ → β → Db Row → Db Row → Prop} (hdb : Consistent db) {i : Invitation}
    (hi : i ∈ db .invitations)
    (hf : ∀ at_ n, AlikeAt Call.draws world ⟨tick.draws, n⟩ tick' E R (f (some at_)) p'
      ((Op.update .invitations i.id (Invitation.setStatus .expired at_)).apply db) db') :
    AlikeAt Call.draws world tick tick' E R
      ((flush .invitations i.id true (Invitation.setStatus .expired)).bind f) p' db db' :=
  alikeAt_call_left rfl fun _ => alikeAt_update_left (updatable_expired hdb hi _) (hf _ _)

/-- The organization has a pending invitation for the address. -/
def Invited (organizationId : UUID) (email : String) (i : Row .invitations) : Prop :=
  i.organizationId = organizationId ∧ i.email = email ∧ i.status = .pending

theorem invited_of_findPending {organizationId : UUID} {email : String} {i : Invitation}
    (h : findPending organizationId email db = some i) :
    i ∈ db .invitations ∧ Invited organizationId email i :=
  ⟨List.mem_of_find?_eq_some h, by simpa [Invited] using List.find?_some h⟩

theorem not_invited_of_findPending {organizationId : UUID} {email : String}
    (h : findPending organizationId email db = none) :
    ∀ i ∈ db .invitations, ¬ Invited organizationId email i :=
  fun i hi hinvited => List.find?_eq_none.mp h i hi (by simpa [Invited] using hinvited)

/-- There is at most one pending invitation for an address. -/
theorem Invited.eq (hdb : Consistent db) {organizationId : UUID} {email : String}
    {i j : Row .invitations} (hi : i ∈ db .invitations) (hj : j ∈ db .invitations)
    (h : Invited organizationId email i) (h' : Invited organizationId email j) : i = j := by
  by_contra hne
  have hclash := hdb.unique .invitations i hi j hj fun hpk => hne (hdb.eq_of_pk hi hj hpk)
  simp [Schema.clash, uniqueClash, h.1, h.2.1, h.2.2, h'.1, h'.2.1, h'.2.2] at hclash

/-- The pending invitation is the same on both sides, unless the clock is past its expiry. -/
theorem findPending_swept (hdb : Consistent db) (h : Swept t db db') (organizationId : UUID)
    (email : String) :
    findPending organizationId email db' = findPending organizationId email db ∨
      findPending organizationId email db' = none ∧
        ∃ i, findPending organizationId email db = some i ∧ i.expiresAt < t := by
  cases hfound' : findPending organizationId email db' with
  | some i' =>
    obtain ⟨hmem', hinvited'⟩ := invited_of_findPending hfound'
    obtain ⟨i, hmem, hi⟩ := exists_match_left h.invitations hmem'
    obtain rfl : i = i' := hi.eq (by rw [hinvited'.2.2]; exact fun h => by cases h)
    left
    cases hfound : findPending organizationId email db with
    | none => exact absurd hinvited' (not_invited_of_findPending hfound i hmem)
    | some j =>
      obtain ⟨hmemj, hinvited⟩ := invited_of_findPending hfound
      rw [Invited.eq hdb hmem hmemj hinvited' hinvited]
  | none =>
    cases hfound : findPending organizationId email db with
    | none => exact .inl rfl
    | some i =>
      obtain ⟨hmem, hinvited⟩ := invited_of_findPending hfound
      obtain ⟨i', hmem', hi⟩ := exists_match_right h.invitations hmem
      refine .inr ⟨rfl, i, rfl, ?_⟩
      rcases hi with rfl | ⟨_, _, hexpired | hpending⟩
      · exact absurd hinvited (not_invited_of_findPending hfound' i hmem')
      · rw [hinvited.2.2] at hexpired
        cases hexpired
      · exact hpending.2

theorem insertable_invitation (h : Swept t db db') {r : Row .invitations}
    (hr : ∀ i ∈ db .invitations, ¬ Invited r.organizationId r.email i) :
    insertable db' r = insertable db r := by
  have hclash : ∀ i ∈ db .invitations, ∀ i', InvitationSwept t i i' → clash r i = clash r i' := by
    rintro i hmem i' (rfl | ⟨hblank, hexpired, _⟩)
    · rfl
    · have hkey : primaryKey i = primaryKey i' := pk_of_blank hblank
      have hno := hr i hmem
      simp only [blank, Invitation.mk.injEq] at hblank
      simp only [Schema.clash, hkey]
      congr 1
      have hno' : ¬ (r.status = .pending ∧ i.status = .pending ∧
          r.organizationId = i.organizationId ∧ r.email = i.email) :=
        fun h => hno ⟨h.2.2.1.symm, h.2.2.2.symm, h.2.1⟩
      simp [uniqueClash, hblank.2.2.2.2.1, hexpired, hno']
  simp only [insertable, check_of_agreeOff h.rest, any_match h.invitations hclash]

/-- The second half of `invite_member` begins with a draw, so it runs the same way on both
sides however often the clock has been read. -/
theorem alike_addInvitation [Platform] (h : Swept t db db') {organizationId : UUID}
    {invitedBy : User} {email : String} {role : Role}
    (hno : ∀ i ∈ db .invitations, ¬ Invited organizationId email i)
    (ht : tick.draws = tick'.draws) :
    AlikeAt Call.draws world tick tick' Eq (ReturnsAlike t)
      (addInvitation organizationId invitedBy email role)
      (addInvitation organizationId invitedBy email role) db db' := by
  unfold addInvitation
  refine alikeAt_bindDraw rfl ht fun rawToken => alike_bindCall fun t₁ => ?_
  refine alike_rowDefaults fun d => ?_
  refine alike_insertRow (fun _ => rfl) (insertable_invitation h hno) fun _ => ?_
  have h₁ : ∀ r : Row .invitations, Swept t ((Op.insert .invitations r).apply db)
      ((Op.insert .invitations r).apply db') := by
    intro r
    refine h.of_invitations (fun T hT => apply_of_table_ne db (Ne.symm hT))
      (fun T hT => apply_of_table_ne db' (Ne.symm hT)) ?_
    rw [apply_insert_self, apply_insert_self]
    exact List.rel_append h.invitations (.cons (.inl rfl) .nil)
  refine alike_unaware (unaware_recordAudit _ _ _ _ _ _) (fun _ => rfl) (h₁ _)
    fun _ d d' hd _ _ _ => alike_bindCall fun t₂ => ?_
  cases t₂.env Call.draws world (.sendInvitationTask _ _) with
  | none => exact alike_raise rfl
  | some u => exact alike_ret ⟨rfl, hd⟩

/-- Looking for the member leaves both databases as they are. -/
theorem alike_isMember (h : Swept t db db') (organizationId : UUID) (email : String) :
    Alike Call.draws world E (fun a b d d' => a = b ∧ d = db ∧ d' = db')
      (isMember organizationId email) (isMember organizationId email) db db' := by
  refine alike_bindSelect (by simp only [h.rest .users (by decide)]) ?_
  cases ((db .users).find? (·.email = email)).map (·.id) with
  | none => exact alike_ret ⟨rfl, rfl, rfl⟩
  | some id =>
    refine alike_select (alike_ret ⟨?_, rfl, rfl⟩)
    rw [unaware_findMembership _ _ db db' h.rest]

theorem not_invited_after_mark (hdb : Consistent db) {organizationId : UUID} {email : String}
    {i : Invitation} (hi : i ∈ db .invitations) (hinvited : Invited organizationId email i)
    (at_ : Datetime) :
    ∀ j ∈ (Op.update .invitations i.id (Invitation.setStatus .expired at_)).apply db .invitations,
      ¬ Invited organizationId email j := by
  intro j hj hjinvited
  rcases mem_apply_update hj with ⟨hmem, hne⟩ | ⟨j', _, _, rfl⟩
  · exact hne (congrArg pk (Invited.eq hdb hmem hi hjinvited hinvited))
  · cases hjinvited.2.2

/-- An invitation that is pending on one side and marked on the other is marked before the next
one is sent. -/
theorem alike_inviteMember [Platform] (hdb : Consistent db) (h : Swept t db db')
    (hnow : ∀ d r, t ≤ world d r .now) (organizationId : UUID) (invitedBy : User)
    (payload : InviteMemberRequest) :
    AlikeAt Call.draws world tick tick Eq (ReturnsAlike t)
      (inviteMember organizationId invitedBy payload)
      (inviteMember organizationId invitedBy payload) db db' := by
  unfold inviteMember
  refine alikeAt_bind ((alike_isMember h _ _).mono ?_)
  rintro isMember _ d d' ⟨rfl, hd, hd'⟩ tick
  rw [hd, hd']
  cases isMember with
  | true => exact alikeAt_raise rfl
  | false =>
    simp only [Bool.false_eq_true, ↓reduceIte]
    refine alikeAt_bindSelect ?_
    rcases findPending_swept hdb h organizationId (Platform.lower payload.email) with
      hsame | ⟨hnone, i, hfound, hlt⟩
    · rw [hsame]
      cases hfound : findPending organizationId (Platform.lower payload.email) db with
      | none => exact alike_addInvitation h (not_invited_of_findPending hfound) rfl
      | some i =>
        obtain ⟨hmem, hinvited⟩ := invited_of_findPending hfound
        refine alikeAt_bindCall fun t₁ => ?_
        split
        · exact alikeAt_raise rfl
        · have hmark : InvitationStatus.expired ≠ .pending := by decide
          refine alikeAt_bind ((alike_markInvitation (fun _ => rfl) h i.id hmark).mono ?_)
          rintro _ _ d d' ⟨_, at_, rfl, rfl⟩ tick
          exact alike_addInvitation (h.update_invitation i.id .expired at_)
            (not_invited_after_mark hdb hmem hinvited at_) rfl
    · rw [hnone, hfound]
      obtain ⟨hmem, hinvited⟩ := invited_of_findPending hfound
      refine alikeAt_bindCall_left rfl fun n => ?_
      have hexpired : ¬ i.expiresAt > tick.env Call.draws world .now :=
        Int.not_lt.mpr (Int.le_of_lt (Int.lt_of_lt_of_le hlt (hnow _ _)))
      rw [if_neg hexpired]
      refine alikeAt_mark_left hdb hmem fun at_ n => ?_
      refine alike_addInvitation (h.mark_left fun i' hmem' hid => ?_)
        (not_invited_after_mark hdb hmem hinvited at_) rfl
      obtain ⟨j, hmemj, hj⟩ := exists_match_left h.invitations hmem'
      have hji : j = i := hdb.eq_of_pk hmemj hmem ((pk_of_blank hj.blank_eq).trans hid)
      rcases hj with rfl | ⟨_, hexpired, _⟩
      · exact absurd (hji ▸ hinvited) (not_invited_of_findPending hnone j hmem')
      · exact hexpired

theorem findInvitation_swept [Platform] (h : Swept t db db') (rawToken : String) :
    (findInvitation rawToken db = none ∧ findInvitation rawToken db' = none) ∨
      ∃ i ∈ db .invitations, ∃ i', findInvitation rawToken db = some i ∧
        findInvitation rawToken db' = some i' ∧ InvitationSwept t i i' := by
  have hhash : ∀ i i', InvitationSwept t i i' →
      decide (i.tokenHash = tokenFingerprint rawToken) =
        decide (i'.tokenHash = tokenFingerprint rawToken) := by
    intro i i' hi
    have hblank := hi.blank_eq
    simp only [blank, Invitation.mk.injEq] at hblank
    rw [hblank.2.2.2.2.1]
  rcases find_match h.invitations hhash with hnone | ⟨i, i', hfound, hfound', hi⟩
  · exact .inl hnone
  · exact .inr ⟨i, List.mem_of_find?_eq_some hfound, i', hfound, hfound', hi⟩

/-- Acceptance refuses an invitation that one side has marked and the clock is past. -/
theorem alike_acceptInvitation [Platform] (hdb : Consistent db) (h : Swept t db db')
    (hnow : ∀ d r, t ≤ world d r .now) (user : User) (rawToken : String) :
    AlikeAt Call.draws world tick tick RefusedAlike (ReturnsAlike t)
      (acceptInvitation user rawToken) (acceptInvitation user rawToken) db db' := by
  have hE : ∀ e, RefusedAlike e e := fun _ => .inl rfl
  unfold acceptInvitation
  refine alikeAt_bindSelectForUpdate ?_
  rcases findInvitation_swept h rawToken with ⟨hnone, hnone'⟩ | ⟨i, hmem, i', hfound, hfound', hi⟩
  · rw [hnone, hnone']
    exact alikeAt_raise (hE _)
  · rw [hfound, hfound']
    rcases hi with rfl | ⟨_, hexpired', hexpired | ⟨hpending, hlt⟩⟩
    · dsimp only
      split
      · exact alikeAt_raise (hE _)
      · refine Alike.at (alike_bindCall fun t₁ => ?_) tick
        split
        · have hmark : InvitationStatus.expired ≠ .pending := by decide
          refine alike_bind ((alike_markInvitation hE h i.id hmark).mono fun _ _ _ _ _ => ?_)
          exact alike_raise (hE _)
        · split
          · exact alike_raise (hE _)
          · refine alike_unaware (unaware_joinOrganization user i) hE h
              fun membership d d' hd _ _ _ => ?_
            have hmark : InvitationStatus.accepted ≠ .pending := by decide
            refine alike_bind ((alike_markInvitation hE hd i.id hmark).mono ?_)
            rintro _ _ _ _ ⟨_, at_, rfl, rfl⟩
            exact alike_unaware (unaware_recordAudit _ _ _ _ _ _) hE
              (hd.update_invitation i.id .accepted at_)
              fun _ _ _ hd _ _ _ => alike_ret ⟨rfl, hd⟩
    · simp only [hexpired, hexpired', ne_eq, reduceCtorEq, not_false_eq_true, ↓reduceIte]
      exact alikeAt_raise (hE _)
    · simp only [hpending, hexpired', ne_eq, reduceCtorEq, not_false_eq_true, not_true_eq_false,
        ↓reduceIte]
      refine alikeAt_bindCall_left rfl fun n => ?_
      have hpast : i.expiresAt ≤ tick.env Call.draws world .now :=
        Int.le_of_lt (Int.lt_of_lt_of_le hlt (hnow _ _))
      rw [if_pos hpast]
      exact alikeAt_mark_left hdb hmem fun _ _ => alikeAt_raise (.inr ⟨rfl, rfl⟩)

end Pairs

/-! ## One turn -/

/-- What may differ between the refusals of an operation. -/
def AccountCall.RefusesAlike : AccountCall → Failure → Failure → Prop
  | .acceptInvitation _ _, e, e' => RefusedAlike e e'
  | _, e, e' => e = e'

section Turns

variable {world : World Answer} {t t' : Datetime} {db db' : Db Row}

/-- A part that does not see the swept tables, alone. -/
theorem alikeAt_unaware {α β : Type} {p : App α} {f : α → β} (hp : Unaware p)
    (h : Swept t db db') :
    AlikeAt Call.draws world ⟨0, 0⟩ ⟨0, 0⟩ Eq (ReturnsAlike t) (p.bind fun a => .ret (f a))
      (p.bind fun a => .ret (f a)) db db' :=
  (alike_unaware hp (fun _ => rfl) h fun _ _ _ hd _ _ _ => alike_ret ⟨rfl, hd⟩).at _

theorem ReturnsAlike.wrap {α β : Type} {f : α → β} (a b : α) (d d' : Db Row)
    (h : ReturnsAlike t a b d d') : ReturnsAlike t (f a) (f b) d d' :=
  ⟨congrArg f h.1, h.2⟩

/-- Every operation runs alike on the two sides. -/
theorem AccountCall.alike [Platform] (call : AccountCall) (hdb : Consistent db) (h : Swept t db db')
    (hnow : ∀ d r, t ≤ world d r .now) (hnew : DrawsNew world db) :
    AlikeAt Call.draws world ⟨0, 0⟩ ⟨0, 0⟩ call.RefusesAlike (ReturnsAlike t) call.handler
      call.handler db db' := by
  have hchecked : Checked db := hdb.checks
  cases call with
  | rotateRefreshToken rawToken =>
    exact (alike_rotateRefreshToken hdb.unclashing h hnow hnew rawToken).bind_ret ReturnsAlike.wrap
  | revokeRefreshToken rawToken =>
    exact (alike_revokeRefreshToken hdb.unclashing hchecked h rawToken).bind_ret ReturnsAlike.wrap
  | inviteMember organizationId invitedBy payload =>
    exact (alike_inviteMember hdb h hnow organizationId invitedBy payload).bind_ret
      ReturnsAlike.wrap
  | acceptInvitation user rawToken =>
    exact (alike_acceptInvitation hdb h hnow user rawToken).bind_ret ReturnsAlike.wrap
  | createOrganization user payload => exact alikeAt_unaware (unaware_createOrganization _ _) h
  | updateMembershipRole organizationId membershipId actor role =>
    exact alikeAt_unaware (unaware_updateMembershipRole _ _ _ _) h
  | removeMembership organizationId membershipId actor =>
    exact alikeAt_unaware (unaware_removeMembership _ _ _) h

def accountScope : Scope where
  writes := [.refreshTokens, .invitations, .organizations, .organizationMemberships, .auditLogs]
  deletes := [.organizationMemberships]
  calls := fun _ => True

theorem AccountCall.confined [Platform] (call : AccountCall) :
    Confined accountScope call.handler := by
  have hcalls : ∀ c, accountScope.calls c := fun _ => trivial
  have hA : ∀ action, accountScope.Audits action := fun _ => by simp [accountScope]
  have hT : accountScope.Inserts .refreshTokens := by simp [accountScope]
  have hI : accountScope.Inserts .invitations := by simp [accountScope]
  have hO : accountScope.Inserts .organizations := by simp [accountScope]
  have hM : accountScope.Inserts .organizationMemberships := by simp [accountScope]
  cases call with
  | rotateRefreshToken rawToken =>
    exact Prog.every_bind (confined_rotateRefreshToken hT (fun c _ => hcalls c) _)
      fun _ _ => trivial
  | revokeRefreshToken rawToken =>
    exact Prog.every_bind (confined_revokeRefreshToken hT.1 _) fun _ _ => trivial
  | inviteMember organizationId invitedBy payload =>
    exact Prog.every_bind (confined_inviteMember hI (hA _) hcalls _ _ _) fun _ _ => trivial
  | acceptInvitation user rawToken =>
    exact Prog.every_bind (confined_acceptInvitation hI.1 hM (hA _) _ _) fun _ _ => trivial
  | createOrganization user payload =>
    exact Prog.every_bind (confined_createOrganization hO hM (hA _) _ _) fun _ _ => trivial
  | updateMembershipRole organizationId membershipId actor role =>
    exact Prog.every_bind (confined_updateMembershipRole hM.1 (hA _) _ _ _ _) fun _ _ => trivial
  | removeMembership organizationId membershipId actor =>
    have hdelete : Table.organizationMemberships ∈ accountScope.deletes := by simp [accountScope]
    exact Prog.every_bind (confined_removeMembership hdelete (hA _) _ _ _) fun _ _ => trivial

theorem consistent_of_unclashing (hdb : Unclashing db) (hchecked : Checked db) :
    Consistent db where
  checks := hchecked
  keys t := List.pairwise_map.mp (hdb.nodup_keys t)
  unique := hdb.unique

/-- An operation keeps the constraints of the schema. -/
theorem AccountCall.serve_consistent [Platform] (call : AccountCall) (hdb : Consistent db) :
    Consistent (call.serve world db).2 := by
  obtain ⟨oracle, _, heq⟩ := exists_oracle_transaction Call.draws world call.handler db
  rw [AccountCall.serve, heq]
  exact consistent_of_unclashing (call.confined.transaction_unclashing hdb.unclashing)
    (call.confined.transaction_checked (by decide) hdb.unclashing hdb.checks)

/-! ### Runs of the task -/

section Task

variable {oracle : Oracle Answer} {β : Type} {Q : β → Db Row → Prop} {I : Db Row → Prop}

theorem ends_deleteWhere {T : Table} {p : Row T → Bool} {f : Unit → App β}
    (hT : ∀ db : Db Row, Schema.cascade db T = fun _ => []) (hI : I db)
    (hstep : ∀ r ∈ db T, p r = true → ∀ d, I d → I ((Op.delete T (pk r)).apply d))
    (hf : ∀ d, I d → Ends oracle Q (f ()) d) : Ends oracle Q ((deleteWhere T p).bind f) db := by
  have hrows : ∀ ids, (∀ id ∈ ids, ∃ r ∈ db T, p r = true ∧ pk r = id) → ∀ d, I d →
      Ends oracle (fun _ d' => I d') (deleteRows T ids) d := by
    intro ids
    induction ids with
    | nil => exact fun _ d hd => runs_ret hd
    | cons id ids ih =>
      intro hids d hd
      obtain ⟨r, hr, hp, rfl⟩ := hids id List.mem_cons_self
      refine ends_deleteRow (fun db => congrFun (hT db) _) ?_
      exact ih (fun id' hid' => hids id' (List.mem_cons_of_mem _ hid')) _ (hstep r hr hp d hd)
  refine runs_bind (runs_selectForUpdate trivial ?_)
  refine (hrows _ (fun id hid => ?_) db hI).mono fun _ d hd => hf d hd
  obtain ⟨r, hr, rfl⟩ := List.mem_map.mp hid
  exact ⟨r, (List.mem_filter.mp hr).1, (List.mem_filter.mp hr).2, rfl⟩

theorem ends_updateWhere {T : Table} {p : Row T → Bool} {g : Row T → Row T} (hI : I db)
    (hstep : ∀ r ∈ db T, p r = true → ∀ d, I d → I ((Op.update T (pk r) g).apply d)) :
    Ends oracle (fun _ d => I d) (updateWhere T p g) db := by
  have hrows : ∀ ids, (∀ id ∈ ids, ∃ r ∈ db T, p r = true ∧ pk r = id) → ∀ d, I d →
      Ends oracle (fun _ d' => I d') (updateRows T g ids) d := by
    intro ids
    induction ids with
    | nil => exact fun _ d hd => runs_ret hd
    | cons id ids ih =>
      intro hids d hd
      obtain ⟨r, hr, hp, rfl⟩ := hids id List.mem_cons_self
      refine ends_updateRow fun _ => ?_
      exact ih (fun id' hid' => hids id' (List.mem_cons_of_mem _ hid')) _ (hstep r hr hp d hd)
  refine runs_selectForUpdate trivial (hrows _ (fun id hid => ?_) db hI)
  obtain ⟨r, hr, rfl⟩ := List.mem_map.mp hid
  exact ⟨r, (List.mem_filter.mp hr).1, (List.mem_filter.mp hr).2, rfl⟩

/-- The task deletes a token that the clock is past. -/
theorem Swept.delete_token (hdb : Consistent db) (h : Swept t db db') {r : Row .refreshTokens}
    (hr : r ∈ db .refreshTokens) (hexpired : r.expiresAt < t) :
    Swept t db ((Op.delete .refreshTokens (pk r)).apply db') := by
  refine h.of_tokens (fun _ _ => rfl) (fun T hT => apply_of_table_ne db' (Ne.symm hT)) ?_
  obtain ⟨gone, hgone⟩ := h.tokens
  rw [apply_delete_self]
  refine ⟨_, hgone.delete ⟨r, hr, rfl⟩ fun s hs hid => ?_⟩
  rw [hdb.eq_of_pk hs hr hid]
  exact hexpired

/-- The task marks an invitation that the clock is past. -/
theorem Swept.mark_right (hdb : Consistent db) (h : Swept t db db') {i : Row .invitations}
    (hi : i ∈ db .invitations) (hpending : i.status = .pending) (hexpired : i.expiresAt < t)
    (at_ : Datetime) :
    Swept t db ((Op.update .invitations (pk i) (Invitation.setStatus .expired at_)).apply db') := by
  refine h.of_invitations (fun _ _ => rfl) (fun T hT => apply_of_table_ne db' (Ne.symm hT)) ?_
  rw [apply_update_self, ← List.map_id (db .invitations)]
  refine map_match h.invitations fun j hj j' _ hrel => ?_
  by_cases hid : pk j' = pk i
  · rw [if_pos hid]
    have hji : j = i := hdb.eq_of_pk hj hi ((pk_of_blank hrel.blank_eq).trans hid)
    refine .inr ⟨hrel.blank_eq, rfl, .inr ?_⟩
    rw [id, hji]
    exact ⟨hpending, hexpired⟩
  · rw [if_neg hid]
    exact hrel

theorem Swept.of_records (h : Swept t db db') {d' : Db Row}
    (hd' : ∀ T, T ≠ .idempotencyRecords → d' T = db' T) : Swept t db d' where
  rest T hT := by
    have hne : T ≠ .idempotencyRecords := by
      rintro rfl
      exact hT (by decide)
    rw [hd' T hne]
    exact h.rest T hT
  tokens := by
    rw [hd' .refreshTokens (by decide)]
    exact h.tokens
  invitations := by
    rw [hd' .invitations (by decide)]
    exact h.invitations

/-- A run of the task on the swept side goes no further than the clock. -/
theorem Swept.cleanUp (hdb : Consistent db) (h : Swept t db db') (ht : t ≤ t')
    (hnow : ∀ d r, world d r .now ≤ t') : Swept t' db (TenantFlow.cleanUp world db') := by
  obtain ⟨oracle, horacle, heq⟩ :=
    exists_oracle_transaction Call.draws world cleanupExpiredState db'
  have hclock : ∀ n, oracle n .now ≤ t' := by
    intro n
    obtain ⟨tick, htick⟩ := horacle n
    rw [htick]
    exact hnow _ _
  rw [TenantFlow.cleanUp, heq]
  refine Runs.transaction_either (I := Swept t' db) ?_ (h.mono ht)
  refine runs_call trivial fun n => ?_
  refine ends_deleteWhere (I := Swept t' db) (fun _ => rfl) (h.mono ht) (fun r _ _ d hd => ?_)
    fun d hd => ?_
  · exact hd.of_records fun T hT => apply_of_table_ne d (Ne.symm hT)
  refine ends_deleteWhere (I := Swept t' db) (fun _ => rfl) hd (fun r hr hp d' hd' => ?_)
    fun d hd => runs_call trivial fun m => ?_
  · obtain ⟨gone, hgone⟩ := hd.tokens
    exact hd'.delete_token hdb (hgone.mem.mp hr).1
      (Int.lt_of_lt_of_le (of_decide_eq_true hp) (hclock n))
  refine ends_updateWhere (I := Swept t' db) hd fun i' hi' hp d' hd' => ?_
  obtain ⟨hpending, hexpired⟩ := of_decide_eq_true hp
  obtain ⟨i, hi, hrel⟩ := exists_match_left hd.invitations hi'
  obtain rfl : i = i' := hrel.eq (by rw [hpending]; exact fun h => by cases h)
  exact hd'.mark_right hdb hi hpending (Int.lt_of_lt_of_le hexpired (hclock n)) _

end Task

/-! ## Whole runs -/

/-- An operation and its result. -/
abbrev AccountReply : Type := AccountCall × Except Failure AccountResult

/-- The HTTP status of a refusal. -/
def AccountReply.statusCode (reply : AccountReply) : Option Nat :=
  match reply.2 with
  | .ok _ => none
  | .error e => some e.statusCode

/-- The same answer, or the two codes for an invitation that has expired. -/
inductive RepliesAlike : AccountReply → AccountReply → Prop where
  | same (reply : AccountReply) : RepliesAlike reply reply
  | expired (user : User) (rawToken : String) :
    RepliesAlike (.acceptInvitation user rawToken, .error invitationExpired)
      (.acceptInvitation user rawToken, .error invitationNotActive)

theorem RepliesAlike.statusCode_eq {x y : AccountReply} (h : RepliesAlike x y) :
    x.statusCode = y.statusCode := by
  cases h with
  | same => rfl
  | expired user rawToken => rfl

theorem repliesAlike_of_refusesAlike {call : AccountCall} {e e' : Failure}
    (h : call.RefusesAlike e e') : RepliesAlike (call, .error e) (call, .error e') := by
  cases call with
  | acceptInvitation user rawToken =>
    rcases h with rfl | ⟨rfl, rfl⟩
    · exact .same _
    · exact .expired user rawToken
  | _ =>
    obtain rfl : e = e' := h
    exact .same _

/-- One operation on the two sides. -/
theorem AccountCall.serve_alike [Platform] (call : AccountCall) (hdb : Consistent db)
    (h : Swept t db db') (hnow : ∀ d r, t ≤ world d r .now) (hnew : DrawsNew world db) :
    RepliesAlike (call, (call.serve world db).1) (call, (call.serve world db').1) ∧
      Swept t (call.serve world db).2 (call.serve world db').2 := by
  rcases (call.alike hdb h hnow hnew).transaction with
    ⟨a, b, hok, hok', hab, hswept⟩ | ⟨e, e', herror, herror', hrefuses⟩
  · have hsame : (call.serve world db').1 = (call.serve world db).1 :=
      hok'.trans (hab ▸ hok.symm)
    rw [hsame]
    exact ⟨.same _, hswept⟩
  · rw [AccountCall.serve, AccountCall.serve, herror, herror']
    exact ⟨repliesAlike_of_refusesAlike hrefuses, h⟩

/-- By induction on the turns: an operation moves both sides, a run of the task the swept one. -/
theorem takeTurns_swept [Platform] {turns : List Turn} (hdb : Consistent db) (h : Swept t db db')
    (hclock : InTime t turns t') (hnew : AllDrawNew (turns.filter Turn.isCall) db) :
    List.Forall₂ RepliesAlike (takeTurns (turns.filter Turn.isCall) db).1 (takeTurns turns db').1 ∧
      Swept t' (takeTurns (turns.filter Turn.isCall) db).2 (takeTurns turns db').2 := by
  induction turns generalizing t db db' with
  | nil => exact ⟨.nil, h.mono hclock⟩
  | cons turn turns ih =>
    obtain ⟨t₁, ht, hnow, hlater⟩ := hclock
    cases turn with
    | call call world =>
      obtain ⟨hfirst, hrest⟩ : DrawsNew world db ∧
        AllDrawNew (turns.filter Turn.isCall) (call.serve world db).2 := hnew
      obtain ⟨hanswer, hswept⟩ := call.serve_alike hdb h (fun d r => (hnow d r).1) hfirst
      obtain ⟨hanswers, hend⟩ := ih (call.serve_consistent hdb) (hswept.mono ht) hlater hrest
      exact ⟨.cons hanswer hanswers, hend⟩
    | cleanup world =>
      exact ih hdb (h.cleanUp hdb ht fun d r => (hnow d r).2) hlater hnew

/-- What a run with the task does not show: results and statuses are those of the run without,
up to the code for an expired invitation, and so are the memberships, and the tokens and pending
invitations that have not expired. -/
structure Unobserved (t : Datetime) (unswept swept : List AccountReply × Db Row) : Prop where
  answers : List.Forall₂ RepliesAlike unswept.1 swept.1
  statusCodes : swept.1.map AccountReply.statusCode = unswept.1.map AccountReply.statusCode
  memberships : swept.2 .organizationMemberships = unswept.2 .organizationMemberships
  tokens : (swept.2 .refreshTokens).filter (fun r => t ≤ r.expiresAt) =
    (unswept.2 .refreshTokens).filter fun r => t ≤ r.expiresAt
  invitations : (swept.2 .invitations).filter (fun i => i.status = .pending ∧ t ≤ i.expiresAt) =
    (unswept.2 .invitations).filter fun i => i.status = .pending ∧ t ≤ i.expiresAt

theorem Swept.tokens_eq (h : Swept t db db') :
    (db' .refreshTokens).filter (fun r => decide (t ≤ r.expiresAt)) =
      (db .refreshTokens).filter fun r => decide (t ≤ r.expiresAt) := by
  obtain ⟨gone, hgone⟩ := h.tokens
  rw [hgone.kept, List.filter_filter]
  refine List.filter_congr fun r hr => ?_
  cases hswept : gone r.id with
  | false => simp
  | true => simp [Int.not_le.mpr (hgone.expired r hr hswept)]

theorem Swept.invitations_eq (h : Swept t db db') :
    (db' .invitations).filter (fun i => decide (i.status = .pending ∧ t ≤ i.expiresAt)) =
      (db .invitations).filter fun i => decide (i.status = .pending ∧ t ≤ i.expiresAt) := by
  have hmatch := h.invitations
  generalize db .invitations = l at hmatch
  generalize db' .invitations = l' at hmatch
  induction hmatch with
  | nil => rfl
  | @cons i i' l l' hrel _ ih =>
    rcases hrel with rfl | ⟨_, hexpired', hexpired | ⟨_, hlt⟩⟩
    · rw [List.filter_cons, List.filter_cons, ih]
    · rw [List.filter_cons_of_neg (by simp [hexpired']),
        List.filter_cons_of_neg (by simp [hexpired]), ih]
    · rw [List.filter_cons_of_neg (by simp [hexpired']),
        List.filter_cons_of_neg (by simp [Int.not_le.mpr hlt]), ih]

/-- Runs of the cleanup task at any points of a sequence of operations are not observed, if
what the operations draw is new. -/
theorem cleanup_unobservable [Platform] {turns : List Turn} (hdb : Consistent db)
    (hclock : InTime t turns t') (hnew : AllDrawNew (turns.filter Turn.isCall) db) :
    Unobserved t' (takeTurns (turns.filter Turn.isCall) db) (takeTurns turns db) := by
  obtain ⟨hanswers, hswept⟩ := takeTurns_swept hdb (Swept.refl t db) hclock hnew
  refine ⟨hanswers, ?_, hswept.rest .organizationMemberships (by decide), hswept.tokens_eq,
    hswept.invitations_eq⟩
  generalize (takeTurns (turns.filter Turn.isCall) db).1 = xs at hanswers
  generalize (takeTurns turns db).1 = ys at hanswers
  induction hanswers with
  | nil => rfl
  | cons hxy _ ih => rw [List.map_cons, List.map_cons, hxy.statusCode_eq, ih]

end Turns

section Sample

attribute [local instance] samplePlatform

/-- A token that has expired at every time of the samples. -/
def lapsedToken : RefreshToken :=
  { id := ⟨9⟩, userId := sampleUser.id, tokenHash := sampleSha256 "lapsed", familyId := ⟨10⟩,
    expiresAt := 0, revokedAt := none, replacedByHash := none, createdAt := 0 }

/-- An invitation and a token that have expired. -/
def unsweptDb : Db Row
  | .refreshTokens => [lapsedToken]
  | t => lapsedDb t

theorem consistent_unsweptDb : Consistent unsweptDb := by
  refine ⟨fun t => ?_, fun t => ?_, fun t => ?_⟩ <;> cases t <;> decide +kernel

/-- The clock stands at 5. -/
def sampleWorld : World Answer := fun _ _ => sampleOracle 5

def sampleTurns : List Turn :=
  [.cleanup sampleWorld, .call (.acceptInvitation invitedUser sampleToken) sampleWorld,
    .call (.rotateRefreshToken "lapsed") sampleWorld,
    .call (.inviteMember sampleOrganization.id sampleUser ⟨"bob@example.com", .member⟩) sampleWorld]

/-- The token and the invitation are refused before and after the task has swept them. -/
theorem sample_cleanup_unobserved :
    Unobserved 5 (takeTurns (sampleTurns.filter Turn.isCall) unsweptDb)
      (takeTurns sampleTurns unsweptDb) := by
  have hnow : ∀ d r, (5 : Datetime) ≤ sampleWorld d r .now ∧ sampleWorld d r .now ≤ 5 :=
    fun _ _ => ⟨Int.le_refl 5, Int.le_refl 5⟩
  have hturn : (5 : Datetime) ≤ 5 := Int.le_refl 5
  have hnew : ∀ db : Db Row, (∀ r ∈ db .refreshTokens, r.id ≠ sampleWorld 0 0 .uuid4 ∧
      r.tokenHash ≠ tokenFingerprint (sampleWorld 0 0 (.tokenUrlsafe 48))) →
      DrawsNew sampleWorld db := fun _ h _ => h
  refine cleanup_unobservable consistent_unsweptDb
    ⟨5, hturn, hnow, 5, hturn, hnow, 5, hturn, hnow, 5, hturn, hnow, hturn⟩
    ⟨hnew _ ?_, hnew _ ?_, hnew _ ?_, trivial⟩
  all_goals decide +kernel

end Sample

end TenantFlow
