import TenantFlow.Verification.Owners

/-!
# Refresh tokens over whole runs

For any logins, rotations, logouts, cleanups and other requests, interleaved in any way: no
family of refresh tokens has two live ones, a token is rotated at most once, and a family
without a live token stays without.
-/

namespace TenantFlow

open JsonText Transactional

def tokenTables (t : Table) : Bool := t = .refreshTokens

abbrev tokenDiscipline (ι : Type) : Discipline Row UUID Answer Failure ι Journal :=
  tracking tokenTables ι

/-! ## Deeds -/

/-- The row that `issue_token_pair` adds. -/
structure Issuing [Platform] (journal : Journal) (rawRefresh : String) (token : RefreshToken) :
    Prop where
  drawn : .called (.tokenUrlsafe 48) rawRefresh ∈ journal
  tokenHash : token.tokenHash = tokenFingerprint rawRefresh
  live : token.revokedAt = none
  unreplaced : token.replacedByHash = none

/-- `login` starts a family. -/
structure LoggingIn [Platform] (journal : Journal) (rawRefresh : String) (token : RefreshToken) :
    Prop extends Issuing journal rawRefresh token where
  writes : writesIn journal = [.insert .refreshTokens token]
  family : .called .uuid4 token.familyId ∈ journal

/-- `rotate_refresh_token` of a locked token. -/
structure Rotating [Platform] (rawToken : String) (journal : Journal) (token : RefreshToken)
    (rawRefresh : String) (successor : RefreshToken) : Prop
    extends Issuing journal rawRefresh successor where
  reads : ∃ at_ rest, journal = .held .refreshTokens token :: .called .now at_ :: rest ∧
    at_ < token.expiresAt
  writes : ∃ at_, writesIn journal = [.insert .refreshTokens successor,
    .update .refreshTokens token.id (RefreshToken.replace at_ successor.tokenHash)]
  hash : token.tokenHash = tokenFingerprint rawToken
  unrevoked : token.revokedAt = none
  family : successor.familyId = token.familyId
  user : successor.userId = token.userId

theorem Rotating.held [Platform] {rawToken rawRefresh : String} {journal : Journal}
    {token successor : RefreshToken} (h : Rotating rawToken journal token rawRefresh successor) :
    .held .refreshTokens token ∈ journal := by
  obtain ⟨_, _, rfl, _⟩ := h.reads
  simp

/-- `revoke_refresh_token` of a locked token. -/
structure Revoking [Platform] (rawToken : String) (journal : Journal) (token : RefreshToken) :
    Prop where
  held : .held .refreshTokens token ∈ journal
  hash : token.tokenHash = tokenFingerprint rawToken
  writes : ∃ at_, writesIn journal =
    [.update .refreshTokens token.id (RefreshToken.revoke at_)]

/-- The cleanup deletes tokens that it has locked as expired. -/
structure Purging (journal : Journal) (ids : List UUID) : Prop where
  writes : writesIn journal = ids.map (.delete .refreshTokens)
  expired : ∃ at_, .called .now at_ ∈ journal ∧ ∀ id ∈ ids, ∃ token : RefreshToken,
    token.id = id ∧ .held .refreshTokens token ∈ journal ∧ token.expiresAt < at_

/-- What a request has done to the refresh tokens when it commits. -/
inductive TokenDeed [Platform] (journal : Journal) : Request → Prop where
  | none {request} (h : writesIn journal = []) (hrequest : ∀ args, request ≠ .refresh args) :
    TokenDeed journal request
  | started {clientIp args} (rawRefresh : String) (token : RefreshToken)
    (h : LoggingIn journal rawRefresh token) : TokenDeed journal (.login clientIp args)
  | rotated {rawToken} (token : RefreshToken) (rawRefresh : String) (successor : RefreshToken)
    (h : Rotating rawToken journal token rawRefresh successor) :
    TokenDeed journal (.refresh (some rawToken))
  | revoked {rawToken} (token : RefreshToken) (h : Revoking rawToken journal token) :
    TokenDeed journal (.logout (some rawToken))
  | purged (ids : List UUID) (h : Purging journal ids) : TokenDeed journal .cleanup

section Requests

variable [Platform] {ι β : Type} {i : ι} {journal : Journal}

/-! ## The journals of the requests -/

/-- What `issue_token_pair` adds to a journal. -/
structure Issued (user : User) (familyId : Option UUID) (journal journal' : Journal)
    (pair : TokenPair) (token : RefreshToken) : Prop
    extends Issuing journal' pair.refreshToken token where
  grows : journal <+: journal'
  writes : writesIn journal' = writesIn journal ++ [.insert .refreshTokens token]
  user : token.userId = user.id
  family : ∀ f ∈ familyId, token.familyId = f
  founded : familyId = none → .called .uuid4 token.familyId ∈ journal'

theorem obeys_issuing (user : User) (familyId : Option UUID) :
    (tokenDiscipline ι).Obeys i
      (fun journal' pair => ∃ token, Issued user familyId journal journal' pair token) journal
      (issueTokenPair user familyId) := by
  refine tracking_call fun rawRefresh => ?_
  refine tracking_quiet confined_now fun at_ => ?_
  -- `new` is what choosing the family has added.
  have hissue : ∀ (family : UUID) (new : Journal), writesIn new = [] →
      (∀ f ∈ familyId, family = f) → (familyId = none → .called .uuid4 family ∈ new) →
      (tokenDiscipline ι).Obeys i
        (fun journal' pair => ∃ token, Issued user familyId journal journal' pair token)
        (journal ++ [.called (.tokenUrlsafe 48) rawRefresh] ++ new) (do
          let id ← uuid4
          insertRow (t := .refreshTokens)
            { id, userId := user.id, tokenHash := tokenFingerprint rawRefresh, familyId := family,
              expiresAt := at_ + days Platform.settings.refreshTokenDays, revokedAt := none,
              replacedByHash := none, createdAt := at_ }
          let accessToken ← call (.createAccessToken user.id.str)
          return { accessToken, refreshToken := rawRefresh }) := by
    intro family new hw hgiven hdrawn
    refine tracking_quiet confined_uuid4 fun id => ?_
    refine tracking_insert (t := .refreshTokens) rfl ?_
    refine tracking_quiet (confined_call _ trivial) fun accessToken => ?_
    refine ⟨⟨id, user.id, tokenFingerprint rawRefresh, family,
        at_ + days Platform.settings.refreshTokenDays, none, none, at_⟩, ?_⟩
    exact
      { drawn := by simp
        tokenHash := rfl
        live := rfl
        unreplaced := rfl
        grows := by simp [List.append_assoc]
        writes := by simp [writesIn_cons, Fact.op?, hw]
        user := rfl
        family := hgiven
        founded := fun h => by simp [hdrawn h] }
  cases familyId with
  | some familyId =>
    have h := hissue familyId [] rfl (fun f hf => by simpa using hf) (by simp)
    rwa [List.append_nil] at h
  | none =>
    refine tracking_call fun family => ?_
    exact hissue family [.called .uuid4 family] rfl (by simp) fun _ => List.mem_singleton_self _

theorem obeys_rotating (rawToken : String) :
    (tokenDiscipline ι).Obeys i (fun journal _ => ∃ token rawRefresh successor,
      Rotating rawToken journal token rawRefresh successor) [] (rotateRefreshToken rawToken) := by
  refine tracking_lock (t := .refreshTokens) rfl (fun db r h => List.mem_of_find?_eq_some h)
    (by simp) (tracking_call fun at_ => trivial) fun db token hfound => ?_
  have hhash : token.tokenHash = tokenFingerprint rawToken := by
    simpa using List.find?_some hfound
  refine tracking_call fun at_ => ?_
  dsimp only
  split
  · trivial
  · rename_i hlive
    simp only [Bool.or_eq_true, decide_eq_true_eq, not_or, Option.not_isSome_iff_eq_none,
      not_le] at hlive
    refine tracking_select fun view => ?_
    cases huser : ((view .users).find? (·.id = token.userId)).filter (·.isActive) with
    | none => trivial
    | some user =>
      have hid : user.id = token.userId := by
        obtain ⟨hfound, _⟩ := Option.filter_eq_some_iff.mp huser
        simpa using List.find?_some hfound
      refine (obeys_issuing user (some token.familyId)).bind fun journal pair h => ?_
      obtain ⟨successor, h⟩ := h
      refine tracking_update (t := .refreshTokens) rfl ?_
      refine ⟨token, pair.refreshToken, successor,
        { drawn := List.mem_append_left _ h.drawn
          tokenHash := h.tokenHash
          live := h.live
          unreplaced := h.unreplaced
          reads := ?_
          writes := ⟨at_, by simp [h.writes, writesIn_cons, Fact.op?, h.tokenHash]⟩
          hash := hhash
          unrevoked := hlive.1
          family := h.family _ rfl
          user := h.user.trans hid }⟩
      obtain ⟨rest, hrest⟩ := h.grows
      refine ⟨at_, rest ++ [.wrote (.update .refreshTokens token.id
        (RefreshToken.replace at_ (tokenFingerprint pair.refreshToken)))], ?_, hlive.2⟩
      simp [← hrest]

theorem obeys_revoking (rawToken : String) :
    (tokenDiscipline ι).Obeys i
      (fun journal _ => writesIn journal = [] ∨ ∃ token, Revoking rawToken journal token) []
      (revokeRefreshToken rawToken) := by
  refine tracking_lock (t := .refreshTokens) rfl (fun db r h => List.mem_of_find?_eq_some h)
    (by simp) (.inl rfl) fun db token hfound => ?_
  have hhash : token.tokenHash = tokenFingerprint rawToken := by
    simpa using List.find?_some hfound
  dsimp only
  split
  · refine tracking_quiet confined_now fun at_ => ?_
    refine (tracking_updateRow (t := .refreshTokens) rfl).mono fun journal _ h => ?_
    exact .inr ⟨token, by simp [h], hhash, at_, by simp [h, writesIn_cons, Fact.op?]⟩
  · exact .inl (by simp [writesIn_cons, Fact.op?])

omit [Platform] in
/-- Rows are deleted one by one. -/
theorem obeys_deleteRows (ids : List UUID) :
    (tokenDiscipline ι).Obeys i
      (fun journal' _ => ∃ gone, gone ⊆ ids ∧ journal <+: journal' ∧
        writesIn journal' = writesIn journal ++ gone.map (.delete .refreshTokens)) journal
      (deleteRows .refreshTokens ids) := by
  induction ids generalizing journal with
  | nil => exact ⟨[], List.Subset.refl _, List.prefix_refl _, by simp⟩
  | cons id ids ih =>
    have hfirst : (tokenDiscipline ι).Obeys i
        (fun journal' _ => ∃ gone, gone ⊆ [id] ∧ journal <+: journal' ∧
          writesIn journal' = writesIn journal ++ gone.map (.delete .refreshTokens)) journal
        (deleteRow .refreshTokens id) := by
      refine tracking_delete rfl (fun _ => rfl) ?_ ?_
      · exact ⟨[id], List.Subset.refl _, List.prefix_append _ _, by simp [writesIn_cons, Fact.op?]⟩
      · exact ⟨[], List.nil_subset _, List.prefix_refl _, by simp⟩
    refine hfirst.bind fun journal' _ h => ?_
    obtain ⟨gone, hgone, hgrows, hw⟩ := h
    refine ih.mono fun journal'' _ h => ?_
    obtain ⟨gone', hgone', hgrows', hw'⟩ := h
    refine ⟨gone ++ gone', ?_, hgrows.trans hgrows', by simp [hw, hw']⟩
    refine List.append_subset.mpr ⟨fun a ha => ?_, fun a ha => ?_⟩
    · exact List.mem_cons.mpr (.inl (List.mem_singleton.mp (hgone ha)))
    · exact List.mem_cons_of_mem _ (hgone' ha)

omit [Platform] in
theorem obeys_purging :
    (tokenDiscipline ι).Obeys i (fun journal _ => ∃ ids, Purging journal ids) []
      cleanupExpiredState := by
  refine tracking_call fun at_ => ?_
  refine tracking_skip (F := { deletes := [.idempotencyRecords] })
    (confined_deleteWhere (by simp) (by simp [cascadeTables]) _) (by simp) (by simp) (by decide)
    fun _ => ?_
  have hpurge : (tokenDiscipline ι).Obeys i (fun journal _ => ∃ ids, Purging journal ids)
      [.called .now at_]
      (deleteWhere .refreshTokens fun r : RefreshToken => decide (r.expiresAt < at_)) := by
    refine journal_selectForUpdate fun view => ?_
    let locked := (view .refreshTokens).filter fun r => decide (r.expiresAt < at_)
    refine ⟨locked.map (.held .refreshTokens), fun f hf => ?_, trivial, ?_⟩
    · obtain ⟨r, hr, rfl⟩ := List.mem_map.mp hf
      exact ⟨.refreshTokens, r, rfl, rfl, by simp [writesIn_cons, Fact.op?],
        List.mem_of_mem_filter hr, List.mem_map_of_mem (List.mem_map_of_mem hr)⟩
    · refine (obeys_deleteRows _).mono fun journal' _ h => ?_
      obtain ⟨gone, hgone, ⟨rest, hrest⟩, hw⟩ := h
      refine ⟨gone, ?_, at_, by simp [← hrest], fun id hid => ?_⟩
      · rw [hw]
        simp [writesIn, Fact.op?]
      · obtain ⟨r, hr, rfl⟩ := List.mem_map.mp (hgone hid)
        obtain ⟨_, hexpired⟩ := List.mem_filter.mp hr
        refine ⟨r, rfl, ?_, of_decide_eq_true hexpired⟩
        rw [← hrest]
        exact List.mem_append_left _ (List.mem_append_right _ (List.mem_map_of_mem hr))
  refine hpurge.bind fun journal _ h => ?_
  refine tracking_quiet confined_now fun updatedAt => ?_
  have hexpire : ∀ pr : Invitation → Bool, (tokenDiscipline ι).Obeys i
      (fun journal' _ => journal' = journal) journal
      (updateWhere .invitations pr (Invitation.setStatus .expired updatedAt)) := fun pr =>
    tracking_still (F := { writes := [.invitations] })
      (confined_updateWhere (t := .invitations) (by simp) pr fun _ => rfl) (by decide) (by decide)
      (by simp)
  refine (hexpire _).mono ?_
  rintro journal' _ rfl
  exact h

/-- The journal of every request that commits tells what it has done. -/
theorem obeys_tokenDeed (request : Request) :
    (tokenDiscipline ι).Obeys i (fun journal _ => TokenDeed journal request) []
      request.handler := by
  have hother : (∀ args, request ≠ .refresh args) →
      (∀ t ∈ request.scope.writes ++ request.scope.deletes, tokenTables t = true → False) →
      (tokenDiscipline ι).Obeys i (fun journal _ => TokenDeed journal request) []
        request.handler := by
    intro hrequest h
    refine (tracking_other (confined_request request) h).mono fun journal _ hnone => ?_
    exact .none (List.eq_nil_iff_forall_not_mem.mpr hnone) hrequest
  cases request with
  | login clientIp args =>
    have hlogin : (tokenDiscipline ι).Obeys i
        (fun journal _ => TokenDeed journal (.login clientIp args)) []
        (issueLoginTokens clientIp args) := by
      refine tracking_validated fun a _ _ => ?_
      refine tracking_quiet (confined_call _ trivial) fun limit => ?_
      refine tracking_quiet (confined_orRaise _ _) fun result => ?_
      split
      · trivial
      · refine tracking_quiet (confined_authenticate _ _) fun user => ?_
        refine (obeys_issuing user none).mono fun journal pair h => ?_
        obtain ⟨token, h⟩ := h
        exact .started pair.refreshToken token ⟨h.toIssuing, h.writes, h.founded rfl⟩
    exact hlogin.bind fun journal pair h => h
  | refresh args =>
    have hrefresh : (tokenDiscipline ι).Obeys i
        (fun journal _ => TokenDeed journal (.refresh args)) [] (TenantFlow.refresh args) := by
      refine tracking_validated fun rawToken hargs _ => ?_
      subst hargs
      refine (obeys_rotating rawToken).mono fun journal pair h => ?_
      obtain ⟨token, rawRefresh, successor, h⟩ := h
      exact .rotated token rawRefresh successor h
    exact hrefresh.bind fun journal pair h => h
  | logout args =>
    have hlogout : (tokenDiscipline ι).Obeys i
        (fun journal _ => TokenDeed journal (.logout args)) [] (TenantFlow.logout args) := by
      refine tracking_validated fun rawToken hargs _ => ?_
      subst hargs
      refine (obeys_revoking rawToken).mono fun journal _ h => ?_
      rcases h with h | ⟨token, h⟩
      · exact .none h (by simp)
      · exact .revoked token h
    exact hlogout.bind fun journal _ h => h
  | cleanup =>
    refine obeys_purging.bind fun journal _ h => ?_
    obtain ⟨ids, h⟩ := h
    exact .purged ids h
  | organization organizationId userId request =>
    refine hother (by simp) ?_
    cases request <;> simp [Request.scope, OrganizationRequest.scope, tokenTables]
  | _ => exact hother (by simp) (by simp [Request.scope, tokenTables])

/-- The journals over the refresh tokens of a run. -/
abbrev TokenRun (requests : ι → Request) (db : Db Row) (journals : ι → Journal)
    (sys : Sys Row UUID Answer Failure Response ι) : Prop :=
  Recorded (tableTopic tokenTables) (fun i => (requests i).scope) (fun _ _ => True)
    (fun i journal _ => TokenDeed journal (requests i)) db journals sys

/-- Every run of requests has journals that tell what each has done. -/
theorem exists_tokenDeeds [DecidableEq ι] {requests : ι → Request} {db : Db Row}
    {sys : Sys Row UUID Answer Failure Response ι} (hdb : Unclashing db)
    (hr : Reachable (fun i => (requests i).handler) db sys) :
    ∃ journals, TokenRun requests db journals sys :=
  exists_chronicle hdb (fun i => obeys_tokenDeed (requests i)) (fun _ => trivial) hr

/-! ## What a commit makes of the tokens -/

inductive TokenStep (journal : Journal) (old new : List RefreshToken) : Request → Prop where
  | same {request} (h : new = old) (hrequest : ∀ args, request ≠ .refresh args) :
    TokenStep journal old new request
  | started {clientIp args} (rawRefresh : String) (token : RefreshToken)
    (h : LoggingIn journal rawRefresh token) (hnew : new = old ++ [token]) :
    TokenStep journal old new (.login clientIp args)
  | rotated {rawToken} (token : RefreshToken) (rawRefresh : String) (successor : RefreshToken)
    (at_ : Datetime) (h : Rotating rawToken journal token rawRefresh successor)
    (hmem : token ∈ old)
    (hnew : new = old.map (fun r =>
      if r.id = token.id then r.replace at_ successor.tokenHash else r) ++ [successor]) :
    TokenStep journal old new (.refresh (some rawToken))
  | revoked {rawToken} (token : RefreshToken) (at_ : Datetime)
    (h : Revoking rawToken journal token) (hmem : token ∈ old)
    (hnew : new = old.map fun r => if r.id = token.id then r.revoke at_ else r) :
    TokenStep journal old new (.logout (some rawToken))
  | purged (ids : List UUID) (at_ : Datetime) (hnow : .called .now at_ ∈ journal)
    (hexpired : ∀ r ∈ old, r.id ∈ ids → r.expiresAt < at_)
    (hnew : new = old.filter fun r => r.id ∉ ids) : TokenStep journal old new .cleanup

omit [Platform] in
theorem replay_purge (ids : List UUID) (db : Db Row) :
    replay (ids.map (.delete .refreshTokens)) db .refreshTokens =
      (db .refreshTokens).filter fun r => r.id ∉ ids := by
  induction ids generalizing db with
  | nil => simp
  | cons id ids ih =>
    rw [List.map_cons, replay_cons, ih, apply_delete_self, List.filter_filter]
    refine List.filter_congr fun r _ => ?_
    have hpk : pk (t := Table.refreshTokens) r = r.id := rfl
    simp [hpk, Bool.and_comm]

section Step

variable {requests : ι → Request} {db : Db Row} {journals : ι → Journal}
  {sys : Sys Row UUID Answer Failure Response ι}
  {before mid after : List (ι × Entry Row UUID Answer)}
  {ops : List (Op Row UUID)}

theorem TokenRun.deed (hrun : TokenRun requests db journals sys)
    (htrace : sys.trace = before ++ (i, .committed ops) :: after) :
    TokenDeed (journals i) (requests i) := by
  obtain ⟨_, _, _, hdeed⟩ := hrun.committed i before ops after htrace
  exact hdeed

theorem TokenRun.step (hrun : TokenRun requests db journals sys)
    (htrace : sys.trace = before ++ (i, .committed ops) :: after) :
    TokenStep (journals i) (dbAfter db before .refreshTokens)
      (dbAfter db (before ++ [(i, .committed ops)]) .refreshTokens) (requests i) := by
  rw [hrun.dbAfter_commit htrace rfl]
  have hdeed := hrun.deed htrace
  generalize requests i = request at hdeed
  cases hdeed with
  | none h hrequest =>
    refine .same ?_ hrequest
    rw [h]
    rfl
  | started rawRefresh token h =>
    refine .started rawRefresh token h ?_
    rw [h.writes]
    rfl
  | rotated token rawRefresh successor h =>
    obtain ⟨at_, hw⟩ := h.writes
    have hheld := hrun.held htrace h.held
    refine .rotated token rawRefresh successor at_ h hheld ?_
    have hne : successor.id ≠ token.id := by
      refine Ne.symm (hrun.fresh_key (t := .refreshTokens) htrace ?_ (fun hdel => ?_) token hheld)
      · exact (hrun.mem_writesIn htrace rfl).mp (by rw [hw]; simp)
      · have hwrite := (hrun.mem_writesIn htrace rfl).mpr hdel
        simp [hw] at hwrite
    rw [hw, replay_cons, replay_cons, replay_nil, apply_update_self, apply_insert_self,
      List.map_append, List.map_singleton]
    exact congrArg (List.map _ _ ++ [·]) (if_neg hne)
  | revoked token h =>
    obtain ⟨at_, hw⟩ := h.writes
    refine .revoked token at_ h (hrun.held htrace h.held) ?_
    rw [hw, replay_cons, replay_nil, apply_update_self]
    rfl
  | purged ids h =>
    obtain ⟨at_, hnow, hexpired⟩ := h.expired
    refine .purged ids at_ hnow (fun r hr hid => ?_) ?_
    · obtain ⟨token, hid, hheld, hexpired⟩ := hexpired r.id hid
      rwa [← hrun.eq_of_pk htrace (hrun.held htrace hheld) hr hid]
    · rw [h.writes, replay_purge]

/-! ## Versions of a token -/

/-- How a token is added: with a family of its own, or in the place of a live one. -/
structure Added (journal : Journal) (old : List RefreshToken) (token : RefreshToken) : Prop where
  issued : ∃ rawRefresh, Issuing journal rawRefresh token
  family : .called .uuid4 token.familyId ∈ journal ∨
    ∃ s ∈ old, s.revokedAt = none ∧ s.familyId = token.familyId

/-- `r` is what a commit has made of `s`. -/
structure Later (journal : Journal) (s r : RefreshToken) : Prop where
  blank_eq : blank (t := .refreshTokens) r = blank (t := .refreshTokens) s
  revoked : s.revokedAt ≠ none → r.revokedAt ≠ none
  successor : r.replacedByHash = s.replacedByHash ∨ ∃ rawRefresh,
    .called (.tokenUrlsafe 48) rawRefresh ∈ journal ∧
      r.replacedByHash = some (tokenFingerprint rawRefresh)

theorem Later.refl {journal : Journal} (r : RefreshToken) : Later journal r r :=
  ⟨rfl, fun h => h, .inl rfl⟩

theorem Later.columns {journal : Journal} {s r : RefreshToken} (h : Later journal s r) :
    r.id = s.id ∧ r.userId = s.userId ∧ r.tokenHash = s.tokenHash ∧ r.familyId = s.familyId := by
  have hblank := h.blank_eq
  simp only [blank, RefreshToken.mk.injEq] at hblank
  exact ⟨hblank.1, hblank.2.1, hblank.2.2.1, hblank.2.2.2.1⟩

omit [Platform] in
theorem mem_map_assigned {l : List RefreshToken} {id : UUID} {f : RefreshToken → RefreshToken}
    {r : RefreshToken} (h : r ∈ l.map fun r => if r.id = id then f r else r) :
    (r ∈ l ∧ r.id ≠ id) ∨ ∃ s ∈ l, s.id = id ∧ r = f s := by
  obtain ⟨s, hs, rfl⟩ := List.mem_map.mp h
  split
  · rename_i hid
    exact .inr ⟨s, hs, hid, rfl⟩
  · rename_i hid
    exact .inl ⟨hs, hid⟩

variable {journal : Journal} {old new : List RefreshToken} {request : Request}

/-- Where the tokens after a commit come from. -/
theorem TokenStep.origin (h : TokenStep journal old new request) {r : RefreshToken}
    (hr : r ∈ new) : (∃ s ∈ old, Later journal s r) ∨ Added journal old r := by
  cases h with
  | same h hrequest =>
    subst h
    exact .inl ⟨r, hr, .refl r⟩
  | started rawRefresh token h hnew =>
    subst hnew
    rcases List.mem_append.mp hr with hr | hr
    · exact .inl ⟨r, hr, .refl r⟩
    · obtain rfl := List.mem_singleton.mp hr
      exact .inr ⟨⟨rawRefresh, h.toIssuing⟩, .inl h.family⟩
  | rotated token rawRefresh successor at_ h hmem hnew =>
    subst hnew
    rcases List.mem_append.mp hr with hr | hr
    · rcases mem_map_assigned hr with ⟨hr, _⟩ | ⟨s, hs, hid, rfl⟩
      · exact .inl ⟨r, hr, .refl r⟩
      · refine .inl ⟨s, hs, rfl, fun _ => by simp [RefreshToken.replace], ?_⟩
        exact .inr ⟨rawRefresh, h.drawn, by simp [RefreshToken.replace, h.tokenHash]⟩
    · obtain rfl := List.mem_singleton.mp hr
      exact .inr ⟨⟨rawRefresh, h.toIssuing⟩, .inr ⟨token, hmem, h.unrevoked, h.family.symm⟩⟩
  | revoked token at_ h hmem hnew =>
    subst hnew
    rcases mem_map_assigned hr with ⟨hr, _⟩ | ⟨s, hs, hid, rfl⟩
    · exact .inl ⟨r, hr, .refl r⟩
    · exact .inl ⟨s, hs, rfl, fun _ => by simp [RefreshToken.revoke], .inl rfl⟩
  | purged ids at_ hnow hexpired hnew =>
    subst hnew
    exact .inl ⟨r, List.mem_of_mem_filter hr, .refl r⟩

/-- Among tokens none of which is live, and to which none is added, none becomes live. -/
theorem TokenStep.stay_revoked (h : TokenStep journal old new request) {P : RefreshToken → Prop}
    (hP : ∀ s r, Later journal s r → P r → P s) (hold : ∀ r ∈ old, P r → r.revokedAt ≠ none)
    (hadded : ∀ r, Added journal old r → ¬ P r) {r : RefreshToken} (hr : r ∈ new) (hPr : P r) :
    r.revokedAt ≠ none ∧ ∃ s ∈ old, s.id = r.id := by
  rcases h.origin hr with ⟨s, hs, hlater⟩ | hnew
  · exact ⟨hlater.revoked (hold s hs (hP s r hlater hPr)), s, hs, hlater.columns.1.symm⟩
  · exact absurd hPr (hadded r hnew)

/-- A commit changes a token only for who knows it, or once it has expired. -/
theorem TokenStep.untouched (h : TokenStep journal old new request)
    (hids : ∀ r ∈ old, ∀ s ∈ old, r.id = s.id → r = s) {r : RefreshToken} (hr : r ∈ old) :
    r ∈ new ∨
      (∃ rawToken, r.tokenHash = tokenFingerprint rawToken ∧
        (request = .refresh (some rawToken) ∨ request = .logout (some rawToken))) ∨
      (request = .cleanup ∧ (∃ at_, .called .now at_ ∈ journal ∧ r.expiresAt < at_) ∧
        ∀ s ∈ new, s.id ≠ r.id) := by
  have hassigned : ∀ {token : RefreshToken} (f : RefreshToken → RefreshToken), token ∈ old →
      r ∈ (old.map fun r => if r.id = token.id then f r else r) ∨ r = token := by
    intro token f htoken
    by_cases hid : r.id = token.id
    · exact .inr (hids r hr token htoken hid)
    · exact .inl (List.mem_map.mpr ⟨r, hr, if_neg hid⟩)
  cases h with
  | same h hrequest => exact .inl (h ▸ hr)
  | started rawRefresh token h hnew => exact .inl (hnew ▸ List.mem_append_left _ hr)
  | rotated token rawRefresh successor at_ h hmem hnew =>
    rcases hassigned (RefreshToken.replace at_ successor.tokenHash) hmem with hr | rfl
    · exact .inl (hnew ▸ List.mem_append_left _ hr)
    · exact .inr (.inl ⟨_, h.hash, .inl rfl⟩)
  | revoked token at_ h hmem hnew =>
    rcases hassigned (RefreshToken.revoke at_) hmem with hr | rfl
    · exact .inl (hnew ▸ hr)
    · exact .inr (.inl ⟨_, h.hash, .inr rfl⟩)
  | purged ids at_ hnow hexpired hnew =>
    by_cases hid : r.id ∈ ids
    · refine .inr (.inr ⟨rfl, ⟨at_, hnow, hexpired r hr hid⟩, fun s hs hsame => ?_⟩)
      rw [hnew] at hs
      exact of_decide_eq_true (List.mem_filter.mp hs).2 (hsame ▸ hid)
    · exact .inl (hnew ▸ List.mem_filter.mpr ⟨hr, decide_eq_true hid⟩)

/-! ## Families -/

/-- Every family has at most one live token, and a successor belongs to the family and the user
of the one token that it succeeds. -/
structure Families (tokens : List RefreshToken) : Prop where
  live : ∀ r ∈ tokens, ∀ s ∈ tokens, r.familyId = s.familyId → r.revokedAt = none →
    s.revokedAt = none → r = s
  successor : ∀ r ∈ tokens, ∀ s ∈ tokens, r.replacedByHash = some s.tokenHash →
    s.familyId = r.familyId ∧ s.userId = r.userId
  shared : ∀ r ∈ tokens, ∀ s ∈ tokens, r.replacedByHash = s.replacedByHash →
    r.replacedByHash ≠ none → r = s

/-- What a process has drawn is new to the tokens. -/
structure NewDraws [Platform] (journal : Journal) (old : List RefreshToken) : Prop where
  token : ∀ rawRefresh, .called (.tokenUrlsafe 48) rawRefresh ∈ journal → ∀ r ∈ old,
    r.tokenHash ≠ tokenFingerprint rawRefresh ∧
      r.replacedByHash ≠ some (tokenFingerprint rawRefresh)
  family : ∀ id, .called .uuid4 id ∈ journal → ∀ r ∈ old, r.familyId ≠ id

omit [Platform] in
/-- The tokens after an assignment to one of them. -/
theorem mem_map_of_token {token : RefreshToken}
    (hids : ∀ r ∈ old, ∀ s ∈ old, r.id = s.id → r = s) (hmem : token ∈ old)
    {f : RefreshToken → RefreshToken} {r : RefreshToken}
    (hr : r ∈ old.map fun r => if r.id = token.id then f r else r) :
    (r ∈ old ∧ r.id ≠ token.id) ∨ r = f token := by
  rcases mem_map_assigned hr with h | ⟨s, hs, hid, rfl⟩
  · exact .inl h
  · exact .inr (congrArg f (hids s hs token hmem hid))

/-- A token is revoked, and perhaps replaced by one that is new. -/
theorem Families.assign (h : Families old) {token : RefreshToken}
    (hids : ∀ r ∈ old, ∀ s ∈ old, r.id = s.id → r = s) (hmem : token ∈ old)
    {f : RefreshToken → RefreshToken} (hf : Later journal token (f token))
    (hrevoked : (f token).revokedAt ≠ none) (hdraws : NewDraws journal old) :
    Families (old.map fun r => if r.id = token.id then f r else r) := by
  obtain ⟨hid, huser, hhash, hfamily⟩ := hf.columns
  constructor
  · intro r hr s hs hsame hlive hlive'
    rcases mem_map_of_token hids hmem hr with ⟨hr, _⟩ | rfl
    · rcases mem_map_of_token hids hmem hs with ⟨hs, _⟩ | rfl
      · exact h.live r hr s hs hsame hlive hlive'
      · exact absurd hlive' hrevoked
    · exact absurd hlive hrevoked
  · intro r hr s hs hlink
    -- The token that `s` was.
    obtain ⟨s', hs', hsame⟩ : ∃ s' ∈ old, s'.tokenHash = s.tokenHash ∧
        s'.familyId = s.familyId ∧ s'.userId = s.userId := by
      rcases mem_map_of_token hids hmem hs with ⟨hs, _⟩ | rfl
      · exact ⟨s, hs, rfl, rfl, rfl⟩
      · exact ⟨token, hmem, hhash.symm, hfamily.symm, huser.symm⟩
    obtain ⟨hhash', hfamily', huser'⟩ := hsame
    rw [← hfamily', ← huser']
    rw [← hhash'] at hlink
    rcases mem_map_of_token hids hmem hr with ⟨hr, _⟩ | rfl
    · exact h.successor r hr s' hs' hlink
    · rcases hf.successor with hold | ⟨rawRefresh, hdrawn, hnew⟩
      · rw [hfamily, huser]
        exact h.successor token hmem s' hs' (hold.symm.trans hlink)
      · have heq := Option.some.inj (hnew.symm.trans hlink)
        exact absurd heq.symm (hdraws.token rawRefresh hdrawn s' hs').1
  · have hother : ∀ s ∈ old, s.id ≠ token.id → (f token).replacedByHash = s.replacedByHash →
        s.replacedByHash = none := by
      intro s hs hne hsame
      rcases hf.successor with hold | ⟨rawRefresh, hdrawn, hnew⟩
      · by_contra hsome
        have hlink : token.replacedByHash = s.replacedByHash := hold.symm.trans hsame
        have heq := h.shared token hmem s hs hlink (by rwa [hlink])
        exact hne (congrArg RefreshToken.id heq.symm)
      · exact absurd (hsame.symm.trans hnew) (hdraws.token rawRefresh hdrawn s hs).2
    intro r hr s hs hsame hsome
    rcases mem_map_of_token hids hmem hr with ⟨hr, hne⟩ | rfl
    · rcases mem_map_of_token hids hmem hs with ⟨hs, _⟩ | rfl
      · exact h.shared r hr s hs hsame hsome
      · exact absurd (hother r hr hne hsame.symm) hsome
    · rcases mem_map_of_token hids hmem hs with ⟨hs, hne⟩ | rfl
      · exact absurd (hsame.trans (hother s hs hne hsame)) hsome
      · rfl

omit [Platform] in
theorem Families.add (h : Families old) {token : RefreshToken}
    (hlive : ∀ r ∈ old, r.familyId = token.familyId → r.revokedAt ≠ none)
    (hunreplaced : token.replacedByHash = none)
    (hsuccessor : ∀ r ∈ old, r.replacedByHash = some token.tokenHash →
      token.familyId = r.familyId ∧ token.userId = r.userId) :
    Families (old ++ [token]) := by
  constructor
  · intro r hr s hs hsame hlive₁ hlive₂
    rcases List.mem_append.mp hr with hrold | hrnew
    · rcases List.mem_append.mp hs with hsold | hsnew
      · exact h.live r hrold s hsold hsame hlive₁ hlive₂
      · obtain rfl := List.mem_singleton.mp hsnew
        exact absurd hlive₁ (hlive r hrold hsame)
    · obtain rfl := List.mem_singleton.mp hrnew
      rcases List.mem_append.mp hs with hsold | hsnew
      · exact absurd hlive₂ (hlive s hsold hsame.symm)
      · exact (List.mem_singleton.mp hsnew).symm
  · intro r hr s hs hlink
    rcases List.mem_append.mp hr with hrold | hrnew
    · rcases List.mem_append.mp hs with hsold | hsnew
      · exact h.successor r hrold s hsold hlink
      · obtain rfl := List.mem_singleton.mp hsnew
        exact hsuccessor r hrold hlink
    · obtain rfl := List.mem_singleton.mp hrnew
      simp [hunreplaced] at hlink
  · intro r hr s hs hsame hsome
    rcases List.mem_append.mp hr with hrold | hrnew
    · rcases List.mem_append.mp hs with hsold | hsnew
      · exact h.shared r hrold s hsold hsame hsome
      · obtain rfl := List.mem_singleton.mp hsnew
        exact absurd (hsame.trans hunreplaced) hsome
    · obtain rfl := List.mem_singleton.mp hrnew
      exact absurd hunreplaced hsome

theorem TokenStep.families (h : TokenStep journal old new request) (hold : Families old)
    (hids : ∀ r ∈ old, ∀ s ∈ old, r.id = s.id → r = s) (hdraws : NewDraws journal old) :
    Families new := by
  cases h with
  | same h hrequest => exact h ▸ hold
  | started rawRefresh token h hnew =>
    rw [hnew]
    refine hold.add (fun r hr hfamily => ?_) h.unreplaced fun r hr hlink => ?_
    · exact absurd hfamily (hdraws.family _ h.family r hr)
    · rw [h.tokenHash] at hlink
      exact absurd hlink (hdraws.token rawRefresh h.drawn r hr).2
  | rotated token rawRefresh successor at_ h hmem hnew =>
    rw [hnew]
    have hlater : Later journal token (token.replace at_ successor.tokenHash) :=
      ⟨rfl, fun _ => by simp [RefreshToken.replace],
        .inr ⟨rawRefresh, h.drawn, by simp [RefreshToken.replace, h.tokenHash]⟩⟩
    refine (hold.assign hids hmem hlater (by simp [RefreshToken.replace]) hdraws).add
      (fun r hr hfamily => ?_) h.unreplaced fun r hr hlink => ?_
    · rcases mem_map_of_token hids hmem hr with ⟨hr, hne⟩ | rfl
      · intro hlive
        have heq := hold.live r hr token hmem (hfamily.trans h.family) hlive h.unrevoked
        exact hne (congrArg RefreshToken.id heq)
      · simp [RefreshToken.replace]
    · rcases mem_map_of_token hids hmem hr with ⟨hr, hne⟩ | rfl
      · rw [h.tokenHash] at hlink
        exact absurd hlink (hdraws.token rawRefresh h.drawn r hr).2
      · exact ⟨h.family, h.user⟩
  | revoked token at_ h hmem hnew =>
    rw [hnew]
    exact hold.assign hids hmem ⟨rfl, fun _ => by simp [RefreshToken.revoke], .inl rfl⟩
      (by simp [RefreshToken.revoke]) hdraws
  | purged ids at_ hnow hexpired hnew =>
    have hsub : ∀ r ∈ new, r ∈ old := fun r hr => by
      rw [hnew] at hr
      exact List.mem_of_mem_filter hr
    exact ⟨fun r hr s hs => hold.live r (hsub r hr) s (hsub s hs),
      fun r hr s hs => hold.successor r (hsub r hr) s (hsub s hs),
      fun r hr s hs => hold.shared r (hsub r hr) s (hsub s hs)⟩

/-! ## What is drawn is new -/

/-- The hashes of the tokens that were drawn. -/
def drawnHashes (trace : List (ι × Entry Row UUID Answer)) : List String :=
  trace.filterMap fun e => match e.2 with
    | .called (.tokenUrlsafe 48) rawRefresh => some (tokenFingerprint rawRefresh)
    | _ => none

theorem mem_drawnHashes {trace : List (ι × Entry Row UUID Answer)} {rawRefresh : String}
    (h : (i, .called (.tokenUrlsafe 48) rawRefresh) ∈ trace) :
    tokenFingerprint rawRefresh ∈ drawnHashes trace :=
  List.mem_filterMap.mpr ⟨_, h, rfl⟩

/-- Tokens and families that are drawn differ from each other, the tokens by their hashes too,
and from those of the start. -/
structure FreshTokens (db : Db Row) (trace : List (ι × Entry Row UUID Answer)) : Prop where
  hashes : (drawnHashes trace).Nodup
  ids : (drawnIds trace).Nodup
  unused : ∀ r ∈ db .refreshTokens, r.tokenHash ∉ drawnHashes trace ∧
    (∀ h ∈ r.replacedByHash, h ∉ drawnHashes trace) ∧ r.familyId ∉ drawnIds trace

/-- Drawn by a process that has committed. -/
def DrawnBefore (journals : ι → Journal) (before : List (ι × Entry Row UUID Answer)) (c : Call)
    (x : Answer c) : Prop :=
  ∃ i ops, (i, .committed ops) ∈ before ∧ .called c x ∈ journals i

/-- Where the columns of a stored token come from. -/
structure Known (db : Db Row) (journals : ι → Journal) (before : List (ι × Entry Row UUID Answer))
    (r : RefreshToken) : Prop where
  hash : (∃ s ∈ db .refreshTokens, s.tokenHash = r.tokenHash) ∨ ∃ rawRefresh,
    DrawnBefore journals before (.tokenUrlsafe 48) rawRefresh ∧
      r.tokenHash = tokenFingerprint rawRefresh
  successor : ∀ h ∈ r.replacedByHash, (∃ s ∈ db .refreshTokens, s.replacedByHash = some h) ∨
    ∃ rawRefresh, DrawnBefore journals before (.tokenUrlsafe 48) rawRefresh ∧
      h = tokenFingerprint rawRefresh
  family : (∃ s ∈ db .refreshTokens, s.familyId = r.familyId) ∨
    DrawnBefore journals before .uuid4 r.familyId

omit [Platform] in
theorem DrawnBefore.extend {c : Call} {x : Answer c} (h : DrawnBefore journals before c x)
    (more : List (ι × Entry Row UUID Answer)) : DrawnBefore journals (before ++ more) c x := by
  obtain ⟨i, ops, hi, hx⟩ := h
  exact ⟨i, ops, List.mem_append_left _ hi, hx⟩

theorem Known.extend {r : RefreshToken} (h : Known db journals before r)
    (more : List (ι × Entry Row UUID Answer)) : Known db journals (before ++ more) r where
  hash := h.hash.imp_right fun ⟨raw, hdrawn, heq⟩ => ⟨raw, hdrawn.extend more, heq⟩
  successor hash hmem := (h.successor hash hmem).imp_right fun ⟨raw, hdrawn, heq⟩ =>
    ⟨raw, hdrawn.extend more, heq⟩
  family := h.family.imp_right fun hdrawn => hdrawn.extend more

theorem TokenRun.known (hrun : TokenRun requests db journals sys)
    (htrace : sys.trace = before ++ after) :
    ∀ r ∈ dbAfter db before .refreshTokens, Known db journals before r := by
  revert htrace
  refine prefix_induction (P := fun before => ∀ r ∈ dbAfter db before .refreshTokens,
    Known db journals before r) (fun r hr => ?_) ?_ before after
  · exact ⟨.inl ⟨r, hr, rfl⟩, fun h hh => .inl ⟨r, hr, hh⟩, .inl ⟨r, hr, rfl⟩⟩
  · rintro before ⟨i, e⟩ after htrace hbefore r hr
    cases e with
    | called c x => exact (hbefore r (by simpa using hr)).extend _
    | committed ops =>
      have hdrawn : ∀ {c : Call} {x : Answer c}, .called c x ∈ journals i →
          DrawnBefore journals (before ++ [(i, .committed ops)]) c x :=
        fun h => ⟨i, ops, by simp, h⟩
      rcases (hrun.step htrace).origin hr with ⟨s, hs, hlater⟩ | ⟨⟨rawRefresh, hnew⟩, hfamily⟩
      · have hknown := (hbefore s hs).extend [(i, .committed ops)]
        obtain ⟨_, _, hhash, hfamily⟩ := hlater.columns
        refine ⟨hhash ▸ hknown.hash, fun h hh => ?_, hfamily ▸ hknown.family⟩
        rcases hlater.successor with hsame | ⟨rawRefresh, hcalled, hsome⟩
        · exact hknown.successor h (hsame ▸ hh)
        · exact .inr ⟨rawRefresh, hdrawn hcalled, (Option.some.inj (hsome.symm.trans hh)).symm⟩
      · refine ⟨.inr ⟨rawRefresh, hdrawn hnew.drawn, hnew.tokenHash⟩, fun h hh => ?_, ?_⟩
        · rw [hnew.unreplaced] at hh
          cases hh
        · rcases hfamily with hcalled | ⟨s, hs, _, hsame⟩
          · exact .inr (hdrawn hcalled)
          · exact hsame ▸ ((hbefore s hs).extend _).family

section Fresh

variable (hrun : TokenRun requests db journals sys)
  (hpairs : sys.trace.Pairwise fun x y => x.2.isCommit = true → y.2.isCommit = true → x.1 ≠ y.1)
  (hfresh : FreshTokens db sys.trace)

include hrun hpairs

theorem TokenRun.drawn_by_other (htrace : sys.trace = before ++ mid ++ (i, .committed ops) :: after)
    {c : Call} {x : Answer c} (h : DrawnBefore journals before c x) :
    ∃ j, j ≠ i ∧ (j, .called c x) ∈ sys.trace := by
  obtain ⟨j, ops', hj, hx⟩ := h
  refine ⟨j, ?_, (hrun.timed j).called hx⟩
  rw [htrace, List.append_assoc] at hpairs
  exact (List.pairwise_append.mp hpairs).2.2 _ hj (i, .committed ops) (by simp) rfl rfl

include hfresh

/-- What a process has drawn that commits is new to all earlier tokens. -/
theorem TokenRun.newDraws (htrace : sys.trace = before ++ mid ++ (i, .committed ops) :: after) :
    NewDraws (journals i) (dbAfter db before .refreshTokens) := by
  have hsplit : sys.trace = before ++ (mid ++ (i, .committed ops) :: after) := by
    rw [htrace, List.append_assoc]
  have hother : ∀ rawRefresh, .called (.tokenUrlsafe 48) rawRefresh ∈ journals i → ∀ rawRefresh',
      DrawnBefore journals before (.tokenUrlsafe 48) rawRefresh' →
      tokenFingerprint rawRefresh' ≠ tokenFingerprint rawRefresh := by
    intro rawRefresh hdrawn rawRefresh' hdrawn' heq
    obtain ⟨j, hji, hj⟩ := hrun.drawn_by_other hpairs htrace hdrawn'
    have hentry := eq_of_filterMap_nodup hfresh.hashes hj ((hrun.timed i).called hdrawn)
      (b := tokenFingerprint rawRefresh) (congrArg some heq) rfl
    exact hji (congrArg Prod.fst hentry)
  constructor
  · intro rawRefresh hdrawn r hr
    have hknown := hrun.known hsplit r hr
    have hmem := mem_drawnHashes ((hrun.timed i).called hdrawn)
    constructor
    · intro heq
      rcases hknown.hash with ⟨s, hs, hsame⟩ | ⟨rawRefresh', hdrawn', hsame⟩
      · exact (hfresh.unused s hs).1 ((hsame.trans heq) ▸ hmem)
      · exact hother rawRefresh hdrawn rawRefresh' hdrawn' (hsame.symm.trans heq)
    · intro heq
      rcases hknown.successor _ heq with ⟨s, hs, hsame⟩ | ⟨rawRefresh', hdrawn', hsame⟩
      · exact (hfresh.unused s hs).2.1 _ hsame hmem
      · exact hother rawRefresh hdrawn rawRefresh' hdrawn' hsame.symm
  · intro id hdrawn r hr heq
    have hcalled := (hrun.timed i).called hdrawn
    rcases (hrun.known hsplit r hr).family with ⟨s, hs, hsame⟩ | hdrawn'
    · exact (hfresh.unused s hs).2.2 ((hsame.trans heq) ▸ mem_drawnIds hcalled)
    · obtain ⟨j, hji, hj⟩ := hrun.drawn_by_other hpairs htrace hdrawn'
      have hentry := eq_of_filterMap_nodup hfresh.ids hj hcalled (b := id) (congrArg some heq) rfl
      exact hji (congrArg Prod.fst hentry)

/-- In every run families keep at most one live token. -/
theorem TokenRun.families (hdb : Families (db .refreshTokens))
    (htrace : sys.trace = before ++ after) : Families (dbAfter db before .refreshTokens) := by
  revert htrace
  refine prefix_induction (P := fun before => Families (dbAfter db before .refreshTokens)) hdb ?_
    before after
  rintro before ⟨i, e⟩ after htrace hbefore
  cases e with
  | called c x => simpa using hbefore
  | committed ops =>
    refine (hrun.step htrace).families hbefore (fun r hr s hs h => ?_) ?_
    · exact hrun.eq_of_pk (t := .refreshTokens) htrace hr hs h
    · exact hrun.newDraws hpairs hfresh (by rwa [List.append_nil])

omit hpairs hfresh in
/-- Where no token of a kind is live and none is added, none becomes live. -/
theorem TokenRun.stay_revoked {P : RefreshToken → Prop}
    (hP : ∀ r s, r.tokenHash = s.tokenHash → r.familyId = s.familyId → P r → P s)
    (htrace : sys.trace = before ++ mid ++ after)
    (hold : ∀ r ∈ dbAfter db before .refreshTokens, P r → r.revokedAt ≠ none)
    (hadded : ∀ start i ops rest, mid = start ++ (i, .committed ops) :: rest →
      (∀ r ∈ dbAfter db (before ++ start) .refreshTokens, P r → r.revokedAt ≠ none) →
      ∀ r, Added (journals i) (dbAfter db (before ++ start) .refreshTokens) r → ¬ P r) :
    ∀ r ∈ dbAfter db (before ++ mid) .refreshTokens, P r →
      r.revokedAt ≠ none ∧ ∃ s ∈ dbAfter db before .refreshTokens, s.id = r.id := by
  induction mid using List.reverseRecOn generalizing after with
  | nil =>
    rw [List.append_nil]
    exact fun r hr hPr => ⟨hold r hr hPr, r, hr, rfl⟩
  | append_singleton mid e ih =>
    obtain ⟨i, e⟩ := e
    have hsplit : sys.trace = before ++ mid ++ (i, e) :: after := by simpa using htrace
    have hmid := ih hsplit fun start j ops rest hm hrevoked =>
      hadded start j ops (rest ++ [(i, e)]) (by simp [hm]) hrevoked
    rw [← List.append_assoc]
    cases e with
    | called c x => simpa using hmid
    | committed ops =>
      intro r hr hPr
      have hnone := hadded mid i ops [] rfl fun r hr hPr => (hmid r hr hPr).1
      obtain ⟨hrevoked, s, hs, hid⟩ := (hrun.step hsplit).stay_revoked (fun s r hlater =>
        hP r s hlater.columns.2.2.1 hlater.columns.2.2.2) (fun r hr hPr => (hmid r hr hPr).1)
        hnone hr hPr
      refine ⟨hrevoked, ?_⟩
      rcases (hrun.step hsplit).origin hr with ⟨s', hs', hlater⟩ | hnew
      · have hPs := hP r s' hlater.columns.2.2.1 hlater.columns.2.2.2 hPr
        obtain ⟨_, s, hs, hid⟩ := hmid s' hs' hPs
        exact ⟨s, hs, hid.trans hlater.columns.1.symm⟩
      · exact absurd hPr (hnone r hnew)

/-- A family without a live token stays without, and gets no more tokens. -/
theorem TokenRun.closed {family : UUID} (htrace : sys.trace = before ++ mid ++ after)
    (hseen : ∃ r, WasCommitted db before .refreshTokens r ∧ r.familyId = family)
    (hnone : ∀ r ∈ dbAfter db before .refreshTokens, r.familyId = family → r.revokedAt ≠ none) :
    ∀ r ∈ dbAfter db (before ++ mid) .refreshTokens, r.familyId = family →
      r.revokedAt ≠ none ∧ ∃ s ∈ dbAfter db before .refreshTokens, s.id = r.id := by
  obtain ⟨r₀, ⟨early, late, rfl, hr₀⟩, rfl⟩ := hseen
  refine hrun.stay_revoked (fun r s _ hfamily h => hfamily.symm.trans h) htrace hnone ?_
  intro start i ops rest hmid hrevoked r hadded hfamily
  rcases hadded.family with hdrawn | ⟨s, hs, hlive, hsame⟩
  · have hsplit : sys.trace =
        early ++ (late ++ start) ++ (i, .committed ops) :: (rest ++ after) := by
      simp [htrace, hmid]
    exact (hrun.newDraws hpairs hfresh hsplit).family _ hdrawn r₀ hr₀ hfamily.symm
  · exact hrevoked s hs (hsame.trans hfamily) hlive

/-- After its rotation a token is not live any more, now or later. -/
theorem TokenRun.spent {rawToken : String} (hi : requests i = .refresh (some rawToken))
    (htrace : sys.trace = before ++ [(i, .committed ops)] ++ mid ++ after) :
    ∀ r ∈ dbAfter db (before ++ [(i, .committed ops)] ++ mid) .refreshTokens,
      r.tokenHash = tokenFingerprint rawToken → r.revokedAt ≠ none := by
  have hsplit : sys.trace = before ++ (i, .committed ops) :: (mid ++ after) := by simp [htrace]
  have hdraws := hrun.newDraws hpairs hfresh (by rwa [List.append_nil])
  have hstep := hrun.step hsplit
  rw [hi] at hstep
  cases hstep with
  | same h hrequest => exact absurd rfl (hrequest _)
  | rotated token rawRefresh successor at_ h hmem hnew =>
    have hunique := (hrun.unclashing before _ hsplit).unique .refreshTokens
    have hbefore : ∀ r ∈ dbAfter db (before ++ [(i, .committed ops)]) .refreshTokens,
        r.tokenHash = tokenFingerprint rawToken → r.revokedAt ≠ none := by
      intro r hr hhash
      rw [hnew] at hr
      rcases List.mem_append.mp hr with hr | hr
      · rcases mem_map_assigned hr with ⟨hr, hne⟩ | ⟨s, _, _, rfl⟩
        · have hclash := hunique r hr token hmem hne
          simp [clash, uniqueClash, hhash, h.hash] at hclash
        · simp [RefreshToken.replace]
      · obtain rfl := List.mem_singleton.mp hr
        have hsame : token.tokenHash = tokenFingerprint rawRefresh :=
          h.hash.trans (hhash.symm.trans h.tokenHash)
        exact absurd hsame (hdraws.token rawRefresh h.drawn token hmem).1
    refine fun r hr hhash => (hrun.stay_revoked (fun r s hhash _ h => hhash.symm.trans h) htrace
      hbefore (fun start j ops' rest hm _ r hadded hhash => ?_) r hr hhash).1
    obtain ⟨rawRefresh', hissued⟩ := hadded.issued
    have hlater : sys.trace = before ++ ((i, .committed ops) :: start) ++
        (j, .committed ops') :: (rest ++ after) := by
      simp [htrace, hm]
    have hsame : token.tokenHash = tokenFingerprint rawRefresh' :=
      h.hash.trans (hhash.symm.trans hissued.tokenHash)
    exact (hrun.newDraws hpairs hfresh hlater).token rawRefresh' hissued.drawn token hmem |>.1 hsame

/-- No token is rotated twice. -/
theorem TokenRun.not_rotated_after {rawToken : String}
    (hi : requests i = .refresh (some rawToken)) {j : ι}
    (hj : requests j = .refresh (some rawToken))
    {before' after' : List (ι × Entry Row UUID Answer)} {ops' : List (Op Row UUID)}
    (htrace' : sys.trace = before' ++ (j, .committed ops') :: after') :
    ¬ before ++ [(i, .committed ops)] <+: before' := by
  rintro ⟨mid, rfl⟩
  have hstep := hrun.step htrace'
  rw [hj] at hstep
  cases hstep with
  | same h hrequest => exact absurd rfl (hrequest _)
  | rotated token rawRefresh successor at_ h hmem hnew =>
    exact hrun.spent hpairs hfresh hi (by simpa using htrace') token hmem h.hash h.unrevoked

end Fresh

/-- What is known of the refresh tokens of a run. -/
structure TokenHistory (requests : ι → Request) (db : Db Row)
    (sys : Sys Row UUID Answer Failure Response ι) : Prop where
  families : ∀ before after, sys.trace = before ++ after →
    Families (dbAfter db before .refreshTokens)
  /-- Whoever rotates a token has locked it, live, and found it unexpired after that. -/
  rotation : ∀ before i ops after rawToken, sys.trace = before ++ (i, .committed ops) :: after →
    requests i = .refresh (some rawToken) →
    ∃ token start rest at_, before = start ++ rest ∧ token ∈ dbAfter db start .refreshTokens ∧
      token ∈ dbAfter db before .refreshTokens ∧
      token.tokenHash = tokenFingerprint rawToken ∧ token.revokedAt = none ∧
      (i, .called .now at_) ∈ rest ∧ at_ < token.expiresAt
  /-- A token is rotated at most once. -/
  once : ∀ i j ops ops' rawToken,
    (i, .committed ops) ∈ sys.trace → (j, .committed ops') ∈ sys.trace →
    requests i = .refresh (some rawToken) → requests j = .refresh (some rawToken) → i = j
  /-- A family without a live token stays without, and no more tokens are added to it. -/
  closed : ∀ before mid after family, sys.trace = before ++ mid ++ after →
    (∃ r, WasCommitted db before .refreshTokens r ∧ r.familyId = family) →
    (∀ r ∈ dbAfter db before .refreshTokens, r.familyId = family → r.revokedAt ≠ none) →
    ∀ r ∈ dbAfter db (before ++ mid) .refreshTokens, r.familyId = family →
      r.revokedAt ≠ none ∧ ∃ s ∈ dbAfter db before .refreshTokens, s.id = r.id
  /-- A token changes only for who knows it, or goes once it has expired. -/
  untouched : ∀ before i ops after r, sys.trace = before ++ (i, .committed ops) :: after →
    r ∈ dbAfter db before .refreshTokens →
    r ∈ dbAfter db (before ++ [(i, .committed ops)]) .refreshTokens ∨
      (∃ rawToken, r.tokenHash = tokenFingerprint rawToken ∧
        (requests i = .refresh (some rawToken) ∨ requests i = .logout (some rawToken))) ∨
      (requests i = .cleanup ∧ (∃ at_, (i, .called .now at_) ∈ before ∧ r.expiresAt < at_) ∧
        ∀ s ∈ dbAfter db (before ++ [(i, .committed ops)]) .refreshTokens, s.id ≠ r.id)

theorem TokenRun.rotation (hrun : TokenRun requests db journals sys) {rawToken : String}
    (htrace : sys.trace = before ++ (i, .committed ops) :: after)
    (hi : requests i = .refresh (some rawToken)) :
    ∃ token start rest at_, before = start ++ rest ∧ token ∈ dbAfter db start .refreshTokens ∧
      token ∈ dbAfter db before .refreshTokens ∧
      token.tokenHash = tokenFingerprint rawToken ∧ token.revokedAt = none ∧
      (i, .called .now at_) ∈ rest ∧ at_ < token.expiresAt := by
  have hstep := hrun.step htrace
  rw [hi] at hstep
  cases hstep with
  | same h hrequest => exact absurd rfl (hrequest _)
  | rotated token rawRefresh successor _ h hmem hnew =>
    obtain ⟨at_, more, hjournal, hunexpired⟩ := h.reads
    obtain ⟨start, rest, hsplit, hlocked, _, hcalled⟩ :=
      (hrun.committed i before ops after htrace).1.timed [] (.held .refreshTokens token)
        (.called .now at_ :: more) hjournal
    exact ⟨token, start, rest, at_, hsplit, hlocked, hmem, h.hash, h.unrevoked,
      hcalled .now at_ List.mem_cons_self, hunexpired⟩

/-- Refresh tokens, in every run of any requests, whatever is interleaved with what. -/
theorem refresh_tokens_rotate_once [DecidableEq ι] (hdb : Unclashing db)
    (hfamilies : Families (db .refreshTokens))
    (hr : Reachable (fun i => (requests i).handler) db sys) (hfresh : FreshTokens db sys.trace) :
    TokenHistory requests db sys := by
  obtain ⟨journals, hrun⟩ := exists_tokenDeeds hdb hr
  have hpairs := hr.commits_pairwise
  refine ⟨fun before after htrace => hrun.families hpairs hfresh hfamilies htrace,
    fun before i ops after rawToken htrace hi => hrun.rotation htrace hi, ?_,
    fun before mid after family htrace => hrun.closed hpairs hfresh htrace, ?_⟩
  · intro i j ops ops' rawToken hi hj hri hrj
    obtain ⟨before, after, htrace⟩ := List.append_of_mem hi
    obtain ⟨before', after', htrace'⟩ := List.append_of_mem hj
    rcases append_cons_cases (htrace.symm.trans htrace') with ⟨_, hentry⟩ | hstart | hstart
    · exact congrArg Prod.fst hentry
    · exact absurd hstart (hrun.not_rotated_after hpairs hfresh hri hrj htrace')
    · exact absurd hstart (hrun.not_rotated_after hpairs hfresh hrj hri htrace)
  · intro before i ops after r htrace hmem
    have hids : ∀ r ∈ dbAfter db before .refreshTokens, ∀ s ∈ dbAfter db before .refreshTokens,
        r.id = s.id → r = s :=
      fun r hr s hs h => hrun.eq_of_pk (t := .refreshTokens) htrace hr hs h
    rcases (hrun.step htrace).untouched hids hmem with
      h | h | ⟨h, ⟨at_, hnow, hexpired⟩, hgone⟩
    · exact .inl h
    · exact .inr (.inl h)
    · have htimed := (hrun.committed i before ops after htrace).1.timed
      exact .inr (.inr ⟨h, ⟨at_, htimed.called hnow, hexpired⟩, hgone⟩)

end Step

end Requests

section Sample

attribute [local instance] samplePlatform

def sampleRefreshToken : RefreshToken :=
  { id := ⟨9⟩, userId := sampleUser.id, tokenHash := sampleSha256 sampleToken, familyId := ⟨10⟩,
    expiresAt := days 30, revokedAt := none, replacedByHash := none, createdAt := 0 }

/-- The database with a live token. -/
def loggedInDb : Db Row
  | .refreshTokens => [sampleRefreshToken]
  | t => sampleDb t

/-- The token is rotated, and the user logs out of the same session elsewhere. -/
def sampleRotation : Bool → Request
  | true => .refresh (some sampleToken)
  | false => .logout (some sampleToken)

theorem sampleRotation_commits : Prog.endsWith (fun _ => true)
    ((sampleRotation true).handler.run (execStmt sampleOracle) ⟨loggedInDb, 0⟩) = true := by
  decide +kernel

theorem sampleRotation_fresh :
    let trace := (callsOf sampleOracle (sampleRotation true).handler ⟨loggedInDb, 0⟩).map
      fun e => (true, e)
    (drawnHashes trace).Nodup ∧ (drawnIds trace).Nodup ∧
      ∀ r ∈ loggedInDb .refreshTokens, r.tokenHash ∉ drawnHashes trace ∧
        (∀ h ∈ r.replacedByHash, h ∉ drawnHashes trace) ∧ r.familyId ∉ drawnIds trace := by
  decide +kernel

/-- One live token is left, which has replaced the other. -/
theorem sample_refresh_tokens : ∃ sys : Sys Row UUID Answer Failure Response Bool,
    Reachable (fun i => (sampleRotation i).handler) loggedInDb sys ∧
      (sys.db .refreshTokens).map RefreshToken.revokedAt = [some 1, none] ∧
      TokenHistory sampleRotation loggedInDb sys := by
  obtain ⟨a, st, hrun, _⟩ := Prog.exists_of_endsWith sampleRotation_commits
  obtain ⟨sys, ops, hr, _, hdb, _, htrace⟩ := Reachable.run_next (i := true) sampleOracle
    (.refl : Reachable (fun i => (sampleRotation i).handler) loggedInDb _) (quiet_init _ _) rfl hrun
  have hstate : sys.db =
      ((sampleRotation true).handler.run (execStmt sampleOracle) ⟨loggedInDb, 0⟩).2.db := by
    rw [hdb, hrun]
  have htrace : sys.trace = ((callsOf sampleOracle (sampleRotation true).handler
      ⟨loggedInDb, 0⟩).map fun e => (true, e)) ++ [(true, .committed ops)] := htrace
  have hfresh : FreshTokens loggedInDb sys.trace := by
    have hhashes : drawnHashes sys.trace = drawnHashes ((callsOf sampleOracle
        (sampleRotation true).handler ⟨loggedInDb, 0⟩).map fun e => (true, e)) := by
      rw [htrace]
      simp [drawnHashes]
    have hids : drawnIds sys.trace = drawnIds ((callsOf sampleOracle
        (sampleRotation true).handler ⟨loggedInDb, 0⟩).map fun e => (true, e)) := by
      rw [htrace]
      simp [drawnIds]
    constructor
    · rw [hhashes]
      exact sampleRotation_fresh.1
    · rw [hids]
      exact sampleRotation_fresh.2.1
    · rw [hhashes, hids]
      exact sampleRotation_fresh.2.2
  have hfamilies : Families (loggedInDb .refreshTokens) := by
    have hone : ∀ r ∈ loggedInDb .refreshTokens, r = sampleRefreshToken :=
      fun r hr => List.mem_singleton.mp hr
    refine ⟨fun r hr s hs _ _ _ => (hone r hr).trans (hone s hs).symm, fun r hr s _ hlink => ?_,
      fun r hr s hs _ _ => (hone r hr).trans (hone s hs).symm⟩
    simp [hone r hr, sampleRefreshToken] at hlink
  refine ⟨sys, hr, ?_, refresh_tokens_rotate_once ?_ hfamilies hr hfresh⟩
  · rw [hstate]
    decide +kernel
  · exact unclashing_of_length fun t => by cases t <;> decide

end Sample

end TenantFlow
