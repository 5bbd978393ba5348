import TenantFlow.Verification.Idempotency
import TenantFlow.Verification.Confinement

/-!
# Idempotency keys after their expiry

`acquire_idempotency` writes `expires_at` but never reads it; only the cleanup task does.
A request is served as a fresh one exactly if no record of its scope and key is stored at the
moment of its `INSERT`, whether a stored one has expired or not.
-/

namespace TenantFlow

open JsonText Transactional

section Expiry

variable [Platform] {ι : Type}

/-- A request to an idempotent endpoint, or a run of the cleanup task. -/
def keyTask : Option IdempotentRequest → App (Option (Outcome Reply))
  | some request => do return some (← request.handler)
  | none => do
    cleanupExpiredState
    return none

/-- Requests and runs of the cleanup task, interleaved. -/
abbrev KeySys (ι : Type) : Type 1 := Sys Row UUID Answer Failure (Option (Outcome Reply)) ι

/-- Process `i` executes the `INSERT` of `acquire_idempotency`. -/
def ClaimStep [DecidableEq ι] (i : ι) (s t : KeySys ι) : Prop :=
  ∃ tx r k env, s.proc i = .active tx ∧
    tx.prog = .step (.insertOnConflictDoNothing .idempotencyRecords sameScopeKey r) k ∧
    t = s.advance i tx (.insertOnConflictDoNothing .idempotencyRecords sameScopeKey r) k env

def Slot.Stored (slot : Slot) (db : Db Row) : Prop :=
  ∃ r ∈ db .idempotencyRecords, (r.scope, r.key) = slot.scopeKey

/-- The record that a request inserts for its slot. -/
def Slot.Records (slot : Slot) (request : IdempotentRequest) (r : IdempotencyRecord) : Prop :=
  (r.scope, r.key) = slot.scopeKey ∧ some r.requestHash = request.requestHash

/-- Process `i` is served as a fresh request: what it commits it has executed, under a record of
its own, and it fails with no failure of the idempotency layer. -/
structure ServedFresh (slot : Slot) (request : IdempotentRequest) (i : ι) (sys : KeySys ι) :
    Prop where
  executed : ∀ out, sys.proc i = .committed out → ∃ a, out = some (.executed a)
  recorded : ∀ ops, (i, .committed ops) ∈ sys.trace →
    ∃ r, .insert .idempotencyRecords r ∈ ops ∧ slot.Records request r
  failures : ∀ e, sys.proc i = .failed (some e) → e.Foreign

/-- Process `i` is answered from a record: it commits nothing but a replay. -/
structure ServedStale (i : ι) (sys : KeySys ι) : Prop where
  replayed : ∀ out, sys.proc i = .committed out → ∃ a, out = some (.replayed a)
  silent : ∀ ops, (i, .committed ops) ∈ sys.trace → ops = []

/-! ## The phases of a request -/

inductive KeyPhase where
  | idle
  | claimed (r : IdempotencyRecord)
  | executing (r : IdempotencyRecord)
  | refused

/-- How a statement of the request moves its phase. -/
inductive KeyNext (good : IdempotencyRecord → Prop) : KeyPhase → Stmt Row UUID Call → Db Row →
    ((c : Call) → Answer c) → KeyPhase → Prop where
  | silent {φ s view env} (hφ : φ = .idle ∨ φ = .refused) (hs : (s.eval env view).2 = []) :
    KeyNext good φ s view env φ
  | claim {r view env} (hgood : good r)
    (hfree : (view .idempotencyRecords).any (sameScopeKey r) = false)
    (hops : (Stmt.eval env view
      (.insertOnConflictDoNothing .idempotencyRecords sameScopeKey r)).2 =
        [.insert .idempotencyRecords r]) :
    KeyNext good .idle (.insertOnConflictDoNothing .idempotencyRecords sameScopeKey r) view env
      (.claimed r)
  | refuse {r view env} (hgood : good r)
    (htaken : (view .idempotencyRecords).any (sameScopeKey r) = true) :
    KeyNext good .idle (.insertOnConflictDoNothing .idempotencyRecords sameScopeKey r) view env
      .refused
  | read {r α view env} {q : Db Row → α} : KeyNext good (.claimed r) (.select q) view env (.executing r)
  | execute {r s view env} : KeyNext good (.executing r) s view env (.executing r)

/-- Only process `i` is followed, in a run where a record is `stored` at its claim, or not. -/
def keyDiscipline (i : ι) (good : IdempotencyRecord → Prop) (stored : Prop) :
    Discipline Row UUID Answer Failure ι KeyPhase where
  sees j φ view := j = i →
    (∀ r, φ = .claimed r → r ∈ view .idempotencyRecords) ∧ (φ = .refused → stored)
  next j φ s view env φ' := (j ≠ i ∧ φ' = φ) ∨ (j = i ∧ KeyNext good φ s view env φ')
  fails j _ e := j = i → ¬ stored → e.Foreign

/-! ## The handlers follow the phases -/

section Handlers

variable {α β : Type} {i : ι} {good : IdempotencyRecord → Prop} {stored : Prop}
  {post : KeyPhase → α → Prop}

omit [Platform] in
/-- The parts before the claim write nothing. -/
theorem obeys_idle {χ : β → Prop} {p : App β} (h : Leaves .idempotencyRecords χ p)
    (hconfined : Confined {} p) :
    (keyDiscipline i good stored).Obeys i (fun φ b => φ = .idle ∧ χ b) .idle p := by
  refine Discipline.obeys_of_every (fun s view env (hs : ({} : Scope).Allows s) => ?_) ?_
  · exact .inr ⟨rfl, .silent (.inl rfl) (hs.silent rfl rfl env view)⟩
  · exact (h.and hconfined).mono (fun s hs => hs.2) (fun e he _ _ => he.1) fun b hb => hb.1

omit [Platform] in
/-- After the claim anything may be written. -/
theorem obeys_executing {χ : β → Prop} {p : App β} (h : Leaves .idempotencyRecords χ p)
    (r : IdempotencyRecord) :
    (keyDiscipline i good stored).Obeys i (fun φ b => φ = .executing r ∧ χ b) (.executing r) p := by
  refine Discipline.obeys_of_every (fun s view env (_ : True) => ?_) ?_
  · exact .inr ⟨rfl, .execute⟩
  · exact h.mono (fun _ _ => trivial) (fun e he _ _ => he) fun b hb => hb

/-- What `acquire_idempotency` returns: the request may execute, or a replay. -/
def Granted (good : IdempotencyRecord → Prop) (stored : Prop) (φ : KeyPhase)
    (state : IdempotencyState) : Prop :=
  (∃ r, φ = .executing r ∧ good r ∧ state.replayStatus = none) ∨
    (φ = .refused ∧ stored ∧ state.replayStatus.isSome)

omit [Platform] in
theorem obeys_claim {r : IdempotencyRecord} (hgood : good r)
    {k : Except DbError Bool → App α}
    (hclaimed : (keyDiscipline i good stored).Obeys i post (.claimed r) (k (.ok true)))
    (hrefused : (keyDiscipline i good stored).Obeys i post .refused (k (.ok false)))
    (hfail : ∀ e, (keyDiscipline i good stored).Obeys i post .idle (k (.error e))) :
    (keyDiscipline i good stored).Obeys i post .idle
      (.step (.insertOnConflictDoNothing .idempotencyRecords sameScopeKey r) k) := by
  intro view env _
  cases hany : (view .idempotencyRecords).any (sameScopeKey r) with
  | true =>
    refine ⟨.refused, .inr ⟨rfl, .refuse hgood hany⟩, ?_⟩
    simpa [Stmt.eval, hany] using hrefused
  | false =>
    cases hins : insertable (t := .idempotencyRecords) view r with
    | ok u =>
      refine ⟨.claimed r, .inr ⟨rfl, .claim hgood hany ?_⟩, ?_⟩
      · simp [Stmt.eval, hany, hins, onlyIfOk]
      · simpa [Stmt.eval, hany, hins, Except.map] using hclaimed
    | error e =>
      refine ⟨.idle, .inr ⟨rfl, .silent (.inl rfl) ?_⟩, ?_⟩
      · simp [Stmt.eval, hany, hins, onlyIfOk]
      · simpa [Stmt.eval, hany, hins, Except.map] using hfail e

omit [Platform] in
theorem obeys_acquireIdempotency {userId : UUID} {organizationId : Option UUID}
    {scope key requestHash : String}
    (hgood : ∀ r : IdempotencyRecord, r.scope = scope → r.key = key →
      r.requestHash = requestHash → good r) :
    (keyDiscipline i good stored).Obeys i (Granted good stored) .idle
      (acquireIdempotency userId organizationId scope key requestHash) := by
  refine (obeys_idle (leaves_call _) confined_now).bind fun φ at_ h => ?_
  obtain rfl := h.1
  refine (obeys_idle (leaves_call _) confined_uuid4).bind fun φ id h => ?_
  obtain rfl := h.1
  have hr := hgood ⟨id, organizationId, userId, scope, key, requestHash, .processing, none, none,
    at_, at_ + hours 24⟩ rfl rfl rfl
  refine obeys_claim hr ?_ ?_ fun e _ _ => foreign_ofDbError e
  · -- The record just inserted is found again.
    intro view env hsees
    refine ⟨_, .inr ⟨rfl, .read⟩, ?_⟩
    have hmem := (hsees rfl).1 _ rfl
    cases hfind : (view .idempotencyRecords).find? (·.id = id) with
    | none =>
      have hno := List.find?_eq_none.mp hfind _ hmem
      simp at hno
    | some record =>
      simp only [Stmt.eval, hfind]
      exact .inl ⟨_, rfl, hr, rfl⟩
  · intro view env hsees
    have hstored := (hsees rfl).2 rfl
    refine ⟨.refused, .inr ⟨rfl, .silent (.inr rfl) rfl⟩, ?_⟩
    cases hfind : (view .idempotencyRecords).find? fun r => r.scope = scope ∧ r.key = key with
    | none =>
      simp only [Stmt.eval, hfind]
      exact fun _ h => absurd hstored h
    | some record =>
      simp only [Stmt.eval, hfind]
      change (keyDiscipline i good stored).Obeys i (Granted good stored) .refused
        (if record.requestHash ≠ requestHash then _ else _)
      split
      · exact fun _ h => absurd hstored h
      · split
        · exact .inr ⟨rfl, hstored, rfl⟩
        · exact fun _ h => absurd hstored h

/-- What an idempotent endpoint returns in the phase it reaches. -/
def Concluded (good : IdempotencyRecord → Prop) (φ : KeyPhase) : Outcome β → Prop
  | .executed _ => ∃ r, φ = .executing r ∧ good r
  | .replayed _ => φ = .refused

theorem obeys_idempotently {ρ : Type} {userId : UUID} {organizationId : Option UUID}
    {scope key missingBody : String} {payload : Json} {modelValidate : Json → Except Failure ρ}
    {modelDump : ρ → Json} {execute : App ρ}
    (hgood : ∀ r : IdempotencyRecord, r.scope = scope → r.key = key →
      r.requestHash = canonicalRequestHash payload → good r)
    (hexecute : Leaves .idempotencyRecords (fun _ => True) execute) :
    (keyDiscipline i good stored).Obeys i (Concluded good) .idle
      (idempotently userId organizationId scope key payload missingBody modelValidate modelDump
        execute) := by
  refine (obeys_acquireIdempotency hgood).bind fun φ state h => ?_
  rcases h with ⟨r, rfl, hr, hnone⟩ | ⟨rfl, hstored, hsome⟩
  · simp only [IdempotencyState.isReplay, hnone, Option.isSome_none, Bool.false_eq_true,
      ↓reduceIte]
    refine (obeys_executing hexecute r).bind fun φ reply h => ?_
    obtain rfl := h.1
    intro view env _
    refine ⟨_, .inr ⟨rfl, .execute⟩, ?_⟩
    cases hup : updatable view .idempotencyRecords state.record.id
        (IdempotencyRecord.complete 201 (modelDump reply)) with
    | ok u =>
      simp only [Stmt.eval, hup]
      exact ⟨r, rfl, hr⟩
    | error e =>
      simp only [Stmt.eval, hup]
      exact fun _ _ => foreign_ofDbError e
  · simp only [IdempotencyState.isReplay, hsome, ↓reduceIte]
    cases state.replayBody with
    | none => exact fun _ h => absurd hstored h
    | some body =>
      cases hvalid : modelValidate body with
      | ok reply =>
        simp only [hvalid]
        exact rfl
      | error e =>
        simp only [hvalid]
        exact fun _ h => absurd hstored h

omit [Platform] in
theorem obeys_mapOutcome {γ : Type} {p : App (Outcome β)} {f : β → γ} {φ : KeyPhase}
    (h : (keyDiscipline i good stored).Obeys i (Concluded good) φ p) :
    (keyDiscipline i good stored).Obeys i (Concluded good) φ (p.bind fun out => .ret (out.map f)) := by
  refine Discipline.Obeys.bind h fun φ out hout => ?_
  cases out <;> exact hout

/-- The handler of a request with this slot. -/
theorem obeys_handler {request : IdempotentRequest} {slot : Slot}
    (hslot : request.slot = some slot) :
    (keyDiscipline i (slot.Records request) stored).Obeys i (Concluded (slot.Records request)) .idle
      request.handler := by
  cases request with
  | createOrganization userId args =>
    obtain ⟨⟨payload, key⟩, rfl, rfl⟩ := Option.map_eq_some_iff.mp hslot
    refine obeys_mapOutcome ?_
    refine (obeys_idle (leaves_getCurrentUser userId) (confined_getCurrentUser userId)).bind
      fun φ user h => ?_
    obtain ⟨rfl, huser⟩ := h
    refine (obeys_idle (leaves_validated _ _) (confined_validated _ _)).bind fun φ a h => ?_
    obtain ⟨rfl, hargs, _⟩ := h
    obtain rfl := Option.some.inj hargs
    refine obeys_idempotently (fun r hs hk hh => ⟨?_, ?_⟩) (Prog.every_bind
      (leaves_createOrganization (by decide) (by decide) (by decide) _ _) fun _ _ => trivial)
    · simp [Slot.scopeKey, hs, hk, huser]
    · simp [IdempotentRequest.requestHash, IdempotentRequest.payload, Payload.modelDump, hh]
  | createInvitation organizationId userId args =>
    obtain ⟨⟨payload, key⟩, rfl, rfl⟩ := Option.map_eq_some_iff.mp hslot
    refine obeys_mapOutcome ?_
    refine (obeys_idle (leaves_requirePermission _ _ userId)
      (confined_requirePermission _ _ userId)).bind fun φ context h => ?_
    obtain ⟨rfl, huser⟩ := h
    refine (obeys_idle (leaves_validated _ _) (confined_validated _ _)).bind fun φ a h => ?_
    obtain ⟨rfl, hargs, _⟩ := h
    obtain rfl := Option.some.inj hargs
    refine obeys_idempotently (fun r hs hk hh => ⟨?_, ?_⟩) (Prog.every_bind
      (leaves_inviteMember (by decide) (by decide) _ _ _) fun invitation _ =>
        (leaves_ofExcept fun e he => InvitationResponse.make_error he).mono (fun _ h => h)
          (fun _ h => h) fun _ _ => trivial)
    · simp [Slot.scopeKey, hs, hk, huser]
    · simp [IdempotentRequest.requestHash, IdempotentRequest.payload, Payload.modelDump, hh]
  | checkout organizationId userId args =>
    obtain ⟨⟨payload, key⟩, rfl, rfl⟩ := Option.map_eq_some_iff.mp hslot
    refine obeys_mapOutcome ?_
    refine (obeys_idle (leaves_requirePermission _ _ userId)
      (confined_requirePermission _ _ userId)).bind fun φ context h => ?_
    obtain ⟨rfl, huser⟩ := h
    refine (obeys_idle (leaves_validated _ _) (confined_validated _ _)).bind fun φ a h => ?_
    obtain ⟨rfl, hargs, _⟩ := h
    obtain rfl := Option.some.inj hargs
    refine obeys_idempotently (fun r hs hk hh => ⟨?_, ?_⟩) (Prog.every_bind
      (leaves_createBillingCheckout (by decide) _ _ _) fun _ _ => trivial)
    · simp [Slot.scopeKey, hs, hk, huser]
    · simp [IdempotentRequest.requestHash, IdempotentRequest.payload, Payload.modelDump, hh]

end Handlers

/-! ## Whole runs -/

section Runs

variable {tasks : ι → Option IdempotentRequest} {i : ι} {request : IdempotentRequest}
  {slot : Slot} {db : Db Row} {sys : KeySys ι}

/-- What the pending writes of the request are in each phase. -/
def KeyPhase.Pending (slot : Slot) (request : IdempotentRequest) :
    KeyPhase → List (Op Row UUID) → Prop
  | .idle, ops => ops = []
  | .refused, ops => ops = []
  | .claimed r, ops => slot.Records request r ∧ ∃ before, ops = before ++ [.insert .idempotencyRecords r]
  | .executing r, ops => slot.Records request r ∧ .insert .idempotencyRecords r ∈ ops

/-- The phases that remain if a record of the slot is, or is not, stored at the claim. -/
def KeyPhase.Fits (stored : Prop) : KeyPhase → Prop
  | .idle => True
  | .claimed _ => ¬ stored
  | .executing _ => ¬ stored
  | .refused => stored

/-- A commit of the request, if a record of the slot was, or was not, stored at the claim. -/
def CommitFits (slot : Slot) (request : IdempotentRequest) (stored : Prop)
    (ops : List (Op Row UUID)) : Prop :=
  (stored → ops = []) ∧
    (¬ stored → ∃ r, .insert .idempotencyRecords r ∈ ops ∧ slot.Records request r)

def ResultFits (stored : Prop) : Option (Outcome Reply) → Prop
  | some (.executed _) => ¬ stored
  | some (.replayed _) => stored
  | none => False

/-- In a run in which a record of the slot is stored at the claim, or in one in which none is. -/
structure KeyPhaseInv (slot : Slot) (request : IdempotentRequest) (i : ι) (stored : Prop)
    (ph : ι → KeyPhase) (sys : KeySys ι) : Prop where
  pending : ∀ tx, sys.proc i = .active tx → (ph i).Pending slot request tx.ops
  fits : (ph i).Fits stored
  commits : ∀ ops, (i, .committed ops) ∈ sys.trace → CommitFits slot request stored ops
  results : ∀ out, sys.proc i = .committed out → ResultFits stored out

theorem mem_view_of_claimed {r : IdempotencyRecord} {ops : List (Op Row UUID)}
    (h : (KeyPhase.claimed r).Pending slot request ops) (db : Db Row) :
    r ∈ replay ops db .idempotencyRecords := by
  obtain ⟨_, before, rfl⟩ := h
  rw [replay_append]
  change r ∈ (Op.insert .idempotencyRecords r : Op Row UUID).apply _ .idempotencyRecords
  simp

theorem any_sameScopeKey {r : IdempotencyRecord} (hr : slot.Records request r) (db : Db Row) :
    (db .idempotencyRecords).any (sameScopeKey r) = true ↔ slot.Stored db := by
  simp only [List.any_eq_true, sameScopeKey, decide_eq_true_eq, Slot.Stored, hr.1]
  exact ⟨fun ⟨r', hr', heq⟩ => ⟨r', hr', heq.symm⟩, fun ⟨r', hr', heq⟩ => ⟨r', hr', heq.symm⟩⟩

/-- A statement of the request keeps its phase in line with its writes. -/
theorem KeyNext.pending {φ φ' : KeyPhase} {s : Stmt Row UUID Call} {env : (c : Call) → Answer c}
    {ops : List (Op Row UUID)} (hnext : KeyNext (slot.Records request) φ s (replay ops db) env φ')
    (h : φ.Pending slot request ops) :
    φ'.Pending slot request (ops ++ (s.eval env (replay ops db)).2) := by
  cases hnext with
  | silent hφ hs =>
    rw [hs, List.append_nil]
    exact h
  | claim hgood hfree hops =>
    rw [hops]
    exact ⟨hgood, ops, rfl⟩
  | refuse hgood htaken =>
    obtain rfl : ops = [] := h
    simp only [Stmt.eval, htaken, ↓reduceIte, List.append_nil]
    exact rfl
  | read =>
    obtain ⟨hgood, before, rfl⟩ := h
    exact ⟨hgood, by simp⟩
  | execute => exact ⟨h.1, List.mem_append_left _ h.2⟩

theorem KeyNext.fits {φ φ' : KeyPhase} {s : Stmt Row UUID Call} {env : (c : Call) → Answer c}
    {ops : List (Op Row UUID)} {stored : Prop}
    (hnext : KeyNext (slot.Records request) φ s (replay ops db) env φ')
    (hpending : φ.Pending slot request ops)
    (hclaim : ∀ r, s = .insertOnConflictDoNothing .idempotencyRecords sameScopeKey r →
      (slot.Stored db ↔ stored)) (h : φ.Fits stored) : φ'.Fits stored := by
  cases hnext with
  | silent hφ hs => exact h
  | claim hgood hfree hops =>
    obtain rfl : ops = [] := hpending
    intro hstored
    have hany := (any_sameScopeKey hgood db).mpr ((hclaim _ rfl).mpr hstored)
    rw [replay_nil, hany] at hfree
    cases hfree
  | refuse hgood htaken =>
    obtain rfl : ops = [] := hpending
    exact (hclaim _ rfl).mp ((any_sameScopeKey hgood db).mp htaken)
  | read => exact h
  | execute => exact h

theorem keyDiscipline_sound [DecidableEq ι] (hi : tasks i = some request)
    (hslot : request.slot = some slot) (stored : Prop) :
    (keyDiscipline i (slot.Records request) stored).Sound
      (fun j φ out => j = i → ∃ o, out = some o ∧ Concluded (slot.Records request) φ o) .idle
      (KeyPhaseInv slot request i stored)
      (fun s t => ClaimStep i s t → (slot.Stored s.db ↔ stored))
      (fun j => keyTask (tasks j)) db where
  obeys j := by
    by_cases hji : j = i
    · subst hji
      rw [hi]
      refine (obeys_handler hslot).bind fun φ out h => ?_
      exact fun _ => ⟨out, rfl, h⟩
    · have hnext : ∀ (s : Stmt Row UUID Call) view env, True →
          (keyDiscipline i (slot.Records request) stored).next j .idle s view env .idle :=
        fun s view env _ => .inl ⟨hji, rfl⟩
      refine (Discipline.obeys_of_every hnext ((Prog.every_trivial _).mono (fun _ h => h)
        (fun e _ h => absurd h hji) fun _ h => h)).mono fun _ _ _ h => absurd h hji
  init := by
    refine ⟨fun tx htx => ?_, trivial, fun ops h => ?_, fun out h => ?_⟩
    · obtain rfl := Proc.active.inj htx
      rfl
    · cases h
    · cases h
  sees ph sys j tx hJ hj hji := by
    subst hji
    refine ⟨fun r hr => ?_, fun hr => ?_⟩
    · have hpending := hJ.pending tx hj
      rw [hr] at hpending
      exact mem_view_of_claimed hpending sys.db
    · have hfits := hJ.fits
      rw [hr] at hfits
      exact hfits
  stmt ph sys j tx s k env φ' hJ hj hp _ hnext hok := by
    rcases hnext with ⟨hji, rfl⟩ | ⟨rfl, hnext⟩
    · have hij : i ≠ j := Ne.symm hji
      rw [Function.update_eq_self]
      refine ⟨fun tx' htx' => ?_, hJ.fits, fun ops hops => ?_, fun out hout => ?_⟩
      · rw [advance_proc_of_ne _ hij] at htx'
        exact hJ.pending tx' htx'
      · exact hJ.commits ops (by simpa [Sys.advance] using hops)
      · rw [advance_proc_of_ne _ hij] at hout
        exact hJ.results out hout
    · have hpending := hJ.pending tx hj
      refine ⟨fun tx' htx' => ?_, ?_, fun ops hops => ?_, fun out hout => ?_⟩
      · rw [advance_proc_self] at htx'
        obtain rfl := Proc.active.inj htx'
        rw [Function.update_self]
        exact hnext.pending hpending
      · rw [Function.update_self]
        refine hnext.fits hpending (fun r hr => ?_) hJ.fits
        subst hr
        exact hok ⟨tx, r, k, env, hj, hp, rfl⟩
      · exact hJ.commits ops (by simpa [Sys.advance] using hops)
      · rw [advance_proc_self] at hout
        cases hout
  commit ph sys j tx out hJ hj hp hpost _ := by
    by_cases hji : j = i
    · subst hji
      obtain ⟨o, rfl, ho⟩ := hpost rfl
      have hpending := hJ.pending tx hj
      have hfits := hJ.fits
      refine ⟨fun tx' htx' => ?_, hfits, fun ops hops => ?_, fun out hout => ?_⟩
      · exact absurd rfl (active_of_commit htx').1
      · rcases List.mem_append.mp hops with hops | hops
        · exact hJ.commits ops hops
        · obtain ⟨-, hops⟩ := Prod.mk.inj (List.mem_singleton.mp hops)
          obtain rfl := Entry.committed.inj hops
          cases o with
          | executed a =>
            obtain ⟨r, hr, _⟩ := ho
            rw [hr] at hpending hfits
            exact ⟨fun h => absurd h hfits, fun _ => ⟨r, hpending.2, hpending.1⟩⟩
          | replayed a =>
            have hr : ph j = .refused := ho
            rw [hr] at hpending hfits
            exact ⟨fun _ => hpending, fun h => absurd hfits h⟩
      · rw [commit_proc_self] at hout
        obtain rfl := Proc.committed.inj hout
        cases o with
        | executed a =>
          obtain ⟨r, hr, _⟩ := ho
          rw [hr] at hfits
          exact hfits
        | replayed a =>
          have hr : ph j = .refused := ho
          rw [hr] at hfits
          exact hfits
    · have hij : i ≠ j := Ne.symm hji
      refine ⟨fun tx' htx' => ?_, hJ.fits, fun ops hops => ?_, fun out hout => ?_⟩
      · exact hJ.pending tx' (active_of_commit htx').2
      · refine hJ.commits ops ?_
        simpa [Sys.commit, hij] using hops
      · rw [commit_proc_of_ne _ hij] at hout
        exact hJ.results out hout
  abort ph sys j tx e hJ hj _ := by
    refine ⟨fun tx' htx' => ?_, hJ.fits, hJ.commits, fun out hout => ?_⟩
    · exact hJ.pending tx' (active_of_abort htx').2
    · exact hJ.results out ((committed_abort_iff hj).mp hout)

/-- A request is served as a fresh one in every run in which no record of its scope and key is
stored when its `INSERT` executes, and from a record in every run in which one is, whether it
has expired or not. -/
theorem key_free_iff_record_gone [DecidableEq ι] (hi : tasks i = some request)
    (hslot : request.slot = some slot) :
    (ReachableVia (fun s t => ClaimStep i s t → ¬ slot.Stored s.db)
      (fun j => keyTask (tasks j)) db sys → ServedFresh slot request i sys) ∧
    (ReachableVia (fun s t => ClaimStep i s t → slot.Stored s.db)
      (fun j => keyTask (tasks j)) db sys → ServedStale i sys) := by
  constructor
  · intro hr
    have hr' : ReachableVia (fun s t => ClaimStep i s t → (slot.Stored s.db ↔ False))
        (fun j => keyTask (tasks j)) db sys :=
      hr.mono fun s t h hclaim => iff_false_intro (h hclaim)
    obtain ⟨ph, hJ, htracks⟩ := (keyDiscipline_sound hi hslot False).reachable hr'
    refine ⟨fun out hout => ?_, fun ops hops => (hJ.commits ops hops).2 id, fun e he => ?_⟩
    · have hresult := hJ.results out hout
      match out, hresult with
      | some (.executed a), _ => exact ⟨a, rfl⟩
    · have ht := htracks i
      rw [he] at ht
      obtain ⟨_, hfails⟩ := ht
      exact hfails rfl id
  · intro hr
    have hr' : ReachableVia (fun s t => ClaimStep i s t → (slot.Stored s.db ↔ True))
        (fun j => keyTask (tasks j)) db sys :=
      hr.mono fun s t h hclaim => iff_true_intro (h hclaim)
    obtain ⟨ph, hJ, _⟩ := (keyDiscipline_sound hi hslot True).reachable hr'
    refine ⟨fun out hout => ?_, fun ops hops => (hJ.commits ops hops).1 trivial⟩
    have hresult := hJ.results out hout
    match out, hresult with
    | some (.executed a), h => exact absurd trivial h
    | some (.replayed a), _ => exact ⟨a, rfl⟩

end Runs

/-- A request whose scope and key have at most expired records is served as a fresh one, in every
interleaving with the cleanup task. -/
def ExpiredKeysFree : Prop :=
  ∀ (request : IdempotentRequest) (slot : Slot) (db : Db Row) (sys : KeySys Bool),
    request.slot = some slot → Consistent db →
    Reachable (fun b => keyTask (if b then some request else none)) db sys →
    (∀ r ∈ db .idempotencyRecords, (r.scope, r.key) = slot.scopeKey →
      ∀ at_, (true, .called .now at_) ∈ sys.trace → r.expiresAt ≤ at_) →
    ServedFresh slot request true sys

end Expiry

section Sample

attribute [local instance] samplePlatform

def sampleKeyRequest : IdempotentRequest :=
  .createOrganization sampleUser.id (some (⟨"Acme", "acme"⟩, "key-1234"))

/-- The organization was created once, and the record of that has expired. -/
def expiredDb : Db Row
  | .idempotencyRecords =>
    [{ id := ⟨50⟩, organizationId := none, userId := sampleUser.id,
       scope := organizationScope sampleUser.id, key := "key-1234",
       requestHash := "b65dafa139025a4b7c496403d53fbbf86f84da615a6187f354de9948ee6da0c0",
       status := .completed, responseStatus := some 201,
       responseBody := some (OrganizationResponse.modelDump ⟨⟨60⟩, "Acme", "acme", "owner"⟩),
       createdAt := -hours 24, expiresAt := 0 }]
  | t => sampleDb t

theorem expiredDb_consistent : Consistent expiredDb := by
  refine ⟨fun t => ?_, fun t => ?_, fun t => ?_⟩ <;> cases t <;> decide +kernel

theorem sampleOracle_now (n : Nat) : (0 : Datetime) ≤ sampleOracle n .now := Int.natCast_nonneg n

theorem sampleKeyRequest_replayed : Prog.endsWith (fun out => out.any fun o => !o.isExecuted)
    ((keyTask (some sampleKeyRequest)).run (execStmt sampleOracle) ⟨expiredDb, 0⟩) = true := by
  decide +kernel

/-- The expired response is replayed while the cleanup task has not run. -/
theorem expired_key_replayed : ¬ ExpiredKeysFree := by
  intro hfree
  obtain ⟨out, st, hrun, hout⟩ := Prog.exists_of_endsWith sampleKeyRequest_replayed
  have hstart : (Sys.init (fun b => keyTask (if b then some sampleKeyRequest else none))
      expiredDb).proc true = .active { prog := keyTask (some sampleKeyRequest) } := rfl
  obtain ⟨sys, ops, hsteps, _, hproc, htrace⟩ :=
    run_alone sampleOracle hstart rfl (fun _ _ => ⟨rfl, rfl⟩) hrun
  have hserved := hfree sampleKeyRequest (.createOrganization sampleUser.id "key-1234") expiredDb sys
    rfl expiredDb_consistent (Reachable.steps .refl hsteps) fun r hr _ at_ hnow => by
      obtain ⟨n, hat⟩ : ∃ n, at_ = sampleOracle n .now := by
        rw [htrace] at hnow
        simp only [Sys.init, List.nil_append, List.mem_append, List.mem_map, List.mem_singleton,
          Prod.mk.injEq, reduceCtorEq, and_false, or_false, true_and] at hnow
        obtain ⟨e, he, hcalled⟩ := hnow
        obtain ⟨n, c, rfl⟩ := mem_callsOf he
        cases hcalled
        exact ⟨n, rfl⟩
      obtain rfl := List.mem_singleton.mp hr
      rw [hat]
      exact sampleOracle_now n
  obtain ⟨a, rfl⟩ := hserved.executed out (by rw [hproc, Function.update_self])
  cases hout

/-- The request and the cleanup task. -/
def sampleKeyTasks (b : Bool) : Option IdempotentRequest := if b then some sampleKeyRequest else none

/-- What the cleanup task leaves, one second after the expiry. -/
def cleanedDb : Db Row :=
  (transaction (otherOracle 1000000) (keyTask none) expiredDb).2

theorem cleanedDb_records : cleanedDb .idempotencyRecords = [] := by
  decide +kernel

/-- Only the record is gone. -/
example : (cleanedDb .users).map User.id = (expiredDb .users).map User.id := by decide +kernel

theorem sampleKeyRequest_executed : Prog.endsWith (fun out => out.any Outcome.isExecuted)
    ((keyTask (some sampleKeyRequest)).run (execStmt sampleOracle) ⟨cleanedDb, 0⟩) = true := by
  decide +kernel

/-- After the cleanup task has removed the record, the same request is executed. -/
theorem fresh_after_cleanup : ∃ sys : KeySys Bool, (∃ a, sys.proc true = .committed a) ∧
    ServedFresh (.createOrganization sampleUser.id "key-1234") sampleKeyRequest true sys := by
  obtain ⟨out, st, hrun, _⟩ := Prog.exists_of_endsWith sampleKeyRequest_executed
  have hstart : (Sys.init (fun b => keyTask (sampleKeyTasks b)) cleanedDb).proc true =
      .active { prog := keyTask (some sampleKeyRequest) } := rfl
  have hgone : ∀ s t : KeySys Bool, s.db = cleanedDb → ClaimStep true s t →
      ¬ (Slot.createOrganization sampleUser.id "key-1234").Stored s.db := by
    rintro s t hs _ ⟨r, hr, _⟩
    rw [hs, cleanedDb_records] at hr
    cases hr
  obtain ⟨sys, ops, hsteps, _, hproc, _⟩ := run_alone_via sampleOracle hstart rfl
    (fun _ _ => ⟨rfl, rfl⟩) hrun (fun s t hs _ => hgone s t hs) (fun s t hs _ => hgone s t hs)
  refine ⟨sys, ⟨out, by rw [hproc, Function.update_self]⟩, ?_⟩
  have htrue : sampleKeyTasks true = some sampleKeyRequest := rfl
  exact (key_free_iff_record_gone htrue rfl).1 hsteps

end Sample

end TenantFlow
