import TenantFlow.Verification.NextRetry

/-!
# What a delivery is in for

However the messages, the runs and the manual retries of one delivery overlap: how many attempts
are made, what may still happen once the delivery is settled, and when something will run for a
delivery that is not.
-/

namespace TenantFlow

open JsonText Transactional

/-! ## How many attempts are made -/

/-- The attempts that count as one of the first four. -/
def Attempt.early (a : Attempt) : Bool := a.held.attemptCount ≤ 4

/-- Every message and every attempt is accounted for: of the messages so far each stands for at
most one attempt with a number above four, or for a message that is still queued, or for an early
attempt that is still running. -/
structure Counted (deliveryId : UUID) (sys : DeliverySystem) : Prop where
  count : ∀ row ∈ findDelivery deliveryId sys.db, row.attemptCount = sys.attempts
  missing : findDelivery deliveryId sys.db = none → sys.attempts = 0
  numbered : ∀ a ∈ sys.running, a.held.attemptCount ≤ sys.attempts
  bound : sys.attempts - 4 + sys.queue.length + sys.running.countP Attempt.early ≤ sys.messages

section Steps

variable {deliveryId : UUID} {sys sys' : DeliverySystem}

theorem length_celeryRetry (retries : Nat) (failedAt : Option Datetime) :
    (celeryRetry retries failedAt).length ≤ 1 := by
  simp only [celeryRetry]
  split <;> simp

/-- Taking a message from the queue. -/
theorem length_erase_lt {queue : List Message} {message : Message} (h : message ∈ queue) :
    (queue.erase message).length + 1 = queue.length := by
  rw [List.length_erase_of_mem h]
  have hpos := List.length_pos_of_mem h
  omega

theorem countP_split (before after : List Attempt) (attempt : Attempt) :
    (before ++ attempt :: after).countP Attempt.early =
      (before ++ after).countP Attempt.early + if attempt.early then 1 else 0 := by
  simp only [List.countP_append, List.countP_cons]
  omega

variable [Platform]

theorem Counted.begun {message : Message} {oracle : Oracle Answer} (h : Counted deliveryId sys)
    (hmessage : message ∈ sys.queue) :
    Counted deliveryId
      (sys.begun message (transaction oracle (beginAttempt deliveryId) sys.db)) := by
  have hbound := h.bound
  have hlength := length_erase_lt hmessage
  have hbegins := beginsAs oracle deliveryId sys.db
  generalize transaction oracle (beginAttempt deliveryId) sys.db = x at hbegins
  cases hbegins with
  | missing hrow =>
    have hretry := length_celeryRetry message.retries none
    refine ⟨h.count, h.missing, h.numbered, ?_⟩
    simp only [DeliverySystem.begun, ↓reduceIte, List.length_append]
    omega
  | skipped hrow hfinal =>
    refine ⟨h.count, h.missing, h.numbered, ?_⟩
    simp only [DeliverySystem.begun]
    omega
  | dead hrow hopen hrow' hstate hcount hnext =>
    refine ⟨fun r hr => ?_, fun hnone => ?_, h.numbered, ?_⟩
    · obtain rfl := Option.some.inj (hrow'.symm.trans hr)
      exact hcount.trans (h.count _ hrow)
    · exact absurd (hrow'.symm.trans hnone) (by simp)
    · simp only [DeliverySystem.begun]
      omega
  | @attempt row row' db' post hrow hopen hrow' hstate hcount hnext =>
    have hold : row.attemptCount = sys.attempts := h.count _ hrow
    refine ⟨fun r hr => ?_, fun hnone => ?_, fun a ha => ?_, ?_⟩
    · obtain rfl := Option.some.inj (hrow'.symm.trans hr)
      exact hcount.trans (congrArg (· + 1) hold)
    · exact absurd (hrow'.symm.trans hnone) (by simp)
    · rcases List.mem_cons.mp ha with rfl | ha
      · exact Nat.le_of_eq (congrArg (· + 1) hold)
      · exact Nat.le_succ_of_le (h.numbered a ha)
    · simp only [DeliverySystem.begun, List.countP_cons]
      split
      · rename_i hearly
        have hnumber := of_decide_eq_true hearly
        simp only [hold] at hnumber
        omega
      · rename_i hlate
        have hnumber : ¬ row.attemptCount + 1 ≤ 4 := fun h => hlate (decide_eq_true h)
        omega
  | failed hrow hopen =>
    refine ⟨h.count, h.missing, h.numbered, ?_⟩
    have hretry := length_celeryRetry message.retries none
    simp only [DeliverySystem.begun, List.length_append]
    split
    · omega
    · simp only [List.length_nil]
      omega

/-- Only an early attempt is retried. -/
theorem Attempt.early_of_retry {attempt : Attempt} {result : HttpResult} {row : WebhookDelivery}
    (hnumber : attempt.held.attemptCount ≤ row.attemptCount)
    (h : result.outcome (attempt.held.current row) = .retry) : attempt.early = true := by
  cases result with
  | response statusCode => cases h
  | error text =>
    have hcurrent : attempt.held.attemptCount ≤ (attempt.held.current row).attemptCount := by
      unfold WebhookDelivery.current
      split
      · exact hnumber
      · exact Nat.le_refl _
    have hlow : ¬ (attempt.held.current row).attemptCount ≥ 5 := fun hlast => by
      simp [HttpResult.outcome, hlast] at h
    exact decide_eq_true (by omega)

omit [Platform] in
/-- The row is assigned to, but not its count. -/
theorem Counted.assigned (h : Counted deliveryId sys) {db' : Db Row}
    (hcount : ∀ row ∈ findDelivery deliveryId db', row.attemptCount = sys.attempts)
    (hmissing : findDelivery deliveryId db' = none → sys.attempts = 0) :
    Counted deliveryId { sys with db := db' } :=
  ⟨hcount, hmissing, h.numbered, h.bound⟩

omit [Platform] in
theorem Counted.stopped (h : Counted deliveryId sys) {before after : List Attempt}
    {attempt : Attempt} (hrunning : sys.running = before ++ attempt :: after) :
    Counted deliveryId { sys with running := before ++ after } := by
  have hbound := h.bound
  rw [hrunning, countP_split] at hbound
  refine ⟨h.count, h.missing, fun a ha => ?_, ?_⟩
  · refine h.numbered a (hrunning ▸ ?_)
    exact List.mem_append.mpr ((List.mem_append.mp ha).imp_right (List.mem_cons_of_mem attempt))
  · change sys.attempts - 4 + sys.queue.length + (before ++ after).countP Attempt.early ≤
      sys.messages
    omega

theorem Counted.ended {before after : List Attempt} {attempt : Attempt} {result : HttpResult}
    {oracle : Oracle Answer} (h : Counted deliveryId sys)
    (hrunning : sys.running = before ++ attempt :: after) (hheld : attempt.held.id = deliveryId) :
    Counted deliveryId (sys.ended before after attempt (failureTime oracle)
      (transaction oracle (finishAttempt attempt.held result) sys.db)) := by
  subst hheld
  have hstopped := h.stopped hrunning
  have hfinishes := finishesAs oracle attempt.held result sys.db
  generalize transaction oracle (finishAttempt attempt.held result) sys.db = x at hfinishes
  cases hfinishes with
  | @missing outcome hrow houtcome =>
    cases outcome with
    | retry => exact absurd rfl houtcome
    | skipped => exact hstopped
    | dead => exact hstopped
    | delivered => exact hstopped
  | failed hrow => exact hstopped
  | @saved row row' db' hrow hrow' hsaved =>
    have hold : row.attemptCount = sys.attempts := h.count row hrow
    have hassigned :
        Counted attempt.held.id { sys with db := db', running := before ++ after } := by
      refine hstopped.assigned (fun r hr => ?_) fun hnone => ?_
      · obtain rfl := Option.some.inj (hrow'.symm.trans hr)
        refine hsaved.attemptCount.trans ?_
        rw [HttpResult.assigns_attemptCount, assign_unchanged, hold]
      · exact absurd (hrow'.symm.trans hnone) (by simp)
    cases houtcome : result.outcome (attempt.held.current row) with
    | retry =>
      have hnumbered := h.numbered attempt (by simp [hrunning])
      have hearly := Attempt.early_of_retry (hold ▸ hnumbered) houtcome
      have hretry := length_celeryRetry attempt.retries (some (failureTime oracle))
      have hbound := h.bound
      rw [hrunning, countP_split, if_pos hearly] at hbound
      refine ⟨hassigned.count, hassigned.missing, hassigned.numbered, ?_⟩
      simp only [DeliverySystem.ended, List.length_append]
      omega
    | skipped => exact hassigned
    | dead => exact hassigned
    | delivered => exact hassigned

omit [Platform] in
theorem Counted.published (h : Counted deliveryId sys) (retries : Nat) :
    Counted deliveryId (sys.published retries) := by
  have hbound := h.bound
  refine ⟨h.count, h.missing, h.numbered, ?_⟩
  simp only [DeliverySystem.published, List.length_cons]
  omega

theorem DeliverySystem.Step.counted {e : DeliveryEvent} (hstep : sys.Step deliveryId e sys')
    (hsound : sys.Sound deliveryId) (h : Counted deliveryId sys) : Counted deliveryId sys' := by
  cases hstep with
  | published retries => exact h.published retries
  | @other db' hdb hchecked hrow =>
    rcases hrow with hsame | ⟨hnone, hnew⟩
    · exact h.assigned (hsame ▸ h.count) (hsame ▸ h.missing)
    · exact h.assigned (fun r hr => (hnew r hr).2.1.trans (h.missing hnone).symm) fun _ =>
        h.missing hnone
  | retried organizationId userId oracle =>
    have hretries := retriesAs hsound.unclashing oracle deliveryId organizationId userId
    generalize transaction oracle (retryDelivery organizationId userId (some deliveryId)) sys.db = x
      at hretries ⊢
    obtain ⟨response, db'⟩ := x
    have hassigned : Counted deliveryId { sys with db := db' } := by
      cases hretries with
      | unchanged hsame => exact h.assigned (hsame ▸ h.count) (hsame ▸ h.missing)
      | @retried row row' _ hrow hopen hrow' hstate hcount hnext =>
        refine h.assigned (fun r hr => ?_) fun hn => absurd (hrow'.symm.trans hn) (by simp)
        obtain rfl := Option.some.inj (hrow'.symm.trans hr)
        exact hcount.trans (h.count row hrow)
    cases response with
    | ok r => exact hassigned.published 0
    | error e => exact hassigned
  | began oracle hmessage => exact h.begun hmessage
  | @finished before after attempt result oracle hrunning =>
    exact h.ended hrunning (hsound.held attempt (by simp [hrunning]))
  | @lost before after attempt hrunning => exact (h.stopped hrunning).published attempt.retries

/-- From before the insertion of the delivery, over any order of messages, requests and runs. -/
theorem DeliverySystem.Reached.counted {db : Db Row} {ok : DeliverySystem → DeliveryEvent → Prop}
    (hdb : Unclashing db) (hchecked : Checked db) (hnew : findDelivery deliveryId db = none)
    (h : DeliverySystem.Reached deliveryId ok { db } sys) :
    sys.Sound deliveryId ∧ Counted deliveryId sys := by
  refine h.invariant (I := fun sys => sys.Sound deliveryId ∧ Counted deliveryId sys)
    ⟨sound_start hdb hchecked, ?_⟩ fun sys e sys' hI _ hstep =>
      ⟨hstep.sound hI.1, hstep.counted hI.1 hI.2⟩
  refine ⟨fun row hrow => absurd (hnew.symm.trans hrow) (by simp), fun _ => rfl,
    fun a ha => absurd ha List.not_mem_nil, Nat.le_refl 0⟩

/-- No increment is lost, and however messages, runs and retries overlap, a delivery has at most
four attempts more than there have been messages for it. -/
theorem attempts_bounded {db : Db Row} (hdb : Unclashing db) (hchecked : Checked db)
    (hnew : findDelivery deliveryId db = none)
    (h : DeliverySystem.Reached deliveryId (fun _ _ => True) { db } sys) :
    (∀ row ∈ findDelivery deliveryId sys.db, row.attemptCount = sys.attempts) ∧
      sys.attempts ≤ 4 + sys.messages := by
  obtain ⟨_, hcounted⟩ := h.counted hdb hchecked hnew
  have hbound := hcounted.bound
  exact ⟨hcounted.count, by omega⟩

/-! ## What may happen to a settled delivery -/

/-- Events that may take a delivery out of a final state: the end of an attempt that was in
flight, for a delivered one only if it failed, and for a dead one a manual retry. -/
def DeliveryEvent.Reopens (s : DeliveryState) : DeliveryEvent → Prop
  | .finished _ (.error _) _ => True
  | .finished _ (.response _) _ => s ≠ .delivered
  | .retried _ _ _ => s ≠ .delivered
  | _ => False

/-- The delivery is in `s`, and since `start` no attempt has begun. -/
structure Settled (deliveryId : UUID) (s : DeliveryState) (start sys : DeliverySystem) : Prop where
  row : ∃ row, findDelivery deliveryId sys.db = some row ∧ row.state = s
  attempts : sys.attempts = start.attempts
  running : sys.running ⊆ start.running

theorem DeliverySystem.Step.settled {e : DeliveryEvent} {s : DeliveryState} {start : DeliverySystem}
    (hs : s.final) (hstep : sys.Step deliveryId e sys') (hsound : sys.Sound deliveryId)
    (h : Settled deliveryId s start sys) (hkept : ¬ e.Reopens s) :
    Settled deliveryId s start sys' := by
  obtain ⟨row, hrow, hstate⟩ := h.row
  have hrest : ∀ {before after : List Attempt} {attempt : Attempt},
      sys.running = before ++ attempt :: after → before ++ after ⊆ start.running := by
    intro before after attempt hrunning a ha
    have hmem := (List.mem_append.mp ha).imp_right (List.mem_cons_of_mem attempt)
    exact h.running (hrunning ▸ List.mem_append.mpr hmem)
  cases hstep with
  | published retries => exact ⟨h.row, h.attempts, h.running⟩
  | other hdb hchecked hchange =>
    rcases hchange with hsame | ⟨hnone, _⟩
    · exact ⟨⟨row, hsame.trans hrow, hstate⟩, h.attempts, h.running⟩
    · exact absurd (hnone.symm.trans hrow) (by simp)
  | retried organizationId userId oracle =>
    have hdelivered : s = .delivered := by simpa [DeliveryEvent.Reopens] using hkept
    have hretries := retriesAs hsound.unclashing oracle deliveryId organizationId userId
    generalize transaction oracle (retryDelivery organizationId userId (some deliveryId)) sys.db = x
      at hretries ⊢
    obtain ⟨response, db'⟩ := x
    have hrow' : findDelivery deliveryId db' = some row := by
      cases hretries with
      | unchanged hsame => exact hsame.trans hrow
      | retried hfound hopen =>
        obtain rfl := Option.some.inj (hfound.symm.trans hrow)
        exact absurd (hstate.trans hdelivered) hopen
    cases response with
    | ok r => exact ⟨⟨row, hrow', hstate⟩, h.attempts, h.running⟩
    | error e => exact ⟨⟨row, hrow', hstate⟩, h.attempts, h.running⟩
  | @began message oracle hmessage =>
    have hfinal : row.state.final := hstate ▸ hs
    have hbegins := beginsAs oracle deliveryId sys.db
    generalize transaction oracle (beginAttempt deliveryId) sys.db = x at hbegins
    cases hbegins with
    | missing hnone => exact absurd (hnone.symm.trans hrow) (by simp)
    | skipped _ _ => exact ⟨h.row, h.attempts, h.running⟩
    | dead hfound hopen => exact absurd hfinal (Option.some.inj (hfound.symm.trans hrow) ▸ hopen)
    | attempt post hfound hopen =>
      obtain rfl := Option.some.inj (hfound.symm.trans hrow)
      exact absurd hfinal hopen
    | failed hfound hopen => exact absurd hfinal (Option.some.inj (hfound.symm.trans hrow) ▸ hopen)
  | @finished before after attempt result oracle hrunning =>
    obtain rfl := hsound.held attempt (by simp [hrunning])
    have hfinishes := finishesAs oracle attempt.held result sys.db
    generalize transaction oracle (finishAttempt attempt.held result) sys.db = x at hfinishes
    cases result with
    | error text => exact absurd trivial hkept
    | response statusCode =>
      have hdelivered : s = .delivered := by simpa [DeliveryEvent.Reopens] using hkept
      cases hfinishes with
      | missing hnone => exact absurd (hnone.symm.trans hrow) (by simp)
      | failed _ => exact ⟨h.row, h.attempts, hrest hrunning⟩
      | @saved row₀ row' db' hfound hrow' hsaved =>
        obtain rfl := Option.some.inj (hfound.symm.trans hrow)
        refine ⟨⟨row', hrow', ?_⟩, h.attempts, hrest hrunning⟩
        -- What is delivered is delivered again, or left alone.
        rcases assign_cases (attempt.held.current row₀).state .delivered row₀.state with
          ⟨_, hsame⟩ | hnew
        · exact (hsaved.state.trans hsame).trans hstate
        · exact (hsaved.state.trans hnew).trans hdelivered.symm
  | lost hrunning => exact ⟨h.row, h.attempts, hrest hrunning⟩

/-- A settled delivery stays settled, and nothing more is sent for it, until an attempt that was
in flight ends otherwise, or a dead delivery is retried by hand. In particular a delivered one
with no attempt in flight stays delivered for good. -/
theorem settled_deliveries_stay {db : Db Row} (hdb : Unclashing db) (hchecked : Checked db)
    (hnew : findDelivery deliveryId db = none)
    (h : DeliverySystem.Reached deliveryId (fun _ _ => True) { db } sys) {row : WebhookDelivery}
    (hrow : findDelivery deliveryId sys.db = some row) (hfinal : row.state.final) :
    (∀ sys', DeliverySystem.Reached deliveryId (fun _ e => ¬ e.Reopens row.state) sys sys' →
      Settled deliveryId row.state sys sys') ∧
    (row.state = .delivered → sys.running = [] →
      ∀ sys', DeliverySystem.Reached deliveryId (fun _ _ => True) sys sys' →
        Settled deliveryId .delivered sys sys') := by
  obtain ⟨hsound, _⟩ := h.counted hdb hchecked hnew
  have hstart : Settled deliveryId row.state sys sys :=
    ⟨⟨row, hrow, rfl⟩, rfl, List.Subset.refl _⟩
  constructor
  · intro sys' h'
    exact (h'.invariant (I := fun t => t.Sound deliveryId ∧ Settled deliveryId row.state sys t)
      ⟨hsound, hstart⟩ fun t e t' hI hkept hstep =>
        ⟨hstep.sound hI.1, hstep.settled hfinal hI.1 hI.2 hkept⟩).2
  · intro hdelivered hidle sys' h'
    rw [hdelivered] at hstart
    refine (h'.invariant (I := fun t => t.Sound deliveryId ∧ Settled deliveryId .delivered sys t)
      ⟨hsound, hstart⟩ fun t e t' hI _ hstep =>
        ⟨hstep.sound hI.1, hstep.settled (.inl rfl) hI.1 hI.2 fun hreopens => ?_⟩).2
    -- With nothing in flight no attempt can end.
    cases hstep with
    | @finished before after attempt result oracle hrunning =>
      have hmem := hI.2.running (a := attempt) (by simp [hrunning])
      rw [hidle] at hmem
      cases hmem
    | retried _ _ _ => exact hreopens rfl
    | _ => exact hreopens

/-! ## What will run for an open delivery -/

/-- A message is begun after the commit of its delivery, has been published before it, and is
delivered again as it was queued; and no transaction of a run raises. -/
def Smooth (deliveryId : UUID) (sys : DeliverySystem) : DeliveryEvent → Prop
  | .published retries => retries = 0 ∨ ∃ m ∈ sys.queue, m.retries = retries
  | .other db' => findDelivery deliveryId sys.db = none → findDelivery deliveryId db' ≠ none →
    sys.queue ≠ []
  | .began _ oracle => ∃ begun, (transaction oracle (beginAttempt deliveryId) sys.db).1 = .ok begun
  | .finished attempt result oracle => ∃ outcome,
    (transaction oracle (finishAttempt attempt.held result) sys.db).1 = .ok outcome
  | _ => True

/-- The counter of a message never runs ahead of the attempts, and for an open delivery something
is outstanding. -/
structure Attended (deliveryId : UUID) (sys : DeliverySystem) : Prop where
  queued : ∀ m ∈ sys.queue, m.retries ≤ sys.attempts
  running : ∀ a ∈ sys.running, a.retries + 1 ≤ a.held.attemptCount ∧ ¬ a.held.state.final
  outstanding : ∀ row ∈ findDelivery deliveryId sys.db, ¬ row.state.final →
    sys.queue ≠ [] ∨ sys.running ≠ []

omit [Platform] in
theorem Attended.published (h : Attended deliveryId sys) {retries : Nat}
    (hretries : retries ≤ sys.attempts) : Attended deliveryId (sys.published retries) := by
  refine ⟨fun m hm => ?_, h.running, fun _ _ _ => .inl (List.cons_ne_nil _ _)⟩
  rcases List.mem_cons.mp hm with rfl | hm
  · exact hretries
  · exact h.queued m hm

theorem Attended.begun {message : Message} {oracle : Oracle Answer} (h : Attended deliveryId sys)
    (hcounted : Counted deliveryId sys) (hmessage : message ∈ sys.queue)
    (hsmooth : ∃ begun, (transaction oracle (beginAttempt deliveryId) sys.db).1 = .ok begun) :
    Attended deliveryId
      (sys.begun message (transaction oracle (beginAttempt deliveryId) sys.db)) := by
  have herase : ∀ m ∈ sys.queue.erase message, m.retries ≤ sys.attempts :=
    fun m hm => h.queued m (List.mem_of_mem_erase hm)
  have hbegins := beginsAs oracle deliveryId sys.db
  generalize transaction oracle (beginAttempt deliveryId) sys.db = x at hbegins hsmooth
  cases hbegins with
  | missing hrow =>
    obtain ⟨begun, hbegun⟩ := hsmooth
    cases hbegun
  | failed hrow hopen =>
    obtain ⟨begun, hbegun⟩ := hsmooth
    cases hbegun
  | @skipped row hrow hfinal =>
    refine ⟨herase, h.running, fun r hr hopen => ?_⟩
    obtain rfl := Option.some.inj (hrow.symm.trans hr)
    exact absurd hfinal hopen
  | @dead row row' db' hrow hopen hrow' hstate hcount hnext =>
    refine ⟨herase, h.running, fun r hr hopen' => ?_⟩
    obtain rfl := Option.some.inj (hrow'.symm.trans hr)
    exact absurd (.inr hstate) hopen'
  | @attempt row row' db' post hrow hopen hrow' hstate hcount hnext =>
    refine ⟨fun m hm => Nat.le_succ_of_le (herase m hm), fun a ha => ?_,
      fun _ _ _ => .inr (List.cons_ne_nil _ _)⟩
    rcases List.mem_cons.mp ha with rfl | ha
    · have hold : row.attemptCount = sys.attempts := hcounted.count row hrow
      have hqueued := h.queued message hmessage
      exact ⟨by simp only [hold]; omega, hopen⟩
    · exact h.running a ha

/-- What a run that is not retried leaves is settled. -/
theorem saved_final {held row row' : WebhookDelivery} {result : HttpResult} {at_ : Datetime}
    (hheld : ¬ held.state.final)
    (hsaved : (held.current row).Saved (result.assigns at_ (held.current row)) row row')
    (houtcome : result.outcome (held.current row) ≠ .retry) : row'.state.final := by
  have hassigned : (result.assigns at_ (held.current row)).state.final := by
    cases result with
    | response statusCode => exact .inl rfl
    | error text =>
      have hlast : (held.current row).attemptCount ≥ 5 := by
        by_contra hlow
        exact houtcome (if_neg hlow)
      exact .inr (by simp [HttpResult.assigns, WebhookDelivery.failed, hlast])
  rcases assign_cases (held.current row).state (result.assigns at_ (held.current row)).state
    row.state with ⟨hsame, hkept⟩ | hnew
  · rw [hsaved.state, hkept]
    rw [hsame] at hassigned
    -- The session has reloaded the row, as it held an open one.
    unfold WebhookDelivery.current at hassigned
    split at hassigned
    · exact hassigned
    · exact absurd hassigned hheld
  · rwa [hsaved.state, hnew]

theorem Attended.ended {before after : List Attempt} {attempt : Attempt} {result : HttpResult}
    {oracle : Oracle Answer} (h : Attended deliveryId sys) (hcounted : Counted deliveryId sys)
    (hrunning : sys.running = before ++ attempt :: after) (hheld : attempt.held.id = deliveryId)
    (hsmooth : ∃ outcome,
      (transaction oracle (finishAttempt attempt.held result) sys.db).1 = .ok outcome) :
    Attended deliveryId (sys.ended before after attempt (failureTime oracle)
      (transaction oracle (finishAttempt attempt.held result) sys.db)) := by
  subst hheld
  have hmem : attempt ∈ sys.running := by simp [hrunning]
  have hrest : ∀ a ∈ before ++ after,
      a.retries + 1 ≤ a.held.attemptCount ∧ ¬ a.held.state.final := by
    intro a ha
    refine h.running a (hrunning ▸ ?_)
    exact List.mem_append.mpr ((List.mem_append.mp ha).imp_right (List.mem_cons_of_mem attempt))
  obtain ⟨hretries, hopen⟩ := h.running attempt hmem
  have hfinishes := finishesAs oracle attempt.held result sys.db
  generalize transaction oracle (finishAttempt attempt.held result) sys.db = x at hfinishes hsmooth
  cases hfinishes with
  | @missing outcome hrow houtcome =>
    have hnone : ∀ row ∈ findDelivery attempt.held.id sys.db, ¬ row.state.final →
        sys.queue ≠ [] ∨ before ++ after ≠ [] :=
      fun row hr => absurd (hrow.symm.trans hr) (by simp)
    cases outcome with
    | retry => exact absurd rfl houtcome
    | skipped => exact ⟨h.queued, hrest, hnone⟩
    | dead => exact ⟨h.queued, hrest, hnone⟩
    | delivered => exact ⟨h.queued, hrest, hnone⟩
  | failed hrow =>
    obtain ⟨outcome, houtcome⟩ := hsmooth
    cases houtcome
  | @saved row row' db' hrow hrow' hsaved =>
    have hsettled : result.outcome (attempt.held.current row) ≠ .retry →
        ∀ r ∈ findDelivery attempt.held.id db', ¬ r.state.final →
          sys.queue ≠ [] ∨ before ++ after ≠ [] := by
      intro hend r hr hunsettled
      obtain rfl := Option.some.inj (hrow'.symm.trans hr)
      exact absurd (saved_final hopen hsaved hend) hunsettled
    cases houtcome : result.outcome (attempt.held.current row) with
    | retry =>
      have hnumber := hcounted.numbered attempt hmem
      have hold : row.attemptCount = sys.attempts := hcounted.count row hrow
      have hearly : attempt.held.attemptCount ≤ 4 :=
        of_decide_eq_true (Attempt.early_of_retry (hold ▸ hnumber) houtcome)
      -- The counter of the message has not run out before the attempts have.
      have hretry := celeryRetry_of_lt (n := attempt.retries) (by omega) (failureTime oracle)
      simp only [DeliverySystem.ended, hretry]
      refine ⟨fun m hm => ?_, hrest, fun _ _ _ => .inl (by simp)⟩
      rcases List.mem_append.mp hm with hm | hm
      · exact h.queued m hm
      · obtain rfl := List.mem_singleton.mp hm
        exact Nat.le_trans hretries hnumber
    | skipped => exact ⟨h.queued, hrest, hsettled (by simp [houtcome])⟩
    | dead => exact ⟨h.queued, hrest, hsettled (by simp [houtcome])⟩
    | delivered => exact ⟨h.queued, hrest, hsettled (by simp [houtcome])⟩

theorem DeliverySystem.Step.attended {e : DeliveryEvent} (hstep : sys.Step deliveryId e sys')
    (hsound : sys.Sound deliveryId) (hcounted : Counted deliveryId sys)
    (h : Attended deliveryId sys) (hsmooth : Smooth deliveryId sys e) :
    Attended deliveryId sys' := by
  cases hstep with
  | published retries =>
    refine h.published ?_
    rcases hsmooth with rfl | ⟨m, hm, rfl⟩
    · exact Nat.zero_le _
    · exact h.queued m hm
  | @other db' hdb hchecked hchange =>
    refine ⟨h.queued, h.running, fun row hrow hopen => ?_⟩
    rcases hchange with hsame | ⟨hnone, _⟩
    · exact h.outstanding row (hsame ▸ hrow) hopen
    · exact .inl (hsmooth hnone fun hn => by simp [hn] at hrow)
  | retried organizationId userId oracle =>
    have hretries := retriesAs hsound.unclashing oracle deliveryId organizationId userId
    have hfailed : ∀ e, (transaction oracle
        (retryDelivery organizationId userId (some deliveryId)) sys.db).1 = .error e →
        (transaction oracle (retryDelivery organizationId userId (some deliveryId)) sys.db).2 =
          sys.db := fun e he => transaction_error he
    generalize transaction oracle (retryDelivery organizationId userId (some deliveryId)) sys.db = x
      at hretries hfailed ⊢
    obtain ⟨response, db'⟩ := x
    cases response with
    | ok r =>
      refine ⟨fun m hm => ?_, h.running, fun _ _ _ => .inl (List.cons_ne_nil _ _)⟩
      rcases List.mem_cons.mp hm with rfl | hm
      · exact Nat.zero_le _
      · exact h.queued m hm
    | error e =>
      obtain rfl : db' = sys.db := hfailed e rfl
      exact h
  | began oracle hmessage => exact h.begun hcounted hmessage hsmooth
  | @finished before after attempt result oracle hrunning =>
    exact h.ended hcounted hrunning (hsound.held attempt (by simp [hrunning])) hsmooth
  | @lost before after attempt hrunning =>
    have hmem : attempt ∈ sys.running := by simp [hrunning]
    have hstopped : Attended deliveryId
        ({ sys with running := before ++ after }.published attempt.retries) := by
      have hretries := (h.running attempt hmem).1
      have hnumber := hcounted.numbered attempt hmem
      refine ⟨fun m hm => ?_, fun a ha => h.running a (hrunning ▸ ?_),
        fun _ _ _ => .inl (List.cons_ne_nil _ _)⟩
      · rcases List.mem_cons.mp hm with rfl | hm
        · exact Nat.le_trans (Nat.le_of_succ_le hretries) hnumber
        · exact h.queued m hm
      · exact List.mem_append.mpr
          ((List.mem_append.mp ha).imp_right (List.mem_cons_of_mem attempt))
    exact hstopped

/-- In smooth runs no delivery is stranded: while it is pending or retrying, a message or a run
is outstanding for it, however messages, runs and manual retries overlap. -/
theorem no_delivery_stranded {db : Db Row} (hdb : Unclashing db) (hchecked : Checked db)
    (hnew : findDelivery deliveryId db = none)
    (h : DeliverySystem.Reached deliveryId (Smooth deliveryId) { db } sys) {row : WebhookDelivery}
    (hrow : findDelivery deliveryId sys.db = some row)
    (hopen : row.state = .pending ∨ row.state = .retrying) :
    sys.queue ≠ [] ∨ sys.running ≠ [] := by
  have hstart : DeliverySystem.Reached deliveryId (fun _ _ => True) { db } { db } := .start
  have hattended : (sys.Sound deliveryId ∧ Counted deliveryId sys) ∧ Attended deliveryId sys := by
    refine h.invariant (I := fun sys => (sys.Sound deliveryId ∧ Counted deliveryId sys) ∧
        Attended deliveryId sys) ⟨hstart.counted hdb hchecked hnew, ?_⟩
      fun sys e sys' hI hsmooth hstep => ⟨⟨hstep.sound hI.1.1, hstep.counted hI.1.1 hI.1.2⟩,
        hstep.attended hI.1.1 hI.1.2 hI.2 hsmooth⟩
    exact ⟨fun m hm => absurd hm List.not_mem_nil, fun a ha => absurd ha List.not_mem_nil,
      fun row hrow => absurd (hnew.symm.trans hrow) (by simp)⟩
  refine hattended.2.outstanding row hrow fun hfinal => ?_
  rcases hopen with hopen | hopen <;> rcases hfinal with hfinal | hfinal <;>
    simp [hopen] at hfinal

end Steps

section Sample

attribute [local instance] samplePlatform

variable {ok : DeliverySystem → DeliveryEvent → Prop}

/-- The delivery is inserted with its message. -/
def insertedDelivery : DeliverySystem :=
  { ({ db := hookedDb } : DeliverySystem).published 0 with db := deliveringDb }

theorem reached_insertedDelivery (hpublished : ok { db := hookedDb } (.published 0))
    (hother : ok (({ db := hookedDb } : DeliverySystem).published 0) (.other deliveringDb)) :
    DeliverySystem.Reached sampleDelivery.id ok { db := hookedDb } insertedDelivery :=
  (DeliverySystem.Reached.start.published 0 hpublished).inserted (by decide) hother

/-- Two attempts at once, on a message that was delivered twice. -/
def overlapping : DeliverySystem :=
  ((insertedDelivery.published 0).begin {} sampleOracle).begin {} sampleOracle

theorem sample_attempts_bounded :
    DeliverySystem.Reached sampleDelivery.id (fun _ _ => True) { db := hookedDb } overlapping ∧
      overlapping.running.length = 2 ∧
      (∀ row ∈ findDelivery sampleDelivery.id overlapping.db,
        row.attemptCount = overlapping.attempts) ∧
      overlapping.attempts ≤ 4 + overlapping.messages := by
  have hinserted : DeliverySystem.Reached sampleDelivery.id (fun _ _ => True) { db := hookedDb }
    insertedDelivery := reached_insertedDelivery trivial trivial
  have hreached : DeliverySystem.Reached sampleDelivery.id (fun _ _ => True) { db := hookedDb }
      overlapping :=
    ((hinserted.published 0 trivial).begin (by decide) sampleOracle trivial).begin
      (by decide +kernel) sampleOracle trivial
  exact ⟨hreached, by decide +kernel,
    attempts_bounded unclashing_hookedDb checked_hookedDb (by decide) hreached⟩

/-- The first attempt succeeds. -/
def deliveredOnce : DeliverySystem :=
  (insertedDelivery.begin {} sampleOracle).finish (.response 200) sampleOracle

/-- Once delivered, a message that is delivered again finds nothing to do. -/
theorem sample_settled_delivery :
    Settled sampleDelivery.id .delivered deliveredOnce
      ((deliveredOnce.published 0).begin {} sampleOracle) := by
  have hinserted : DeliverySystem.Reached sampleDelivery.id (fun _ _ => True) { db := hookedDb }
    insertedDelivery := reached_insertedDelivery trivial trivial
  have hreached : DeliverySystem.Reached sampleDelivery.id (fun _ _ => True) { db := hookedDb }
      deliveredOnce :=
    (hinserted.begin (by decide) sampleOracle trivial).finish _ sampleOracle fun _ _ => trivial
  have hagain : DeliverySystem.Reached sampleDelivery.id (fun _ _ => True) deliveredOnce
      ((deliveredOnce.published 0).begin {} sampleOracle) :=
    (DeliverySystem.Reached.start.published 0 trivial).begin (by decide +kernel) sampleOracle
      trivial
  have hstate : (findDelivery sampleDelivery.id deliveredOnce.db).map (·.state) =
      some .delivered := by decide +kernel
  obtain ⟨row, hrow, hdelivered⟩ := Option.map_eq_some_iff.mp hstate
  exact (settled_deliveries_stay unclashing_hookedDb checked_hookedDb (by decide) hreached hrow
    (.inl hdelivered)).2 hdelivered (by decide +kernel) _ hagain

theorem exists_ok_of_isOk {ε α : Type} {x : Except ε α} (h : x.isOk = true) : ∃ a, x = .ok a := by
  cases x with
  | ok a => exact ⟨a, rfl⟩
  | error e => cases h

/-- The delivery is committed, its first attempt fails, and the retry is outstanding. -/
theorem sample_not_stranded :
    (findDelivery sampleDelivery.id failedOnce.db).map (·.state) = some .retrying ∧
      (failedOnce.queue ≠ [] ∨ failedOnce.running ≠ []) := by
  have hinserted : DeliverySystem.Reached sampleDelivery.id (Smooth sampleDelivery.id)
    { db := hookedDb } insertedDelivery := reached_insertedDelivery (.inl rfl) fun _ _ => by decide
  have hbegan : (transaction sampleOracle (beginAttempt sampleDelivery.id)
      insertedDelivery.db).1.isOk = true := by decide +kernel
  have hfinished : ∀ attempt ∈ (insertedDelivery.begin {} sampleOracle).running.head?,
      (transaction sampleOracle (finishAttempt attempt.held (.error "timed out"))
        (insertedDelivery.begin {} sampleOracle).db).1.isOk = true := by decide +kernel
  have hreached : DeliverySystem.Reached sampleDelivery.id (Smooth sampleDelivery.id)
      { db := hookedDb } failedOnce :=
    (hinserted.begin (by decide) sampleOracle (exists_ok_of_isOk hbegan)).finish (.error "timed out")
      sampleOracle fun attempt hattempt => exists_ok_of_isOk (hfinished attempt hattempt)
  have hstate :
      (findDelivery sampleDelivery.id failedOnce.db).map (·.state) = some .retrying := by
    decide +kernel
  obtain ⟨row, hrow, hretrying⟩ := Option.map_eq_some_iff.mp hstate
  exact ⟨hstate, no_delivery_stranded unclashing_hookedDb checked_hookedDb (by decide) hreached hrow
    (.inr hretrying)⟩

end Sample

end TenantFlow
