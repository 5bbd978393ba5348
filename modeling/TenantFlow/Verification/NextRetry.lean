import TenantFlow.Verification.DeliveryChains

/-!
# The time of the next retry

`next_retry_at` is computed from `attempt_count`, the countdown of the retry from
`request.retries` and with a cap, and an attempt that ends dead leaves it alone. It tells the
truth in the runs in which these differences do not show.
-/

namespace TenantFlow

open JsonText Transactional

/-- What the row says of its next retry: the delivery is in `retrying`, and a message is
scheduled for just that time. -/
def Truthful (deliveryId : UUID) (sys : DeliverySystem) : Prop :=
  ∀ row ∈ findDelivery deliveryId sys.db,
    (∀ at_, row.nextRetryAt = some at_ → row.state = .retrying ∧ ∃ m ∈ sys.queue, m.due = some at_) ∧
      (row.state = .delivered ∨ row.state = .dead → row.nextRetryAt = none)

/-- The event is the end of a run. -/
def DeliveryEvent.EndsRun (sys sys' : DeliverySystem) : DeliveryEvent → Prop
  | .began _ _ => sys'.running = sys.running
  | .finished _ _ _ => True
  | _ => False

section Timely

variable [Platform]

/-- An attempt of the delivery gets as far as its HTTP call: the endpoint is active, its target
is accepted and its secret decrypts, and the number of the attempt fits its column. -/
def Sendable (oracle : Oracle Answer) (db : Db Row) (row : WebhookDelivery) : Prop :=
  ∃ endpoint n, ((db .webhookEndpoints).find? (·.id = row.endpointId)).filter (·.isActive) =
      some endpoint ∧
    (validateWebhookTarget endpoint.url).run (execStmt oracle) ⟨db, 2⟩ = (.ok (.ok ()), ⟨db, n⟩) ∧
    (oracle n (.fernetDecrypt endpoint.signingSecretEncrypted)).isSome ∧
    row.attemptCount + 1 < 2 ^ 31

/-- For an attempt that finishes on this row: the two counters agree, the attempt is not the
last one of a delivery with a time in `next_retry_at`, and what the session has not reloaded
does not hide a write. -/
def HttpResult.Timely (attempt : Attempt) (row : WebhookDelivery) (failedAt : Datetime) :
    HttpResult → Prop
  | .response _ =>
    let current := attempt.held.current row
    current.nextRetryAt = none → row.nextRetryAt = none
  | .error text =>
    let current := attempt.held.current row
    (row.nextRetryAt = none ∨ storable (String.ofList (text.toList.take 2000))) ∧
      if current.attemptCount ≥ 5 then row.nextRetryAt = none
      else
        attempt.retries = current.attemptCount ∧
          (current.state = .retrying → row.state = .retrying) ∧
          ∀ at_, at_ = failedAt + seconds (2 ^ current.attemptCount * 5) →
            current.nextRetryAt = some at_ → row.nextRetryAt = some at_

/-- The events under which `next_retry_at` stays true. -/
def Timely (deliveryId : UUID) (sys : DeliverySystem) : DeliveryEvent → Prop
  | .began _ oracle => ∀ row ∈ findDelivery deliveryId sys.db,
    row.nextRetryAt = none ∨ Sendable oracle sys.db row
  | .finished attempt result oracle => ∀ row ∈ findDelivery deliveryId sys.db,
    result.Timely attempt row (failureTime oracle)
  | .lost _ => ∀ row ∈ findDelivery deliveryId sys.db, row.nextRetryAt = none
  | _ => True

end Timely

/-! ## Writes that the database accepts -/

section Accepted

variable {db : Db Row} {oracle : Oracle Answer} {row loaded new : WebhookDelivery}

theorem updatable_delivery (hdb : Unclashing db) (hchecked : Checked db)
    (hrow : findDelivery row.id db = some row) {f : WebhookDelivery → WebhookDelivery}
    (hf : blank (t := .webhookDeliveries) (f row) = blank (t := .webhookDeliveries) row)
    (herror : (f row).lastError.all storable = true) (hcount : (f row).attemptCount < 2 ^ 31) :
    updatable db .webhookDeliveries row.id f = .ok () := by
  have hmem : row ∈ db .webhookDeliveries := List.mem_of_find?_eq_some hrow
  simp only [blank, WebhookDelivery.mk.injEq] at hf
  obtain ⟨hid, hevent, hendpoint, htype, hpayload, -⟩ := hf
  have hfind : (db .webhookDeliveries).find? (fun r => pk r = row.id) = some row := hrow
  refine updatable_of hfind ?_ fun r hr hne => ?_
  · obtain ⟨hcolumns, -, hreference⟩ :=
      check_eq_none_iff.mp (hchecked .webhookDeliveries row hmem)
    refine check_eq_none_iff.mpr ⟨?_, rfl, ?_⟩
    · simp only [columnsOk, Bool.and_eq_true] at hcolumns ⊢
      rw [htype, hpayload]
      exact ⟨⟨hcolumns.1.1, herror⟩, decide_eq_true hcount⟩
    · simp only [referencesOk] at hreference ⊢
      rwa [hendpoint]
  · have hclash := hdb.unique .webhookDeliveries row hmem r hr (Ne.symm hne)
    simp only [Schema.clash, uniqueClash, Bool.or_eq_false_iff, decide_eq_false_iff_not]
      at hclash ⊢
    exact ⟨fun h => hclash.1 (hid.symm.trans h),
      fun h => hclash.2 ⟨hevent.symm.trans h.1, hendpoint.symm.trans h.2⟩⟩

theorem run_call (c : Call) (st : Session Row) :
    (call c).run (execStmt oracle) st = (.ok (oracle st.clock c), ⟨st.db, st.clock + 1⟩) := rfl

/-- A save that the database accepts. -/
theorem run_saveDelivery (hup : ∀ at_, updatable db .webhookDeliveries loaded.id
    (loaded.flushed new at_) = .ok ()) (n : Nat) :
    ∃ st, (saveDelivery loaded new).run (execStmt oracle) ⟨db, n⟩ = (.ok (), st) := by
  unfold saveDelivery
  cases hdirty : loaded.dirty new with
  | true =>
    rw [Prog.bind_eq, Prog.run_bind_ok (run_flush hup n)]
    exact ⟨_, rfl⟩
  | false => exact ⟨_, rfl⟩

variable [Platform]

/-- Which attempts do begin. -/
theorem begins_of_sendable (hdb : Unclashing db) (hchecked : Checked db)
    (hrow : findDelivery row.id db = some row) (hopen : ¬ row.state.final)
    (hsend : Sendable oracle db row) :
    ∃ held post db', transaction oracle (beginAttempt row.id) db =
      (.ok (.attempt held post), db') := by
  obtain ⟨endpoint, n, hendpoint, htarget, hdecrypt, hcount⟩ := hsend
  obtain ⟨secret, hsecret⟩ := Option.isSome_iff_exists.mp hdecrypt
  let new := { row with attemptCount := row.attemptCount + 1 }
  have hmem : row ∈ db .webhookDeliveries := List.mem_of_find?_eq_some hrow
  have herror : row.lastError.all storable = true := by
    have hcolumns := (check_eq_none_iff.mp (hchecked .webhookDeliveries row hmem)).1
    simp only [columnsOk, Bool.and_eq_true] at hcolumns
    exact hcolumns.1.2
  have hup : ∀ at_, updatable db .webhookDeliveries row.id (row.flushed new at_) = .ok () := by
    refine fun at_ => updatable_delivery hdb hchecked hrow rfl ?_ ?_
    · simpa [WebhookDelivery.flushed, new, assign_unchanged] using herror
    · simpa [WebhookDelivery.flushed, new] using hcount
  obtain ⟨st, hsave⟩ := run_saveDelivery hup (n + 2)
  suffices h : ∃ post, (beginAttempt row.id).run (execStmt oracle) ⟨db, 0⟩ =
      (.ok (.attempt new post), st) by
    obtain ⟨post, hrun⟩ := h
    exact ⟨new, post, st.db, transaction_ok hrun⟩
  unfold beginAttempt
  rw [Prog.bind_eq, run_findDelivery hrow]
  simp only [if_neg hopen]
  rw [Prog.bind_eq, Prog.run_bind_ok (run_select _ _)]
  simp only [hendpoint]
  rw [Prog.bind_eq, Prog.run_bind_ok htarget]
  simp only [Prog.bind_eq]
  rw [Prog.run_bind_ok (run_call _ _), hsecret]
  simp only [orRaise, Prog.ret_bind, now]
  rw [Prog.run_bind_ok (run_call .now _), Prog.run_bind_ok hsave]
  exact ⟨_, rfl⟩

omit [Platform] in
theorem storable_assigns {result : HttpResult} {at_ : Datetime} {current : WebhookDelivery}
    (h : ∀ text, result = .error text →
      storable (String.ofList (text.toList.take 2000)) = true) :
    (result.assigns at_ current).lastError.all storable = true := by
  cases result with
  | response statusCode => rfl
  | error text =>
    simp only [HttpResult.assigns, WebhookDelivery.failed]
    split <;> exact h text rfl

theorem finishes_of_storable (hdb : Unclashing db) (hchecked : Checked db)
    {held : WebhookDelivery} {result : HttpResult} (hrow : findDelivery held.id db = some row)
    (hstorable : ∀ text, result = .error text →
      storable (String.ofList (text.toList.take 2000)) = true) :
    ∃ outcome db', transaction oracle (finishAttempt held result) db = (.ok outcome, db') := by
  have hid : held.id = row.id := (findDelivery_id hrow).symm
  have hcurrent : (held.current row).id = row.id := (current_id hrow).trans hid
  have hmem : row ∈ db .webhookDeliveries := List.mem_of_find?_eq_some hrow
  have hcolumns := (check_eq_none_iff.mp (hchecked .webhookDeliveries row hmem)).1
  simp only [columnsOk, Bool.and_eq_true, decide_eq_true_eq] at hcolumns
  have hup : ∀ at_ updatedAt, updatable db .webhookDeliveries (held.current row).id
      ((held.current row).flushed (result.assigns at_ (held.current row)) updatedAt) = .ok () := by
    intro at_ updatedAt
    rw [hcurrent]
    refine updatable_delivery hdb hchecked (hid ▸ hrow) rfl ?_ ?_
    · change (assign _ (result.assigns at_ (held.current row)).lastError _).all storable = true
      rcases assign_cases (held.current row).lastError
        (result.assigns at_ (held.current row)).lastError row.lastError with ⟨_, hkept⟩ | hnew
      · rw [hkept]
        exact hcolumns.1.2
      · rw [hnew]
        exact storable_assigns hstorable
    · simpa [WebhookDelivery.flushed, assign_unchanged] using hcolumns.2
  suffices h : ∃ outcome st, (finishAttempt held result).run (execStmt oracle) ⟨db, 0⟩ =
      (.ok outcome, st) by
    obtain ⟨outcome, st, hrun⟩ := h
    exact ⟨outcome, st.db, transaction_ok hrun⟩
  unfold finishAttempt
  rw [Prog.bind_eq, run_findDelivery hrow]
  cases result with
  | response statusCode =>
    obtain ⟨st, hsave⟩ := run_saveDelivery (hup 0) 1
    exact ⟨_, _, Prog.run_bind_ok hsave⟩
  | error text =>
    obtain ⟨st, hsave⟩ := run_saveDelivery (hup (oracle 1 .now)) 2
    exact ⟨_, _, (Prog.run_bind_ok (run_call .now _)).trans (Prog.run_bind_ok hsave)⟩

end Accepted

/-! ## Steps -/

section Steps

variable {deliveryId : UUID} {sys sys' : DeliverySystem}

/-- A time in `next_retry_at` belongs to a delivery in `retrying`, and to a run in progress or
to a scheduled message. -/
def Accounted (deliveryId : UUID) (sys : DeliverySystem) : Prop :=
  ∀ row ∈ findDelivery deliveryId sys.db, ∀ at_, row.nextRetryAt = some at_ →
    row.state = .retrying ∧ (sys.running ≠ [] ∨ ∃ m ∈ sys.queue, m.due = some at_)

theorem truthful_of (h : ∀ row ∈ findDelivery deliveryId sys.db, ∀ at_,
    row.nextRetryAt = some at_ → row.state = .retrying ∧ ∃ m ∈ sys.queue, m.due = some at_) :
    Truthful deliveryId sys := by
  refine fun row hrow => ⟨h row hrow, fun hfinal => ?_⟩
  cases hnext : row.nextRetryAt with
  | none => rfl
  | some at_ =>
    have hstate := (h row hrow at_ hnext).1
    rcases hfinal with hfinal | hfinal <;> simp [hfinal] at hstate

theorem Truthful.accounted (h : Truthful deliveryId sys) : Accounted deliveryId sys :=
  fun row hrow at_ hat =>
    have ⟨hstate, hscheduled⟩ := (h row hrow).1 at_ hat
    ⟨hstate, .inr hscheduled⟩

theorem Accounted.truthful (h : Accounted deliveryId sys) (hidle : sys.running = []) :
    Truthful deliveryId sys :=
  truthful_of fun row hrow at_ hat =>
    have ⟨hstate, hscheduled⟩ := h row hrow at_ hat
    ⟨hstate, hscheduled.resolve_left (absurd hidle)⟩

/-- Nothing is said of a row without a time. -/
theorem truthful_of_none (h : ∀ row ∈ findDelivery deliveryId sys.db, row.nextRetryAt = none) :
    Truthful deliveryId sys :=
  truthful_of fun row hrow at_ hat => by simp [h row hrow] at hat

/-- Within the attempts before the last, the cap of the countdown does not show. -/
theorem celeryRetry_of_lt {n : Nat} (h : n < 5) (at_ : Datetime) :
    celeryRetry n (some at_) =
      [{ retries := n + 1, due := some (at_ + seconds (2 ^ n * 5)) }] := by
  have hpow : (2 : Int) ^ n ≤ 2 ^ 4 := pow_le_pow_right₀ (by decide) (by omega)
  have hcap : min (300 : Int) (2 ^ n * 5) = 2 ^ n * 5 := min_eq_right (by omega)
  simp only [celeryRetry, if_pos h, hcap, Option.map_some]

theorem finished_truthful [Platform] {before after : List Attempt} {attempt : Attempt}
    {result : HttpResult} {oracle : Oracle Answer} (h : sys.Sound deliveryId)
    (hrunning : sys.running = before ++ attempt :: after)
    (htimely : ∀ row ∈ findDelivery deliveryId sys.db,
      result.Timely attempt row (failureTime oracle)) :
    Truthful deliveryId (sys.ended before after attempt (failureTime oracle)
      (transaction oracle (finishAttempt attempt.held result) sys.db)) := by
  obtain rfl := h.held attempt (by simp [hrunning])
  have hends := finishesAs oracle attempt.held result sys.db
  have hok : ∀ {row}, findDelivery attempt.held.id sys.db = some row →
      (∀ text, result = .error text → storable (String.ofList (text.toList.take 2000)) = true) →
      ∃ outcome db', transaction oracle (finishAttempt attempt.held result) sys.db =
        (.ok outcome, db') := finishes_of_storable h.unclashing h.checked
  generalize transaction oracle (finishAttempt attempt.held result) sys.db = x at hends hok
  cases hends with
  | missing hrow =>
    refine truthful_of_none fun row hmem => ?_
    rw [DeliverySystem.ended_db, hrow] at hmem
    cases hmem
  | @failed row e hrow =>
    refine truthful_of_none fun row' hmem => ?_
    rw [DeliverySystem.ended_db, hrow] at hmem
    obtain rfl := Option.some.inj hmem
    have htimely := htimely row hrow
    have hunstored : row.nextRetryAt = none ∨
        ∀ text, result = .error text → storable (String.ofList (text.toList.take 2000)) = true := by
      cases result with
      | response statusCode => exact .inr fun _ h => nomatch h
      | error text =>
        refine htimely.1.imp_right fun hstorable text' heq => ?_
        rwa [← HttpResult.error.inj heq]
    rcases hunstored with hnone | hstorable
    · exact hnone
    · obtain ⟨_, _, hx⟩ := hok hrow hstorable
      cases hx
  | @saved row row' db' hrow hrow' hsaved =>
    have htimely := htimely row hrow
    cases result with
    | response statusCode =>
      refine truthful_of_none fun r hr => ?_
      rw [DeliverySystem.ended_db, hrow'] at hr
      obtain rfl := Option.some.inj hr
      rcases assign_cases (attempt.held.current row).nextRetryAt none row.nextRetryAt with
        ⟨hcleared, hkept⟩ | hnone
      · exact (hsaved.nextRetryAt.trans hkept).trans (htimely hcleared.symm)
      · exact hsaved.nextRetryAt.trans hnone
    | error text =>
      by_cases hlast : (attempt.held.current row).attemptCount ≥ 5
      · -- the last attempt leaves the column alone
        have hnone : row.nextRetryAt = none := by simpa [hlast] using htimely.2
        refine truthful_of_none fun r hr => ?_
        rw [DeliverySystem.ended_db, hrow'] at hr
        obtain rfl := Option.some.inj hr
        have hnext := hsaved.nextRetryAt
        simp only [HttpResult.assigns, WebhookDelivery.failed, if_pos hlast, assign_unchanged]
          at hnext
        exact hnext.trans hnone
      · obtain ⟨hretries, hstate, htime⟩ := by simpa only [hlast, ↓reduceIte] using htimely.2
        let time := failureTime oracle + seconds (2 ^ (attempt.held.current row).attemptCount * 5)
        have hassigned : (HttpResult.error text).assigns (failureTime oracle)
            (attempt.held.current row) = { attempt.held.current row with
              lastError := some (String.ofList (text.toList.take 2000)), state := .retrying,
              nextRetryAt := some time } := if_neg hlast
        rw [hassigned] at hsaved
        have hnext : row'.nextRetryAt = some time := by
          rcases assign_cases (attempt.held.current row).nextRetryAt (some time) row.nextRetryAt with
            ⟨hsame, hkept⟩ | hnew
          · exact (hsaved.nextRetryAt.trans hkept).trans (htime time rfl hsame.symm)
          · exact hsaved.nextRetryAt.trans hnew
        have hretrying : row'.state = .retrying := by
          rcases assign_cases (attempt.held.current row).state .retrying row.state with
            ⟨hsame, hkept⟩ | hnew
          · exact (hsaved.state.trans hkept).trans (hstate hsame.symm)
          · exact hsaved.state.trans hnew
        have houtcome : (HttpResult.error text).outcome (attempt.held.current row) = .retry :=
          if_neg hlast
        rw [houtcome]
        refine truthful_of fun r hr at_ hat => ?_
        have hr' : findDelivery attempt.held.id db' = some r := hr
        obtain rfl := Option.some.inj (hrow'.symm.trans hr')
        obtain rfl := Option.some.inj (hnext.symm.trans hat)
        have hscheduled := celeryRetry_of_lt (n := attempt.retries) (by omega) (failureTime oracle)
        refine ⟨hretrying, _, List.mem_append_right _ (hscheduled ▸ List.mem_singleton_self _), ?_⟩
        simp only [time, hretries]

/-- A run that ends in its first transaction. -/
theorem begun_truthful [Platform] {message : Message} {oracle : Oracle Answer}
    (h : sys.Sound deliveryId) (haccounted : Accounted deliveryId sys)
    (htimely : ∀ row ∈ findDelivery deliveryId sys.db,
      row.nextRetryAt = none ∨ Sendable oracle sys.db row)
    (hended : (sys.begun message (transaction oracle (beginAttempt deliveryId) sys.db)).running =
      sys.running) :
    Truthful deliveryId
      (sys.begun message (transaction oracle (beginAttempt deliveryId) sys.db)) := by
  have hunsent : ∀ {row}, findDelivery deliveryId sys.db = some row → ¬ row.state.final →
      (∀ held post db', transaction oracle (beginAttempt deliveryId) sys.db ≠
        (.ok (.attempt held post), db')) → row.nextRetryAt = none := by
    intro row hrow hopen hnot
    refine (htimely row hrow).resolve_right fun hsend => ?_
    obtain rfl := findDelivery_id hrow
    obtain ⟨held, post, db', hrun⟩ := begins_of_sendable h.unclashing h.checked hrow hopen hsend
    exact hnot held post db' hrun
  have hbegins := beginsAs oracle deliveryId sys.db
  generalize transaction oracle (beginAttempt deliveryId) sys.db = x at hended hunsent hbegins
  refine truthful_of_none fun r hr => ?_
  rw [DeliverySystem.begun_db] at hr
  cases hbegins with
  | missing hrow => exact absurd (hrow.symm.trans hr) (by simp)
  | @skipped row hrow hfinal =>
    obtain rfl := Option.some.inj (hrow.symm.trans hr)
    cases hnext : row.nextRetryAt with
    | none => rfl
    | some at_ =>
      have hstate := (haccounted row hrow at_ hnext).1
      rcases hfinal with hfinal | hfinal <;> simp [hfinal] at hstate
  | dead hrow hopen hrow' hstate hcount hnext =>
    obtain rfl := Option.some.inj (hrow'.symm.trans hr)
    exact hnext.trans (hunsent hrow hopen fun _ _ _ h => by simp at h)
  | attempt post hrow => simp [DeliverySystem.begun] at hended
  | failed hrow hopen =>
    obtain rfl := Option.some.inj (hrow.symm.trans hr)
    exact hunsent hrow hopen fun _ _ _ h => by simp at h

theorem DeliverySystem.Step.truthful [Platform] {e : DeliveryEvent}
    (hstep : sys.Step deliveryId e sys') (h : sys.Sound deliveryId)
    (haccounted : Accounted deliveryId sys)
    (htimely : Timely deliveryId sys e) (hended : e.EndsRun sys sys') :
    Truthful deliveryId sys' := by
  cases hstep with
  | began oracle hmessage => exact begun_truthful h haccounted htimely hended
  | finished result oracle hrunning => exact finished_truthful h hrunning htimely
  | _ => exact hended.elim

theorem DeliverySystem.Step.accounted [Platform] {e : DeliveryEvent}
    (hstep : sys.Step deliveryId e sys') (h : sys.Sound deliveryId)
    (haccounted : Accounted deliveryId sys)
    (htimely : Timely deliveryId sys e) : Accounted deliveryId sys' := by
  by_cases hended : e.EndsRun sys sys'
  · exact (hstep.truthful h haccounted htimely hended).accounted
  -- otherwise the row keeps its time, and no scheduled message is taken without a run
  intro row hrow at_ hat
  cases hstep with
  | published retries =>
    obtain ⟨hstate, hrunning | ⟨m, hm, hdue⟩⟩ := haccounted row hrow at_ hat
    · exact ⟨hstate, .inl hrunning⟩
    · exact ⟨hstate, .inr ⟨m, List.mem_cons_of_mem _ hm, hdue⟩⟩
  | other hdb hchecked hchange =>
    rcases hchange with hsame | ⟨_, hnew⟩
    · exact haccounted row (hsame ▸ hrow) at_ hat
    · exact absurd hat (by simp [(hnew row hrow).2.2])
  | retried organizationId userId oracle =>
    have hretries := retriesAs h.unclashing oracle deliveryId organizationId userId
    generalize transaction oracle (retryDelivery organizationId userId (some deliveryId)) sys.db = x
      at hrow hretries ⊢
    rw [DeliverySystem.retried_db] at hrow
    obtain ⟨result, db'⟩ := x
    cases hretries with
    | unchanged hsame =>
      obtain ⟨hstate, hrunning | ⟨m, hm, hdue⟩⟩ := haccounted row (hsame ▸ hrow) at_ hat
      · exact ⟨hstate, .inl (by simpa using hrunning)⟩
      · refine ⟨hstate, .inr ⟨m, ?_, hdue⟩⟩
        cases result with
        | ok response => exact List.mem_cons_of_mem _ hm
        | error e => exact hm
    | retried _ _ hrow' _ _ hnext =>
      obtain rfl := Option.some.inj (hrow'.symm.trans hrow)
      exact absurd hat (by simp [hnext])
  | @began message oracle hmessage =>
    have hbegins := beginsAs oracle deliveryId sys.db
    generalize transaction oracle (beginAttempt deliveryId) sys.db = x at hrow hended hbegins ⊢
    cases hbegins with
    | attempt post hrow₀ hopen hrow' hstate hcount hnext =>
      obtain rfl := Option.some.inj (hrow'.symm.trans hrow)
      obtain ⟨hretrying, _⟩ := haccounted _ hrow₀ at_ (hnext.symm.trans hat)
      exact ⟨hstate.trans hretrying, .inl (List.cons_ne_nil _ _)⟩
    | _ => exact absurd rfl hended
  | finished => exact absurd trivial hended
  | lost hrunning => exact absurd hat (by simp [htimely row hrow])

end Steps

/-! ## Runs -/

section Runs

variable {deliveryId : UUID} {db : Db Row} {sys : DeliverySystem}

/-- Before the delivery is inserted. -/
theorem sound_start (hdb : Unclashing db) (hchecked : Checked db) :
    ({ db } : DeliverySystem).Sound deliveryId where
  unclashing := hdb
  checked := hchecked
  held _ ha := absurd ha List.not_mem_nil

variable [Platform]

/-- From before the insertion of the delivery, over any order of messages, requests and runs that
satisfy the condition, `next_retry_at` is true whenever no run is in progress, and after every
run that ends. -/
theorem next_retry_truthful (hdb : Unclashing db) (hchecked : Checked db)
    (hnew : findDelivery deliveryId db = none)
    (h : DeliverySystem.Reached deliveryId (Timely deliveryId) { db } sys) :
    (sys.running = [] → Truthful deliveryId sys) ∧
      ∀ e sys', sys.Step deliveryId e sys' → Timely deliveryId sys e → e.EndsRun sys sys' →
        Truthful deliveryId sys' := by
  have hinv : sys.Sound deliveryId ∧ Accounted deliveryId sys := by
    refine h.invariant (I := fun sys => sys.Sound deliveryId ∧ Accounted deliveryId sys)
      ⟨sound_start hdb hchecked, fun row hrow => ?_⟩ fun sys e sys' hI htimely hstep =>
        ⟨hstep.sound hI.1, hstep.accounted hI.1 hI.2 htimely⟩
    exact absurd (hnew.symm.trans hrow) (by simp)
  exact ⟨hinv.2.truthful, fun e sys' hstep htimely hended =>
    hstep.truthful hinv.1 hinv.2 htimely hended⟩

end Runs

section Sample

attribute [local instance] samplePlatform

/-- The first attempt of a delivery fails: five seconds until the retry, ten in the column. -/
def failedOnce : DeliverySystem :=
  ({ ({ db := hookedDb } : DeliverySystem).published 0 with db := deliveringDb }.begin {}
    sampleOracle).finish (.error "timed out") sampleOracle

theorem first_failure_tells_another_time :
    ∃ sys, DeliverySystem.Reached sampleDelivery.id (fun _ _ => True) { db := hookedDb } sys ∧
      sys.running = [] ∧ ¬ Truthful sampleDelivery.id sys := by
  have hreached : DeliverySystem.Reached sampleDelivery.id (fun _ _ => True) { db := hookedDb }
      failedOnce :=
    (((DeliverySystem.Reached.start.published 0 trivial).inserted (by decide) trivial).begin
      (by decide) sampleOracle trivial).finish _ sampleOracle fun _ _ => trivial
  have hrow : (findDelivery sampleDelivery.id failedOnce.db).bind (·.nextRetryAt) =
      some (1 + seconds 10) := by decide +kernel
  have hqueue : failedOnce.queue.map (·.due) = [some (1 + seconds 5)] := by decide +kernel
  refine ⟨failedOnce, hreached, by decide +kernel, fun htruthful => ?_⟩
  obtain ⟨row, hfound, hnext⟩ := Option.bind_eq_some_iff.mp hrow
  obtain ⟨_, m, hm, hdue⟩ := (htruthful row hfound).1 _ hnext
  have hmem := List.mem_map_of_mem (f := (·.due)) hm
  rw [hqueue, hdue] at hmem
  exact absurd hmem (by decide)

/-- The message comes before the commit once, so that the counters agree at the failure. -/
def beforeFailure : DeliverySystem :=
  { (({ db := hookedDb } : DeliverySystem).published 0).begin {} sampleOracle with
      db := deliveringDb }.begin { retries := 1 } sampleOracle

theorem sample_next_retry : ∃ sys,
    DeliverySystem.Reached sampleDelivery.id (Timely sampleDelivery.id) { db := hookedDb } sys ∧
      (findDelivery sampleDelivery.id sys.db).bind (·.nextRetryAt) = some (1 + seconds 10) ∧
      (sys.running = [] → Truthful sampleDelivery.id sys) := by
  have hbefore : DeliverySystem.Reached sampleDelivery.id (Timely sampleDelivery.id)
      { db := hookedDb } beforeFailure := by
    refine ((((DeliverySystem.Reached.start.published 0 trivial).begin (by decide) sampleOracle
      fun row hrow => ?_).inserted (by decide +kernel) trivial).begin (by decide +kernel)
      sampleOracle fun row hrow => ?_)
    · have hnone : findDelivery sampleDelivery.id hookedDb = none := by decide
      exact absurd (hnone.symm.trans hrow) (by simp)
    · obtain rfl : sampleDelivery = row := Option.some.inj hrow
      exact .inl rfl
  have hrow : (findDelivery sampleDelivery.id beforeFailure.db).map
      (fun r => (r.nextRetryAt, r.state)) = some (none, .pending) := by decide +kernel
  have hattempt : beforeFailure.running.map
      (fun a => (a.retries, a.held.attemptCount, a.held.state, a.held.nextRetryAt)) =
      [(1, 1, .pending, none)] := by decide +kernel
  have htimely : ∀ attempt ∈ beforeFailure.running.head?,
      Timely sampleDelivery.id beforeFailure
        (.finished attempt (.error "timed out") sampleOracle) := by
    intro attempt hhead row hfound
    have hmem := List.mem_map_of_mem
      (f := fun a : Attempt => (a.retries, a.held.attemptCount, a.held.state, a.held.nextRetryAt))
      (List.mem_of_mem_head? hhead)
    rw [hattempt, List.mem_singleton] at hmem
    have hfound' : findDelivery sampleDelivery.id beforeFailure.db = some row := hfound
    rw [hfound', Option.map_some] at hrow
    simp only [Prod.mk.injEq, Option.some.injEq] at hmem hrow
    obtain ⟨hretries, hcount, hstate, htime⟩ := hmem
    -- the session does not reload the row
    have hcurrent : attempt.held.current row = attempt.held := rfl
    simp only [HttpResult.Timely, hcurrent, hretries, hcount, hstate, htime]
    exact ⟨.inl hrow.1, by simp⟩
  have hreached := hbefore.finish (.error "timed out") sampleOracle htimely
  exact ⟨_, hreached, by decide +kernel,
    (next_retry_truthful unclashing_hookedDb checked_hookedDb (by decide) hreached).1⟩

end Sample

end TenantFlow
