import TenantFlow.Verification.Sample
import TenantFlow.Verification.Sequential

/-!
# Chains of delivery tasks

The messages and the runs of `deliver_webhook_task` for one delivery. A run is two transactions
with the HTTP call between them; each transaction holds the lock of the row to its end, so the
transactions of one delivery follow each other. A retry continues a message with the next value
of `request.retries`, until `max_retries` is used up.
-/

namespace TenantFlow

open JsonText Transactional

/-- An outstanding message: `request.retries`, and the time for which a failed attempt has
scheduled it. -/
structure Message where
  retries : Nat := 0
  due : Option Datetime := none
  deriving DecidableEq

/-- `self.retry(countdown=min(300, 2 ** self.request.retries * 5))`, by the time of the failure. -/
def celeryRetry (retries : Nat) (failedAt : Option Datetime) : List Message :=
  let maxRetries := 5
  if retries < maxRetries then
    [{ retries := retries + 1,
       due := failedAt.map fun at_ => at_ + seconds (min 300 (2 ^ retries * 5)) }]
  else []

/-- A run between its two transactions: the row as its session holds it, and what it sends. -/
structure Attempt where
  retries : Nat
  held : WebhookDelivery
  post : Post

/-- The database, what is outstanding, and how many messages and attempts there have been. -/
structure DeliverySystem where
  db : Db Row
  queue : List Message := []
  running : List Attempt := []
  messages : Nat := 0
  attempts : Nat := 0

/-- What can happen to a delivery and its messages. -/
inductive DeliveryEvent where
  /-- A `.delay` call, or a message that the broker delivers again. -/
  | published (retries : Nat)
  /-- The commit of a request that leaves the row alone, or inserts it. -/
  | other (db' : Db Row)
  | retried (organizationId userId : UUID) (oracle : Oracle Answer)
  | began (message : Message) (oracle : Oracle Answer)
  | finished (attempt : Attempt) (result : HttpResult) (oracle : Oracle Answer)
  /-- A worker is lost in the middle of a run, and the broker delivers its message again. -/
  | lost (attempt : Attempt)

/-- The row as `emit_event` inserts it. -/
def WebhookDelivery.New (d : WebhookDelivery) : Prop :=
  d.state = .pending ∧ d.attemptCount = 0 ∧ d.nextRetryAt = none

abbrev notCommittedYet : Failure := runtimeError "Webhook delivery is not committed yet"

section Chains

def DeliverySystem.published (sys : DeliverySystem) (retries : Nat) : DeliverySystem :=
  { sys with queue := { retries } :: sys.queue, messages := sys.messages + 1 }

/-- After a `retry_delivery` request. Its message cannot begin before the commit: the request
holds the lock of the row. -/
def DeliverySystem.retried (sys : DeliverySystem) :
    Except Failure WebhookDeliveryResponse × Db Row → DeliverySystem
  | (.ok _, db') => { sys with db := db' }.published 0
  | (.error _, db') => { sys with db := db' }

/-- After the first transaction of a run. -/
def DeliverySystem.begun (sys : DeliverySystem) (message : Message) :
    Except Failure Begun × Db Row → DeliverySystem
  | (.ok (.attempt held post), db') => { sys with
      db := db', queue := sys.queue.erase message,
      running := ⟨message.retries, held, post⟩ :: sys.running,
      attempts := sys.attempts + 1 }
  | (.ok _, db') => { sys with db := db', queue := sys.queue.erase message }
  | (.error e, db') =>
    -- Of its own exceptions the task retries the `RuntimeError`.
    let retry := if e = notCommittedYet then celeryRetry message.retries none else []
    { sys with db := db', queue := sys.queue.erase message ++ retry }

/-- After the second transaction, which has read the clock at `at_` if the attempt failed. -/
def DeliverySystem.ended (sys : DeliverySystem) (before after : List Attempt) (attempt : Attempt)
    (at_ : Datetime) : Except Failure DeliveryOutcome × Db Row → DeliverySystem
  | (.ok .retry, db') => { sys with
      db := db', queue := sys.queue ++ celeryRetry attempt.retries (some at_),
      running := before ++ after }
  | (_, db') => { sys with db := db', running := before ++ after }

/-- When the second transaction reads the clock: with its second statement. -/
def failureTime (oracle : Oracle Answer) : Datetime := oracle 1 .now

inductive DeliverySystem.Step [Platform] (deliveryId : UUID) :
    DeliverySystem → DeliveryEvent → DeliverySystem → Prop where
  | published {sys : DeliverySystem} (retries : Nat) :
      Step deliveryId sys (.published retries) (sys.published retries)
  | other {sys : DeliverySystem} {db' : Db Row} (hdb : Unclashing db') (hchecked : Checked db')
      (hrow : findDelivery deliveryId db' = findDelivery deliveryId sys.db ∨
        findDelivery deliveryId sys.db = none ∧ ∀ d ∈ findDelivery deliveryId db', d.New) :
      Step deliveryId sys (.other db') { sys with db := db' }
  | retried {sys : DeliverySystem} (organizationId userId : UUID) (oracle : Oracle Answer) :
      Step deliveryId sys (.retried organizationId userId oracle)
        (sys.retried (transaction oracle
          (retryDelivery organizationId userId (some deliveryId)) sys.db))
  | began {sys : DeliverySystem} {message : Message} (oracle : Oracle Answer)
      (hmessage : message ∈ sys.queue) :
      Step deliveryId sys (.began message oracle)
        (sys.begun message (transaction oracle (beginAttempt deliveryId) sys.db))
  | finished {sys : DeliverySystem} {before after : List Attempt} {attempt : Attempt}
      (result : HttpResult) (oracle : Oracle Answer)
      (hrunning : sys.running = before ++ attempt :: after) :
      Step deliveryId sys (.finished attempt result oracle)
        (sys.ended before after attempt (failureTime oracle)
          (transaction oracle (finishAttempt attempt.held result) sys.db))
  | lost {sys : DeliverySystem} {before after : List Attempt} {attempt : Attempt}
      (hrunning : sys.running = before ++ attempt :: after) :
      Step deliveryId sys (.lost attempt)
        ({ sys with running := before ++ after }.published attempt.retries)

section Parts

variable {sys : DeliverySystem} {message : Message} {before after : List Attempt}
  {attempt : Attempt} {at_ : Datetime}

@[simp] theorem DeliverySystem.retried_db (x : Except Failure WebhookDeliveryResponse × Db Row) :
    (sys.retried x).db = x.2 := by
  obtain ⟨_ | _, _⟩ := x <;> rfl

@[simp] theorem DeliverySystem.retried_running
    (x : Except Failure WebhookDeliveryResponse × Db Row) :
    (sys.retried x).running = sys.running := by
  obtain ⟨_ | _, _⟩ := x <;> rfl

@[simp] theorem DeliverySystem.begun_db (x : Except Failure Begun × Db Row) :
    (sys.begun message x).db = x.2 := by
  obtain ⟨_ | begun, _⟩ := x
  · rfl
  · cases begun <;> rfl

@[simp] theorem DeliverySystem.ended_db (x : Except Failure DeliveryOutcome × Db Row) :
    (sys.ended before after attempt at_ x).db = x.2 := by
  obtain ⟨_ | outcome, _⟩ := x
  · rfl
  · cases outcome <;> rfl

@[simp] theorem DeliverySystem.ended_running (x : Except Failure DeliveryOutcome × Db Row) :
    (sys.ended before after attempt at_ x).running = before ++ after := by
  obtain ⟨_ | outcome, _⟩ := x
  · rfl
  · cases outcome <;> rfl

end Parts

/-- The states reached from `start` by events that all satisfy `ok`. -/
inductive DeliverySystem.Reached [Platform] (deliveryId : UUID)
    (ok : DeliverySystem → DeliveryEvent → Prop) (start : DeliverySystem) :
    DeliverySystem → Prop where
  | start : Reached deliveryId ok start start
  | next {sys sys' : DeliverySystem} {e : DeliveryEvent} (h : Reached deliveryId ok start sys)
      (hstep : sys.Step deliveryId e sys') (hok : ok sys e) : Reached deliveryId ok start sys'

/-- What the start satisfies and every step preserves holds in every state reached. -/
theorem DeliverySystem.Reached.invariant [Platform] {deliveryId : UUID}
    {ok : DeliverySystem → DeliveryEvent → Prop} {start sys : DeliverySystem}
    {I : DeliverySystem → Prop} (h : Reached deliveryId ok start sys) (hstart : I start)
    (hnext : ∀ sys e sys', I sys → ok sys e → sys.Step deliveryId e sys' → I sys') : I sys := by
  induction h with
  | start => exact hstart
  | next _ hstep hok ih => exact hnext _ _ _ ih hok hstep

end Chains

/-! ## The row after a save -/

/-- The columns of a chain after `new` was assigned over `loaded`. -/
structure WebhookDelivery.Saved (loaded new r r' : WebhookDelivery) : Prop where
  state : r'.state = assign loaded.state new.state r.state
  attemptCount : r'.attemptCount = assign loaded.attemptCount new.attemptCount r.attemptCount
  nextRetryAt : r'.nextRetryAt = assign loaded.nextRetryAt new.nextRetryAt r.nextRetryAt

section Saves

variable {db : Db Row} {loaded new r : WebhookDelivery}

theorem assign_unchanged {α : Type} [DecidableEq α] {x current : α} :
    assign x x current = current := if_pos rfl

theorem assign_cases {α : Type} [DecidableEq α] (loaded new current : α) :
    new = loaded ∧ assign loaded new current = current ∨ assign loaded new current = new := by
  by_cases heq : new = loaded
  · exact .inl ⟨heq, if_pos heq⟩
  · exact .inr (if_neg heq)

theorem WebhookDelivery.Saved.flushed (at_ : Datetime) :
    loaded.Saved new r (loaded.flushed new at_ r) := ⟨rfl, rfl, rfl⟩

/-- A flush that sends nothing. -/
theorem WebhookDelivery.Saved.clean (h : loaded.dirty new = false) : loaded.Saved new r r := by
  simp only [WebhookDelivery.dirty, Bool.or_eq_false_iff, decide_eq_false_iff_not, not_not] at h
  obtain ⟨⟨⟨⟨hstate, hcount⟩, _⟩, _⟩, hnext⟩ := h
  exact ⟨by rw [hstate, assign_unchanged], by rw [hcount, assign_unchanged],
    by rw [hnext, assign_unchanged]⟩

theorem findDelivery_id {deliveryId : UUID} (h : findDelivery deliveryId db = some r) :
    r.id = deliveryId := by
  simpa using List.find?_some h

theorem find_map_id {l : List WebhookDelivery} {f : WebhookDelivery → WebhookDelivery}
    (hf : ∀ r, (f r).id = r.id) (id : UUID) :
    (l.map f).find? (·.id = id) = (l.find? (·.id = id)).map f := by
  rw [List.find?_map]
  congr 2
  funext r
  simp [hf]

/-- An assignment to a row, found again. -/
theorem findDelivery_update {id : UUID} {f : WebhookDelivery → WebhookDelivery}
    (hf : ∀ r, (f r).id = r.id) (h : findDelivery id db = some r) :
    findDelivery id ((Op.update .webhookDeliveries id f).apply db) = some (f r) := by
  have hkeep : ∀ r : WebhookDelivery, (if r.id = id then f r else r).id = r.id := fun r => by
    split
    · exact hf r
    · rfl
  have hr : (db .webhookDeliveries).find? (·.id = id) = some r := h
  have hmap : (Op.update .webhookDeliveries id f).apply db .webhookDeliveries =
      (db .webhookDeliveries).map fun r => if r.id = id then f r else r := apply_update_self _ _ _ _
  rw [findDelivery, hmap, find_map_id hkeep, hr, Option.map_some, if_pos (findDelivery_id h)]

theorem ends_saveDelivery {β : Type} {oracle : Oracle Answer} {Q : β → Db Row → Prop}
    {f : Unit → App β} (hr : findDelivery loaded.id db = some r)
    (h : ∀ r' db', findDelivery loaded.id db' = some r' → loaded.Saved new r r' →
      Ends oracle Q (f ()) db') : Ends oracle Q ((saveDelivery loaded new).bind f) db := by
  refine runs_bind (ends_flush (fun at_ _ _ => ?_) fun hclean => ?_)
  · exact runs_ret (h _ _ (findDelivery_update (fun _ => rfl) hr) (.flushed at_))
  · exact runs_ret (h _ _ hr (.clean hclean))

end Saves

/-! ## What the transactions can do -/

section Transactions

variable {db : Db Row} {deliveryId : UUID} {oracle : Oracle Answer}

abbrev DeliveryState.final (s : DeliveryState) : Prop := s = .delivered ∨ s = .dead

/-- The ends of the first transaction of a run. -/
inductive BeginsAs (deliveryId : UUID) (db : Db Row) : Except Failure Begun × Db Row → Prop where
  | missing (hrow : findDelivery deliveryId db = none) :
      BeginsAs deliveryId db (.error notCommittedYet, db)
  | skipped {row : WebhookDelivery} (hrow : findDelivery deliveryId db = some row)
      (hfinal : row.state.final) : BeginsAs deliveryId db (.ok .skipped, db)
  | dead {row row' : WebhookDelivery} {db' : Db Row}
      (hrow : findDelivery deliveryId db = some row) (hopen : ¬ row.state.final)
      (hrow' : findDelivery deliveryId db' = some row') (hstate : row'.state = .dead)
      (hcount : row'.attemptCount = row.attemptCount)
      (hnext : row'.nextRetryAt = row.nextRetryAt) : BeginsAs deliveryId db (.ok .dead, db')
  | attempt {row row' : WebhookDelivery} {db' : Db Row} (post : Post)
      (hrow : findDelivery deliveryId db = some row) (hopen : ¬ row.state.final)
      (hrow' : findDelivery deliveryId db' = some row') (hstate : row'.state = row.state)
      (hcount : row'.attemptCount = row.attemptCount + 1)
      (hnext : row'.nextRetryAt = row.nextRetryAt) :
      BeginsAs deliveryId db
        (.ok (.attempt { row with attemptCount := row.attemptCount + 1 } post), db')
  | failed {row : WebhookDelivery} {e : Failure} (hrow : findDelivery deliveryId db = some row)
      (hopen : ¬ row.state.final) : BeginsAs deliveryId db (.error e, db)

/-- An attempt of an open delivery. -/
theorem ends_beginAttempt [Platform] {row : WebhookDelivery}
    (hrow : findDelivery deliveryId db = some row) (hopen : ¬ row.state.final) :
    Ends oracle (fun begun db' => BeginsAs deliveryId db (.ok begun, db'))
      (beginAttempt deliveryId) db := by
  obtain rfl := findDelivery_id hrow
  unfold beginAttempt
  refine ends_selectForUpdate ?_
  simp only [hrow]
  rw [if_neg hopen]
  refine ends_select ?_
  have hdead : ∀ lastError, Ends oracle (fun begun db' => BeginsAs row.id db (.ok begun, db'))
      ((saveDelivery row { row with state := .dead, lastError }).bind fun _ => Prog.ret .dead)
      db := fun lastError => by
    refine ends_saveDelivery hrow fun r' db' hr' hsaved => runs_ret ?_
    exact .dead hrow hopen hr' (hsaved.state.trans assign_self)
      (hsaved.attemptCount.trans assign_unchanged) (hsaved.nextRetryAt.trans assign_unchanged)
  split
  · exact hdead row.lastError
  · rename_i endpoint _
    let F : Scope := { calls := fun c => c.notifies = false }
    refine ends_confined (F := F) (confined_validateWebhookTarget (fun _ h => h) endpoint.url)
      fun target db₁ hagree => ?_
    obtain rfl : db₁ = db := funext fun t => hagree t (by simp [F]) (by simp [F])
    cases target with
    | error e => exact hdead (some e)
    | ok u =>
      refine ends_call fun decrypted => ?_
      cases decrypted with
      | none => exact runs_raise _
      | some secret =>
        refine ends_call fun at_ => ends_saveDelivery hrow fun r' db' hr' hsaved => runs_ret ?_
        exact .attempt _ hrow hopen hr' (hsaved.state.trans assign_unchanged)
          (hsaved.attemptCount.trans assign_self) (hsaved.nextRetryAt.trans assign_unchanged)

theorem run_findDelivery {β : Type} {f : Option WebhookDelivery → App β} {row : Option WebhookDelivery}
    (hrow : findDelivery deliveryId db = row) (n : Nat) :
    ((selectForUpdate .webhookDeliveries (findDelivery deliveryId)).bind f).run (execStmt oracle)
      ⟨db, n⟩ = (f row).run (execStmt oracle) ⟨db, n + 1⟩ := by
  subst hrow
  rfl

theorem beginsAs [Platform] (oracle : Oracle Answer) (deliveryId : UUID) (db : Db Row) :
    BeginsAs deliveryId db (transaction oracle (beginAttempt deliveryId) db) := by
  cases hrow : findDelivery deliveryId db with
  | none =>
    have hrun : transaction oracle (beginAttempt deliveryId) db = (.error notCommittedYet, db) := by
      simp only [transaction, beginAttempt, Prog.bind_eq, run_findDelivery hrow]
      rfl
    rw [hrun]
    exact .missing hrow
  | some row =>
    by_cases hfinal : row.state.final
    · have hrun : transaction oracle (beginAttempt deliveryId) db = (.ok .skipped, db) := by
        simp only [transaction, beginAttempt, Prog.bind_eq, run_findDelivery hrow, if_pos hfinal]
        rfl
      rw [hrun]
      exact .skipped hrow hfinal
    · cases hres : (transaction oracle (beginAttempt deliveryId) db).1 with
      | ok begun =>
        have hends := (ends_beginAttempt hrow hfinal).transaction hres
        rwa [← hres] at hends
      | error e =>
        rw [← Prod.mk.eta (p := transaction oracle (beginAttempt deliveryId) db), hres,
          transaction_error hres]
        exact .failed hrow hfinal

/-- The row that the second transaction assigns to. -/
def WebhookDelivery.current [Platform] (held row : WebhookDelivery) : WebhookDelivery :=
  if Platform.getReloads then row else held

/-- What the second transaction assigns. -/
def HttpResult.assigns (result : HttpResult) (at_ : Datetime) (current : WebhookDelivery) :
    WebhookDelivery :=
  match result with
  | .error text => current.failed text at_
  | .response statusCode => current.succeeded statusCode

@[simp] theorem HttpResult.assigns_attemptCount (result : HttpResult) (at_ : Datetime)
    (current : WebhookDelivery) :
    (result.assigns at_ current).attemptCount = current.attemptCount := by
  cases result with
  | response statusCode => rfl
  | error text =>
    simp only [HttpResult.assigns, WebhookDelivery.failed]
    split <;> rfl

/-- What the second transaction tells the task. -/
def HttpResult.outcome (result : HttpResult) (current : WebhookDelivery) : DeliveryOutcome :=
  match result with
  | .error _ => if current.attemptCount ≥ 5 then .dead else .retry
  | .response _ => .delivered

/-- The ends of the second transaction of a run. -/
inductive FinishesAs [Platform] (held : WebhookDelivery) (result : HttpResult) (at_ : Datetime)
    (db : Db Row) :
    Except Failure DeliveryOutcome × Db Row → Prop where
  | missing {outcome : DeliveryOutcome} (hrow : findDelivery held.id db = none)
      (houtcome : outcome ≠ .retry) : FinishesAs held result at_ db (.ok outcome, db)
  | saved {row row' : WebhookDelivery} {db' : Db Row} (hrow : findDelivery held.id db = some row)
      (hrow' : findDelivery held.id db' = some row')
      (hsaved : (held.current row).Saved (result.assigns at_ (held.current row)) row row') :
      FinishesAs held result at_ db (.ok (result.outcome (held.current row)), db')
  | failed {row : WebhookDelivery} {e : Failure} (hrow : findDelivery held.id db = some row) :
      FinishesAs held result at_ db (.error e, db)

theorem current_id [Platform] {held row : WebhookDelivery}
    (hrow : findDelivery held.id db = some row) :
    (held.current row).id = held.id := by
  unfold WebhookDelivery.current
  split
  · exact findDelivery_id hrow
  · rfl

/-- The save at the end of the second transaction. -/
theorem ends_finishAttempt [Platform] {held row : WebhookDelivery} {result : HttpResult}
    {at_ : Datetime} (hrow : findDelivery held.id db = some row) :
    Ends oracle (fun outcome db' => FinishesAs held result at_ db (.ok outcome, db'))
      ((saveDelivery (held.current row) (result.assigns at_ (held.current row))).bind fun _ =>
        Prog.ret (result.outcome (held.current row))) db := by
  have hid := current_id hrow
  refine ends_saveDelivery (hid ▸ hrow) fun r' db' hr' hsaved => runs_ret ?_
  exact .saved hrow (hid ▸ hr') hsaved

theorem finishesAs [Platform] (oracle : Oracle Answer) (held : WebhookDelivery)
    (result : HttpResult) (db : Db Row) : FinishesAs held result (failureTime oracle) db
      (transaction oracle (finishAttempt held result) db) := by
  cases hrow : findDelivery held.id db with
  | none =>
    cases result with
    | error text =>
      have hrun : transaction oracle (finishAttempt held (.error text)) db = (.ok .skipped, db) := by
        simp only [transaction, finishAttempt, Prog.bind_eq, run_findDelivery hrow]
        rfl
      rw [hrun]
      exact .missing hrow (by simp)
    | response statusCode =>
      have hrun : transaction oracle (finishAttempt held (.response statusCode)) db =
          (.ok .delivered, db) := by
        simp only [transaction, finishAttempt, Prog.bind_eq, run_findDelivery hrow]
        rfl
      rw [hrun]
      exact .missing hrow (by simp)
  | some row =>
    have hends : (finishAttempt held result).Along (execStmt oracle) (fun _ _ => True)
        (fun outcome st => FinishesAs held result (failureTime oracle) db (.ok outcome, st.db))
        ⟨db, 0⟩ := by
      refine ⟨trivial, ?_⟩
      simp only [execStmt, Stmt.eval, hrow]
      cases result with
      | error text => exact ⟨trivial, ends_finishAttempt hrow 2⟩
      | response statusCode => exact ends_finishAttempt hrow 1
    cases hres : (transaction oracle (finishAttempt held result) db).1 with
    | ok outcome =>
      have hended := along_transaction
        (Q := fun outcome db' => FinishesAs held result (failureTime oracle) db (.ok outcome, db'))
        hends hres
      rwa [← hres] at hended
    | error e =>
      rw [← Prod.mk.eta (p := transaction oracle (finishAttempt held result) db), hres,
        transaction_error hres]
      exact .failed hrow

/-- The ends of a manual retry: without an effect on the row, or as it says. -/
inductive RetriesAs (deliveryId : UUID) (db : Db Row) : Db Row → Prop where
  | unchanged {db' : Db Row} (hrow : findDelivery deliveryId db' = findDelivery deliveryId db) :
      RetriesAs deliveryId db db'
  | retried {row row' : WebhookDelivery} {db' : Db Row}
      (hrow : findDelivery deliveryId db = some row) (hopen : row.state ≠ .delivered)
      (hrow' : findDelivery deliveryId db' = some row') (hstate : row'.state = .retrying)
      (hcount : row'.attemptCount = row.attemptCount) (hnext : row'.nextRetryAt = none) :
      RetriesAs deliveryId db db'

theorem find_of_unclashing (hdb : Unclashing db) {d : WebhookDelivery}
    (hd : d ∈ db .webhookDeliveries) : findDelivery d.id db = some d :=
  hdb.find hd

theorem WebhookDelivery.retried_clean {d : WebhookDelivery}
    (h : (d.retried.state ≠ d.state || d.retried.nextRetryAt ≠ d.nextRetryAt ||
      d.retried.lastError ≠ d.lastError) = false) : d.state = .retrying ∧ d.nextRetryAt = none := by
  simp only [Bool.or_eq_false_iff, decide_eq_false_iff_not, not_not] at h
  exact ⟨h.1.1.symm, h.1.2.symm⟩

theorem ends_retryDelivery (hdb : Unclashing db) (organizationId userId : UUID) :
    Ends oracle (fun _ db' => RetriesAs deliveryId db db')
      (retryDelivery organizationId userId (some deliveryId)) db := by
  unfold retryDelivery
  refine ends_requirePermission fun context _ => ?_
  refine ends_validated fun id hid _ => ?_
  obtain rfl := Option.some.inj hid
  refine runs_selectForUpdate trivial ?_
  cases hfound : (deliveriesOf organizationId db).find? (·.1.id = deliveryId) with
  | none => exact runs_raise _
  | some found =>
    obtain ⟨delivery, joined⟩ := found
    obtain rfl : delivery.id = deliveryId := by simpa using List.find?_some hfound
    have hrow := find_of_unclashing hdb (mem_deliveriesOf (List.mem_of_find?_eq_some hfound)).1
    refine ends_select ?_
    split
    · exact runs_raise _
    · split
      · exact runs_raise _
      · rename_i hopen
        have hrest : ∀ {db₁ : Db Row} {r : WebhookDelivery} (updatedAt : Option Datetime),
            findDelivery delivery.id db₁ = some r → r.state = .retrying →
            r.attemptCount = delivery.attemptCount → r.nextRetryAt = none →
            Ends oracle (fun _ db' => RetriesAs delivery.id db db')
              ((recordAudit organizationId (some context.user.id) "webhook.delivery_retried"
                "webhook_delivery" (some delivery.id) []).bind fun _ =>
                (deliverWebhookTaskDelay delivery.id).bind fun _ => Prog.ret (deliveryResponse
                  { delivery.retried with updatedAt := updatedAt.getD delivery.updatedAt })) db₁ := by
          intro db₁ r updatedAt hr hstate hcount hnext
          refine ends_confined (F := { writes := [.auditLogs], inserts := [.auditLogs] })
            (confined_recordAudit (by simp) _ _ _ _ _) fun _ db₂ hagree₂ => ?_
          refine ends_confined (F := { writes := [], calls := fun _ => True })
            (confined_deliverWebhookTaskDelay (by simp) _) fun _ db₃ hagree₃ => runs_ret ?_
          have hsame : db₃ .webhookDeliveries = db₁ .webhookDeliveries :=
            (hagree₃ _ (by simp) (by simp)).trans (hagree₂ _ (by simp) (by simp))
          refine .retried hrow hopen ?_ hstate hcount hnext
          rw [findDelivery, hsame]
          exact hr
        refine ends_flush (fun at_ _ _ => ?_) fun hclean => ?_
        · exact hrest (some at_) (findDelivery_update (fun _ => rfl) hrow) assign_self rfl
            assign_self
        · obtain ⟨hstate, hnext⟩ := WebhookDelivery.retried_clean hclean
          exact hrest none hrow hstate rfl hnext

theorem retriesAs (hdb : Unclashing db) (oracle : Oracle Answer)
    (deliveryId organizationId userId : UUID) : RetriesAs deliveryId db (transaction oracle
      (retryDelivery organizationId userId (some deliveryId)) db).2 :=
  Runs.transaction_either (ends_retryDelivery hdb organizationId userId) (.unchanged rfl)

/-! ## What every run keeps -/

/-- The constraints of the database hold, and the runs hold the row of the delivery. -/
structure DeliverySystem.Sound (deliveryId : UUID) (sys : DeliverySystem) : Prop where
  unclashing : Unclashing sys.db
  checked : Checked sys.db
  held : ∀ a ∈ sys.running, a.held.id = deliveryId

theorem DeliverySystem.Step.sound [Platform] {sys sys' : DeliverySystem} {e : DeliveryEvent}
    (hstep : sys.Step deliveryId e sys') (h : sys.Sound deliveryId) : sys'.Sound deliveryId := by
  have hdb : ∀ {α : Type} {F : Scope} {p : App α} (oracle : Oracle Answer), Confined F p →
      (∀ t ∈ parentTables, t ∉ F.deletes) → Unclashing (transaction oracle p sys.db).2 ∧
        Checked (transaction oracle p sys.db).2 := fun _ hp hF =>
    ⟨hp.transaction_unclashing h.unclashing, hp.transaction_checked hF h.unclashing h.checked⟩
  have hkept : ∀ {before after : List Attempt} {attempt : Attempt},
      sys.running = before ++ attempt :: after → ∀ a ∈ before ++ after, a.held.id = deliveryId := by
    intro before after attempt hrunning a ha
    have hmem := (List.mem_append.mp ha).imp_right (List.mem_cons_of_mem attempt)
    exact h.held a (hrunning ▸ List.mem_append.mpr hmem)
  cases hstep with
  | published retries => exact ⟨h.unclashing, h.checked, h.held⟩
  | other hunclashing hchecked hrow => exact ⟨hunclashing, hchecked, h.held⟩
  | retried organizationId userId oracle =>
    obtain ⟨hunclashing, hchecked⟩ := hdb oracle
      (F := { writes := [.webhookDeliveries, .auditLogs], calls := fun _ => True })
      (confined_retryDelivery (by simp) (by simp) (fun _ => trivial) organizationId userId
        (some deliveryId)) (by simp)
    exact ⟨by simpa using hunclashing, by simpa using hchecked, by simpa using h.held⟩
  | @began message oracle hmessage =>
    obtain ⟨hunclashing, hchecked⟩ := hdb oracle (F := { writes := [.webhookDeliveries] })
      (confined_beginAttempt (by simp) (fun _ h => h) deliveryId) (by simp)
    refine ⟨by simpa using hunclashing, by simpa using hchecked, fun a ha => ?_⟩
    have hbegins := beginsAs oracle deliveryId sys.db
    generalize transaction oracle (beginAttempt deliveryId) sys.db = x at ha hbegins
    cases hbegins with
    | attempt post hrow =>
      rcases List.mem_cons.mp ha with rfl | ha
      · exact (findDelivery_id hrow :)
      · exact h.held a ha
    | _ => exact h.held a ha
  | @finished before after attempt result oracle hrunning =>
    obtain ⟨hunclashing, hchecked⟩ := hdb oracle (F := { writes := [.webhookDeliveries] })
      (confined_finishAttempt (by simp) attempt.held result) (by simp)
    refine ⟨by simpa using hunclashing, by simpa using hchecked, fun a ha => ?_⟩
    rw [ended_running] at ha
    exact hkept hrunning a ha
  | lost hrunning =>
    exact ⟨h.unclashing, h.checked, hkept hrunning⟩

end Transactions

/-! ## Sample runs -/

section Sample

attribute [local instance] samplePlatform

/-- A delivery to the sample endpoint. -/
def sampleDelivery : WebhookDelivery :=
  { id := ⟨9⟩, eventId := ⟨10⟩, endpointId := sampleEndpoint.id, eventType := "project.created",
    payload := .obj [], state := .pending, attemptCount := 0, responseStatus := none,
    lastError := none, nextRetryAt := none, createdAt := 0, updatedAt := 0 }

/-- The hooked database with the delivery. -/
def deliveringDb : Db Row
  | .webhookDeliveries => [sampleDelivery]
  | t => hookedDb t

theorem unclashing_deliveringDb : Unclashing deliveringDb :=
  unclashing_of_length fun t => by cases t <;> decide

theorem checked_hookedDb : Checked hookedDb := by
  intro t
  cases t <;> decide +kernel

theorem checked_deliveringDb : Checked deliveringDb := by
  intro t
  cases t <;> decide +kernel

/-- A run begins with the message. -/
def DeliverySystem.begin (sys : DeliverySystem) (message : Message) (oracle : Oracle Answer) :
    DeliverySystem :=
  sys.begun message (transaction oracle (beginAttempt sampleDelivery.id) sys.db)

/-- The run that began last finishes. -/
def DeliverySystem.finish (sys : DeliverySystem) (result : HttpResult) (oracle : Oracle Answer) :
    DeliverySystem :=
  match sys.running with
  | [] => sys
  | attempt :: rest => sys.ended [] rest attempt (failureTime oracle)
      (transaction oracle (finishAttempt attempt.held result) sys.db)

variable {ok : DeliverySystem → DeliveryEvent → Prop} {start sys : DeliverySystem}

theorem DeliverySystem.Reached.published (h : Reached sampleDelivery.id ok start sys)
    (retries : Nat) (hok : ok sys (.published retries)) :
    Reached sampleDelivery.id ok start (sys.published retries) :=
  h.next (.published retries) hok

theorem DeliverySystem.Reached.inserted (h : Reached sampleDelivery.id ok start sys)
    (hnew : findDelivery sampleDelivery.id sys.db = none) (hok : ok sys (.other deliveringDb)) :
    Reached sampleDelivery.id ok start { sys with db := deliveringDb } := by
  refine h.next (.other unclashing_deliveringDb checked_deliveringDb (.inr ⟨hnew, ?_⟩)) hok
  intro d hd
  obtain rfl : sampleDelivery = d := Option.some.inj hd
  exact ⟨rfl, rfl, rfl⟩

theorem DeliverySystem.Reached.begin (h : Reached sampleDelivery.id ok start sys)
    {message : Message} (hmessage : message ∈ sys.queue) (oracle : Oracle Answer)
    (hok : ok sys (.began message oracle)) :
    Reached sampleDelivery.id ok start (sys.begin message oracle) :=
  h.next (.began oracle hmessage) hok

theorem DeliverySystem.Reached.finish (h : Reached sampleDelivery.id ok start sys)
    (result : HttpResult) (oracle : Oracle Answer)
    (hok : ∀ attempt ∈ sys.running.head?, ok sys (.finished attempt result oracle)) :
    Reached sampleDelivery.id ok start (sys.finish result oracle) := by
  unfold DeliverySystem.finish
  split
  · exact h
  · rename_i attempt rest hrunning
    exact h.next (.finished result oracle hrunning) (hok attempt (by simp [hrunning]))

end Sample

end TenantFlow
