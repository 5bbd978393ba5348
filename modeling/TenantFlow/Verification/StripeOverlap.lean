import Mathlib.Data.List.Find
import TenantFlow.Verification.StripeSequence

/-!
# Two Stripe events at the same time

`process_stripe_event` reads the subscription without a lock and its flush writes only the
columns whose new value differs from the loaded one. Two events for one organization that
overlap can therefore end in a mixture of the two which neither order of processing gives.
This module says which final records two overlapping events can leave, and exactly for which
pairs of events each of these is the record of one of the two orders.
-/

namespace TenantFlow

open JsonText Transactional

/-! ## Tables with one row replaced -/

/-- The table with the version `x` in place of the row of the same key. -/
def withRow (x : Subscription) (rows : List Subscription) : List Subscription :=
  rows.map fun r => if r.id = x.id then x else r

section WithRow

variable {rows : List Subscription} {row x : Subscription} {organizationId : UUID}

/-- `x` is a version of the organization's row. -/
structure IsVersion (row x : Subscription) : Prop where
  id : x.id = row.id
  organizationId : x.organizationId = row.organizationId

theorem IsVersion.refl (row : Subscription) : IsVersion row row := ⟨rfl, rfl⟩

theorem IsVersion.afterFlush (h : IsVersion row x) (a : Assignments) (loaded : Subscription)
    (updatedAt : Datetime) : IsVersion row (Subscription.afterFlush a loaded updatedAt x) :=
  ⟨by simp [h.id], by simp [h.organizationId]⟩

theorem withRow_self (hd : DistinctIds rows) (hrow : row ∈ rows) : withRow row rows = rows := by
  unfold withRow
  conv_rhs => rw [← List.map_id rows]
  refine List.map_congr_left fun r hr => ?_
  split
  · rename_i hid
    exact (hd.eq_of_id hr hrow hid).symm
  · rfl

/-- Assigning to the replaced row assigns to the version in its place. -/
theorem map_withRow {f : Subscription → Subscription} (hf : (f x).id = x.id) :
    (withRow x rows).map (fun r => if r.id = x.id then f r else r) = withRow (f x) rows := by
  unfold withRow
  rw [List.map_map]
  refine List.map_congr_left fun r _ => ?_
  simp only [Function.comp, hf]
  split <;> simp_all

theorem changed_withRow (h : IsVersion row x) {loaded : Subscription} (hl : IsVersion row loaded)
    (a : Assignments) (updatedAt : Datetime) :
    changed loaded a updatedAt (withRow x rows) =
      withRow (Subscription.afterFlush a loaded updatedAt x) rows := by
  unfold changed Subscription.afterFlush
  split
  · rw [hl.id, ← h.id]
    exact map_withRow rfl
  · rfl

theorem find?_withRow {p : Subscription → Bool} (hd : DistinctIds rows)
    (hfind : rows.find? p = some row) (h : x.id = row.id) (hp : p x = true) :
    (withRow x rows).find? p = some x := by
  have hsame : ∀ r ∈ rows, p (if r.id = x.id then x else r) = p r := by
    intro r hr
    split
    · rename_i hid
      rw [hd.eq_of_id hr (List.mem_of_find?_eq_some hfind) (hid.trans h), hp,
        List.find?_some hfind]
    · rfl
  have hcongr : rows.find? (p ∘ fun r => if r.id = x.id then x else r) = rows.find? p :=
    List.find?_congr hsame
  rw [withRow, List.find?_map, hcongr, hfind]
  simp [h]

theorem find?_withRow_eq_none {p : Subscription → Bool} (h : x.id = row.id) (hp : p x = false)
    (hother : ∀ r ∈ rows, r.id ≠ row.id → p r = false) : (withRow x rows).find? p = none := by
  rw [List.find?_eq_none]
  intro y hy
  obtain ⟨r, hr, rfl⟩ := List.mem_map.mp hy
  split
  · simp [hp]
  · rename_i hid
    simpa using hother r hr (by rwa [← h])

theorem recordOf_withRow (hd : DistinctIds rows)
    (hfind : rows.find? (·.organizationId = organizationId) = some row) (h : IsVersion row x) :
    recordOf organizationId (withRow x rows) = some x.get := by
  have horg : row.organizationId = organizationId := by simpa using List.find?_some hfind
  rw [recordOf, find?_withRow hd hfind h.id (by simp [h.organizationId, horg])]
  rfl

end WithRow

/-! ## Two events for one organization -/

section Pair

variable [Platform]

/-- The payload names its organization, so that no look at the subscriptions is needed. -/
def Event.Named (event : Event) : Prop :=
  ∀ obj, event.object = some obj → organizationIdRaw obj ≠ .ok none

/-- The event resolves to the organization of `row` also when the row carries the customer `c`. -/
def Event.Follows (event : Event) (row : Subscription) (c : Option String) : Prop :=
  event.Named ∨ c = row.stripeCustomerId

/-- Two events that are both for an organization with a subscription row. -/
structure ForOne (events : Bool → Event) (db : Db Row) (organizationId : UUID)
    (row : Subscription) : Prop where
  consistent : Consistent db
  row_found : findSubscription organizationId db = some row
  resolves : ∀ i, ((events i).object.bind fun obj => resolveIn obj (db .subscriptions)) =
    some organizationId

variable {events : Bool → Event} {db : Db Row} {organizationId : UUID} {row x : Subscription}

namespace ForOne

theorem distinctIds (h : ForOne events db organizationId row) :
    DistinctIds (db .subscriptions) :=
  h.consistent.keys .subscriptions

theorem row_mem (h : ForOne events db organizationId row) : row ∈ db .subscriptions :=
  List.mem_of_find?_eq_some h.row_found

theorem row_organizationId (h : ForOne events db organizationId row) :
    row.organizationId = organizationId := by
  simpa using List.find?_some h.row_found

theorem object (h : ForOne events db organizationId row) (i : Bool) :
    ∃ obj, (events i).object = some obj ∧
      resolveIn obj (db .subscriptions) = some organizationId := by
  simpa [Option.bind_eq_some_iff] using h.resolves i

/-- A payload that does not name its organization carries the customer of the row. -/
theorem customer (h : ForOne events db organizationId row) {i : Bool}
    {obj : List (String × Json)} (hobj : (events i).object = some obj)
    (hraw : organizationIdRaw obj = .ok none) :
    ∃ customerId, extractCustomerId obj = some customerId ∧
      row.stripeCustomerId = some customerId ∧
      (db .subscriptions).find? (·.stripeCustomerId = some customerId) = some row := by
  have hres : resolveIn obj (db .subscriptions) = some organizationId := by
    have := h.resolves i
    rwa [hobj] at this
  simp only [resolveIn, hraw, Option.bind_eq_some_iff, Option.map_eq_some_iff] at hres
  obtain ⟨customerId, hcustomer, r, hr, horg⟩ := hres
  have hcr : r.stripeCustomerId = some customerId := by simpa using List.find?_some hr
  -- The row found carries the organization, of which there is one row only.
  have heq : r = row := by
    by_contra hne
    have hid : r.id ≠ row.id := fun hid =>
      hne (h.distinctIds.eq_of_id (List.mem_of_find?_eq_some hr) h.row_mem hid)
    have hclash := h.consistent.unique .subscriptions r (List.mem_of_find?_eq_some hr) row
      h.row_mem hid
    simp [clash, uniqueClash, horg, h.row_organizationId] at hclash
  subst heq
  exact ⟨customerId, hcustomer, hcr, hr⟩

/-- No other row carries the customer of the row. -/
theorem other_customer (h : ForOne events db organizationId row) {customerId : String}
    (hrow : row.stripeCustomerId = some customerId) {r : Subscription}
    (hr : r ∈ db .subscriptions) (hid : r.id ≠ row.id) :
    r.stripeCustomerId ≠ some customerId := by
  intro hc
  have hclash := h.consistent.unique .subscriptions r hr row h.row_mem hid
  simp [clash, uniqueClash, sameValue, hc, hrow] at hclash

/-- On a table with another version of the row, an event resolves to the organization or to
none. -/
theorem resolveIn_withRow (h : ForOne events db organizationId row) (hx : IsVersion row x)
    {i : Bool} {obj : List (String × Json)} (hobj : (events i).object = some obj) :
    ((events i).Follows row x.stripeCustomerId ∧
        resolveIn obj (withRow x (db .subscriptions)) = some organizationId) ∨
      (¬ (events i).Follows row x.stripeCustomerId ∧
        resolveIn obj (withRow x (db .subscriptions)) = none) := by
  have hres : resolveIn obj (db .subscriptions) = some organizationId := by
    have := h.resolves i
    rwa [hobj] at this
  cases hraw : organizationIdRaw obj with
  | error e => simp [resolveIn, hraw] at hres
  | ok raw =>
    cases raw with
    | some text =>
      have hnamed : (events i).Named := by
        intro obj' hobj' hnone
        rw [hobj] at hobj'
        obtain rfl := Option.some.inj hobj'
        simp [hraw] at hnone
      simp only [resolveIn, hraw] at hres ⊢
      exact .inl ⟨.inl hnamed, hres⟩
    | none =>
      have hunnamed : ¬ (events i).Named := fun hnamed => hnamed obj hobj hraw
      obtain ⟨customerId, hcustomer, hrow, hfind⟩ := h.customer hobj hraw
      simp only [resolveIn, hraw, hcustomer, Option.bind_some]
      by_cases hsame : x.stripeCustomerId = some customerId
      · refine .inl ⟨.inr (by rw [hsame, hrow]), ?_⟩
        rw [find?_withRow h.distinctIds hfind hx.id (by simpa using hsame), Option.map_some,
          hx.organizationId, h.row_organizationId]
      · refine .inr ⟨?_, ?_⟩
        · rintro (hnamed | heq)
          · exact hunnamed hnamed
          · exact hsame (heq.trans hrow)
        · rw [find?_withRow_eq_none hx.id (by simpa using hsame) ?_]
          · rfl
          · intro r hr hid
            simpa using h.other_customer hrow hr hid

end ForOne

/-! ## The phases of an event in processing -/

inductive OverlapPhase where
  /-- The subscription is not loaded yet. -/
  | before
  /-- No organization resolved. -/
  | unresolved
  /-- Loaded, nothing flushed. -/
  | loaded (row : Subscription)
  | flushed (loaded : Subscription) (updatedAt : Datetime)

/-- What the pending writes of an event in this phase make of the subscriptions. -/
def OverlapPhase.effect (a : Assignments) : OverlapPhase → List Subscription → List Subscription
  | .flushed l updatedAt, rows =>
    rows.map fun r => if r.id = l.id then Subscription.patch l (a.apply l) updatedAt r else r
  | _, rows => rows

/-- How the phase moves when a statement evaluated on `view` has written `ops`. -/
inductive OverlapMove (event : Event) (organizationId : UUID) (view : Db Row) :
    List (Op Row UUID) → OverlapPhase → OverlapPhase → Prop where
  | spare {ops : List (Op Row UUID)} {φ : OverlapPhase}
      (h : ∀ op ∈ ops, op.table ≠ .subscriptions) : OverlapMove event organizationId view ops φ φ
  | unresolved {obj : List (String × Json)} (hobj : event.object = some obj)
      (h : resolveIn obj (view .subscriptions) = none) :
      OverlapMove event organizationId view [] .before .unresolved
  | load {loaded : Subscription} (h : findSubscription organizationId view = some loaded) :
      OverlapMove event organizationId view [] .before (.loaded loaded)
  | flush {loaded : Subscription} {updatedAt : Datetime}
      (hdirty : Subscription.dirty loaded (event.assigned.apply loaded) = true) :
      OverlapMove event organizationId view
        [.update .subscriptions loaded.id
          (Subscription.patch loaded (event.assigned.apply loaded) updatedAt)]
        (.loaded loaded) (.flushed loaded updatedAt)

/-- While nothing is flushed, an event sees the table with some version of the row. -/
def overlapDiscipline (events : Bool → Event) (db : Db Row) (organizationId : UUID)
    (row : Subscription) : Discipline Row UUID Answer Failure Bool OverlapPhase where
  sees _ φ view := φ = .before →
    ∃ x, IsVersion row x ∧ view .subscriptions = withRow x (db .subscriptions)
  next i φ s view ext φ' :=
    OverlapMove (events i) organizationId view (s.eval ext view).2 φ φ'
  fails _ _ _ := True

/-- The phases in which an event can commit as processed. -/
def OverlapPhase.Done (event : Event) : OverlapPhase → Prop
  | .before => False
  | .unresolved => True
  | .loaded l => Subscription.dirty l (event.assigned.apply l) = false
  | .flushed l _ => Subscription.dirty l (event.assigned.apply l) = true

section Obeys

variable {i : Bool} {β : Type} {post : OverlapPhase → β → Prop} {φ : OverlapPhase}

theorem overlap_of_leaves {p : App β} {χ : β → Prop}
    (h : p.Every Stmt.Possible (Stmt.Spares .subscriptions) (fun _ => True) χ) :
    (overlapDiscipline events db organizationId row).Obeys i (fun φ' b => φ' = φ ∧ χ b) φ p :=
  Discipline.obeys_of_every (fun _ view ext hs => .spare (hs.ops_table ext view)) h

theorem overlap_call {c : Call} {k : Answer c → App β}
    (h : ∀ y, (overlapDiscipline events db organizationId row).Obeys i post φ (k y)) :
    (overlapDiscipline events db organizationId row).Obeys i post φ (.step (.call c) k) :=
  fun _ ext _ => ⟨φ, .spare (by simp [Stmt.eval]), h (ext c)⟩

theorem overlap_resolveOrganizationId (h : ForOne events db organizationId row)
    {obj : List (String × Json)} (hobj : (events i).object = some obj) {f : Option UUID → App β}
    (hnone : (overlapDiscipline events db organizationId row).Obeys i post .unresolved (f none))
    (hsome : (overlapDiscipline events db organizationId row).Obeys i post .before
      (f (some organizationId))) :
    (overlapDiscipline events db organizationId row).Obeys i post .before
      ((resolveOrganizationId obj).bind f) := by
  have hres : resolveIn obj (db .subscriptions) = some organizationId := by
    have := h.resolves i
    rwa [hobj] at this
  unfold resolveOrganizationId
  cases hraw : organizationIdRaw obj with
  | error e => trivial
  | ok raw =>
    simp only [Prog.bind_eq, Prog.ofExcept_ok, Prog.ret_bind]
    cases raw with
    | some text =>
      have htext : UUID.ofString text = some organizationId := by
        simpa [resolveIn, hraw] using hres
      simp only [htext]
      exact hsome
    | none =>
      obtain ⟨customerId, hcustomer, _⟩ := h.customer hobj hraw
      simp only [hcustomer]
      intro view ext hsees
      obtain ⟨x, hx, hview⟩ := hsees rfl
      have hfound : findByCustomer customerId view = resolveIn obj (view .subscriptions) := by
        simp [resolveIn, hraw, hcustomer, findByCustomer]
      rcases h.resolveIn_withRow hx hobj with ⟨_, hr⟩ | ⟨_, hr⟩
      · refine ⟨.before, .spare (by simp [Stmt.eval]), ?_⟩
        rw [← hview, ← hfound] at hr
        rw [← hr] at hsome
        exact hsome
      · rw [← hview, ← hfound] at hr
        refine ⟨.unresolved, .unresolved hobj (by rw [← hfound, hr]), ?_⟩
        rw [← hr] at hnone
        exact hnone

theorem overlap_getOrCreateSubscription (h : ForOne events db organizationId row)
    {f : Subscription → App β}
    (hf : ∀ loaded, (overlapDiscipline events db organizationId row).Obeys i post (.loaded loaded)
      (f loaded)) :
    (overlapDiscipline events db organizationId row).Obeys i post .before
      ((getOrCreateSubscription organizationId).bind f) := by
  intro view ext hsees
  obtain ⟨x, hx, hview⟩ := hsees rfl
  have hx' : findSubscription organizationId view = some x := by
    rw [findSubscription, hview]
    exact find?_withRow h.distinctIds h.row_found hx.id
      (by simp [hx.organizationId, h.row_organizationId])
  cases hfind : findSubscription organizationId view with
  | none => simp [hfind] at hx'
  | some loaded =>
    refine ⟨.loaded loaded, .load hfind, ?_⟩
    simp only [Stmt.eval, hfind]
    exact hf loaded

theorem overlap_flush {loaded : Subscription} {f : Option Datetime → App β}
    (hclean : Subscription.dirty loaded ((events i).assigned.apply loaded) = false →
      (overlapDiscipline events db organizationId row).Obeys i post (.loaded loaded) (f none))
    (hdirty : Subscription.dirty loaded ((events i).assigned.apply loaded) = true →
      ∀ updatedAt, (overlapDiscipline events db organizationId row).Obeys i post
        (.flushed loaded updatedAt) (f (some updatedAt))) :
    (overlapDiscipline events db organizationId row).Obeys i post (.loaded loaded)
      ((flush .subscriptions loaded.id
        (Subscription.dirty loaded ((events i).assigned.apply loaded))
        (Subscription.patch loaded ((events i).assigned.apply loaded))).bind f) := by
  unfold flush
  split
  · rename_i hd
    refine overlap_call fun updatedAt view ext _ => ?_
    cases hup : updatable view .subscriptions loaded.id
        (Subscription.patch loaded ((events i).assigned.apply loaded) updatedAt) with
    | ok u =>
      refine ⟨.flushed loaded updatedAt, ?_, ?_⟩
      · simp only [overlapDiscipline, Stmt.eval, hup, onlyIfOk]
        exact .flush hd
      · simp only [Stmt.eval, hup]
        exact hdirty hd updatedAt
    | error e =>
      refine ⟨.loaded loaded, ?_, ?_⟩
      · simp only [overlapDiscipline, Stmt.eval, hup, onlyIfOk]
        exact .spare (by simp)
      · simp only [Stmt.eval, hup]
        trivial
  · rename_i hd
    exact hclean (by simpa using hd)

theorem overlap_applyStripeEvent (h : ForOne events db organizationId row)
    {obj : List (String × Json)} (hobj : (events i).object = some obj) (markerId : UUID) :
    (overlapDiscipline events db organizationId row).Obeys i
      (fun φ _ => φ.Done (events i)) .before
      (applyStripeEvent (events i) markerId organizationId obj) := by
  refine overlap_getOrCreateSubscription h fun loaded => ?_
  cases hassigned : assignments (events i).type obj with
  | error e => trivial
  | ok assigned =>
    have hevent : (events i).assigned = assigned := by simp [Event.assigned, hobj, hassigned]
    subst hevent
    have haudit : ∀ φ : OverlapPhase, φ.Done (events i) →
        (overlapDiscipline events db organizationId row).Obeys i (fun φ _ => φ.Done (events i)) φ
          (recordAudit organizationId none "billing.stripe_event_processed" "stripe_event"
            (some markerId)
            [("stripe_event_id", .str (events i).id), ("event_type", .str (events i).type)]) := by
      intro φ hφ
      refine (overlap_of_leaves ((leaves_recordAudit (by decide) _ _ _ _ _ _).mono
        (fun _ h => h) (fun _ _ => trivial) (fun _ h => h))).mono ?_
      rintro φ' _ ⟨rfl, _⟩
      exact hφ
    exact overlap_flush (fun hclean => haudit _ hclean) (fun hdirty _ => haudit _ hdirty)

theorem overlap_handleStripeEvent (h : ForOne events db organizationId row) (markerId : UUID) :
    (overlapDiscipline events db organizationId row).Obeys i
      (fun φ _ => φ.Done (events i)) .before (handleStripeEvent (events i) markerId) := by
  unfold handleStripeEvent
  cases hobj : (events i).object with
  | none => trivial
  | some obj =>
    refine overlap_resolveOrganizationId h hobj ?_ ?_
    · exact (trivial : OverlapPhase.Done (events i) .unresolved)
    · exact overlap_applyStripeEvent h hobj markerId

/-- Processing an event follows the phases. -/
theorem overlap_processStripeEvent (h : ForOne events db organizationId row) (i : Bool) :
    (overlapDiscipline events db organizationId row).Obeys i
      (fun φ processed => if processed then φ.Done (events i) else φ = .before) .before
      (processStripeEvent (events i)) := by
  refine overlap_call fun processedAt => overlap_call fun id => fun view ext _ => ?_
  have hspare : Table.stripeEvents ≠ .subscriptions := by decide
  refine ⟨.before, .spare (Stmt.Spares.ops_table (by exact hspare) ext view), ?_⟩
  generalize ((Stmt.insertOnConflictDoNothing .stripeEvents sameStripeEventId _ :
    Stmt Row UUID Call).eval ext view).1 = inserted
  cases inserted with
  | error e => trivial
  | ok inserted =>
    cases inserted with
    | false => exact rfl
    | true => exact (overlap_handleStripeEvent h id).bind fun φ _ hφ => hφ

end Obeys

/-! ## The records that two overlapping events can leave -/

/-- The columns that an event leaves when it is processed first. -/
def afterFirst (events : Bool → Event) (row : Subscription) (i : Bool) : Columns :=
  Columns.assign (events i).assigned row.get

/-- The final columns when event `i` commits first. -/
inductive OverlapOutcome (events : Bool → Event) (row : Subscription) (i : Bool) : Columns → Prop where
  /-- The second event had read the row before the first one committed. -/
  | overlapped : OverlapOutcome events row i
      (Columns.flushed (events !i).assigned row.get (afterFirst events row i))
  | following : OverlapOutcome events row i
      (Columns.assign (events !i).assigned (afterFirst events row i))
  /-- The second event no longer found the organization. -/
  | unresolved (h : ¬ (events !i).Follows row (afterFirst events row i .stripeCustomerId)) :
      OverlapOutcome events row i (afterFirst events row i)

/-- The events that have committed as processed, and the version of the row they left. -/
inductive OverlapHistory (events : Bool → Event) (row : Subscription) :
    List Bool → Subscription → Prop where
  | none : OverlapHistory events row [] row
  | one {i : Bool} {x : Subscription} (h : x.get = afterFirst events row i) :
      OverlapHistory events row [i] x
  | two {i : Bool} {x : Subscription} (h : OverlapOutcome events row i x.get) :
      OverlapHistory events row [i, !i] x

/-- An event in processing has loaded the initial row, or the one that the other event left. -/
def OverlapPhase.Consistent (event : Event) (row : Subscription) (history : List Bool)
    (x : Subscription) (j : Bool) : OverlapPhase → Prop
  | .before => True
  | .unresolved => history = [!j] ∧ ¬ event.Follows row x.stripeCustomerId
  | .loaded l => l = row ∨ history = [!j] ∧ l = x
  | .flushed l _ => l = row ∨ history = [!j] ∧ l = x

structure OverlapInv (events : Bool → Event) (db : Db Row) (row : Subscription)
    (history : List Bool) (x : Subscription) (ph : Bool → OverlapPhase)
    (sys : Sys Row UUID Answer Failure Bool Bool) : Prop where
  left : OverlapHistory events row history x
  version : IsVersion row x
  table : sys.db .subscriptions = withRow x (db .subscriptions)
  committed : ∀ i, sys.proc i = .committed true → i ∈ history
  active : ∀ i tx, sys.proc i = .active tx → i ∉ history ∧
    (∀ db', tx.view db' .subscriptions =
      (ph i).effect (events i).assigned (db' .subscriptions)) ∧
    (ph i).Consistent (events i) row history x i

section Invariant

variable {history : List Bool} {ph : Bool → OverlapPhase}
  {sys : Sys Row UUID Answer Failure Bool Bool} {i : Bool}

/-- While `i` is running, nothing or just the other event has committed. -/
theorem OverlapHistory.cases_of_not_mem (h : OverlapHistory events row history x)
    (hi : i ∉ history) :
    (history = [] ∧ x = row) ∨ (history = [!i] ∧ x.get = afterFirst events row (!i)) := by
  cases h with
  | none => exact .inl ⟨rfl, rfl⟩
  | @one k _ hk =>
    have hki : k = !i := by
      cases k <;> cases i <;> simp_all
    subst hki
    exact .inr ⟨rfl, hk⟩
  | @two k _ hk => cases k <;> cases i <;> simp at hi

/-- Step lemma for statements. -/
theorem OverlapInv.stmt (hfor : ForOne events db organizationId row)
    (h : OverlapInv events db row history x ph sys) {tx : Tx Row UUID Answer Failure Bool}
    (hi : sys.proc i = .active tx) (s : Stmt Row UUID Call) (k : s.Ans Answer → App Bool)
    (ext : (c : Call) → Answer c) {φ' : OverlapPhase}
    (hnext : OverlapMove (events i) organizationId (tx.view sys.db)
      (s.eval ext (tx.view sys.db)).2 (ph i) φ') :
    OverlapInv events db row history x (Function.update ph i φ') (sys.advance i tx s k ext) := by
  obtain ⟨hmem, heffect, hphase⟩ := h.active i tx hi
  have hnew : (∀ db', (tx.advance sys.db s k ext).view db' .subscriptions =
      φ'.effect (events i).assigned (db' .subscriptions)) ∧
      φ'.Consistent (events i) row history x i := by
    have hview : ∀ db', (tx.advance sys.db s k ext).view db' =
        replay (s.eval ext (tx.view sys.db)).2 (tx.view db') := by
      simp [Tx.view, Tx.advance]
    have hseen : ph i = .before →
        tx.view sys.db .subscriptions = withRow x (db .subscriptions) := by
      intro hbefore
      rw [heffect, hbefore, ← h.table]
      rfl
    simp only [hview]
    generalize hops : (s.eval ext (tx.view sys.db)).2 = ops at hnext
    generalize hφ : ph i = φ at hnext heffect hphase hseen
    cases hnext with
    | spare hspare =>
      exact ⟨fun db' => by rw [replay_of_table_ne _ hspare]; exact heffect db', hphase⟩
    | @unresolved obj hobj hres =>
      refine ⟨heffect, ?_⟩
      rw [hseen rfl] at hres
      obtain ⟨_, hsome⟩ | ⟨hnot, _⟩ := hfor.resolveIn_withRow h.version hobj
      · simp [hsome] at hres
      · rcases h.left.cases_of_not_mem hmem with ⟨_, rfl⟩ | ⟨hhist, _⟩
        · exact absurd (.inr rfl) hnot
        · exact ⟨hhist, hnot⟩
    | @load loaded hfind =>
      refine ⟨heffect, ?_⟩
      have hx : findSubscription organizationId (tx.view sys.db) = some x := by
        rw [findSubscription, hseen rfl]
        exact find?_withRow hfor.distinctIds hfor.row_found h.version.id
          (by simp [h.version.organizationId, hfor.row_organizationId])
      obtain rfl : loaded = x := Option.some.inj (hfind.symm.trans hx)
      rcases h.left.cases_of_not_mem hmem with ⟨_, rfl⟩ | ⟨hhist, _⟩
      · exact .inl rfl
      · exact .inr ⟨hhist, rfl⟩
    | @flush loaded updatedAt hdirty =>
      refine ⟨fun db' => ?_, hphase⟩
      rw [replay_cons, replay_nil, apply_update_self, heffect]
      rfl
  refine ⟨h.left, h.version, h.table, fun j hj => ?_, fun j tx' hj => ?_⟩
  · by_cases hji : j = i
    · subst hji
      simp at hj
    · exact h.committed j (by rwa [advance_proc_of_ne _ hji] at hj)
  · by_cases hji : j = i
    · subst hji
      rw [advance_proc_self] at hj
      obtain rfl := Proc.active.inj hj
      rw [Function.update_self]
      exact ⟨hmem, hnew⟩
    · rw [advance_proc_of_ne _ hji] at hj
      rw [Function.update_of_ne hji]
      exact h.active j tx' hj

/-- The pending writes of an event that is done flush over the version in the table. -/
theorem OverlapPhase.Done.effect {φ : OverlapPhase} (hdone : φ.Done (events i))
    (hphase : φ.Consistent (events i) row history x i) (hx : IsVersion row x)
    (rows : List Subscription) :
    (history = [!i] ∧ ¬ (events i).Follows row x.stripeCustomerId ∧
      φ.effect (events i).assigned (withRow x rows) = withRow x rows) ∨
    ∃ l updatedAt, (l = row ∨ history = [!i] ∧ l = x) ∧
      φ.effect (events i).assigned (withRow x rows) =
        withRow (Subscription.afterFlush (events i).assigned l updatedAt x) rows := by
  have hversion : ∀ l, (l = row ∨ history = [!i] ∧ l = x) → l.id = x.id := by
    rintro l (rfl | ⟨_, rfl⟩)
    · exact hx.id.symm
    · rfl
  cases φ with
  | before => cases hdone
  | unresolved => exact .inl ⟨hphase.1, hphase.2, rfl⟩
  | loaded l =>
    refine .inr ⟨l, 0, hphase, ?_⟩
    have hclean : Subscription.dirty l ((events i).assigned.apply l) = false := hdone
    simp [OverlapPhase.effect, Subscription.afterFlush, hclean]
  | flushed l updatedAt =>
    refine .inr ⟨l, updatedAt, hphase, ?_⟩
    have hdirty : Subscription.dirty l ((events i).assigned.apply l) = true := hdone
    simp only [OverlapPhase.effect, Subscription.afterFlush, hdirty, hversion l hphase, ↓reduceIte]
    exact map_withRow rfl

/-- The history goes on with the commit of an event that is done. -/
theorem OverlapHistory.commit (h : OverlapHistory events row history x) (hi : i ∉ history)
    {φ : OverlapPhase} (hdone : φ.Done (events i))
    (hphase : φ.Consistent (events i) row history x i) (hx : IsVersion row x)
    (rows : List Subscription) :
    ∃ x', OverlapHistory events row (history ++ [i]) x' ∧ IsVersion row x' ∧
      φ.effect (events i).assigned (withRow x rows) = withRow x' rows := by
  rcases hdone.effect hphase hx rows with ⟨hhist, hnot, heffect⟩ | ⟨l, updatedAt, hl, heffect⟩
  · refine ⟨x, ?_, hx, heffect⟩
    obtain ⟨hnil, _⟩ | ⟨_, hget⟩ := h.cases_of_not_mem hi
    · simp [hnil] at hhist
    · have hcustomer : x.stripeCustomerId = afterFirst events row (!i) .stripeCustomerId :=
        congrFun hget .stripeCustomerId
      have htwo : OverlapHistory events row [!i, !!i] x := by
        refine .two ?_
        rw [hget]
        exact .unresolved (by rwa [Bool.not_not, ← hcustomer])
      rw [hhist]
      simpa using htwo
  · refine ⟨_, ?_, hx.afterFlush _ l updatedAt, heffect⟩
    obtain ⟨rfl, rfl⟩ | ⟨rfl, hget⟩ := h.cases_of_not_mem hi
    · obtain rfl : l = x := by simpa using hl
      refine .one ?_
      rw [Subscription.afterFlush_get, Columns.flushed_self]
      rfl
    · have htwo : OverlapHistory events row [!i, !!i]
          (Subscription.afterFlush (events i).assigned l updatedAt x) := by
        refine .two ?_
        rw [Subscription.afterFlush_get]
        rcases hl with rfl | ⟨_, rfl⟩
        · have hout : OverlapOutcome events l (!i) _ := .overlapped
          rw [Bool.not_not] at hout
          rw [hget]
          exact hout
        · have hout : OverlapOutcome events row (!i) _ := .following
          rw [Bool.not_not] at hout
          rw [Columns.flushed_self, hget]
          exact hout
      simpa using htwo

/-- Step lemma for commits. -/
theorem OverlapInv.commit (h : OverlapInv events db row history x ph sys)
    {tx : Tx Row UUID Answer Failure Bool} (hi : sys.proc i = .active tx) {processed : Bool}
    (hpost : if processed then (ph i).Done (events i) else ph i = .before) :
    ∃ history' x', OverlapInv events db row history' x' ph (sys.commit i tx processed) := by
  obtain ⟨hmem, heffect, hphase⟩ := h.active i tx hi
  have hdb : (sys.commit i tx processed).db .subscriptions =
      (ph i).effect (events i).assigned (withRow x (db .subscriptions)) := by
    rw [← h.table]
    exact heffect sys.db
  cases processed with
  | false =>
    have hbefore : ph i = .before := by simpa using hpost
    refine ⟨history, x, h.left, h.version, ?_, fun j hj => ?_, fun j tx' hj => ?_⟩
    · rw [hdb, hbefore]
      rfl
    · by_cases hji : j = i
      · subst hji
        simp at hj
      · exact h.committed j (by rwa [commit_proc_of_ne _ hji] at hj)
    · by_cases hji : j = i
      · subst hji
        simp at hj
      · exact h.active j tx' (by rwa [commit_proc_of_ne _ hji] at hj)
  | true =>
    have hdone : (ph i).Done (events i) := by simpa using hpost
    obtain ⟨x', hleft, hversion, htable⟩ :=
      h.left.commit hmem hdone hphase h.version (db .subscriptions)
    refine ⟨history ++ [i], x', hleft, hversion, by rw [hdb, htable], fun j hj => ?_,
      fun j tx' hj => ?_⟩
    · by_cases hji : j = i
      · simp [hji]
      · exact List.mem_append_left _ (h.committed j (by rwa [commit_proc_of_ne _ hji] at hj))
    · by_cases hji : j = i
      · subst hji
        simp at hj
      · rw [commit_proc_of_ne _ hji] at hj
        obtain ⟨hjmem, hjeffect, hjphase⟩ := h.active j tx' hj
        -- The other event is running, so `i` is the first to commit.
        have hother : j = !i := by cases i <;> cases j <;> simp_all
        subst hother
        obtain ⟨rfl, rfl⟩ | ⟨rfl, _⟩ := h.left.cases_of_not_mem hmem
        · refine ⟨by simp, hjeffect, ?_⟩
          cases hφ : ph (!i) with
          | before => trivial
          | unresolved => simp [hφ, OverlapPhase.Consistent] at hjphase
          | loaded l => exact .inl (by simpa [hφ, OverlapPhase.Consistent] using hjphase)
          | flushed l t => exact .inl (by simpa [hφ, OverlapPhase.Consistent] using hjphase)
        · simp at hjmem

/-- Run lemma: the invariant holds in every reachable state. -/
theorem overlapInv_reachable (hfor : ForOne events db organizationId row)
    (hr : Reachable (fun i => processStripeEvent (events i)) db sys) :
    ∃ history x ph, OverlapInv events db row history x ph sys := by
  have hsound : (overlapDiscipline events db organizationId row).Sound
      (fun i φ processed => if processed then φ.Done (events i) else φ = .before) .before
      (fun ph sys => ∃ history x, OverlapInv events db row history x ph sys)
      (fun _ _ => True) (fun i => processStripeEvent (events i)) db := by
    refine ⟨overlap_processStripeEvent hfor, ?_, ?_, ?_, ?_, ?_⟩
    · refine ⟨[], row, .none, .refl row, ?_, fun i hi => ?_, fun i tx hi => ?_⟩
      · exact (withRow_self hfor.distinctIds hfor.row_mem).symm
      · cases hi
      · obtain rfl := Proc.active.inj hi
        exact ⟨by simp, fun _ => rfl, trivial⟩
    · rintro ph sys i tx ⟨history, x, h⟩ hi hbefore
      obtain ⟨_, heffect, _⟩ := h.active i tx hi
      refine ⟨x, h.version, ?_⟩
      rw [heffect, hbefore, ← h.table]
      rfl
    · rintro ph sys i tx s k ext φ' ⟨history, x, h⟩ hi _ _ hnext _
      exact ⟨history, x, h.stmt hfor hi s k ext hnext⟩
    · rintro ph sys i tx processed ⟨history, x, h⟩ hi _ hpost _
      exact h.commit hi hpost
    · rintro ph sys i tx e ⟨history, x, h⟩ hi _
      refine ⟨history, x, h.left, h.version, h.table, fun j hj => ?_, fun j tx' hj => ?_⟩
      · by_cases hji : j = i
        · subst hji
          simp at hj
        · exact h.committed j (by rwa [abort_proc_of_ne _ hji] at hj)
      · by_cases hji : j = i
        · subst hji
          simp at hj
        · exact h.active j tx' (by rwa [abort_proc_of_ne _ hji] at hj)
  obtain ⟨ph, ⟨history, x, h⟩, _⟩ := hsound.reachable hr
  exact ⟨history, x, ph, h⟩

/-- Two events that have both committed leave one of the outcomes. -/
theorem outcome_of_committed (hfor : ForOne events db organizationId row)
    (hr : Reachable (fun i => processStripeEvent (events i)) db sys)
    (hboth : ∀ i, sys.proc i = .committed true) :
    ∃ i, OverlapOutcome events row i (columnsOf organizationId sys.db) := by
  obtain ⟨history, x, ph, h⟩ := overlapInv_reachable hfor hr
  have htrue := h.committed true (hboth true)
  have hfalse := h.committed false (hboth false)
  have hcols : columnsOf organizationId sys.db = x.get := by
    rw [columnsOf, h.table, recordOf_withRow hfor.distinctIds hfor.row_found h.version]
    rfl
  rw [hcols]
  cases h.left with
  | none => simp at htrue
  | @one i _ hi => cases i <;> simp at htrue hfalse
  | @two i _ hi => exact ⟨i, hi⟩

end Invariant

/-! ## One after the other -/

/-- The columns that the two events can leave when `i` is processed first. -/
def Serial (events : Bool → Event) (db : Db Row) (organizationId : UUID) (i : Bool)
    (columns : Columns) : Prop :=
  ∃ oracle oracle', (process (events i, oracle) db).1 = .ok true ∧
    (process (events !i, oracle') (process (events i, oracle) db).2).1 = .ok true ∧
    columnsOf organizationId (processAll [(events i, oracle), (events !i, oracle')] db) = columns

/-- Both events can be processed one after the other, in either order. -/
def Processable (events : Bool → Event) (db : Db Row) : Prop :=
  ∀ i, ∃ oracle oracle', (process (events i, oracle) db).1 = .ok true ∧
    (process (events !i, oracle') (process (events i, oracle) db).2).1 = .ok true

/-- Whenever both events commit, the record is that of one of the two orders. -/
def Serializable (events : Bool → Event) (db : Db Row) (organizationId : UUID) : Prop :=
  ∀ sys, Reachable (fun i => processStripeEvent (events i)) db sys →
    (∀ i, sys.proc i = .committed true) →
    ∃ i, Serial events db organizationId i (columnsOf organizationId sys.db)

section Serial

variable {i : Bool} {oracle oracle' : Oracle Answer}

theorem process_first (hfor : ForOne events db organizationId row)
    (h : (process (events i, oracle) db).1 = .ok true) :
    ∃ x, IsVersion row x ∧ x.get = afterFirst events row i ∧
      (process (events i, oracle) db).2 .subscriptions = withRow x (db .subscriptions) := by
  have happlied : Applied (events i) (db .subscriptions) _ := process_ok h
  obtain ⟨obj, hobj, hres⟩ := hfor.object i
  generalize (process (events i, oracle) db).2 .subscriptions = rows' at happlied
  cases happlied with
  | unresolved hobj' hnone =>
    rw [hobj] at hobj'
    obtain rfl := Option.some.inj hobj'
    simp [hres] at hnone
  | @resolved obj' resolved loaded rows₁ assigned updatedAt hobj' hres' hload hassigned =>
    rw [hobj] at hobj'
    obtain rfl := Option.some.inj hobj'
    obtain rfl : organizationId = resolved := Option.some.inj (hres.symm.trans hres')
    have hevent : (events i).assigned = assigned := by simp [Event.assigned, hobj, hassigned]
    cases hload with
    | created hnone _ _ _ =>
      have hrow : (db .subscriptions).find? (·.organizationId = organizationId) = some row :=
        hfor.row_found
      simp [hnone] at hrow
    | found hfound =>
      obtain rfl : row = loaded := Option.some.inj (hfor.row_found.symm.trans hfound)
      refine ⟨Subscription.afterFlush assigned row updatedAt row, (IsVersion.refl row).afterFlush
        _ _ _, ?_, ?_⟩
      · rw [Subscription.afterFlush_get, Columns.flushed_self, ← hevent]
        rfl
      · conv_lhs => rw [← withRow_self hfor.distinctIds hfor.row_mem]
        exact changed_withRow (.refl row) (.refl row) assigned updatedAt

/-- What processing one event after the other leaves. -/
theorem columnsOf_serial (hfor : ForOne events db organizationId row)
    (h : (process (events i, oracle) db).1 = .ok true)
    (h' : (process (events !i, oracle') (process (events i, oracle) db).2).1 = .ok true) :
    ((events !i).Follows row (afterFirst events row i .stripeCustomerId) →
      columnsOf organizationId (processAll [(events i, oracle), (events !i, oracle')] db) =
        Columns.assign (events !i).assigned (afterFirst events row i)) ∧
    (¬ (events !i).Follows row (afterFirst events row i .stripeCustomerId) →
      columnsOf organizationId (processAll [(events i, oracle), (events !i, oracle')] db) =
        afterFirst events row i) := by
  obtain ⟨x, hx, hget, htable⟩ := process_first hfor h
  obtain ⟨obj, hobj, _⟩ := hfor.object (!i)
  have hcustomer : x.stripeCustomerId = afterFirst events row i .stripeCustomerId :=
    congrFun hget .stripeCustomerId
  have hd : DistinctIds ((process (events i, oracle) db).2 .subscriptions) :=
    distinctIds_process _ hfor.distinctIds
  have hfirst : columnsOf organizationId (process (events i, oracle) db).2 =
      afterFirst events row i := by
    rw [columnsOf, htable, recordOf_withRow hfor.distinctIds hfor.row_found hx, ← hget]
    rfl
  have hfinal : columnsOf organizationId
      (processAll [(events i, oracle), (events !i, oracle')] db) = _ :=
    columnsOf_process (events !i, oracle') hd organizationId
  rw [hfinal, hfirst, ← hcustomer]
  simp only [ProcessedFor, h', hobj, htable, Option.bind_some, true_and]
  rcases hfor.resolveIn_withRow hx hobj with ⟨hyes, hres⟩ | ⟨hno, hres⟩
  · exact ⟨fun _ => by rw [if_pos hres], fun hno => absurd hyes hno⟩
  · exact ⟨fun hyes => absurd hyes hno, fun _ => by rw [if_neg (by simp [hres])]⟩

end Serial

/-! ## When overlapping is harmless -/

section Condition

variable {i : Bool}

/-- The event flushed last assigns no common column its old value, unless the other event
does so, too. -/
def Overwrites (events : Bool → Event) (row : Subscription) (i : Bool) : Prop :=
  ∀ c v w, (events i).assigned.get c = some v → (events !i).assigned.get c = some w →
    w = row.get c → v = row.get c

/-- The event flushed last assigns every common column its old value, or the value that the
other event assigns. -/
def Yields (events : Bool → Event) (row : Subscription) (i : Bool) : Prop :=
  ∀ c v w, (events i).assigned.get c = some v → (events !i).assigned.get c = some w →
    w = row.get c ∨ v = w

/-- The two events agree on every column that both assign. -/
def Agree (events : Bool → Event) : Prop :=
  ∀ c v w, (events true).assigned.get c = some v → (events false).assigned.get c = some w → v = w

/-- Neither event takes the organization away from the other by changing the customer. -/
def BothFollow (events : Bool → Event) (row : Subscription) : Prop :=
  ∀ i, (events !i).Follows row (afterFirst events row i .stripeCustomerId)

/-- The pairs of events whose overlapping shows no other record than one of the two orders. -/
def Harmless (events : Bool → Event) (row : Subscription) : Prop :=
  (BothFollow events row → ∀ i, Overwrites events row i ∨ Yields events row i) ∧
    (¬ BothFollow events row → Agree events)

theorem agree_iff (i : Bool) : Agree events ↔ ∀ c v w, (events i).assigned.get c = some v →
    (events !i).assigned.get c = some w → v = w := by
  cases i with
  | true => exact Iff.rfl
  | false =>
    exact ⟨fun h c v w hv hw => (h c w v hw hv).symm, fun h c v w hv hw => (h c w v hw hv).symm⟩

theorem flushed_eq_following_iff :
    Columns.flushed (events !i).assigned row.get (afterFirst events row i) =
        Columns.assign (events !i).assigned (afterFirst events row i) ↔
      Overwrites events row i := by
  rw [funext_iff]
  refine forall_congr' fun c => ?_
  unfold Columns.flushed afterFirst Columns.assign
  cases hv : (events i).assigned.get c <;> cases hw : (events !i).assigned.get c <;> grind

theorem flushed_eq_preceding_iff :
    Columns.flushed (events !i).assigned row.get (afterFirst events row i) =
        Columns.assign (events i).assigned (afterFirst events row (!i)) ↔
      Yields events row i := by
  rw [funext_iff]
  refine forall_congr' fun c => ?_
  unfold Columns.flushed afterFirst Columns.assign
  cases hv : (events i).assigned.get c <;> cases hw : (events !i).assigned.get c <;> grind

theorem following_comm_iff :
    Columns.assign (events !i).assigned (afterFirst events row i) =
        Columns.assign (events i).assigned (afterFirst events row (!i)) ↔ Agree events := by
  rw [agree_iff i, funext_iff]
  refine forall_congr' fun c => ?_
  unfold afterFirst Columns.assign
  cases hv : (events i).assigned.get c <;> cases hw : (events !i).assigned.get c <;> grind

theorem Agree.yields (h : Agree events) (row : Subscription) (i : Bool) : Yields events row i :=
  fun c v w hv hw => .inr ((agree_iff i).mp h c v w hv hw)

theorem agree_of_following_eq
    (h : Columns.assign (events !i).assigned (afterFirst events row i) = afterFirst events row i) :
    Agree events := by
  refine (agree_iff i).mpr fun c v w hv hw => ?_
  have hc := congrFun h c
  simp only [afterFirst, Columns.assign, hv, hw, Option.getD_some] at hc
  exact hc.symm

/-- The customer that an event assigns is the one of its payload. -/
theorem assignments_customer {eventType : String} {obj : List (String × Json)} {a : Assignments}
    {customer : Option String} (h : assignments eventType obj = .ok a)
    (hc : a.stripeCustomerId = some customer) : customer = extractCustomerId obj := by
  unfold assignments at h
  split at h
  · obtain rfl := Except.ok.inj h
    exact (Option.some.inj hc).symm
  · split at h
    · cases hprice : firstPriceId obj with
      | error e => simp [hprice, Bind.bind, Except.bind] at h
      | ok price =>
        cases hend : periodEnd obj with
        | error e => simp [hprice, hend, Bind.bind, Except.bind] at h
        | ok end_ =>
          simp only [hprice, hend, Bind.bind, Except.bind, Except.pure, Pure.pure,
            Except.ok.injEq] at h
          subst h
          exact (Option.some.inj hc).symm
    · split at h <;> (obtain rfl := Except.ok.inj h; cases hc)

/-- An event that does not name the organization keeps the customer of the row. -/
theorem afterFirst_customer (hfor : ForOne events db organizationId row)
    (hunnamed : ¬ (events i).Named) :
    afterFirst events row i .stripeCustomerId = row.stripeCustomerId := by
  obtain ⟨obj, hobj, _⟩ := hfor.object i
  have hraw : organizationIdRaw obj = .ok none := by
    by_contra hne
    refine hunnamed fun obj' hobj' => ?_
    rw [hobj] at hobj'
    rwa [← Option.some.inj hobj']
  obtain ⟨customerId, hcustomer, hrow, _⟩ := hfor.customer hobj hraw
  have hassigned : ∀ customer, (events i).assigned.stripeCustomerId = some customer →
      customer = row.stripeCustomerId := by
    intro customer hc
    cases hok : assignments (events i).type obj with
    | error e => simp [Event.assigned, hobj, hok] at hc
    | ok a =>
      simp only [Event.assigned, hobj, hok] at hc
      rw [assignments_customer hok hc, hcustomer, hrow]
  change ((events i).assigned.stripeCustomerId).getD row.stripeCustomerId = _
  cases hc : (events i).assigned.stripeCustomerId with
  | none => rfl
  | some customer => exact hassigned customer hc

/-- At most one of the events can take the organization away from the other. -/
theorem follows_of_not_follows (hfor : ForOne events db organizationId row)
    (h : ¬ (events !i).Follows row (afterFirst events row i .stripeCustomerId)) :
    (events i).Follows row (afterFirst events row (!i) .stripeCustomerId) := by
  refine .inl ?_
  by_contra hunnamed
  exact h (.inr (afterFirst_customer hfor hunnamed))

/-- The records of the two orders. -/
theorem serial_iff (hfor : ForOne events db organizationId row) (hp : Processable events db)
    (columns : Columns) : Serial events db organizationId i columns ↔
      ((events !i).Follows row (afterFirst events row i .stripeCustomerId) ∧
        columns = Columns.assign (events !i).assigned (afterFirst events row i)) ∨
      (¬ (events !i).Follows row (afterFirst events row i .stripeCustomerId) ∧
        columns = afterFirst events row i) := by
  constructor
  · rintro ⟨oracle, oracle', h, h', rfl⟩
    have hserial := columnsOf_serial hfor h h'
    by_cases hfollows : (events !i).Follows row (afterFirst events row i .stripeCustomerId)
    · exact .inl ⟨hfollows, hserial.1 hfollows⟩
    · exact .inr ⟨hfollows, hserial.2 hfollows⟩
  · obtain ⟨oracle, oracle', h, h'⟩ := hp i
    have hserial := columnsOf_serial hfor h h'
    rintro (⟨hfollows, rfl⟩ | ⟨hfollows, rfl⟩)
    · exact ⟨oracle, oracle', h, h', hserial.1 hfollows⟩
    · exact ⟨oracle, oracle', h, h', hserial.2 hfollows⟩

theorem Harmless.serializable (hfor : ForOne events db organizationId row)
    (hp : Processable events db) (h : Harmless events row) :
    Serializable events db organizationId := by
  intro sys hr hboth
  obtain ⟨i, hout⟩ := outcome_of_committed hfor hr hboth
  simp only [serial_iff hfor hp]
  by_cases hfollow : BothFollow events row
  · -- Both orders apply both events.
    generalize columnsOf organizationId sys.db = columns at hout
    cases hout with
    | overlapped =>
      rcases h.1 hfollow i with hover | hyields
      · exact ⟨i, .inl ⟨hfollow i, flushed_eq_following_iff.mpr hover⟩⟩
      · refine ⟨!i, .inl ⟨hfollow (!i), ?_⟩⟩
        rw [Bool.not_not]
        exact flushed_eq_preceding_iff.mpr hyields
    | following => exact ⟨i, .inl ⟨hfollow i, rfl⟩⟩
    | unresolved hnot => exact absurd (hfollow i) hnot
  · have hagree := h.2 hfollow
    generalize columnsOf organizationId sys.db = columns at hout
    have hmerged : columns = Columns.assign (events i).assigned (afterFirst events row (!i)) →
        ∃ k, ((events !k).Follows row (afterFirst events row k .stripeCustomerId) ∧
            columns = Columns.assign (events !k).assigned (afterFirst events row k)) ∨
          (¬ (events !k).Follows row (afterFirst events row k .stripeCustomerId) ∧
            columns = afterFirst events row k) := by
      intro hcols
      by_cases hi : (events !i).Follows row (afterFirst events row i .stripeCustomerId)
      · exact ⟨i, .inl ⟨hi, hcols.trans (following_comm_iff.mpr hagree).symm⟩⟩
      · refine ⟨!i, .inl ⟨?_, ?_⟩⟩ <;> rw [Bool.not_not]
        · exact follows_of_not_follows hfor hi
        · exact hcols
    cases hout with
    | overlapped => exact hmerged (flushed_eq_preceding_iff.mpr (hagree.yields row i))
    | following => exact hmerged (following_comm_iff.mpr hagree)
    | unresolved hnot => exact ⟨i, .inr ⟨hnot, rfl⟩⟩

end Condition

end Pair

end TenantFlow
