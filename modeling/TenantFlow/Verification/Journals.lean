import TenantFlow.Library.Journal
import TenantFlow.Library.RowInvariant
import TenantFlow.Verification.RequestScopes

/-!
# Journals of the requests

The rules of `Journal` for the statements that requests are made of.
-/

namespace TenantFlow

open JsonText Transactional

abbrev Journal : Type := List (Fact Row UUID Answer)

/-- A part of this scope can only have updates to record. -/
structure Scope.Revises (F : Scope) (topic : Topic Table Call) : Prop where
  inserts : ∀ t ∈ F.inserts, topic.tables t = false
  deletes : ∀ t ∈ F.deletes, topic.tables t = false
  now : topic.calls .now = false
  uuid4 : topic.calls .uuid4 = false
  calls : ∀ c, F.calls c → topic.calls c = false

/-- A part of this scope has nothing to record. -/
structure Scope.Avoids (F : Scope) (topic : Topic Table Call) : Prop extends F.Revises topic where
  writes : ∀ t ∈ F.writes, topic.tables t = false

section Rules

variable {ι β γ : Type} {topic : Topic Table Call} {keeps : ι → Journal → Prop}
  {i : ι} {post : Journal → γ → Prop} {journal : Journal} {F : Scope}

theorem Scope.Allows.untracked {c : Call} (h : F.Allows (.call c)) (hF : F.Revises topic) :
    topic.calls c = false := by
  cases c with
  | now => exact hF.now
  | uuid4 => exact hF.uuid4
  | _ => exact hF.calls _ h

theorem Scope.Allows.revision {s : Stmt Row UUID Call} (h : F.Allows s) (hF : F.Revises topic)
    {env : (c : Call) → Answer c} {view : Db Row} {op : Op Row UUID}
    (hop : op ∈ topic.writes (s.eval env view).2) :
    ∃ t id f, op = .update t id f ∧ t ∈ F.writes ∧ topic.tables t = true := by
  obtain ⟨hop, htopic⟩ := List.mem_filter.mp hop
  rcases mem_eval_ops hop with ⟨t, r, rfl, _, hs⟩ | ⟨t, id, f, rfl, _, rfl⟩ |
    ⟨t, id, k, rfl, rfl, hk, _⟩
  · have hins : t ∈ F.inserts := by
      rcases hs with rfl | ⟨a, rfl⟩
      · exact h.1.2
      · exact h.1.2
    rw [show (Op.insert t r : Op Row UUID).table = t from rfl, hF.inserts t hins] at htopic
    cases htopic
  · exact ⟨t, id, f, rfl, h.1, htopic⟩
  · have hdel : k.1 ∈ F.deletes := by
      rcases hk with rfl | hk
      · exact h.1
      · exact h.2 (cascade_table hk)
    rw [show (Op.delete k.1 k.2 : Op Row UUID).table = k.1 from rfl, hF.deletes _ hdel] at htopic
    cases htopic

/-- A part that writes to the tables of the topic by updates only. -/
theorem journal_of_updates {p : App β} {I : Journal → Prop}
    (hp : Confined F p) (hF : F.Revises topic)
    (hupdate : ∀ journal t id f, t ∈ F.writes → topic.tables t = true → I journal →
      I (journal ++ [.wrote (.update t id f)]))
    (hkeeps : ∀ journal, I journal → keeps i journal) (hI : I journal) :
    (journalDiscipline topic keeps).Obeys i (fun journal' _ => I journal') journal p := by
  have hops : ∀ (ops : List (Op Row UUID)) journal, (∀ op ∈ ops, ∃ t id f,
      op = .update t id f ∧ t ∈ F.writes ∧ topic.tables t = true) → I journal →
      I (journal ++ ops.map .wrote) := by
    intro ops
    induction ops with
    | nil =>
      intro journal _ hI
      simpa using hI
    | cons op ops ih =>
      intro journal hops hI
      obtain ⟨t, id, f, rfl, ht, htopic⟩ := hops op List.mem_cons_self
      have hrest := ih _ (fun op hop => hops op (List.mem_cons_of_mem _ hop))
        (hupdate journal t id f ht htopic hI)
      simpa using hrest
  refine (journal_of_every (fun s journal' hs hI' => ⟨?_, fun env view => ?_⟩) hp hI).mono
    fun journal' b h => h.1
  · rintro c rfl
    exact hs.untracked hF
  · have hI'' := hops (topic.writes (s.eval env view).2) journal'
      (fun op hop => hs.revision hF hop) hI'
    exact ⟨hkeeps _ hI'', hI''⟩

/-- A part that has nothing to record. -/
theorem journal_skip {p : App β} {k : β → App γ} (hp : Confined F p) (hF : F.Avoids topic)
    (hkeeps : keeps i journal)
    (hk : ∀ b, (journalDiscipline topic keeps).Obeys i post journal (k b)) :
    (journalDiscipline topic keeps).Obeys i post journal (p.bind k) := by
  refine (journal_of_updates (I := fun journal' => journal' = journal) hp hF.toRevises
    (fun _ t _ _ ht htopic _ => ?_) ?_ rfl).bind ?_
  · rw [hF.writes t ht] at htopic
    cases htopic
  · rintro _ rfl
    exact hkeeps
  · rintro _ b rfl
    exact hk b

theorem journal_insertRow {t : Table} (ht : topic.tables t = true) {r : Row t}
    {k : Unit → App γ} (hkeeps : keeps i journal)
    (hkeeps' : keeps i (journal ++ [.wrote (.insert t r)]))
    (hk : (journalDiscipline topic keeps).Obeys i post (journal ++ [.wrote (.insert t r)]) (k ())) :
    (journalDiscipline topic keeps).Obeys i post journal ((insertRow r).bind k) :=
  journal_insert ht hkeeps ⟨hkeeps', hk⟩ fun _ => trivial

/-! ### Parts of a scope -/

/-- Every write of the journal is one of the scope. -/
def Admitted (F : Scope) (journal : Journal) : Prop := ∀ op, .wrote op ∈ journal → F.AllowsOp op

/-- A part of the scope adds to the journal only writes of the scope. -/
theorem journal_of_confined {p : App β} (hp : Confined F p) (hcalls : ∀ c, topic.calls c = false)
    (hkeeps : ∀ journal, keeps i journal) (hI : Admitted F journal) :
    (journalDiscipline topic keeps).Obeys i
      (fun journal' _ => Admitted F journal' ∧ journal <+: journal') journal p := by
  refine (journal_of_every (I := fun journal' => Admitted F journal' ∧ journal <+: journal')
    (fun s journal' hs hI' => ⟨fun c _ => hcalls c, fun env view => ⟨hkeeps _, ?_, ?_⟩⟩) hp
    ⟨hI, List.prefix_refl _⟩).mono fun _ _ h => h.1
  · intro op hop
    rcases List.mem_append.mp hop with hop | hop
    · exact hI'.1 op hop
    · obtain ⟨op', hop', heq⟩ := List.mem_map.mp hop
      obtain rfl := Fact.wrote.inj heq
      exact hs.ops (List.mem_filter.mp hop').1
  · exact hI'.2.trans (List.prefix_append _ _)

end Rules

/-! ## The journal of some tables -/

/-- Every write to these tables is recorded, and calls at will. -/
def tableTopic (tables : Table → Bool) : Topic Table Call where
  tables := tables
  calls _ := false

abbrev tracking (tables : Table → Bool) (ι : Type) : Discipline Row UUID Answer Failure ι Journal :=
  journalDiscipline (tableTopic tables) fun _ _ => True

section Tracking

variable {tables : Table → Bool} {ι β γ : Type} {i : ι}
  {post : Journal → γ → Prop} {journal : Journal}

/-- A part that writes none of the tables. -/
theorem tracking_still {F : Scope} {p : App β} (hp : Confined F p)
    (hw : ∀ t ∈ F.writes, tables t = false) (hi : ∀ t ∈ F.inserts, tables t = false)
    (hd : ∀ t ∈ F.deletes, tables t = false) :
    (tracking tables ι).Obeys i (fun journal' _ => journal' = journal) journal p := by
  have hrevises : F.Revises (tableTopic tables) := ⟨hi, hd, rfl, rfl, fun _ _ => rfl⟩
  refine journal_of_updates hp hrevises (fun _ t _ _ ht htopic _ => ?_) (fun _ _ => trivial) rfl
  rw [show (tableTopic tables).tables t = tables t from rfl, hw t ht] at htopic
  cases htopic

theorem tracking_skip {F : Scope} {p : App β} {k : β → App γ} (hp : Confined F p)
    (hw : ∀ t ∈ F.writes, tables t = false) (hi : ∀ t ∈ F.inserts, tables t = false)
    (hd : ∀ t ∈ F.deletes, tables t = false)
    (hk : ∀ b, (tracking tables ι).Obeys i post journal (k b)) :
    (tracking tables ι).Obeys i post journal (p.bind k) := by
  refine (tracking_still hp hw hi hd).bind fun journal' b h => ?_
  rw [h]
  exact hk b

/-- A part that writes nothing. -/
theorem tracking_quiet {p : App β} {k : β → App γ} (hp : Confined { calls := fun _ => True } p)
    (hk : ∀ b, (tracking tables ι).Obeys i post journal (k b)) :
    (tracking tables ι).Obeys i post journal (p.bind k) :=
  tracking_skip hp (by simp) (by simp) (by simp) hk

theorem tracking_select {α : Type} {q : Db Row → α} {k : α → App γ}
    (hk : ∀ view, (tracking tables ι).Obeys i post journal (k (q view))) :
    (tracking tables ι).Obeys i post journal ((select q).bind k) := by
  refine journal_select fun view => ⟨[], by simp, trivial, ?_⟩
  rw [List.append_nil]
  exact hk view

/-- A read of one row. -/
theorem tracking_read {t : Table} (ht : tables t = true) {q : Db Row → Option (Row t)}
    (hq : ∀ db r, q db = some r → r ∈ db t) (hw : ∀ op ∈ writesIn journal, op.table ≠ t)
    {k : Option (Row t) → App γ} (hnone : (tracking tables ι).Obeys i post journal (k none))
    (hsome : ∀ db r, q db = some r →
      (tracking tables ι).Obeys i post (journal ++ [.read t r]) (k (some r))) :
    (tracking tables ι).Obeys i post journal ((select q).bind k) := by
  refine journal_select fun view => ?_
  cases hfound : q view with
  | none => exact ⟨[], by simp, trivial, by rw [List.append_nil]; exact hnone⟩
  | some r =>
    refine ⟨[.read t r], fun f hf => ?_, trivial, hsome view r hfound⟩
    obtain rfl := List.mem_singleton.mp hf
    exact ⟨t, r, rfl, ht, hw, hq view r hfound⟩

/-- A locking read of one row. -/
theorem tracking_lock {t : Table} (ht : tables t = true) {q : Db Row → Option (Row t)}
    (hq : ∀ db r, q db = some r → r ∈ db t) (hw : ∀ op ∈ writesIn journal, op.table ≠ t)
    {k : Option (Row t) → App γ} (hnone : (tracking tables ι).Obeys i post journal (k none))
    (hsome : ∀ db r, q db = some r →
      (tracking tables ι).Obeys i post (journal ++ [.held t r]) (k (some r))) :
    (tracking tables ι).Obeys i post journal ((selectForUpdate t q).bind k) := by
  refine journal_selectForUpdate fun view => ?_
  cases hfound : q view with
  | none => exact ⟨[], by simp, trivial, by rw [List.append_nil]; exact hnone⟩
  | some r =>
    refine ⟨[.held t r], fun f hf => ?_, trivial, hsome view r hfound⟩
    obtain rfl := List.mem_singleton.mp hf
    exact ⟨t, r, rfl, ht, hw, hq view r hfound, by simp⟩

theorem tracking_call {c : Call} {k : Answer c → App γ}
    (hk : ∀ x, (tracking tables ι).Obeys i post (journal ++ [.called c x]) (k x)) :
    (tracking tables ι).Obeys i post journal ((call c).bind k) :=
  journal_call fun x => ⟨trivial, hk x⟩

theorem tracking_insert {t : Table} (ht : tables t = true) {r : Row t} {k : Unit → App γ}
    (hk : (tracking tables ι).Obeys i post (journal ++ [.wrote (.insert t r)]) (k ())) :
    (tracking tables ι).Obeys i post journal ((insertRow r).bind k) :=
  journal_insertRow ht trivial trivial hk

/-- The defaults of a new row, of which the key is recorded. -/
theorem tracking_rowDefaults {k : RowDefaults → App γ}
    (hk : ∀ d : RowDefaults,
      (tracking tables ι).Obeys i post (journal ++ [.called .uuid4 d.id]) (k d)) :
    (tracking tables ι).Obeys i post journal (rowDefaults.bind k) :=
  tracking_call fun id => tracking_quiet confined_now fun createdAt =>
    tracking_quiet confined_now fun updatedAt => hk ⟨id, createdAt, updatedAt⟩

theorem tracking_audit (hlogs : tables .auditLogs = false) {organizationId : UUID} {actorId entityId : Option UUID}
    {action entityType : String} {metadata : List (String × Json)} {k : Unit → App γ}
    (hk : (tracking tables ι).Obeys i post journal (k ())) :
    (tracking tables ι).Obeys i post journal
      ((recordAudit organizationId actorId action entityType entityId metadata).bind k) :=
  tracking_skip (F := { writes := [.auditLogs] }) (confined_recordAudit (by simp) _ _ _ _ _)
    (by simpa using hlogs) (by simpa using hlogs) (by simp) fun _ => hk

theorem tracking_updateRow {t : Table} (ht : tables t = true) {id : UUID} {f : Row t → Row t} :
    (tracking tables ι).Obeys i (fun journal' _ => journal' = journal ++ [.wrote (.update t id f)])
      journal (updateRow t id f) :=
  journal_update ht trivial (fun r _ => ⟨[], .inl rfl, trivial, by rw [List.append_nil]; rfl⟩)
    fun _ => trivial

theorem tracking_update {t : Table} (ht : tables t = true) {id : UUID}
    {f : Row t → Row t} {k : Unit → App γ}
    (hk : (tracking tables ι).Obeys i post (journal ++ [.wrote (.update t id f)]) (k ())) :
    (tracking tables ι).Obeys i post journal ((updateRow t id f).bind k) := by
  refine (tracking_updateRow ht).bind fun journal' _ h => ?_
  rw [h]
  exact hk

theorem tracking_delete {t : Table} (ht : tables t = true)
    (hcascade : ∀ db : Db Row, Schema.cascade db t = fun _ => []) {id : UUID}
    {post : Journal → Unit → Prop} (hdeleted : post (journal ++ [.wrote (.delete t id)]) ())
    (hnone : post journal ()) :
    (tracking tables ι).Obeys i post journal (deleteRow t id) :=
  journal_delete ht (fun db => congrFun (hcascade db) id) trivial ⟨trivial, hdeleted⟩ hnone

/-- A flush of a changed row, which is held as it is committed then. -/
theorem tracking_flush {t : Table} (ht : tables t = true) {id : UUID}
    {patch : Datetime → Row t → Row t} {k : Option Datetime → App γ}
    (hk : ∀ (r : Row t) at_, pk r = id → ∃ facts, (facts = [] ∨
        (facts = [.held t r] ∧ ∀ op ∈ writesIn journal, op.table ≠ t)) ∧
      (tracking tables ι).Obeys i post
        (journal ++ facts ++ [.wrote (.update t id (patch at_))]) (k (some at_))) :
    (tracking tables ι).Obeys i post journal ((flush t id true patch).bind k) := by
  have hflush : (flush t id true patch).bind k = now.bind fun at_ =>
      (updateRow t id (patch at_)).bind fun _ => k (some at_) := by
    simp only [flush, ↓reduceIte, Prog.bind_eq, Prog.pure_eq, Prog.bind_assoc, Prog.ret_bind]
  rw [hflush]
  refine tracking_quiet confined_now fun at_ => ?_
  refine journal_update ht trivial (fun r hr => ?_) fun _ => trivial
  obtain ⟨facts, hfacts, hobeys⟩ := hk r at_ hr
  exact ⟨facts, hfacts, trivial, hobeys⟩

theorem tracking_validated {α : Type} {args : Option α} {ok : α → Bool} {k : α → App γ}
    (hk : ∀ a, args = some a → ok a = true → (tracking tables ι).Obeys i post journal (k a)) :
    (tracking tables ι).Obeys i post journal ((validated args ok).bind k) := by
  cases args with
  | none => trivial
  | some a =>
    simp only [validated]
    split
    · rename_i hok
      exact hk a rfl hok
    · trivial

/-- What is written of the tables, the scope being known. -/
theorem tracking_other {F : Scope} {p : App γ} {P : Table → Prop} (hp : Confined F p)
    (hF : ∀ t ∈ F.writes ++ F.deletes, tables t = true → P t) :
    (tracking tables ι).Obeys i (fun journal _ => ∀ op ∈ writesIn journal, P op.table) [] p := by
  refine (journal_of_every (I := fun journal => ∀ op ∈ writesIn journal, P op.table)
    (fun s journal hs hI => ⟨fun _ _ => rfl, fun env view => ⟨trivial, ?_⟩⟩) hp (by simp)).mono
    fun _ _ h => h.1
  intro op hop
  rw [writesIn_append, writesIn_map_wrote, List.mem_append] at hop
  rcases hop with hop | hop
  · exact hI op hop
  · obtain ⟨hop, htopic⟩ := List.mem_filter.mp hop
    refine hF _ ?_ htopic
    have hwithin := hs.within.ops env view op hop
    cases op with
    | insert t r => exact List.mem_append_left _ hwithin
    | update t id f => exact List.mem_append_left _ hwithin.1
    | delete t id => exact List.mem_append_right _ hwithin

end Tracking

/-! ## Rows that stay -/

section Rows

variable {ι α : Type} {topic : Topic Table Call} {F : ι → Scope}
  {keeps : ι → Journal → Prop} {post : ι → Journal → α → Prop} {db : Db Row}
  {journals : ι → Journal} {sys : Sys Row UUID Answer Failure α ι} {i : ι} {t : Table}
  {before after : List (ι × Entry Row UUID Answer)}

/-- The journals of processes of these scopes. -/
abbrev Recorded (topic : Topic Table Call) (F : ι → Scope) (keeps : ι → Journal → Prop)
    (post : ι → Journal → α → Prop) (db : Db Row) (journals : ι → Journal)
    (sys : Sys Row UUID Answer Failure α ι) : Prop :=
  Chronicle topic (fun i t => t ∈ (F i).writes) (fun i t => t ∈ (F i).deletes) keeps post db
    journals sys

/-- A run in which no process leaves its scope or deletes from the table. -/
structure Keeping (topic : Topic Table Call) (F : ι → Scope) (post : ι → Journal → α → Prop)
    (t : Table) : Prop where
  tracked : topic.tables t = true
  admitted : ∀ i journal a, post i journal a → Admitted (F i) journal
  undeleted : ∀ i, t ∉ (F i).deletes

/-- The scope of a process allows each of its writes to a table of the topic. -/
theorem Keeping.allowsOp
    (h : Keeping topic F post t) (hchron : Recorded topic F keeps post db journals sys) {ops : List (Op Row UUID)}
    (htrace : sys.trace = before ++ (i, .committed ops) :: after) {op : Op Row UUID}
    (hop : op ∈ ops) (ht : op.table = t) : (F i).AllowsOp op := by
  obtain ⟨hcommitted, a, _, hpost⟩ := hchron.committed i before ops after htrace
  refine h.admitted i _ a hpost op (mem_writesIn.mp ?_)
  rw [← hcommitted.writes]
  exact List.mem_filter.mpr ⟨hop, by rw [ht, h.tracked]⟩

theorem Keeping.keeps_row
    (h : Keeping topic F post t) (hchron : Recorded topic F keeps post db journals sys) {r : Row t}
    (htrace : sys.trace = before ++ after) (hr : r ∈ dbAfter db before t) :
    ∃ r' ∈ sys.db t, blank r' = blank r := by
  induction after generalizing before r with
  | nil =>
    rw [hchron.db_eq, htrace, List.append_nil]
    exact ⟨r, hr, rfl⟩
  | cons e after ih =>
    obtain ⟨i, e⟩ := e
    have hstep : ∃ r' ∈ dbAfter db (before ++ [(i, e)]) t, blank r' = blank r := by
      cases e with
      | called c x => exact ⟨r, by simpa using hr, rfl⟩
      | committed ops =>
        rw [dbAfter_append, dbAfter_committed]
        refine replay_keeps_rows blank (fun id hop => ?_) (fun id f hop => ?_) hr
        · exact h.undeleted i (h.allowsOp hchron htrace hop rfl)
        · exact h.allowsOp hchron htrace hop rfl
    obtain ⟨r', hr', hblank⟩ := hstep
    obtain ⟨r'', hr'', hblank'⟩ := ih (by simpa using htrace) hr'
    exact ⟨r'', hr'', hblank'.trans hblank⟩

/-- Two versions of a row that were committed at any times have the same fixed columns. -/
theorem Keeping.blank_eq
    (h : Keeping topic F post t) (hchron : Recorded topic F keeps post db journals sys) {r s : Row t}
    (hr : WasCommitted db sys.trace t r) (hs : WasCommitted db sys.trace t s)
    (hpk : pk r = pk s) : blank r = blank s := by
  obtain ⟨before, after, htrace, hr⟩ := hr
  obtain ⟨before', after', htrace', hs⟩ := hs
  obtain ⟨r', hr', hblank⟩ := h.keeps_row hchron htrace hr
  obtain ⟨s', hs', hblank'⟩ := h.keeps_row hchron htrace' hs
  have hunique := hchron.unclashing sys.trace [] (by simp)
  rw [← hchron.db_eq] at hunique
  obtain rfl : r' = s' := hunique.eq_of_pk hr' hs'
    ((pk_of_blank hblank).trans (hpk.trans (pk_of_blank hblank').symm))
  exact hblank.symm.trans hblank'

/-- An inserted row is committed, up to the columns that updates assign. -/
theorem Keeping.inserted
    (h : Keeping topic F post t) (hchron : Recorded topic F keeps post db journals sys)
    {ops : List (Op Row UUID)} (htrace : sys.trace = before ++ (i, .committed ops) :: after)
    {r : Row t} (hr : .insert t r ∈ ops) :
    ∃ r', WasCommitted db sys.trace t r' ∧ blank r' = blank r := by
  obtain ⟨l, l', rfl⟩ := List.append_of_mem hr
  have hallows : ∀ op ∈ l', op.table = t → (F i).AllowsOp op :=
    fun op hop ht => h.allowsOp hchron htrace (by simp [hop]) ht
  have hnew : r ∈ (Op.insert t r : Op Row UUID).apply (replay l (dbAfter db before)) t := by simp
  obtain ⟨r', hr', hblank⟩ := replay_keeps_rows blank
    (fun id hop => h.undeleted i (hallows (.delete t id) hop rfl))
    (fun id f hop => hallows (.update t id f) hop rfl) hnew
  refine ⟨r', ⟨before ++ [(i, .committed (l ++ .insert t r :: l'))], after, by simp [htrace], ?_⟩,
    hblank⟩
  rwa [dbAfter_append, dbAfter_committed, replay_append, replay_cons]

/-- No row of the start has the key of an inserted one. -/
theorem Keeping.fresh_key
    (h : Keeping topic F post t) (hchron : Recorded topic F keeps post db journals sys)
    {ops : List (Op Row UUID)} (htrace : sys.trace = before ++ (i, .committed ops) :: after)
    {r : Row t} (hr : .insert t r ∈ ops) : ∀ s ∈ db t, pk s ≠ pk r := by
  have hunique := hchron.unclashing sys.trace [] (by simp)
  have hcommit : ∀ op ∈ sys.trace.flatMap fun e => e.2.ops, ∃ i before ops after,
      sys.trace = before ++ (i, .committed ops) :: after ∧ op ∈ ops := by
    intro op hop
    obtain ⟨⟨i, e⟩, he, hop⟩ := List.mem_flatMap.mp hop
    cases e with
    | called c x => cases hop
    | committed ops =>
      obtain ⟨before, after, htrace⟩ := List.append_of_mem he
      exact ⟨i, before, ops, after, htrace, hop⟩
  refine Unclashing.fresh_key hunique ?_ (fun hdel => ?_) fun op hop => ?_
  · exact List.mem_flatMap.mpr ⟨(i, .committed ops), by simp [htrace], hr⟩
  · obtain ⟨j, _, _, _, htrace', hdel⟩ := hcommit _ hdel
    exact h.undeleted j (h.allowsOp hchron htrace' hdel rfl)
  · obtain ⟨j, _, _, _, htrace', hop⟩ := hcommit op hop
    exact ((hchron.committed j _ _ _ htrace').1.within op hop).keepsKey

/-- Where a row comes from. -/
theorem Keeping.origin
    (h : Keeping topic F post t) (hchron : Recorded topic F keeps post db journals sys) {r : Row t}
    (hr : WasCommitted db sys.trace t r) :
    (∃ s ∈ db t, blank r = blank s) ∨ ∃ i s, (F i).Admits s ∧ blank r = blank s := by
  let Good (t' : Table) (r : Row t') : Prop := t' = t →
    (∃ s ∈ db t', blank r = blank s) ∨ ∃ i s, (F i).Admits s ∧ blank r = blank s
  have hgood : ∀ before after, sys.trace = before ++ after → AllGood Good (dbAfter db before) := by
    refine prefix_induction (fun t' r hr _ => .inl ⟨r, hr, rfl⟩) ?_
    rintro before ⟨i, e⟩ after htrace hbefore
    cases e with
    | called c x => simpa using hbefore
    | committed ops =>
      rw [dbAfter_append, dbAfter_committed]
      refine hbefore.replay (fun t' r hop ht => ?_) fun t' id f hop r hr ht => ?_
      · exact .inr ⟨i, r, h.allowsOp hchron htrace hop ht, rfl⟩
      · have hf : ∀ r, blank (f r) = blank r := h.allowsOp hchron htrace hop ht
        rw [hf]
        exact hr ht
  obtain ⟨before, after, htrace, hr⟩ := hr
  exact hgood before after htrace t r hr rfl

end Rows

/-- Requests that follow their discipline have journals in every run. -/
theorem exists_chronicle [Platform] {ι : Type} [DecidableEq ι] {topic : Topic Table Call}
    {keeps : ι → Journal → Prop} {post : ι → Journal → Response → Prop} {requests : ι → Request}
    {db : Db Row} {sys : Sys Row UUID Answer Failure Response ι} (hdb : Unclashing db)
    (hobeys : ∀ i, (journalDiscipline topic keeps).Obeys i (post i) [] (requests i).handler)
    (hkeeps : ∀ i, keeps i []) (hr : Reachable (fun i => (requests i).handler) db sys) :
    ∃ journals, Chronicle topic (fun i t => t ∈ (requests i).scope.writes)
      (fun i t => t ∈ (requests i).scope.deletes) keeps post db journals sys := by
  obtain ⟨journals, h⟩ : ∃ journals, Chronicle topic (fun i t => t ∈ (requests i).scope.writes)
      (fun i t => t ∈ (requests i).scope.deletes) (fun i journal => keeps i journal ∧ True) post db
      journals sys :=
    ReachableVia.chronicle (fun i => orderly_request (requests i)) hdb hobeys hkeeps
      (fun _ => trivial) (fun _ _ _ _ _ _ _ _ _ _ _ _ _ _ => trivial) hr
  exact ⟨journals, h.mono fun _ _ h => h.1⟩

end TenantFlow
