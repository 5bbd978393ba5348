import TenantFlow.Library.Isolation
import Mathlib.Data.List.Induction

/-!
# What a transaction has seen and done

A process keeps a journal: the committed rows that it has read or come to hold, the calls it
has made, and its writes, in order. The journals of all processes, put beside the trace of a
run, reduce a statement about interleaved transactions to one about the sequence of their
commits: whatever a process has read was committed at that time, and whatever it holds is
still committed when it commits itself.

A `Topic` names the tables whose writes and the calls that are recorded without exception.
Everything else may be left out, so a part of a program that has nothing to do with the topic
leaves the journal as it is.
-/

namespace Transactional

section Journals

variable {Table : Type} [DecidableEq Table] {Row : Table → Type} {Id : Type} [DecidableEq Id]
  [Schema Row Id] {Call : Type} {Answer : Call → Type} {ε α ι : Type}

/-! ## Journals -/

structure Topic (Table Call : Type) where
  tables : Table → Bool
  calls : Call → Bool

inductive Fact (Row : Table → Type) (Id : Type) {Call : Type} (Answer : Call → Type) where
  | read (t : Table) (r : Row t)
  | held (t : Table) (r : Row t)
  | called (c : Call) (x : Answer c)
  | wrote (op : Op Row Id)

def Fact.op? : Fact Row Id Answer → Option (Op Row Id)
  | .wrote op => some op
  | _ => none

/-- The writes in a journal, oldest first. -/
def writesIn (journal : List (Fact Row Id Answer)) : List (Op Row Id) := journal.filterMap Fact.op?

omit [DecidableEq Table] [DecidableEq Id] [Schema Row Id] in
@[simp] theorem writesIn_nil : writesIn ([] : List (Fact Row Id Answer)) = [] := rfl

omit [DecidableEq Table] [DecidableEq Id] [Schema Row Id] in
theorem writesIn_cons (f : Fact Row Id Answer) (l : List (Fact Row Id Answer)) :
    writesIn (f :: l) = f.op?.toList ++ writesIn l := by
  cases f <;> rfl

omit [DecidableEq Table] [DecidableEq Id] [Schema Row Id] in
@[simp] theorem writesIn_append (l l' : List (Fact Row Id Answer)) :
    writesIn (l ++ l') = writesIn l ++ writesIn l' := by
  simp [writesIn]

omit [DecidableEq Table] [DecidableEq Id] [Schema Row Id] in
@[simp] theorem writesIn_map_wrote (ops : List (Op Row Id)) :
    writesIn (ops.map (.wrote : Op Row Id → Fact Row Id Answer)) = ops := by
  simp [writesIn, List.filterMap_map, Function.comp_def, Fact.op?]

omit [DecidableEq Table] [DecidableEq Id] [Schema Row Id] in
theorem mem_writesIn {journal : List (Fact Row Id Answer)} {op : Op Row Id} :
    op ∈ writesIn journal ↔ .wrote op ∈ journal := by
  simp only [writesIn, List.mem_filterMap]
  constructor
  · rintro ⟨f, hf, hop⟩
    cases f <;> simp [Fact.op?] at hop
    rwa [← hop]
  · exact fun h => ⟨_, h, rfl⟩

def Topic.writes (topic : Topic Table Call) (ops : List (Op Row Id)) : List (Op Row Id) :=
  ops.filter fun op => topic.tables op.table

/-- What a statement may show: a committed row of a table that the process has not written,
and that it comes to hold if it locks or writes it. -/
def Shows (topic : Topic Table Call) (journal : List (Fact Row Id Answer)) (s : Stmt Row Id Call)
    (view : Db Row) (env : (c : Call) → Answer c) : Fact Row Id Answer → Prop
  | .read t r => topic.tables t = true ∧ (∀ op ∈ writesIn journal, op.table ≠ t) ∧ r ∈ view t
  | .held t r => topic.tables t = true ∧ (∀ op ∈ writesIn journal, op.table ≠ t) ∧ r ∈ view t ∧
      ((t, pk r) ∈ s.locks view ∨ ∃ op ∈ (s.eval env view).2, op.key = (t, pk r))
  | _ => False

/-- How a statement extends the journal. -/
inductive Learns (topic : Topic Table Call) (journal : List (Fact Row Id Answer)) :
    Stmt Row Id Call → Db Row → ((c : Call) → Answer c) → List (Fact Row Id Answer) → Prop where
  | call {view env} (c : Call) :
    Learns topic journal (.call c) view env (journal ++ [.called c (env c)])
  | stmt {s view env} (facts : List (Fact Row Id Answer))
    (hs : ∀ c, s = .call c → topic.calls c = false)
    (hfacts : ∀ f ∈ facts, Shows topic journal s view env f) :
    Learns topic journal s view env
      (journal ++ facts ++ (topic.writes (s.eval env view).2).map .wrote)

/-- Processes whose journals always satisfy `keeps`. -/
def journalDiscipline (topic : Topic Table Call)
    (keeps : ι → List (Fact Row Id Answer) → Prop) :
    Discipline Row Id Answer ε ι (List (Fact Row Id Answer)) where
  sees _ _ _ := True
  next i journal s view env journal' :=
    Learns topic journal s view env journal' ∧ keeps i journal'
  fails _ _ _ := True

/-! ## Rules for programs -/

section Rules

variable {topic : Topic Table Call} {keeps : ι → List (Fact Row Id Answer) → Prop} {i : ι}
  {β : Type} {post : List (Fact Row Id Answer) → β → Prop} {journal : List (Fact Row Id Answer)}

omit [DecidableEq Table] in
/-- A part whose statements all keep a property of the journal. It records nothing but its
writes. -/
theorem journal_of_every {p : TxProg Row Id Answer ε β} {χ : β → Prop}
    {allowed : Stmt Row Id Call → Prop} {I : List (Fact Row Id Answer) → Prop}
    (hstep : ∀ s journal, allowed s → I journal → (∀ c, s = .call c → topic.calls c = false) ∧
      ∀ (env : (c : Call) → Answer c) view,
        keeps i (journal ++ (topic.writes (s.eval env view).2).map .wrote) ∧
        I (journal ++ (topic.writes (s.eval env view).2).map .wrote))
    (h : p.Every Stmt.Possible allowed (fun _ => True) χ) (hI : I journal) :
    (journalDiscipline topic keeps).Obeys i (fun journal' b => I journal' ∧ χ b) journal p := by
  induction p generalizing journal with
  | ret b => exact ⟨hI, h⟩
  | raise e => trivial
  | step s k ih =>
    intro view env _
    obtain ⟨hcalls, hwrites⟩ := hstep s journal h.1 hI
    obtain ⟨hkeeps, hI'⟩ := hwrites env view
    have hlearn : Learns topic journal s view env _ :=
      .stmt [] hcalls (fun f hf => absurd hf List.not_mem_nil)
    rw [List.append_nil] at hlearn
    exact ⟨_, ⟨hlearn, hkeeps⟩, ih _ (h.2 _ ⟨env, view, rfl⟩) hI'⟩

omit [DecidableEq Table] in
theorem journal_call {c : Call} {k : Answer c → TxProg Row Id Answer ε β}
    (h : ∀ x, keeps i (journal ++ [.called c x]) ∧
      (journalDiscipline topic keeps).Obeys i post (journal ++ [.called c x]) (k x)) :
    (journalDiscipline topic keeps).Obeys i post journal (.step (.call c) k) :=
  fun _ env _ => ⟨_, ⟨.call c, (h (env c)).1⟩, (h (env c)).2⟩

omit [DecidableEq Table] in
/-- A read, with the committed rows that it shows. -/
theorem journal_select {γ : Type} {q : Db Row → γ} {k : γ → TxProg Row Id Answer ε β}
    (h : ∀ view, ∃ facts, (∀ f ∈ facts, ∃ t r, f = .read t r ∧ topic.tables t = true ∧
        (∀ op ∈ writesIn journal, op.table ≠ t) ∧ r ∈ view t) ∧
      keeps i (journal ++ facts) ∧
      (journalDiscipline topic keeps).Obeys i post (journal ++ facts) (k (q view))) :
    (journalDiscipline topic keeps).Obeys i post journal (.step (.select q) k) := by
  intro view env _
  obtain ⟨facts, hfacts, hkeeps, hk⟩ := h view
  have hlearn : Learns topic journal (.select q) view env _ :=
    .stmt facts (fun c hc => by cases hc) fun f hf => by
      obtain ⟨t, r, rfl, hr⟩ := hfacts f hf
      exact hr
  refine ⟨journal ++ facts, ⟨?_, hkeeps⟩, hk⟩
  simpa [Stmt.eval, Topic.writes] using hlearn

omit [DecidableEq Table] in
/-- A locking read, with the rows that it locks. -/
theorem journal_selectForUpdate {γ : Type} {q : Db Row → γ} {locked : γ → List (Table × Id)}
    {k : γ → TxProg Row Id Answer ε β}
    (h : ∀ view, ∃ facts, (∀ f ∈ facts, ∃ t r, f = .held t r ∧ topic.tables t = true ∧
        (∀ op ∈ writesIn journal, op.table ≠ t) ∧ r ∈ view t ∧ (t, pk r) ∈ locked (q view)) ∧
      keeps i (journal ++ facts) ∧
      (journalDiscipline topic keeps).Obeys i post (journal ++ facts) (k (q view))) :
    (journalDiscipline topic keeps).Obeys i post journal (.step (.selectForUpdate q locked) k) := by
  intro view env _
  obtain ⟨facts, hfacts, hkeeps, hk⟩ := h view
  have hlearn : Learns topic journal (.selectForUpdate q locked) view env _ :=
    .stmt facts (fun c hc => by cases hc) fun f hf => by
      obtain ⟨t, r, rfl, ht, hw, hr, hlock⟩ := hfacts f hf
      exact ⟨ht, hw, hr, .inl hlock⟩
  refine ⟨journal ++ facts, ⟨?_, hkeeps⟩, hk⟩
  simpa [Stmt.eval, Topic.writes] using hlearn

omit [DecidableEq Table] in
theorem journal_insert {t : Table} (ht : topic.tables t = true) {r : Row t}
    {k : Except DbError Unit → TxProg Row Id Answer ε β} (hkeeps : keeps i journal)
    (hok : keeps i (journal ++ [.wrote (.insert t r)]) ∧ (journalDiscipline topic keeps).Obeys i
      post (journal ++ [.wrote (.insert t r)]) (k (.ok ())))
    (hfail : ∀ e, (journalDiscipline topic keeps).Obeys i post journal (k (.error e))) :
    (journalDiscipline topic keeps).Obeys i post journal (.step (.insert t r) k) := by
  intro view env _
  have hlearn : Learns topic journal (.insert t r) view env _ :=
    .stmt [] (fun c hc => by cases hc) (fun f hf => absurd hf List.not_mem_nil)
  cases hins : insertable view r with
  | ok u =>
    refine ⟨_, ⟨hlearn, ?_⟩, ?_⟩
    · simpa [Stmt.eval, hins, onlyIfOk, Topic.writes, Op.table, ht] using hok.1
    · simpa [Stmt.eval, hins, onlyIfOk, Topic.writes, Op.table, ht] using hok.2
  | error e =>
    refine ⟨_, ⟨hlearn, ?_⟩, ?_⟩
    · simpa [Stmt.eval, hins, onlyIfOk, Topic.writes] using hkeeps
    · simpa [Stmt.eval, hins, onlyIfOk, Topic.writes] using hfail e

omit [DecidableEq Table] in
/-- An update. If the process has not written the table before, it comes to hold the row as it
is committed. -/
theorem journal_update {t : Table} (ht : topic.tables t = true) {id : Id} {f : Row t → Row t}
    {k : Except DbError Unit → TxProg Row Id Answer ε β} (hkeeps : keeps i journal)
    (hok : ∀ r : Row t, pk r = id → ∃ facts, (facts = [] ∨
        (facts = [.held t r] ∧ ∀ op ∈ writesIn journal, op.table ≠ t)) ∧
      keeps i (journal ++ facts ++ [.wrote (.update t id f)]) ∧
      (journalDiscipline topic keeps).Obeys i post
        (journal ++ facts ++ [.wrote (.update t id f)]) (k (.ok ())))
    (hfail : ∀ e, (journalDiscipline topic keeps).Obeys i post journal (k (.error e))) :
    (journalDiscipline topic keeps).Obeys i post journal (.step (.update t id f) k) := by
  intro view env _
  cases hup : updatable view t id f with
  | ok u =>
    obtain ⟨r, hfind, _⟩ := updatable_ok hup
    have hr : r ∈ view t := List.mem_of_find?_eq_some hfind
    have hid : pk r = id := by simpa using List.find?_some hfind
    obtain ⟨facts, hfacts, hkeep, hk⟩ := hok r hid
    have heval : (Stmt.eval env view (.update t id f)).2 = [.update t id f] := by
      simp [Stmt.eval, hup, onlyIfOk]
    have hlearn : Learns topic journal (.update t id f) view env _ :=
      .stmt facts (fun c hc => by cases hc) fun g hg => by
        rcases hfacts with rfl | ⟨rfl, hw⟩
        · cases hg
        · obtain rfl := List.mem_singleton.mp hg
          refine ⟨ht, hw, hr, .inr ⟨_, by rw [heval]; exact List.mem_singleton_self _, ?_⟩⟩
          rw [hid]
          rfl
    refine ⟨_, ⟨hlearn, ?_⟩, ?_⟩
    · simpa [heval, Topic.writes, Op.table, ht] using hkeep
    · simpa [Stmt.eval, hup, onlyIfOk, Topic.writes, Op.table, ht] using hk
  | error e =>
    have hlearn : Learns topic journal (.update t id f) view env _ :=
      .stmt [] (fun c hc => by cases hc) (fun g hg => absurd hg List.not_mem_nil)
    refine ⟨_, ⟨hlearn, ?_⟩, ?_⟩
    · simpa [Stmt.eval, hup, onlyIfOk, Topic.writes] using hkeeps
    · simpa [Stmt.eval, hup, onlyIfOk, Topic.writes] using hfail e

omit [DecidableEq Table] in
/-- A delete without cascades. -/
theorem journal_delete {t : Table} (ht : topic.tables t = true) {id : Id}
    (hcascade : ∀ db : Db Row, Schema.cascade db t id = []) {k : Unit → TxProg Row Id Answer ε β}
    (hkeeps : keeps i journal)
    (hok : keeps i (journal ++ [.wrote (.delete t id)]) ∧ (journalDiscipline topic keeps).Obeys i
      post (journal ++ [.wrote (.delete t id)]) (k ()))
    (hnone : (journalDiscipline topic keeps).Obeys i post journal (k ())) :
    (journalDiscipline topic keeps).Obeys i post journal (.step (.delete t id) k) := by
  intro view env _
  have hlearn : Learns topic journal (.delete t id) view env _ :=
    .stmt [] (fun c hc => by cases hc) (fun f hf => absurd hf List.not_mem_nil)
  refine ⟨_, ⟨hlearn, ?_⟩, ?_⟩
  all_goals
    simp only [Stmt.eval, deleteOps, hcascade]
    split
  · simpa [Topic.writes, Op.table, ht] using hok.1
  · simpa [Topic.writes] using hkeeps
  · simpa [Topic.writes, Op.table, ht] using hok.2
  · simpa [Topic.writes] using hnone

end Rules

/-! ## Journals beside the trace -/

/-- The committed database after a part of the trace. -/
def dbAfter (db : Db Row) (trace : List (ι × Entry Row Id Answer)) : Db Row :=
  replay (trace.flatMap fun e => e.2.ops) db

@[simp] theorem dbAfter_nil (db : Db Row) :
    dbAfter db ([] : List (ι × Entry Row Id Answer)) = db := rfl

@[simp] theorem dbAfter_append (db : Db Row) (l l' : List (ι × Entry Row Id Answer)) :
    dbAfter db (l ++ l') = dbAfter (dbAfter db l) l' := by
  simp [dbAfter, List.flatMap_append]

@[simp] theorem dbAfter_committed (db : Db Row) (i : ι) (ops : List (Op Row Id)) :
    dbAfter db [(i, (.committed ops : Entry Row Id Answer))] = replay ops db := by
  simp [dbAfter, Entry.ops]

@[simp] theorem dbAfter_called (db : Db Row) (i : ι) (c : Call) (x : Answer c) :
    dbAfter db [(i, (.called c x : Entry Row Id Answer))] = db := rfl

theorem dbAfter_calls (db : Db Row) (i : ι) (s : Stmt Row Id Call) (env : (c : Call) → Answer c) :
    dbAfter db ((s.called env).map fun e => (i, e)) = db := by
  cases s <;> rfl

/-- Steps only add to the trace. -/
theorem Step.exists_trace [DecidableEq ι] {sys sys' : Sys Row Id Answer ε α ι} (h : Step sys sys') :
    ∃ more, sys'.trace = sys.trace ++ more := by
  cases h with
  | stmt i tx s k env _ _ _ => exact ⟨_, rfl⟩
  | commit i tx a _ _ => exact ⟨_, rfl⟩
  | rollback i tx e _ _ => exact ⟨[], (List.append_nil _).symm⟩
  | cutOff i tx _ => exact ⟨[], (List.append_nil _).symm⟩

theorem exists_trace_of_steps [DecidableEq ι] {sys sys' : Sys Row Id Answer ε α ι}
    (h : Relation.ReflTransGen Step sys sys') : ∃ more, sys'.trace = sys.trace ++ more := by
  induction h with
  | refl => exact ⟨[], (List.append_nil _).symm⟩
  | tail _ hstep ih =>
    obtain ⟨more, hmore⟩ := ih
    obtain ⟨last, hlast⟩ := hstep.exists_trace
    exact ⟨more ++ last, by rw [hlast, hmore, List.append_assoc]⟩

/-- The row was there at some time of the trace. -/
def WasCommitted (db : Db Row) (trace : List (ι × Entry Row Id Answer)) (t : Table) (r : Row t) :
    Prop :=
  ∃ before after, trace = before ++ after ∧ r ∈ dbAfter db before t

/-- When a fact of process `i` is learned: `before` is the trace so far, `after` the rest. -/
def Fact.TrueAt (db : Db Row) (i : ι) (before after : List (ι × Entry Row Id Answer)) :
    Fact Row Id Answer → Prop
  | .read t r => r ∈ dbAfter db before t
  | .held t r => r ∈ dbAfter db before t
  | .called c x => (i, .called c x) ∈ after
  | .wrote _ => True

/-- Every fact of the journal was learned at some point of the trace, in the same order. -/
def Timed (db : Db Row) (i : ι) (trace : List (ι × Entry Row Id Answer))
    (journal : List (Fact Row Id Answer)) : Prop :=
  ∀ l f l', journal = l ++ f :: l' → ∃ before after, trace = before ++ after ∧
    f.TrueAt db i before after ∧ (∀ c x, .called c x ∈ l → (i, .called c x) ∈ before) ∧
    ∀ c x, .called c x ∈ l' → (i, .called c x) ∈ after

section Timed

variable {db : Db Row} {i : ι} {trace : List (ι × Entry Row Id Answer)}
  {journal : List (Fact Row Id Answer)}

theorem timed_nil : Timed db i trace [] := by
  intro l f l' h
  simp at h

theorem Timed.of_mem (h : Timed db i trace journal) {f : Fact Row Id Answer} (hf : f ∈ journal) :
    ∃ before after, trace = before ++ after ∧ f.TrueAt db i before after := by
  obtain ⟨l, l', rfl⟩ := List.append_of_mem hf
  obtain ⟨before, after, htrace, htrue, _⟩ := h l f l' rfl
  exact ⟨before, after, htrace, htrue⟩

theorem Timed.called (h : Timed db i trace journal) {c : Call} {x : Answer c}
    (hf : .called c x ∈ journal) : (i, .called c x) ∈ trace := by
  obtain ⟨before, after, rfl, htrue⟩ := h.of_mem hf
  exact List.mem_append_right _ htrue

theorem Fact.TrueAt.extend {f : Fact Row Id Answer} {before after : List (ι × Entry Row Id Answer)}
    (h : f.TrueAt db i before after) (more : List (ι × Entry Row Id Answer)) :
    f.TrueAt db i before (after ++ more) := by
  cases f with
  | called c x => exact List.mem_append_left _ h
  | _ => exact h

theorem Timed.extend (h : Timed db i trace journal) (more : List (ι × Entry Row Id Answer)) :
    Timed db i (trace ++ more) journal := by
  intro l f l' hj
  obtain ⟨before, after, rfl, htrue, hl, hl'⟩ := h l f l' hj
  exact ⟨before, after ++ more, by simp, htrue.extend more, hl, fun c x hx =>
    List.mem_append_left _ (hl' c x hx)⟩

theorem eq_append_cons {γ : Type} {xs ys l l' : List γ} {a : γ} (h : xs ++ ys = l ++ a :: l') :
    (∃ m, xs = l ++ a :: m ∧ l' = m ++ ys) ∨ ∃ m, l = xs ++ m ∧ ys = m ++ a :: l' := by
  rcases List.append_eq_append_iff.mp h with ⟨m, hl, hys⟩ | ⟨m, hxs, hm⟩
  · exact .inr ⟨m, hl, hys⟩
  · cases m with
    | nil => exact .inr ⟨[], by simpa using hxs.symm, by simpa using hm.symm⟩
    | cons b m =>
      obtain ⟨rfl, rfl⟩ := List.cons.inj hm
      exact .inl ⟨m, hxs, rfl⟩

/-- Two entries of one list are the same or one comes before the other. -/
theorem append_cons_cases {γ : Type} {xs ys xs' ys' : List γ} {a b : γ}
    (h : xs ++ a :: ys = xs' ++ b :: ys') :
    (xs = xs' ∧ a = b) ∨ xs ++ [a] <+: xs' ∨ xs' ++ [b] <+: xs := by
  rcases eq_append_cons h with ⟨m, rfl, _⟩ | ⟨m, rfl, hm⟩
  · exact .inr (.inr ⟨m, by simp⟩)
  · cases m with
    | nil => exact .inl ⟨by simp, (List.cons.inj hm).1⟩
    | cons c m =>
      obtain ⟨rfl, _⟩ := List.cons.inj hm
      exact .inr (.inl ⟨m, by simp⟩)

/-- Facts that a statement shows on the database of that time. -/
theorem Timed.append (h : Timed db i trace journal) {facts : List (Fact Row Id Answer)}
    (hfacts : ∀ f ∈ facts, (∀ c x, f ≠ .called c x) ∧ f.TrueAt db i trace []) :
    Timed db i trace (journal ++ facts) := by
  have hnone : ∀ c x, (.called c x : Fact Row Id Answer) ∉ facts :=
    fun c x hx => (hfacts _ hx).1 c x rfl
  intro l f l' hj
  rcases eq_append_cons hj with ⟨m, hm, rfl⟩ | ⟨m, rfl, rfl⟩
  · obtain ⟨before, after, htrace, htrue, hl, hl'⟩ := h l f m hm
    refine ⟨before, after, htrace, htrue, hl, fun c x hx => ?_⟩
    rcases List.mem_append.mp hx with hx | hx
    · exact hl' c x hx
    · exact absurd hx (hnone c x)
  · refine ⟨trace, [], by simp, (hfacts f (by simp)).2, fun c x hx => ?_, fun c x hx => ?_⟩
    · rcases List.mem_append.mp hx with hx | hx
      · exact h.called hx
      · exact absurd (List.mem_append_left _ hx) (hnone c x)
    · exact absurd (List.mem_append_right _ (List.mem_cons_of_mem _ hx)) (hnone c x)

theorem Timed.append_call (h : Timed db i trace journal) (c : Call) (x : Answer c) :
    Timed db i (trace ++ [(i, .called c x)]) (journal ++ [.called c x]) := by
  intro l f l' hj
  rcases eq_append_cons hj with ⟨m, hm, rfl⟩ | ⟨m, rfl, hm⟩
  · obtain ⟨before, after, rfl, htrue, hl, hl'⟩ := h l f m hm
    refine ⟨before, after ++ [(i, .called c x)], by simp, htrue.extend _, hl, fun c' x' hx => ?_⟩
    rcases List.mem_append.mp hx with hx | hx
    · exact List.mem_append_left _ (hl' c' x' hx)
    · cases List.mem_singleton.mp hx
      simp
  · cases m with
    | cons g m => simp at hm
    | nil =>
      obtain ⟨rfl, rfl⟩ := List.cons.inj hm
      refine ⟨trace, [(i, .called c x)], rfl, List.mem_singleton_self _, fun c' x' hx => ?_,
        fun c' x' hx => absurd hx List.not_mem_nil⟩
      exact h.called (by simpa using hx)

end Timed

/-- A statement commits nothing. -/
theorem commit_of_advance [DecidableEq ι] {sys : Sys Row Id Answer ε α ι}
    {tx : Tx Row Id Answer ε α} {i j : ι} {s : Stmt Row Id Call}
    {k : s.Ans Answer → TxProg Row Id Answer ε α} {env : (c : Call) → Answer c}
    {before after : List (ι × Entry Row Id Answer)} {ops : List (Op Row Id)}
    (h : (sys.advance i tx s k env).trace = before ++ (j, .committed ops) :: after) :
    ∃ m, sys.trace = before ++ (j, .committed ops) :: m := by
  rcases eq_append_cons h with ⟨m, hm, _⟩ | ⟨m, _, hm⟩
  · exact ⟨m, hm⟩
  · have hmem : (j, .committed ops) ∈ (s.called env).map fun e => (i, e) := by
      rw [hm]
      exact List.mem_append_right _ List.mem_cons_self
    obtain ⟨e, he, heq⟩ := List.mem_map.mp hmem
    obtain ⟨c, _, rfl⟩ := mem_called.mp he
    cases heq

/-- A commit in the trace is an earlier one or this one. -/
theorem commit_of_commit [DecidableEq ι] {sys : Sys Row Id Answer ε α ι}
    {tx : Tx Row Id Answer ε α} {i j : ι} {a : α}
    {before after : List (ι × Entry Row Id Answer)} {ops : List (Op Row Id)}
    (h : (sys.commit i tx a).trace = before ++ (j, .committed ops) :: after) :
    (∃ m, sys.trace = before ++ (j, .committed ops) :: m) ∨
      i = j ∧ tx.ops = ops ∧ sys.trace = before := by
  rcases eq_append_cons h with ⟨m, hm, _⟩ | ⟨m, hbefore, hm⟩
  · exact .inl ⟨m, hm⟩
  · cases m with
    | nil =>
      obtain ⟨heq, _⟩ := List.cons.inj hm
      obtain ⟨hij, hops⟩ := Prod.mk.inj heq
      exact .inr ⟨hij, Entry.committed.inj hops, by simpa using hbefore.symm⟩
    | cons e m => simp at hm

/-- A property of all parts of the trace from its start, entry by entry. -/
theorem prefix_induction {γ : Type} {P : List γ → Prop} {trace : List γ} (hnil : P [])
    (hstep : ∀ before e after, trace = before ++ e :: after → P before → P (before ++ [e]))
    (before after : List γ) (h : trace = before ++ after) : P before := by
  induction before using List.reverseRecOn generalizing after with
  | nil => exact hnil
  | append_singleton before e ih =>
    have hsplit : trace = before ++ e :: after := by simpa using h
    exact hstep before e after hsplit (ih (e :: after) hsplit)

/-- The writes of the topic decide what becomes of its tables. -/
theorem replay_writes {topic : Topic Table Call} {t : Table} (ht : topic.tables t = true)
    (ops : List (Op Row Id)) (db : Db Row) : replay (topic.writes ops) db t = replay ops db t := by
  induction ops generalizing db with
  | nil => rfl
  | cons op ops ih =>
    by_cases hop : topic.tables op.table = true
    · simp only [Topic.writes, List.filter_cons, hop, ↓reduceIte, replay_cons]
      exact ih (op.apply db)
    · have hne : op.table ≠ t := by
        rintro rfl
        exact hop ht
      simp only [Topic.writes, List.filter_cons, hop, Bool.false_eq_true, ↓reduceIte, replay_cons]
      exact (ih db).trans (replay_congr (apply_of_table_ne db hne).symm ops)

/-! ## Chronicles -/

/-- A commit, `before` being the trace up to it, of a process with this journal. -/
structure CommittedAs (topic : Topic Table Call) (W D : Table → Prop) (db : Db Row) (i : ι)
    (before : List (ι × Entry Row Id Answer)) (ops : List (Op Row Id))
    (journal : List (Fact Row Id Answer)) : Prop where
  writes : topic.writes ops = writesIn journal
  within : ∀ op ∈ ops, op.Within W D
  timed : Timed db i before journal
  /-- What the process holds is still as it was. -/
  held : ∀ t r, .held t r ∈ journal → r ∈ dbAfter db before t

/-- The journals of the processes of a run that started on `db`. -/
structure Chronicle (topic : Topic Table Call) (W D : ι → Table → Prop)
    (keeps : ι → List (Fact Row Id Answer) → Prop)
    (post : ι → List (Fact Row Id Answer) → α → Prop) (db : Db Row)
    (journals : ι → List (Fact Row Id Answer)) (sys : Sys Row Id Answer ε α ι) : Prop where
  db_eq : sys.db = dbAfter db sys.trace
  keeps : ∀ i, keeps i (journals i)
  timed : ∀ i, Timed db i sys.trace (journals i)
  tracked : ∀ i c x, topic.calls c = true → (i, .called c x) ∈ sys.trace →
    .called c x ∈ journals i
  committed : ∀ i before ops after, sys.trace = before ++ (i, .committed ops) :: after →
    CommittedAs topic (W i) (D i) db i before ops (journals i) ∧
      ∃ a, sys.proc i = .committed a ∧ post i (journals i) a
  unclashing : ∀ before after, sys.trace = before ++ after → Unclashing (dbAfter db before)

/-- The journals of the open transactions. -/
structure Current (topic : Topic Table Call) (journals : ι → List (Fact Row Id Answer))
    (sys : Sys Row Id Answer ε α ι) : Prop where
  writes : ∀ i tx, sys.proc i = .active tx → topic.writes tx.ops = writesIn (journals i)
  held : ∀ i tx, sys.proc i = .active tx → ∀ t r, .held t r ∈ journals i →
    tx.Holds (t, pk r) ∧ r ∈ sys.db t

section Chronicles

variable {topic : Topic Table Call} {W D : ι → Table → Prop}
  {keeps : ι → List (Fact Row Id Answer) → Prop}
  {post : ι → List (Fact Row Id Answer) → α → Prop} {db : Db Row}
  {journals : ι → List (Fact Row Id Answer)} {sys : Sys Row Id Answer ε α ι} {i : ι}
  {tx : Tx Row Id Answer ε α}

/-- A process sees the tables that it has not written as they are committed. -/
theorem Current.view_eq (h : Current topic journals sys) (hi : sys.proc i = .active tx)
    {t : Table} (ht : topic.tables t = true)
    (hspare : ∀ op ∈ writesIn (journals i), op.table ≠ t) : tx.view sys.db t = sys.db t := by
  refine replay_of_table_ne sys.db fun op hop htable => ?_
  have hmem : op ∈ topic.writes tx.ops := by
    refine List.mem_filter.mpr ⟨hop, ?_⟩
    rw [htable]
    exact ht
  rw [h.writes i tx hi] at hmem
  exact hspare op hmem htable

/-- What a statement shows is committed. -/
theorem Current.shown (h : Current topic journals sys) (hi : sys.proc i = .active tx)
    {s : Stmt Row Id Call} {env : (c : Call) → Answer c} {f : Fact Row Id Answer}
    (hf : Shows topic (journals i) s (tx.view sys.db) env f) :
    (∃ t r, f = .read t r ∧ r ∈ sys.db t) ∨
    ∃ t r, f = .held t r ∧ r ∈ sys.db t ∧ ((t, pk r) ∈ s.locks (tx.view sys.db) ∨
      ∃ op ∈ (s.eval env (tx.view sys.db)).2, op.key = (t, pk r)) := by
  cases f with
  | read t r =>
    obtain ⟨ht, hspare, hr⟩ := hf
    exact .inl ⟨t, r, rfl, by rwa [h.view_eq hi ht hspare] at hr⟩
  | held t r =>
    obtain ⟨ht, hspare, hr, hkey⟩ := hf
    exact .inr ⟨t, r, rfl, by rwa [h.view_eq hi ht hspare] at hr, hkey⟩
  | called c x => exact hf.elim
  | wrote op => exact hf.elim

/-! A statement of process `i`. -/

section Statement

variable {s : Stmt Row Id Call} {k : s.Ans Answer → TxProg Row Id Answer ε α}
  {env : (c : Call) → Answer c} {journal : List (Fact Row Id Answer)}

theorem Learns.mem_held (h : Learns topic (journals i) s (tx.view sys.db) env journal)
    {t : Table} {r : Row t} (hr : .held t r ∈ journal) :
    .held t r ∈ journals i ∨ Shows topic (journals i) s (tx.view sys.db) env (.held t r) := by
  cases h with
  | call c => exact .inl (by simpa using hr)
  | stmt facts hs hfacts =>
    simp only [List.mem_append, List.mem_map, reduceCtorEq, and_false, exists_false,
      or_false] at hr
    exact hr.imp_right (hfacts _)

theorem Learns.writes (h : Learns topic (journals i) s (tx.view sys.db) env journal) :
    writesIn journal = writesIn (journals i) ++ topic.writes (s.eval env (tx.view sys.db)).2 := by
  cases h with
  | call c => simp [writesIn, Fact.op?, Stmt.eval, Topic.writes]
  | stmt facts hs hfacts =>
    have hnone : writesIn facts = [] := by
      refine List.eq_nil_iff_forall_not_mem.mpr fun op hop => ?_
      exact hfacts _ (mem_writesIn.mp hop)
    simp [hnone]

theorem Current.stmt [DecidableEq ι] (h : Current topic journals sys) (hi : sys.proc i = .active tx)
    (hlearn : Learns topic (journals i) s (tx.view sys.db) env journal) :
    Current topic (Function.update journals i journal) (sys.advance i tx s k env) where
  writes j txj hj := by
    rcases active_of_advance hj with ⟨rfl, rfl⟩ | ⟨hji, hj⟩
    · rw [Function.update_self, hlearn.writes, ← h.writes j tx hi]
      simp [Tx.advance, Topic.writes]
    · rw [Function.update_of_ne hji]
      exact h.writes j txj hj
  held j txj hj t r hr := by
    rcases active_of_advance hj with ⟨rfl, rfl⟩ | ⟨hji, hj⟩
    · rw [Function.update_self] at hr
      rcases hlearn.mem_held hr with hr | hshow
      · obtain ⟨hk, hmem⟩ := h.held j tx hi t r hr
        exact ⟨holds_advance.mpr (.inl hk), hmem⟩
      · rcases h.shown hi hshow with ⟨_, _, hf, _⟩ | ⟨t', r', hf, hmem, hkey⟩
        · cases hf
        · cases hf
          exact ⟨holds_advance.mpr (.inr hkey), hmem⟩
    · rw [Function.update_of_ne hji] at hr
      exact h.held j txj hj t r hr

theorem Learns.timed (h : Current topic journals sys) (hi : sys.proc i = .active tx)
    (hdb : sys.db = dbAfter db sys.trace)
    (hlearn : Learns topic (journals i) s (tx.view sys.db) env journal)
    (ht : Timed db i sys.trace (journals i)) :
    Timed db i (sys.trace ++ (s.called env).map fun e => (i, e)) journal := by
  cases hlearn with
  | call c => exact ht.append_call c (env c)
  | stmt facts hs hfacts =>
    rw [List.append_assoc]
    refine (ht.append fun f hf => ?_).extend _
    rcases List.mem_append.mp hf with hf | hf
    · rcases h.shown hi (hfacts f hf) with ⟨t, r, rfl, hr⟩ | ⟨t, r, rfl, hr, _⟩
      · exact ⟨by simp, by rwa [hdb] at hr⟩
      · exact ⟨by simp, by rwa [hdb] at hr⟩
    · obtain ⟨op, _, rfl⟩ := List.mem_map.mp hf
      exact ⟨by simp, trivial⟩

theorem Chronicle.stmt [DecidableEq ι] (h : Chronicle topic W D keeps post db journals sys)
    (hcur : Current topic journals sys) (hi : sys.proc i = .active tx)
    (hlearn : Learns topic (journals i) s (tx.view sys.db) env journal)
    (hkeeps : keeps i journal) :
    Chronicle topic W D keeps post db (Function.update journals i journal)
      (sys.advance i tx s k env) := by
  have hdb : (sys.advance i tx s k env).db = dbAfter db (sys.advance i tx s k env).trace := by
    change sys.db = dbAfter db (sys.trace ++ _)
    rw [dbAfter_append, dbAfter_calls]
    exact h.db_eq
  have hcalled : ∀ e ∈ (s.called env).map (fun e => (i, e)), ∃ c, e = (i, .called c (env c)) := by
    intro e he
    obtain ⟨e', he', rfl⟩ := List.mem_map.mp he
    obtain ⟨c, _, rfl⟩ := mem_called.mp he'
    exact ⟨c, rfl⟩
  refine ⟨hdb, fun j => ?_, fun j => ?_, fun j c x hc hx => ?_, fun j before ops after htrace => ?_,
    fun before after htrace => ?_⟩
  · by_cases hji : j = i
    · subst hji
      rwa [Function.update_self]
    · rw [Function.update_of_ne hji]
      exact h.keeps j
  · by_cases hji : j = i
    · subst hji
      rw [Function.update_self]
      exact hlearn.timed hcur hi h.db_eq (h.timed j)
    · rw [Function.update_of_ne hji]
      exact (h.timed j).extend _
  · rcases List.mem_append.mp hx with hx | hx
    · have hold := h.tracked j c x hc hx
      by_cases hji : j = i
      · subst hji
        rw [Function.update_self]
        cases hlearn with
        | call c' => exact List.mem_append_left _ hold
        | stmt facts hs hfacts =>
          exact List.mem_append_left _ (List.mem_append_left _ hold)
      · rwa [Function.update_of_ne hji]
    · obtain ⟨e, he, heq⟩ := List.mem_map.mp hx
      obtain ⟨c', rfl, rfl⟩ := mem_called.mp he
      cases heq
      rw [Function.update_self]
      cases hlearn with
      | call _ => simp
      | stmt facts hs hfacts => simp [hs c rfl] at hc
  · obtain ⟨m, hm⟩ := commit_of_advance htrace
    have hold := h.committed j before ops m hm
    have hji : j ≠ i := by
      rintro rfl
      obtain ⟨_, a, ha, _⟩ := hold
      rw [hi] at ha
      cases ha
    rw [Function.update_of_ne hji, advance_proc_of_ne _ hji]
    exact hold
  · rcases List.append_eq_append_iff.mp htrace with ⟨m, rfl, hm⟩ | ⟨m, hm, _⟩
    · have hnone : dbAfter (dbAfter db sys.trace) m = dbAfter db sys.trace := by
        have hops : ∀ l : List (ι × Entry Row Id Answer),
            (∀ e ∈ l, ∃ c, e = (i, .called c (env c))) → ∀ d : Db Row, dbAfter d l = d := by
          intro l hl d
          have hnil : (l.flatMap fun e => e.2.ops) = [] := by
            refine List.flatMap_eq_nil_iff.mpr fun e he => ?_
            obtain ⟨c, rfl⟩ := hl e he
            rfl
          rw [dbAfter, hnil, replay_nil]
        exact hops m (fun e he => hcalled e (by rw [hm]; exact List.mem_append_left _ he)) _
      rw [dbAfter_append, hnone]
      exact h.unclashing sys.trace [] (by simp)
    · exact h.unclashing before m hm

end Statement

theorem Current.commit [DecidableEq ι] (h : Current topic journals sys) (hiso : Isolated W D sys)
    (hi : sys.proc i = .active tx) {a : α} : Current topic journals (sys.commit i tx a) where
  writes j txj hj := h.writes j txj (active_of_commit hj).2
  held j txj hj t r hr := by
    obtain ⟨hji, hj⟩ := active_of_commit hj
    obtain ⟨hk, hmem⟩ := h.held j txj hj t r hr
    exact ⟨hk, (mem_of_rowsAt_eq (hiso.rowsAt_commit hi hj hji hk)).mpr hmem⟩

theorem Chronicle.commit [DecidableEq ι] (h : Chronicle topic W D keeps post db journals sys)
    (hcur : Current topic journals sys) (hiso : Isolated W D sys) (hi : sys.proc i = .active tx)
    {a : α} (hpost : post i (journals i) a) :
    Chronicle topic W D keeps post db journals (sys.commit i tx a) := by
  have hdb : (sys.commit i tx a).db = dbAfter db (sys.commit i tx a).trace := by
    change replay tx.ops sys.db = dbAfter db (sys.trace ++ _)
    rw [dbAfter_append, dbAfter_committed, ← h.db_eq]
  refine ⟨hdb, h.keeps, fun j => (h.timed j).extend _, fun j c x hc hx => ?_,
    fun j before ops after htrace => ?_, fun before after htrace => ?_⟩
  · refine h.tracked j c x hc ?_
    simpa [Sys.commit] using hx
  · rcases commit_of_commit htrace with ⟨m, hm⟩ | ⟨rfl, rfl, rfl⟩
    · obtain ⟨hcommitted, b, hb, hpostb⟩ := h.committed j before ops m hm
      exact ⟨hcommitted, b, committed_commit hi hb, hpostb⟩
    · refine ⟨⟨hcur.writes i tx hi, hiso.within i tx hi, h.timed i, fun t r hr => ?_⟩, a,
        commit_proc_self _ _ _ _, hpost⟩
      rw [← h.db_eq]
      exact (hcur.held i tx hi t r hr).2
  · rcases List.append_eq_append_iff.mp htrace with ⟨m, rfl, hm⟩ | ⟨m, hm, _⟩
    · rcases List.singleton_eq_append_iff.mp hm with ⟨rfl, _⟩ | ⟨rfl, _⟩
      · exact h.unclashing _ [] (by simp)
      · rw [dbAfter_append, dbAfter_committed, ← h.db_eq]
        exact hiso.views i tx hi
    · exact h.unclashing before m hm

omit [DecidableEq Table] [DecidableEq Id] in
theorem Current.abort [DecidableEq ι] (h : Current topic journals sys) {e : Option ε} :
    Current topic journals (sys.abort i e) where
  writes j txj hj := h.writes j txj (active_of_abort hj).2
  held j txj hj := h.held j txj (active_of_abort hj).2

theorem Chronicle.abort [DecidableEq ι] (h : Chronicle topic W D keeps post db journals sys)
    (hi : sys.proc i = .active tx) {e : Option ε} :
    Chronicle topic W D keeps post db journals (sys.abort i e) where
  db_eq := h.db_eq
  keeps := h.keeps
  timed := h.timed
  tracked := h.tracked
  committed j before ops after htrace := by
    obtain ⟨hcommitted, b, hb, hpost⟩ := h.committed j before ops after htrace
    exact ⟨hcommitted, b, (committed_abort_iff hi).mpr hb, hpost⟩
  unclashing := h.unclashing

theorem Chronicle.mono {keeps' : ι → List (Fact Row Id Answer) → Prop}
    (h : Chronicle topic W D keeps post db journals sys)
    (hkeeps : ∀ i journal, keeps i journal → keeps' i journal) :
    Chronicle topic W D keeps' post db journals sys where
  db_eq := h.db_eq
  keeps i := hkeeps i _ (h.keeps i)
  timed := h.timed
  tracked := h.tracked
  committed := h.committed
  unclashing := h.unclashing

/-- Whatever a process has read or held was committed at some time. -/
theorem Chronicle.wasCommitted (h : Chronicle topic W D keeps post db journals sys) {t : Table}
    {r : Row t} (hr : .read t r ∈ journals i ∨ .held t r ∈ journals i) :
    WasCommitted db sys.trace t r := by
  rcases hr with hr | hr
  · exact (h.timed i).of_mem hr
  · exact (h.timed i).of_mem hr

/-- A commit does to the tables what the journal says. -/
theorem Chronicle.dbAfter_commit (h : Chronicle topic W D keeps post db journals sys)
    {before after : List (ι × Entry Row Id Answer)} {ops : List (Op Row Id)}
    (htrace : sys.trace = before ++ (i, .committed ops) :: after) {t : Table}
    (ht : topic.tables t = true) :
    dbAfter db (before ++ [(i, .committed ops)]) t =
      replay (writesIn (journals i)) (dbAfter db before) t := by
  rw [dbAfter_append, dbAfter_committed, ← (h.committed i before ops after htrace).1.writes,
    replay_writes ht]

theorem Chronicle.mem_writesIn (h : Chronicle topic W D keeps post db journals sys)
    {before after : List (ι × Entry Row Id Answer)} {ops : List (Op Row Id)}
    (htrace : sys.trace = before ++ (i, .committed ops) :: after) {op : Op Row Id}
    (ht : topic.tables op.table = true) : op ∈ writesIn (journals i) ↔ op ∈ ops := by
  rw [← (h.committed i before ops after htrace).1.writes]
  simp [Topic.writes, ht]

/-- What a process holds is committed when it commits. -/
theorem Chronicle.held (h : Chronicle topic W D keeps post db journals sys)
    {before after : List (ι × Entry Row Id Answer)} {ops : List (Op Row Id)}
    (htrace : sys.trace = before ++ (i, .committed ops) :: after) {t : Table} {r : Row t}
    (hr : .held t r ∈ journals i) : r ∈ dbAfter db before t :=
  (h.committed i before ops after htrace).1.held t r hr

theorem Chronicle.eq_of_pk (h : Chronicle topic W D keeps post db journals sys)
    {before after : List (ι × Entry Row Id Answer)} (htrace : sys.trace = before ++ after)
    {t : Table} {r s : Row t} (hr : r ∈ dbAfter db before t) (hs : s ∈ dbAfter db before t)
    (hpk : pk r = pk s) : r = s :=
  (h.unclashing before after htrace).eq_of_pk hr hs hpk

/-- The key of an inserted row is new. -/
theorem Chronicle.fresh_key (h : Chronicle topic W D keeps post db journals sys)
    {before after : List (ι × Entry Row Id Answer)} {ops : List (Op Row Id)}
    (htrace : sys.trace = before ++ (i, .committed ops) :: after) {t : Table} {r : Row t}
    (hins : .insert t r ∈ ops) (hdel : .delete t (pk r) ∉ ops) :
    ∀ s ∈ dbAfter db before t, pk s ≠ pk r := by
  have hunique := h.unclashing (before ++ [(i, .committed ops)]) after (by simpa using htrace)
  rw [dbAfter_append, dbAfter_committed] at hunique
  exact hunique.fresh_key hins hdel fun op hop =>
    ((h.committed i before ops after htrace).1.within op hop).keepsKey

/-- Entries of a list with the same image, the images being distinct. -/
theorem eq_of_filterMap_nodup {γ δ : Type} {f : γ → Option δ} {l : List γ}
    (h : (l.filterMap f).Nodup) {x y : γ} (hx : x ∈ l) (hy : y ∈ l) {b : δ} (hfx : f x = some b)
    (hfy : f y = some b) : x = y := by
  by_contra hne
  have hpairs := List.pairwise_filterMap.mp h
  obtain ⟨before, after, rfl⟩ := List.append_of_mem hx
  obtain ⟨_, hafter, hbefore⟩ := List.pairwise_append.mp hpairs
  rcases List.mem_append.mp hy with hy | hy
  · exact hbefore y hy x List.mem_cons_self b hfy b hfx rfl
  · rcases List.mem_cons.mp hy with rfl | hy
    · exact hne rfl
    · exact (List.pairwise_cons.mp hafter).1 y hy b hfx b hfy rfl

/-- Every run has its journals. `allows` are facts about journals that the steps of the run,
all satisfying `ok`, add to those that the programs keep by themselves. -/
theorem ReachableVia.chronicle [DecidableEq ι] [Schema.Lawful Row Id]
    {ok : Sys Row Id Answer ε α ι → Sys Row Id Answer ε α ι → Prop}
    {progs : ι → TxProg Row Id Answer ε α} {allows : ι → List (Fact Row Id Answer) → Prop}
    (horderly : ∀ i, Orderly (W i) (D i) (progs i)) (hdb : Unclashing db)
    (hobeys : ∀ i, (journalDiscipline topic keeps).Obeys i (post i) [] (progs i))
    (hkeeps : ∀ i, keeps i []) (hallows : ∀ i, allows i [])
    (hstep : ∀ sys i tx s k env journal journal', sys.proc i = .active tx →
      tx.prog = .step s k → topic.writes tx.ops = writesIn journal →
      ok sys (sys.advance i tx s k env) →
      Learns topic journal s (tx.view sys.db) env journal' → allows i journal → allows i journal')
    (hr : ReachableVia ok progs db sys) :
    ∃ journals, Chronicle topic W D (fun i journal => keeps i journal ∧ allows i journal) post db
      journals sys := by
  let J (journals : ι → List (Fact Row Id Answer)) (sys : Sys Row Id Answer ε α ι) : Prop :=
    Current topic journals sys ∧
      Chronicle topic W D (fun i journal => keeps i journal ∧ allows i journal) post db journals sys
  have hsound : (journalDiscipline topic keeps).Sound post [] J
      (fun s t => ok s t ∧ Isolated W D s) progs db := by
    refine ⟨hobeys, ?_, fun _ _ _ _ _ _ => trivial, ?_, ?_, ?_⟩
    · refine ⟨⟨fun i tx hi => ?_, fun i tx hi t r hr => absurd hr List.not_mem_nil⟩,
        rfl, fun i => ⟨hkeeps i, hallows i⟩, fun i => timed_nil, fun i c x _ hx => ?_,
        fun i before ops after h => ?_, fun before after h => ?_⟩
      · obtain rfl := Proc.active.inj hi
        rfl
      · exact absurd hx List.not_mem_nil
      · exact absurd h (by simp [Sys.init])
      · obtain ⟨rfl, _⟩ := List.append_eq_nil_iff.mp (Eq.symm h)
        exact hdb
    · rintro journals sys i tx s k env journal ⟨hcur, hchron⟩ hi hp _ ⟨hlearn, hkeep⟩ ⟨hok, _⟩
      refine ⟨hcur.stmt hi hlearn, hchron.stmt hcur hi hlearn ⟨hkeep, ?_⟩⟩
      exact hstep sys i tx s k env _ _ hi hp (hcur.writes i tx hi) hok hlearn (hchron.keeps i).2
    · rintro journals sys i tx a ⟨hcur, hchron⟩ hi _ hpost ⟨_, hiso⟩
      exact ⟨hcur.commit hiso hi, hchron.commit hcur hiso hi hpost⟩
    · rintro journals sys i tx e ⟨hcur, hchron⟩ hi _
      exact ⟨hcur.abort, hchron.abort hi⟩
  have hiso : ∀ sys, ReachableVia ok progs db sys → Isolated W D sys :=
    fun sys hr => hr.isolated horderly hdb
  obtain ⟨journals, ⟨_, hchron⟩, _⟩ := hsound.reachable (hr.assume hiso)
  exact ⟨journals, hchron⟩

/-- No committed state of a run has clashing rows. -/
theorem ReachableVia.unclashing_before [DecidableEq ι] [Schema.Lawful Row Id]
    {ok : Sys Row Id Answer ε α ι → Sys Row Id Answer ε α ι → Prop}
    {progs : ι → TxProg Row Id Answer ε α} (horderly : ∀ i, Orderly (W i) (D i) (progs i))
    (hdb : Unclashing db) (hr : ReachableVia ok progs db sys)
    {before after : List (ι × Entry Row Id Answer)} (htrace : sys.trace = before ++ after) :
    Unclashing (dbAfter db before) := by
  -- Journals about nothing.
  let silent : Topic Table Call := ⟨fun _ => false, fun _ => false⟩
  have hobeys (i : ι) :
      (journalDiscipline silent fun _ _ => True : Discipline Row Id Answer ε ι _).Obeys i
        (fun _ _ => True) [] (progs i) :=
    (journal_of_every (I := fun _ => True) (fun _ _ _ _ => ⟨fun _ _ => rfl, fun _ _ =>
      ⟨trivial, trivial⟩⟩) (horderly i).2 trivial).mono fun _ _ _ => trivial
  obtain ⟨journals, hchron⟩ := ReachableVia.chronicle horderly hdb hobeys (fun _ => trivial)
    (fun _ => trivial) (fun _ _ _ _ _ _ _ _ _ _ _ _ _ _ => trivial) hr
  exact hchron.unclashing before after htrace

end Chronicles

end Journals

end Transactional
