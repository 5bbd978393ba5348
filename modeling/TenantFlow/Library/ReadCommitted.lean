import TenantFlow.Library.Store
import Mathlib.Logic.Relation

/-!
# Interleaved transactions at READ COMMITTED

Every process runs one program in one transaction. A statement sees the committed database
at the moment it executes, overlaid with the writes of its own transaction. A statement
that needs a row or a unique value which another open transaction has locked or has
changed must wait: its step is enabled only once that transaction has ended, and it then
evaluates on the state at that moment. Committing applies the pending writes, row by row,
to the then current database. A transaction can be cut off at any point.

Waiting is modelled only where it decides a result. Locks that merely delay a statement
(for instance the key-share lock of a foreign-key check) are left out, so there are at
least as many interleavings here as in the database.

A `Discipline` is a proof rule for such systems: each process carries a ghost phase, every
statement it issues moves the phase along `next`, and a system invariant over the phases
is checked one statement at a time.
-/

namespace Transactional

section ReadCommitted

variable {Table : Type} [DecidableEq Table] {Row : Table → Type} {Id : Type} [DecidableEq Id]
  [Schema Row Id] {Call : Type} {Answer : Call → Type} {ε α ι : Type} [DecidableEq ι]

/-- An open transaction: what is left to run, its pending writes and its row locks. -/
structure Tx (Row : Table → Type) (Id : Type) {Call : Type} (Answer : Call → Type)
    (ε α : Type) where
  prog : TxProg Row Id Answer ε α
  ops : List (Op Row Id) := []
  locks : List (Table × Id) := []

/-- What the transaction sees when `db` is committed. -/
def Tx.view (tx : Tx Row Id Answer ε α) (db : Db Row) : Db Row := replay tx.ops db

/-- Rows that other transactions may not write or lock until this one ends. -/
def Tx.Holds (tx : Tx Row Id Answer ε α) (k : Table × Id) : Prop :=
  k ∈ tx.locks ∨ ∃ op ∈ tx.ops, op.key = k

/-- Row versions that exist or not depending on whether `tx` commits. -/
def Tx.Undecided (tx : Tx Row Id Answer ε α) (db : Db Row) (t : Table) (r : Row t) : Prop :=
  (r ∈ db t ∧ r ∉ tx.view db t) ∨ (r ∉ db t ∧ r ∈ tx.view db t)

/-- A statement issued on `view` has to wait for the open transaction `other`. -/
def Waits (db view : Db Row) (other : Tx Row Id Answer ε α) : Stmt Row Id Call → Prop
  | .select _ => False
  | .selectForUpdate q locked => ∃ k ∈ locked (q view), other.Holds k
  | .insert t r => ∃ r', clash r r' = true ∧ other.Undecided db t r'
  | .insertOnConflictDoNothing t _ r => ∃ r', clash r r' = true ∧ other.Undecided db t r'
  | .update t id f => other.Holds (t, id) ∨
      ∃ r ∈ view t, pk r = id ∧ ∃ r', pk r' ≠ id ∧ clash (f r) r' = true ∧ other.Undecided db t r'
  | .delete t id => ∃ k ∈ (t, id) :: Schema.cascade view t id, other.Holds k
  | .call _ => False

/-- A process is running, has committed a result, or has failed. A failure without an
error is a lost connection or a killed server process. -/
inductive Proc (Row : Table → Type) (Id : Type) {Call : Type} (Answer : Call → Type)
    (ε α : Type) where
  | active (tx : Tx Row Id Answer ε α)
  | committed (a : α)
  | failed (e : Option ε)

/-- What a trace records: the external calls with their answers and the commits, in order. -/
inductive Entry (Row : Table → Type) (Id : Type) {Call : Type} (Answer : Call → Type) where
  | called (c : Call) (x : Answer c)
  | committed (ops : List (Op Row Id))

structure Sys (Row : Table → Type) (Id : Type) {Call : Type} (Answer : Call → Type)
    (ε α ι : Type) where
  db : Db Row
  proc : ι → Proc Row Id Answer ε α
  trace : List (ι × Entry Row Id Answer)

/-- Every process stands at the start of its program. -/
def Sys.init (progs : ι → TxProg Row Id Answer ε α) (db : Db Row) :
    Sys Row Id Answer ε α ι where
  db := db
  proc i := .active { prog := progs i }
  trace := []

def Stmt.called (ext : (c : Call) → Answer c) : Stmt Row Id Call → List (Entry Row Id Answer)
  | .call c => [.called c (ext c)]
  | _ => []

omit [DecidableEq Table] [DecidableEq Id] [Schema Row Id] in
/-- Only calls are recorded while a transaction is open. -/
theorem mem_called {ext : (c : Call) → Answer c} {s : Stmt Row Id Call} {e : Entry Row Id Answer} :
    e ∈ s.called ext ↔ ∃ c, s = .call c ∧ e = .called c (ext c) := by
  cases s <;> simp [Stmt.called]

omit [DecidableEq Table] [DecidableEq Id] [Schema Row Id] in
@[simp] theorem committed_not_mem_called {ext : (c : Call) → Answer c} {s : Stmt Row Id Call}
    {ops : List (Op Row Id)} : Entry.committed ops ∉ s.called ext := by
  simp [mem_called]

/-- The open transaction after one more statement. -/
def Tx.advance (tx : Tx Row Id Answer ε α) (db : Db Row) (s : Stmt Row Id Call)
    (k : s.Ans Answer → TxProg Row Id Answer ε α) (ext : (c : Call) → Answer c) :
    Tx Row Id Answer ε α where
  prog := k (s.eval ext (tx.view db)).1
  ops := tx.ops ++ (s.eval ext (tx.view db)).2
  locks := tx.locks ++ s.locks (tx.view db)

def Sys.advance (sys : Sys Row Id Answer ε α ι) (i : ι) (tx : Tx Row Id Answer ε α)
    (s : Stmt Row Id Call) (k : s.Ans Answer → TxProg Row Id Answer ε α)
    (ext : (c : Call) → Answer c) : Sys Row Id Answer ε α ι where
  db := sys.db
  proc := Function.update sys.proc i (.active (tx.advance sys.db s k ext))
  trace := sys.trace ++ (s.called ext).map (fun e => (i, e))

def Sys.commit (sys : Sys Row Id Answer ε α ι) (i : ι) (tx : Tx Row Id Answer ε α) (a : α) :
    Sys Row Id Answer ε α ι where
  db := replay tx.ops sys.db
  proc := Function.update sys.proc i (.committed a)
  trace := sys.trace ++ [(i, .committed tx.ops)]

def Sys.abort (sys : Sys Row Id Answer ε α ι) (i : ι) (e : Option ε) :
    Sys Row Id Answer ε α ι :=
  { sys with proc := Function.update sys.proc i (.failed e) }

inductive Step : Sys Row Id Answer ε α ι → Sys Row Id Answer ε α ι → Prop where
  | stmt {sys : Sys Row Id Answer ε α ι} (i : ι) (tx : Tx Row Id Answer ε α)
      (s : Stmt Row Id Call) (k : s.Ans Answer → TxProg Row Id Answer ε α)
      (ext : (c : Call) → Answer c) (active : sys.proc i = .active tx)
      (prog : tx.prog = .step s k)
      (free : ∀ j tx', j ≠ i → sys.proc j = .active tx' →
        ¬ Waits sys.db (tx.view sys.db) tx' s) :
      Step sys (sys.advance i tx s k ext)
  | commit {sys : Sys Row Id Answer ε α ι} (i : ι) (tx : Tx Row Id Answer ε α) (a : α)
      (active : sys.proc i = .active tx) (prog : tx.prog = .ret a) :
      Step sys (sys.commit i tx a)
  | rollback {sys : Sys Row Id Answer ε α ι} (i : ι) (tx : Tx Row Id Answer ε α) (e : ε)
      (active : sys.proc i = .active tx) (prog : tx.prog = .raise e) :
      Step sys (sys.abort i (some e))
  | cutOff {sys : Sys Row Id Answer ε α ι} (i : ι) (tx : Tx Row Id Answer ε α)
      (active : sys.proc i = .active tx) :
      Step sys (sys.abort i none)

/-- States reached from the start of all programs on `db` by steps that all satisfy `ok`. -/
def ReachableVia (ok : Sys Row Id Answer ε α ι → Sys Row Id Answer ε α ι → Prop)
    (progs : ι → TxProg Row Id Answer ε α) (db : Db Row) : Sys Row Id Answer ε α ι → Prop :=
  Relation.ReflTransGen (fun s t => Step s t ∧ ok s t) (Sys.init progs db)

/-- States reached by any steps. -/
def Reachable (progs : ι → TxProg Row Id Answer ε α) (db : Db Row) :
    Sys Row Id Answer ε α ι → Prop :=
  ReachableVia (fun _ _ => True) progs db

theorem Reachable.steps {progs : ι → TxProg Row Id Answer ε α} {db : Db Row}
    {sys sys' : Sys Row Id Answer ε α ι} (hr : Reachable progs db sys)
    (h : Relation.ReflTransGen Step sys sys') : Reachable progs db sys' := by
  induction h with
  | refl => exact hr
  | tail _ hstep ih => exact Relation.ReflTransGen.tail ih ⟨hstep, trivial⟩

/-- An invariant of all reached states may be assumed of the steps. -/
theorem ReachableVia.assume {ok : Sys Row Id Answer ε α ι → Sys Row Id Answer ε α ι → Prop}
    {progs : ι → TxProg Row Id Answer ε α} {db : Db Row} {E : Sys Row Id Answer ε α ι → Prop}
    (hE : ∀ sys, ReachableVia ok progs db sys → E sys) {sys : Sys Row Id Answer ε α ι}
    (hr : ReachableVia ok progs db sys) :
    ReachableVia (fun s t => ok s t ∧ E s) progs db sys := by
  induction hr with
  | refl => exact .refl
  | tail hr hstep ih => exact .tail ih ⟨hstep.1, hstep.2, hE _ hr⟩

theorem ReachableVia.mono {ok ok' : Sys Row Id Answer ε α ι → Sys Row Id Answer ε α ι → Prop}
    {progs : ι → TxProg Row Id Answer ε α} {db : Db Row} {sys : Sys Row Id Answer ε α ι}
    (hr : ReachableVia ok progs db sys) (h : ∀ s t, ok s t → ok' s t) :
    ReachableVia ok' progs db sys := by
  induction hr with
  | refl => exact .refl
  | tail _ hstep ih => exact .tail ih ⟨hstep.1, h _ _ hstep.2⟩

theorem ReachableVia.reachable {ok : Sys Row Id Answer ε α ι → Sys Row Id Answer ε α ι → Prop}
    {progs : ι → TxProg Row Id Answer ε α} {db : Db Row} {sys : Sys Row Id Answer ε α ι}
    (hr : ReachableVia ok progs db sys) : Reachable progs db sys :=
  hr.mono fun _ _ _ => trivial

@[simp] theorem advance_proc_self (sys : Sys Row Id Answer ε α ι) (i : ι)
    (tx : Tx Row Id Answer ε α) (s : Stmt Row Id Call)
    (k : s.Ans Answer → TxProg Row Id Answer ε α) (ext : (c : Call) → Answer c) :
    (sys.advance i tx s k ext).proc i = .active (tx.advance sys.db s k ext) := by
  simp [Sys.advance]

@[simp] theorem advance_proc_of_ne (sys : Sys Row Id Answer ε α ι) {i j : ι} (h : j ≠ i)
    (tx : Tx Row Id Answer ε α) (s : Stmt Row Id Call)
    (k : s.Ans Answer → TxProg Row Id Answer ε α) (ext : (c : Call) → Answer c) :
    (sys.advance i tx s k ext).proc j = sys.proc j := by
  simp [Sys.advance, h]

@[simp] theorem commit_proc_self (sys : Sys Row Id Answer ε α ι) (i : ι)
    (tx : Tx Row Id Answer ε α) (a : α) : (sys.commit i tx a).proc i = .committed a := by
  simp [Sys.commit]

@[simp] theorem commit_proc_of_ne (sys : Sys Row Id Answer ε α ι) {i j : ι} (h : j ≠ i)
    (tx : Tx Row Id Answer ε α) (a : α) : (sys.commit i tx a).proc j = sys.proc j := by
  simp [Sys.commit, h]

omit [DecidableEq Table] [DecidableEq Id] [Schema Row Id] in
@[simp] theorem abort_proc_self (sys : Sys Row Id Answer ε α ι) (i : ι) (e : Option ε) :
    (sys.abort i e).proc i = .failed e := by
  simp [Sys.abort]

omit [DecidableEq Table] [DecidableEq Id] [Schema Row Id] in
@[simp] theorem abort_proc_of_ne (sys : Sys Row Id Answer ε α ι) {i j : ι} (h : j ≠ i)
    (e : Option ε) : (sys.abort i e).proc j = sys.proc j := by
  simp [Sys.abort, h]

/-! Which processes are open or committed after a step. -/

section AfterStep

variable {sys : Sys Row Id Answer ε α ι} {i j : ι} {tx tx' : Tx Row Id Answer ε α}
  {s : Stmt Row Id Call} {k : s.Ans Answer → TxProg Row Id Answer ε α}
  {ext : (c : Call) → Answer c} {a b : α} {e : Option ε}

theorem active_of_advance (h : (sys.advance i tx s k ext).proc j = .active tx') :
    (j = i ∧ tx' = tx.advance sys.db s k ext) ∨ (j ≠ i ∧ sys.proc j = .active tx') := by
  by_cases hji : j = i
  · subst hji
    rw [advance_proc_self] at h
    exact .inl ⟨rfl, (Proc.active.inj h).symm⟩
  · rw [advance_proc_of_ne _ hji] at h
    exact .inr ⟨hji, h⟩

theorem active_of_commit (h : (sys.commit i tx a).proc j = .active tx') :
    j ≠ i ∧ sys.proc j = .active tx' := by
  by_cases hji : j = i
  · subst hji
    rw [commit_proc_self] at h
    cases h
  · rw [commit_proc_of_ne _ hji] at h
    exact ⟨hji, h⟩

omit [DecidableEq Table] [DecidableEq Id] [Schema Row Id] in
theorem active_of_abort (h : (sys.abort i e).proc j = .active tx') :
    j ≠ i ∧ sys.proc j = .active tx' := by
  by_cases hji : j = i
  · subst hji
    rw [abort_proc_self] at h
    cases h
  · rw [abort_proc_of_ne _ hji] at h
    exact ⟨hji, h⟩

theorem committed_of_commit (h : (sys.commit i tx a).proc j = .committed b) :
    (j = i ∧ b = a) ∨ (j ≠ i ∧ sys.proc j = .committed b) := by
  by_cases hji : j = i
  · subst hji
    rw [commit_proc_self] at h
    exact .inl ⟨rfl, (Proc.committed.inj h).symm⟩
  · rw [commit_proc_of_ne _ hji] at h
    exact .inr ⟨hji, h⟩

variable (hi : sys.proc i = .active tx)

include hi

theorem committed_advance_iff :
    (sys.advance i tx s k ext).proc j = .committed b ↔ sys.proc j = .committed b := by
  by_cases hji : j = i
  · subst hji
    simp [hi]
  · rw [advance_proc_of_ne _ hji]

omit [DecidableEq Table] [DecidableEq Id] [Schema Row Id] in
theorem committed_abort_iff :
    (sys.abort i e).proc j = .committed b ↔ sys.proc j = .committed b := by
  by_cases hji : j = i
  · subst hji
    simp [hi]
  · rw [abort_proc_of_ne _ hji]

/-- Who has committed stays committed. -/
theorem committed_commit (h : sys.proc j = .committed b) :
    (sys.commit i tx a).proc j = .committed b := by
  have hji : j ≠ i := by
    rintro rfl
    rw [hi] at h
    cases h
  rw [commit_proc_of_ne _ hji]
  exact h

end AfterStep

/-! ## Commits -/

/-- The writes that an entry of the trace made permanent. -/
def Entry.ops : Entry Row Id Answer → List (Op Row Id)
  | .called _ _ => []
  | .committed ops => ops

/-- The writes of all commits so far, oldest first. -/
def Sys.commits (sys : Sys Row Id Answer ε α ι) : List (Op Row Id) :=
  sys.trace.flatMap fun e => e.2.ops

theorem advance_commits (sys : Sys Row Id Answer ε α ι) (i : ι) (tx : Tx Row Id Answer ε α)
    (s : Stmt Row Id Call) (k : s.Ans Answer → TxProg Row Id Answer ε α)
    (ext : (c : Call) → Answer c) : (sys.advance i tx s k ext).commits = sys.commits := by
  simp only [Sys.commits, Sys.advance, List.flatMap_append, List.flatMap_map]
  cases s <;> simp [Stmt.called, Entry.ops]

/-- The database is what the commits have made of the initial one. -/
theorem ReachableVia.db_eq {ok : Sys Row Id Answer ε α ι → Sys Row Id Answer ε α ι → Prop}
    {progs : ι → TxProg Row Id Answer ε α} {db : Db Row} {sys : Sys Row Id Answer ε α ι}
    (hr : ReachableVia ok progs db sys) : sys.db = replay sys.commits db := by
  induction hr with
  | refl => rfl
  | tail _ hstep ih =>
    cases hstep.1 with
    | stmt i tx s k ext _ _ _ =>
      rw [advance_commits]
      exact ih
    | commit i tx a _ _ =>
      simp only [Sys.commit, Sys.commits, List.flatMap_append, replay_append, ih]
      simp [Entry.ops]
    | rollback i tx e _ _ => exact ih
    | cutOff i tx _ => exact ih

/-- A process has a commit in the trace exactly if it has committed. -/
theorem ReachableVia.committed_iff
    {ok : Sys Row Id Answer ε α ι → Sys Row Id Answer ε α ι → Prop}
    {progs : ι → TxProg Row Id Answer ε α} {db : Db Row} {sys : Sys Row Id Answer ε α ι}
    (hr : ReachableVia ok progs db sys) (j : ι) :
    (∃ ops, (j, .committed ops) ∈ sys.trace) ↔ ∃ a, sys.proc j = .committed a := by
  induction hr with
  | refl => simp [Sys.init]
  | @tail sys _ _ hstep ih =>
    cases hstep.1 with
    | stmt i tx s k ext hi _ _ =>
      have htrace : (∃ ops, (j, Entry.committed ops) ∈ (sys.advance i tx s k ext).trace) ↔
          ∃ ops, (j, Entry.committed ops) ∈ sys.trace := by
        simp [Sys.advance]
      rw [htrace, ih]
      by_cases hji : j = i
      · subst hji
        simp [hi]
      · rw [advance_proc_of_ne _ hji]
    | commit i tx a hi _ =>
      by_cases hji : j = i
      · subst hji
        simp [Sys.commit]
      · rw [commit_proc_of_ne _ hji, ← ih]
        simp [Sys.commit, hji]
    | rollback i tx e hi _ =>
      by_cases hji : j = i
      · subst hji
        simpa [Sys.abort, hi] using ih
      · rw [abort_proc_of_ne _ hji]
        exact ih
    | cutOff i tx hi =>
      by_cases hji : j = i
      · subst hji
        simpa [Sys.abort, hi] using ih
      · rw [abort_proc_of_ne _ hji]
        exact ih

def Entry.isCommit : Entry Row Id Answer → Bool
  | .called _ _ => false
  | .committed _ => true

/-- No process commits twice. -/
theorem ReachableVia.commits_pairwise
    {ok : Sys Row Id Answer ε α ι → Sys Row Id Answer ε α ι → Prop}
    {progs : ι → TxProg Row Id Answer ε α} {db : Db Row} {sys : Sys Row Id Answer ε α ι}
    (hr : ReachableVia ok progs db sys) :
    sys.trace.Pairwise fun x y => x.2.isCommit = true → y.2.isCommit = true → x.1 ≠ y.1 := by
  induction hr with
  | refl => exact .nil
  | @tail sys _ hr hstep ih =>
    cases hstep.1 with
    | stmt i tx s k ext hi _ _ =>
      refine List.pairwise_append.mpr ⟨ih, ?_, ?_⟩
      · cases s <;> simp [Stmt.called]
      · intro x _ y hy _ hcommit
        obtain ⟨e, he, rfl⟩ := List.mem_map.mp hy
        obtain ⟨c, _, rfl⟩ := mem_called.mp he
        cases hcommit
    | commit i tx a hi _ =>
      refine List.pairwise_append.mpr ⟨ih, List.pairwise_singleton _ _, ?_⟩
      intro x hx y hy hcommit _ heq
      obtain rfl := List.mem_singleton.mp hy
      obtain ⟨j, e⟩ := x
      obtain rfl : j = i := heq
      cases e with
      | called c => cases hcommit
      | committed ops =>
        obtain ⟨b, hb⟩ := (ReachableVia.committed_iff hr j).mp ⟨ops, hx⟩
        rw [hi] at hb
        cases hb
    | rollback i tx e _ _ => exact ih
    | cutOff i tx _ => exact ih

/-! ## Running a process while the others stand still -/

/-- The process has written and locked nothing that is still pending. -/
def Proc.Quiet : Proc Row Id Answer ε α → Prop
  | .active tx => tx.ops = [] ∧ tx.locks = []
  | _ => True

theorem not_waits_of_quiet {db view : Db Row} {tx : Tx Row Id Answer ε α}
    (h : (Proc.active tx).Quiet) (s : Stmt Row Id Call) : ¬ Waits db view tx s := by
  obtain ⟨hops, hlocks⟩ := h
  have hholds : ∀ k, ¬ tx.Holds k := by
    rintro k (hk | ⟨op, hop, _⟩)
    · simp [hlocks] at hk
    · simp [hops] at hop
  have hundecided : ∀ t (r : Row t), ¬ tx.Undecided db t r := by
    rintro t r (⟨h1, h2⟩ | ⟨h1, h2⟩)
    · exact h2 (by simpa [Tx.view, hops] using h1)
    · exact h1 (by simpa [Tx.view, hops] using h2)
  cases s with
  | select q => exact id
  | selectForUpdate q l =>
    rintro ⟨k, _, hk⟩
    exact hholds k hk
  | insert t r =>
    rintro ⟨r', _, hr'⟩
    exact hundecided t r' hr'
  | insertOnConflictDoNothing t a r =>
    rintro ⟨r', _, hr'⟩
    exact hundecided t r' hr'
  | update t id f =>
    rintro (hk | ⟨r, _, _, r', _, _, hr'⟩)
    · exact hholds _ hk
    · exact hundecided t r' hr'
  | delete t id =>
    rintro ⟨k, _, hk⟩
    exact hholds k hk
  | call c => exact id

/-- The external calls of a program that runs alone. -/
def callsOf (oracle : Oracle Answer) :
    TxProg Row Id Answer ε α → Session Row → List (Entry Row Id Answer)
  | .ret _, _ => []
  | .raise _, _ => []
  | .step s k, st => s.called (oracle st.clock) ++
      callsOf oracle (k (execStmt oracle s st).1) (execStmt oracle s st).2

theorem mem_callsOf {oracle : Oracle Answer} {p : TxProg Row Id Answer ε α} {st : Session Row}
    {e : Entry Row Id Answer} (h : e ∈ callsOf oracle p st) :
    ∃ n c, e = .called c (oracle n c) := by
  induction p generalizing st with
  | ret a => cases h
  | raise e => cases h
  | step s k ih =>
    rcases List.mem_append.mp h with h | h
    · obtain ⟨c, _, rfl⟩ := mem_called.mp h
      exact ⟨_, c, rfl⟩
    · exact ih _ h

/-- A process can run until it returns while the others stand still, and then has done what its
program does alone. The database stays as it is. -/
theorem run_to_return_via {R : Sys Row Id Answer ε α ι → Sys Row Id Answer ε α ι → Prop}
    (oracle : Oracle Answer) {p : TxProg Row Id Answer ε α} {a : α} {st : Session Row} {n : Nat}
    {i : ι} {sys : Sys Row Id Answer ε α ι} {tx : Tx Row Id Answer ε α}
    (hi : sys.proc i = .active tx) (hp : tx.prog = p) (hquiet : ∀ j, j ≠ i → (sys.proc j).Quiet)
    (hrun : p.run (execStmt oracle) ⟨tx.view sys.db, n⟩ = (.ok a, st))
    (hR : ∀ s t, s.db = sys.db → t.db = sys.db → R s t) :
    ∃ sys' tx', Relation.ReflTransGen (fun s t => Step s t ∧ R s t) sys sys' ∧
      sys'.db = sys.db ∧ sys'.proc = Function.update sys.proc i (.active tx') ∧
      tx'.prog = .ret a ∧ tx'.view sys.db = st.db ∧
      sys'.trace = sys.trace ++ (callsOf oracle p ⟨tx.view sys.db, n⟩).map (fun e => (i, e)) := by
  induction p generalizing sys tx n with
  | ret b =>
    obtain ⟨rfl, rfl⟩ : b = a ∧ (⟨tx.view sys.db, n⟩ : Session Row) = st := by
      simpa using hrun
    exact ⟨sys, tx, .refl, rfl, by rw [← hi, Function.update_eq_self], hp, rfl,
      by simp [callsOf]⟩
  | raise e => simp at hrun
  | step s k ih =>
    have hstep : Step sys (sys.advance i tx s k (oracle n)) := by
      refine .stmt i tx s k (oracle n) hi hp (fun j tx' hj hact => ?_)
      exact not_waits_of_quiet (hact ▸ hquiet j hj) s
    have hview : (tx.advance sys.db s k (oracle n)).view sys.db =
        replay (s.eval (oracle n) (tx.view sys.db)).2 (tx.view sys.db) := by
      simp [Tx.view, Tx.advance]
    obtain ⟨sys', tx', hsteps, hdb, hproc, hprog, hst, htrace⟩ :=
      ih _ (advance_proc_self sys i tx s k (oracle n)) rfl
        (fun j hj => by rw [advance_proc_of_ne _ hj]; exact hquiet j hj)
        (n := n + 1) (by
          change Prog.run _ _ (Session.mk ((tx.advance sys.db s k (oracle n)).view sys.db) _) = _
          rw [hview]
          exact hrun) hR
    refine ⟨sys', tx', .head ⟨hstep, hR _ _ rfl rfl⟩ hsteps, hdb, ?_, hprog, hst, ?_⟩
    · rw [hproc]
      simp [Sys.advance]
    · have hsession : (⟨(tx.advance sys.db s k (oracle n)).view sys.db, n + 1⟩ : Session Row) =
          (execStmt oracle s ⟨tx.view sys.db, n⟩).2 := by
        rw [hview]
        rfl
      rw [htrace]
      change _ ++ (callsOf oracle _ ⟨(tx.advance sys.db s k (oracle n)).view sys.db, n + 1⟩).map _ =
        _
      rw [hsession]
      simp [Sys.advance, callsOf]

/-- A process can always run to its end while the others stand still. Only its commit changes
the database. -/
theorem run_alone_via {R : Sys Row Id Answer ε α ι → Sys Row Id Answer ε α ι → Prop}
    (oracle : Oracle Answer) {p : TxProg Row Id Answer ε α} {a : α} {st : Session Row} {n : Nat}
    {i : ι} {sys : Sys Row Id Answer ε α ι} {tx : Tx Row Id Answer ε α}
    (hi : sys.proc i = .active tx) (hp : tx.prog = p) (hquiet : ∀ j, j ≠ i → (sys.proc j).Quiet)
    (hrun : p.run (execStmt oracle) ⟨tx.view sys.db, n⟩ = (.ok a, st))
    (hR : ∀ s t, s.db = sys.db → t.db = sys.db → R s t)
    (hcommit : ∀ s t, s.db = sys.db → t.db = st.db → R s t) :
    ∃ sys' ops, Relation.ReflTransGen (fun s t => Step s t ∧ R s t) sys sys' ∧
      sys'.db = st.db ∧ sys'.proc = Function.update sys.proc i (.committed a) ∧
      sys'.trace = sys.trace ++ (callsOf oracle p ⟨tx.view sys.db, n⟩).map
        (fun e => (i, e)) ++ [(i, .committed ops)] := by
  obtain ⟨sys', tx', hsteps, hdb, hproc, hprog, hview, htrace⟩ :=
    run_to_return_via oracle hi hp hquiet hrun hR
  have hactive : sys'.proc i = .active tx' := by rw [hproc, Function.update_self]
  have hst : (sys'.commit i tx' a).db = st.db := by
    rw [← hview, ← hdb]
    rfl
  refine ⟨_, tx'.ops, hsteps.tail ⟨.commit i tx' a hactive hprog, hcommit _ _ hdb hst⟩, hst,
    ?_, ?_⟩
  · simp [Sys.commit, hproc]
  · simp [Sys.commit, htrace]

/-- A process can lose its connection when it has done everything but its commit. -/
theorem run_lost_via {R : Sys Row Id Answer ε α ι → Sys Row Id Answer ε α ι → Prop}
    (oracle : Oracle Answer) {p : TxProg Row Id Answer ε α} {a : α} {st : Session Row} {n : Nat}
    {i : ι} {sys : Sys Row Id Answer ε α ι} {tx : Tx Row Id Answer ε α}
    (hi : sys.proc i = .active tx) (hp : tx.prog = p) (hquiet : ∀ j, j ≠ i → (sys.proc j).Quiet)
    (hrun : p.run (execStmt oracle) ⟨tx.view sys.db, n⟩ = (.ok a, st))
    (hR : ∀ s t, s.db = sys.db → t.db = sys.db → R s t) :
    ∃ sys', Relation.ReflTransGen (fun s t => Step s t ∧ R s t) sys sys' ∧
      sys'.db = sys.db ∧ sys'.proc = Function.update sys.proc i (.failed none) ∧
      sys'.trace = sys.trace ++ (callsOf oracle p ⟨tx.view sys.db, n⟩).map
        (fun e => (i, e)) := by
  obtain ⟨sys', tx', hsteps, hdb, hproc, _, _, htrace⟩ :=
    run_to_return_via oracle hi hp hquiet hrun hR
  have hactive : sys'.proc i = .active tx' := by rw [hproc, Function.update_self]
  refine ⟨_, hsteps.tail ⟨.cutOff i tx' hactive, hR _ _ hdb hdb⟩, hdb, ?_, htrace⟩
  simp [Sys.abort, hproc]

theorem run_alone (oracle : Oracle Answer) {p : TxProg Row Id Answer ε α} {a : α}
    {st : Session Row} {n : Nat} {i : ι} {sys : Sys Row Id Answer ε α ι}
    {tx : Tx Row Id Answer ε α} (hi : sys.proc i = .active tx) (hp : tx.prog = p)
    (hquiet : ∀ j, j ≠ i → (sys.proc j).Quiet)
    (hrun : p.run (execStmt oracle) ⟨tx.view sys.db, n⟩ = (.ok a, st)) :
    ∃ sys' ops, Relation.ReflTransGen Step sys sys' ∧ sys'.db = st.db ∧
      sys'.proc = Function.update sys.proc i (.committed a) ∧
      sys'.trace = sys.trace ++ (callsOf oracle p ⟨tx.view sys.db, n⟩).map
        (fun e => (i, e)) ++ [(i, .committed ops)] := by
  obtain ⟨sys', ops, hsteps, h⟩ := run_alone_via (R := fun _ _ => True) oracle hi hp hquiet hrun
    (fun _ _ _ _ => trivial) (fun _ _ _ _ => trivial)
  exact ⟨sys', ops, Relation.ReflTransGen.mono (fun _ _ hstep => hstep.1) _ _ hsteps, h⟩

/-- A process that has not started runs to its end while no other transaction is open. -/
theorem Reachable.run_next (oracle : Oracle Answer) {progs : ι → TxProg Row Id Answer ε α}
    {db : Db Row} {a : α} {st : Session Row} {n : Nat} {i : ι} {sys : Sys Row Id Answer ε α ι}
    (hr : Reachable progs db sys) (hquiet : ∀ j, (sys.proc j).Quiet)
    (hi : sys.proc i = .active { prog := progs i })
    (hrun : (progs i).run (execStmt oracle) ⟨sys.db, n⟩ = (.ok a, st)) :
    ∃ sys' ops, Reachable progs db sys' ∧ (∀ j, (sys'.proc j).Quiet) ∧ sys'.db = st.db ∧
      sys'.proc = Function.update sys.proc i (.committed a) ∧
      sys'.trace = sys.trace ++ (callsOf oracle (progs i) ⟨sys.db, n⟩).map (fun e => (i, e)) ++
        [(i, .committed ops)] := by
  obtain ⟨sys', ops, hsteps, hdb, hproc, htrace⟩ :=
    run_alone oracle hi rfl (fun j _ => hquiet j) hrun
  refine ⟨sys', ops, hr.steps hsteps, fun j => ?_, hdb, hproc, htrace⟩
  rw [hproc]
  by_cases hji : j = i
  · subst hji
    rw [Function.update_self]
    trivial
  · rw [Function.update_of_ne hji]
    exact hquiet j

omit [DecidableEq Table] [DecidableEq Id] [Schema Row Id] [DecidableEq ι] in
theorem quiet_init (progs : ι → TxProg Row Id Answer ε α) (db : Db Row) (j : ι) :
    ((Sys.init progs db).proc j).Quiet :=
  ⟨rfl, rfl⟩

section OtherTables

variable {db view : Db Row} {tx : Tx Row Id Answer ε α} {t : Table}

theorem not_undecided_of_ops (hops : ∀ op ∈ tx.ops, op.table ≠ t) (r : Row t) :
    ¬ tx.Undecided db t r := by
  have hview : tx.view db t = db t := replay_of_table_ne db hops
  rintro (⟨h1, h2⟩ | ⟨h1, h2⟩)
  · exact h2 (hview ▸ h1)
  · exact h1 (hview ▸ h2)

/-- An insert waits for no transaction that has left its table alone. -/
theorem not_waits_insert_of_ops (hops : ∀ op ∈ tx.ops, op.table ≠ t) (r : Row t) :
    ¬ Waits db view tx (.insert t r : Stmt Row Id Call) :=
  fun ⟨r', _, h⟩ => not_undecided_of_ops hops r' h

theorem not_waits_update_of_ops (hops : ∀ op ∈ tx.ops, op.table ≠ t) (hlocks : tx.locks = [])
    (id : Id) (f : Row t → Row t) : ¬ Waits db view tx (.update t id f : Stmt Row Id Call) := by
  rintro ((hk | ⟨op, hop, hkey⟩) | ⟨_, _, _, r', _, _, h⟩)
  · simp [hlocks] at hk
  · refine hops op hop ?_
    have htable : op.table = op.key.1 := by cases op <;> rfl
    rw [htable, hkey]
  · exact not_undecided_of_ops hops r' h

end OtherTables

/-- The transaction can go on from `tx` to `tx'` on the committed database `db`, waiting for
none of the `others`. -/
inductive Advances (db : Db Row) (others : Tx Row Id Answer ε α → Prop) :
    Tx Row Id Answer ε α → Tx Row Id Answer ε α → Prop where
  | refl (tx : Tx Row Id Answer ε α) : Advances db others tx tx
  | step {tx tx' : Tx Row Id Answer ε α} {s : Stmt Row Id Call}
      {k : s.Ans Answer → TxProg Row Id Answer ε α} (ext : (c : Call) → Answer c)
      (hprog : tx.prog = .step s k)
      (hfree : ∀ other, others other → ¬ Waits db (tx.view db) other s)
      (h : Advances db others (tx.advance db s k ext) tx') : Advances db others tx tx'

theorem Advances.trans {others : Tx Row Id Answer ε α → Prop} {tx tx' tx'' : Tx Row Id Answer ε α}
    {db : Db Row} (h : Advances db others tx tx') (h' : Advances db others tx' tx'') :
    Advances db others tx tx'' := by
  induction h with
  | refl tx => exact h'
  | step ext hprog hfree _ ih => exact .step ext hprog hfree (ih h')

/-- A process goes on while the others stand still. -/
theorem Advances.steps {others : Tx Row Id Answer ε α → Prop} {tx tx' : Tx Row Id Answer ε α}
    {db : Db Row} (h : Advances db others tx tx') {i : ι} {sys : Sys Row Id Answer ε α ι}
    (hi : sys.proc i = .active tx) (hdb : sys.db = db)
    (hothers : ∀ j tx', j ≠ i → sys.proc j = .active tx' → others tx') :
    ∃ sys', Relation.ReflTransGen Step sys sys' ∧ sys'.db = db ∧
      sys'.proc = Function.update sys.proc i (.active tx') := by
  induction h generalizing sys with
  | refl tx => exact ⟨sys, .refl, hdb, by rw [← hi, Function.update_eq_self]⟩
  | @step tx tx' s k ext hprog hfree _ ih =>
    have hstep : Step sys (sys.advance i tx s k ext) := by
      refine .stmt i tx s k ext hi hprog fun j other hj hact => ?_
      rw [hdb]
      exact hfree other (hothers j other hj hact)
    have hself : (sys.advance i tx s k ext).proc i = .active (tx.advance db s k ext) := by
      rw [advance_proc_self, hdb]
    have hkept : ∀ j other, j ≠ i → (sys.advance i tx s k ext).proc j = .active other →
        others other := by
      intro j other hj hact
      rw [advance_proc_of_ne _ hj] at hact
      exact hothers j other hj hact
    obtain ⟨sys', hsteps, hdb', hproc⟩ := ih hself hdb hkept
    refine ⟨sys', .head hstep hsteps, hdb', ?_⟩
    rw [hproc]
    simp [Sys.advance]

/-- Of two processes, one pauses in the middle while the other runs to its commit. -/
theorem exists_run_past {progs : Bool → TxProg Row Id Answer ε α} {db : Db Row} {i : Bool}
    {paused : Tx Row Id Answer ε α} {ops : List (Op Row Id)} {locks : List (Table × Id)} {a : α}
    (hpause : Advances db (fun tx => tx = { prog := progs i }) { prog := progs !i } paused)
    (hfirst : Advances db (fun tx => tx = paused) { prog := progs i } ⟨.ret a, ops, locks⟩) :
    ∃ sys, Reachable progs db sys ∧ sys.proc i = .committed a ∧ sys.proc (!i) = .active paused ∧
      sys.db = replay ops db := by
  have hne : (!i) ≠ i := by simp
  have hother : ∀ j, j ≠ (!i) → j = i := by
    intro j hj
    simpa [Bool.eq_not] using hj
  have hinit : (Sys.init progs db).proc (!i) = .active { prog := progs !i } := rfl
  obtain ⟨sys₁, hsteps₁, hdb₁, hproc₁⟩ := hpause.steps hinit rfl fun j tx hj hact => by
    obtain rfl := hother j hj
    exact (Proc.active.inj hact).symm
  have hi₁ : sys₁.proc i = .active { prog := progs i } := by
    rw [hproc₁, Function.update_of_ne hne.symm]
    rfl
  obtain ⟨sys₂, hsteps₂, hdb₂, hproc₂⟩ := hfirst.steps hi₁ hdb₁ fun j tx hj hact => by
    have hj' : j = !i := Bool.eq_not.mpr hj
    rw [hproc₁, hj', Function.update_self] at hact
    exact (Proc.active.inj hact).symm
  have hi₂ : sys₂.proc i = .active ⟨.ret a, ops, locks⟩ := by
    rw [hproc₂, Function.update_self]
  have hcommit₂ : Step sys₂ (sys₂.commit i ⟨.ret a, ops, locks⟩ a) := .commit i _ a hi₂ rfl
  refine ⟨_, Reachable.steps .refl ((hsteps₁.trans hsteps₂).tail hcommit₂), commit_proc_self ..,
    ?_, ?_⟩
  · rw [commit_proc_of_ne _ hne, hproc₂, Function.update_of_ne hne, hproc₁, Function.update_self]
  · rw [← hdb₂]
    rfl

/-- The paused process goes on after the commit. -/
theorem exists_run_around {progs : Bool → TxProg Row Id Answer ε α} {db : Db Row} {i : Bool}
    {paused : Tx Row Id Answer ε α} {ops ops' : List (Op Row Id)}
    {locks locks' : List (Table × Id)} {a a' : α}
    (hpause : Advances db (fun tx => tx = { prog := progs i }) { prog := progs !i } paused)
    (hfirst : Advances db (fun tx => tx = paused) { prog := progs i } ⟨.ret a, ops, locks⟩)
    (hsecond : Advances (replay ops db) (fun _ => False) paused ⟨.ret a', ops', locks'⟩) :
    ∃ sys, Reachable progs db sys ∧ sys.proc i = .committed a ∧ sys.proc (!i) = .committed a' ∧
      sys.db = replay ops' (replay ops db) := by
  have hne : (!i) ≠ i := by simp
  obtain ⟨sys, hr, hi, hpaused, hdb⟩ := exists_run_past hpause hfirst
  obtain ⟨sys', hsteps, hdb', hproc⟩ := hsecond.steps hpaused hdb fun j tx hj hact => by
    have hj' : j = i := by simpa [Bool.eq_not] using hj
    rw [hj', hi] at hact
    cases hact
  have hj' : sys'.proc (!i) = .active ⟨.ret a', ops', locks'⟩ := by
    rw [hproc, Function.update_self]
  have hcommit : Step sys' (sys'.commit (!i) ⟨.ret a', ops', locks'⟩ a') := .commit _ _ a' hj' rfl
  refine ⟨_, hr.steps (hsteps.tail hcommit), ?_, commit_proc_self .., ?_⟩
  · rw [commit_proc_of_ne _ hne.symm, hproc, Function.update_of_ne hne.symm, hi]
  · rw [← hdb']
    rfl

/-- The paused process goes on after the commit, to its failure. -/
theorem exists_failure_past {progs : Bool → TxProg Row Id Answer ε α} {db : Db Row} {i : Bool}
    {paused : Tx Row Id Answer ε α} {ops ops' : List (Op Row Id)}
    {locks locks' : List (Table × Id)} {a : α} {e : ε}
    (hpause : Advances db (fun tx => tx = { prog := progs i }) { prog := progs !i } paused)
    (hfirst : Advances db (fun tx => tx = paused) { prog := progs i } ⟨.ret a, ops, locks⟩)
    (hsecond : Advances (replay ops db) (fun _ => False) paused ⟨.raise e, ops', locks'⟩) :
    ∃ sys, Reachable progs db sys ∧ sys.proc i = .committed a ∧
      sys.proc (!i) = .failed (some e) := by
  have hne : (!i) ≠ i := by simp
  obtain ⟨sys, hr, hi, hpaused, hdb⟩ := exists_run_past hpause hfirst
  obtain ⟨sys', hsteps, _, hproc⟩ := hsecond.steps hpaused hdb fun j tx hj hact => by
    have hj' : j = i := by simpa [Bool.eq_not] using hj
    rw [hj', hi] at hact
    cases hact
  have hj' : sys'.proc (!i) = .active ⟨.raise e, ops', locks'⟩ := by
    rw [hproc, Function.update_self]
  refine ⟨_, hr.steps (hsteps.tail (.rollback _ _ e hj' rfl)), ?_, abort_proc_self ..⟩
  rw [abort_proc_of_ne _ hne.symm, hproc, Function.update_of_ne hne.symm, hi]

section AdvancesRules

variable {db : Db Row} {others : Tx Row Id Answer ε α → Prop} {ops : List (Op Row Id)}
  {locks : List (Table × Id)} {tx' : Tx Row Id Answer ε α}

theorem advances_call (ext : (c : Call) → Answer c) {c : Call}
    {k : Answer c → TxProg Row Id Answer ε α}
    (h : Advances db others ⟨k (ext c), ops, locks⟩ tx') :
    Advances db others ⟨.step (.call c) k, ops, locks⟩ tx' := by
  refine .step ext rfl (fun _ _ => id) ?_
  simpa [Tx.advance, Stmt.eval, Stmt.locks] using h

theorem advances_select (ext : (c : Call) → Answer c) {γ : Type} {q : Db Row → γ}
    {k : γ → TxProg Row Id Answer ε α}
    (h : Advances db others ⟨k (q (replay ops db)), ops, locks⟩ tx') :
    Advances db others ⟨.step (.select q) k, ops, locks⟩ tx' := by
  refine .step ext rfl (fun _ _ => id) ?_
  simpa [Tx.advance, Stmt.eval, Stmt.locks, Tx.view] using h

theorem advances_insert (ext : (c : Call) → Answer c) {t : Table} {r : Row t}
    {k : Except DbError Unit → TxProg Row Id Answer ε α}
    (hins : insertable (replay ops db) r = .ok ())
    (hfree : ∀ other, others other → ¬ Waits db (replay ops db) other (.insert t r))
    (h : Advances db others ⟨k (.ok ()), ops ++ [.insert t r], locks⟩ tx') :
    Advances db others ⟨.step (.insert t r) k, ops, locks⟩ tx' := by
  refine .step ext rfl hfree ?_
  simpa [Tx.advance, Stmt.eval, Stmt.locks, Tx.view, hins, onlyIfOk] using h

theorem advances_refused (ext : (c : Call) → Answer c) {t : Table} {r : Row t} {e : DbError}
    {k : Except DbError Unit → TxProg Row Id Answer ε α}
    (hins : insertable (replay ops db) r = .error e)
    (hfree : ∀ other, others other → ¬ Waits db (replay ops db) other (.insert t r))
    (h : Advances db others ⟨k (.error e), ops, locks⟩ tx') :
    Advances db others ⟨.step (.insert t r) k, ops, locks⟩ tx' := by
  refine .step ext rfl hfree ?_
  simpa [Tx.advance, Stmt.eval, Stmt.locks, Tx.view, hins, onlyIfOk] using h

theorem advances_insertOnConflict (ext : (c : Call) → Answer c) {t : Table}
    {arbiter : Row t → Row t → Bool} {r : Row t}
    {k : Except DbError Bool → TxProg Row Id Answer ε α}
    (hany : (replay ops db t).any (arbiter r) = false)
    (hins : insertable (replay ops db) r = .ok ())
    (hfree : ∀ other, others other →
      ¬ Waits db (replay ops db) other (.insertOnConflictDoNothing t arbiter r))
    (h : Advances db others ⟨k (.ok true), ops ++ [.insert t r], locks⟩ tx') :
    Advances db others ⟨.step (.insertOnConflictDoNothing t arbiter r) k, ops, locks⟩ tx' := by
  refine .step ext rfl hfree ?_
  simpa [Tx.advance, Stmt.eval, Stmt.locks, Tx.view, hany, hins, onlyIfOk, Except.map] using h

theorem advances_update (ext : (c : Call) → Answer c) {t : Table} {id : Id} {f : Row t → Row t}
    {k : Except DbError Unit → TxProg Row Id Answer ε α}
    (hup : updatable (replay ops db) t id f = .ok ())
    (hfree : ∀ other, others other → ¬ Waits db (replay ops db) other (.update t id f))
    (h : Advances db others ⟨k (.ok ()), ops ++ [.update t id f], locks⟩ tx') :
    Advances db others ⟨.step (.update t id f) k, ops, locks⟩ tx' := by
  refine .step ext rfl hfree ?_
  simpa [Tx.advance, Stmt.eval, Stmt.locks, Tx.view, hup, onlyIfOk] using h

/-- What is left of a program after `n` statements that only read, with the given clock. -/
def afterReads (oracle : Oracle Answer) (db : Db Row) :
    Nat → TxProg Row Id Answer ε α → Nat → Option (TxProg Row Id Answer ε α)
  | 0, p, _ => some p
  | n + 1, .step (.call c) k, clock => afterReads oracle db n (k (oracle clock c)) (clock + 1)
  | n + 1, .step (.select q) k, clock => afterReads oracle db n (k (q db)) (clock + 1)
  | _, _, _ => none

/-- A transaction can pause after its reads. -/
theorem advances_reads {oracle : Oracle Answer} {n clock : Nat} {p rest : TxProg Row Id Answer ε α}
    (h : afterReads oracle db n p clock = some rest) :
    Advances db others { prog := p } { prog := rest } := by
  fun_induction afterReads oracle db n p clock with
  | case1 p clock =>
    obtain rfl : p = rest := by simpa using h
    exact .refl _
  | case2 n c k clock ih => exact advances_call (oracle clock) (ih h)
  | case3 n γ q k clock ih => exact advances_select (oracle clock) (ih h)
  | case4 => cases h

/-- A transaction runs to its return while the others have nothing pending. -/
theorem advances_run (oracle : Oracle Answer) (hothers : ∀ tx, others tx → (Proc.active tx).Quiet)
    {p : TxProg Row Id Answer ε α} {clock : Nat} {a : α} {st : Session Row}
    (hrun : p.run (execStmt oracle) ⟨replay ops db, clock⟩ = (.ok a, st)) :
    ∃ ops' locks', Advances db others ⟨p, ops, locks⟩ ⟨.ret a, ops', locks'⟩ ∧
      replay ops' db = st.db := by
  induction p generalizing ops locks clock with
  | ret b =>
    obtain ⟨rfl, rfl⟩ : b = a ∧ (⟨replay ops db, clock⟩ : Session Row) = st := by
      simpa using hrun
    exact ⟨ops, locks, .refl _, rfl⟩
  | raise e => simp at hrun
  | step s k ih =>
    let tx : Tx Row Id Answer ε α := ⟨.step s k, ops, locks⟩
    let next := tx.advance db s k (oracle clock)
    have hnext : next.prog.run (execStmt oracle) ⟨replay next.ops db, clock + 1⟩ = (.ok a, st) := by
      change Prog.run _ _ (Session.mk (replay (ops ++ _) db) _) = _
      rw [replay_append]
      exact hrun
    obtain ⟨ops', locks', hrest, hdb⟩ : ∃ ops' locks',
        Advances db others next ⟨.ret a, ops', locks'⟩ ∧ replay ops' db = st.db := ih _ hnext
    exact ⟨ops', locks',
      .step (oracle clock) rfl (fun tx h => not_waits_of_quiet (hothers tx h) s) hrest, hdb⟩

end AdvancesRules

/-! ## Disciplines: ghost phases of processes -/

/-- A discipline for processes `i : ι` with ghost phases. `sees` bounds what a process in a
phase can see, `next` is the phase after a statement evaluated on a view, and `fails` are
the errors with which it may give up. -/
structure Discipline (Row : Table → Type) (Id : Type) {Call : Type} (Answer : Call → Type)
    (ε ι Phase : Type) where
  sees : ι → Phase → Db Row → Prop
  next : ι → Phase → Stmt Row Id Call → Db Row → ((c : Call) → Answer c) → Phase → Prop
  fails : ι → Phase → ε → Prop

variable {Phase : Type} {β : Type}

/-- Whatever the process sees, each of its statements follows the discipline, and it
returns only results allowed by `post` in the phase it has reached. -/
def Discipline.Obeys (D : Discipline Row Id Answer ε ι Phase) (i : ι)
    (post : Phase → α → Prop) : Phase → TxProg Row Id Answer ε α → Prop
  | φ, .ret a => post φ a
  | φ, .raise e => D.fails i φ e
  | φ, .step s k => ∀ (view : Db Row) (ext : (c : Call) → Answer c), D.sees i φ view →
      ∃ φ', D.next i φ s view ext φ' ∧ D.Obeys i post φ' (k (s.eval ext view).1)

variable {D : Discipline Row Id Answer ε ι Phase} {i : ι}

omit [DecidableEq Table] [DecidableEq ι] in
/-- Sequential composition: the second part starts in the phase the first part ends in. -/
theorem Discipline.Obeys.bind {post : Phase → α → Prop} {post' : Phase → β → Prop}
    {p : TxProg Row Id Answer ε α} {f : α → TxProg Row Id Answer ε β} {φ : Phase}
    (hp : D.Obeys i post φ p) (hf : ∀ φ' a, post φ' a → D.Obeys i post' φ' (f a)) :
    D.Obeys i post' φ (p.bind f) := by
  induction p generalizing φ with
  | ret a => exact hf φ a hp
  | raise e => exact hp
  | step s k ih =>
    intro view ext hsees
    obtain ⟨φ', hnext, hk⟩ := hp view ext hsees
    exact ⟨φ', hnext, ih _ hk⟩

omit [DecidableEq Table] [DecidableEq ι] in
theorem Discipline.Obeys.mono {post post' : Phase → α → Prop} {p : TxProg Row Id Answer ε α}
    {φ : Phase} (hp : D.Obeys i post φ p) (h : ∀ φ' a, post φ' a → post' φ' a) :
    D.Obeys i post' φ p := by
  induction p generalizing φ with
  | ret a => exact h φ a hp
  | raise e => exact hp
  | step s k ih =>
    intro view ext hsees
    obtain ⟨φ', hnext, hk⟩ := hp view ext hsees
    exact ⟨φ', hnext, ih _ hk⟩

omit [DecidableEq Table] [DecidableEq ι] in
/-- A program keeps its phase if every statement that it can issue may keep it. -/
theorem Discipline.obeys_of_every {p : TxProg Row Id Answer ε α} {φ : Phase}
    {allowed : Stmt Row Id Call → Prop} {χ : α → Prop}
    (hnext : ∀ s view ext, allowed s → D.next i φ s view ext φ)
    (h : p.Every Stmt.Possible allowed (D.fails i φ) χ) :
    D.Obeys i (fun φ' a => φ' = φ ∧ χ a) φ p := by
  induction p with
  | ret a => exact ⟨rfl, h⟩
  | raise e => exact h
  | step s k ih =>
    intro view ext _
    exact ⟨φ, hnext s view ext h.1, ih _ (h.2 _ ⟨ext, view, rfl⟩)⟩

/-- The obligations of a system invariant `J` over phases: it holds initially, bounds what
running processes see, and survives a statement, a commit and the end of a process,
whenever that step satisfies `ok`. -/
structure Discipline.Sound (D : Discipline Row Id Answer ε ι Phase)
    (post : ι → Phase → α → Prop) (start : Phase)
    (J : (ι → Phase) → Sys Row Id Answer ε α ι → Prop)
    (ok : Sys Row Id Answer ε α ι → Sys Row Id Answer ε α ι → Prop)
    (progs : ι → TxProg Row Id Answer ε α) (db : Db Row) : Prop where
  obeys : ∀ i, D.Obeys i (post i) start (progs i)
  init : J (fun _ => start) (Sys.init progs db)
  sees : ∀ ph sys i tx, J ph sys → sys.proc i = .active tx → D.sees i (ph i) (tx.view sys.db)
  stmt : ∀ ph sys i tx s k ext φ', J ph sys → sys.proc i = .active tx → tx.prog = .step s k →
    (∀ j tx', j ≠ i → sys.proc j = .active tx' → ¬ Waits sys.db (tx.view sys.db) tx' s) →
    D.next i (ph i) s (tx.view sys.db) ext φ' → ok sys (sys.advance i tx s k ext) →
    J (Function.update ph i φ') (sys.advance i tx s k ext)
  commit : ∀ ph sys i tx a, J ph sys → sys.proc i = .active tx → tx.prog = .ret a →
    post i (ph i) a → ok sys (sys.commit i tx a) → J ph (sys.commit i tx a)
  abort : ∀ ph sys i tx e, J ph sys → sys.proc i = .active tx → ok sys (sys.abort i e) →
    J ph (sys.abort i e)

/-- The part of the conclusion below that speaks about single processes. -/
def Discipline.Tracks (D : Discipline Row Id Answer ε ι Phase) (post : ι → Phase → α → Prop)
    (ph : ι → Phase) (i : ι) : Proc Row Id Answer ε α → Prop
  | .active tx => D.Obeys i (post i) (ph i) tx.prog
  | .committed _ => True
  | .failed none => True
  | .failed (some e) => ∃ φ, D.fails i φ e

omit [DecidableEq Table] in
/-- Changing one process and its phase keeps the others on track. -/
theorem Discipline.Tracks.update {post : ι → Phase → α → Prop} {ph : ι → Phase}
    {proc : ι → Proc Row Id Answer ε α} (h : ∀ j, D.Tracks post ph j (proc j)) (φ : Phase)
    {p : Proc Row Id Answer ε α} (hp : D.Tracks post (Function.update ph i φ) i p) (j : ι) :
    D.Tracks post (Function.update ph i φ) j (Function.update proc i p j) := by
  by_cases hji : j = i
  · subst hji
    rw [Function.update_self]
    exact hp
  · rw [Function.update_of_ne hji]
    have hj := h j
    cases hpj : proc j with
    | active tx =>
      rw [hpj] at hj
      simpa only [Discipline.Tracks, Function.update_of_ne hji] using hj
    | committed a => trivial
    | failed e =>
      rw [hpj] at hj
      cases e with
      | none => trivial
      | some e => exact hj

/-- The obligations of an invariant that may look at the programs of the other processes: they
are all on track, and a process gives up only as its phase allows. -/
structure Discipline.Upheld (D : Discipline Row Id Answer ε ι Phase)
    (post : ι → Phase → α → Prop) (start : Phase)
    (J : (ι → Phase) → Sys Row Id Answer ε α ι → Prop)
    (ok : Sys Row Id Answer ε α ι → Sys Row Id Answer ε α ι → Prop)
    (progs : ι → TxProg Row Id Answer ε α) (db : Db Row) : Prop where
  obeys : ∀ i, D.Obeys i (post i) start (progs i)
  init : J (fun _ => start) (Sys.init progs db)
  sees : ∀ ph sys i tx, J ph sys → sys.proc i = .active tx → D.sees i (ph i) (tx.view sys.db)
  stmt : ∀ ph sys i tx s k ext φ', J ph sys → (∀ j, D.Tracks post ph j (sys.proc j)) →
    sys.proc i = .active tx → tx.prog = .step s k →
    (∀ j tx', j ≠ i → sys.proc j = .active tx' → ¬ Waits sys.db (tx.view sys.db) tx' s) →
    D.next i (ph i) s (tx.view sys.db) ext φ' → ok sys (sys.advance i tx s k ext) →
    J (Function.update ph i φ') (sys.advance i tx s k ext)
  commit : ∀ ph sys i tx a, J ph sys → (∀ j, D.Tracks post ph j (sys.proc j)) →
    sys.proc i = .active tx → tx.prog = .ret a → post i (ph i) a → ok sys (sys.commit i tx a) →
    J ph (sys.commit i tx a)
  abort : ∀ ph sys i tx e, J ph sys → sys.proc i = .active tx →
    (∀ e', e = some e' → D.fails i (ph i) e') → ok sys (sys.abort i e) → J ph (sys.abort i e)

/-- Every reachable state has phases for which the invariant holds and which the running
processes obey; a process fails only as its phase allows. -/
theorem Discipline.Upheld.reachable {post : ι → Phase → α → Prop} {start : Phase}
    {J : (ι → Phase) → Sys Row Id Answer ε α ι → Prop}
    {ok : Sys Row Id Answer ε α ι → Sys Row Id Answer ε α ι → Prop}
    {progs : ι → TxProg Row Id Answer ε α} {db : Db Row}
    (h : D.Upheld post start J ok progs db)
    {sys : Sys Row Id Answer ε α ι} (hr : ReachableVia ok progs db sys) :
    ∃ ph, J ph sys ∧ ∀ i, D.Tracks post ph i (sys.proc i) := by
  induction hr with
  | refl => exact ⟨fun _ => start, h.init, fun i => h.obeys i⟩
  | tail _ hstep ih =>
    obtain ⟨ph, hJ, htr⟩ := ih
    obtain ⟨hs, hok⟩ := hstep
    have hkeep : ∀ i, Function.update ph i (ph i) = ph := fun i => Function.update_eq_self i ph
    cases hs with
    | stmt i tx s k ext hi hp hfree =>
      have hob := htr i
      rw [hi, Discipline.Tracks, hp] at hob
      obtain ⟨φ', hnext, hk⟩ := hob _ ext (h.sees ph _ i tx hJ hi)
      refine ⟨Function.update ph i φ', h.stmt ph _ i tx s k ext φ' hJ htr hi hp hfree hnext hok,
        Discipline.Tracks.update htr φ' ?_⟩
      simpa only [Discipline.Tracks, Function.update_self, Tx.advance] using hk
    | commit i tx a hi hp =>
      have hob := htr i
      rw [hi, Discipline.Tracks, hp] at hob
      refine ⟨ph, h.commit ph _ i tx a hJ htr hi hp hob hok, ?_⟩
      rw [← hkeep i]
      exact Discipline.Tracks.update htr (ph i) trivial
    | rollback i tx e hi hp =>
      have hob := htr i
      rw [hi, Discipline.Tracks, hp] at hob
      refine ⟨ph, h.abort ph _ i tx _ hJ hi ?_ hok, ?_⟩
      · rintro e' ⟨⟩
        exact hob
      · rw [← hkeep i]
        exact Discipline.Tracks.update htr (ph i) ⟨ph i, hob⟩
    | cutOff i tx hi =>
      refine ⟨ph, h.abort ph _ i tx _ hJ hi (fun e' he' => nomatch he') hok, ?_⟩
      rw [← hkeep i]
      exact Discipline.Tracks.update htr (ph i) trivial

/-- An invariant that looks at no other program. -/
theorem Discipline.Sound.upheld {post : ι → Phase → α → Prop} {start : Phase}
    {J : (ι → Phase) → Sys Row Id Answer ε α ι → Prop}
    {ok : Sys Row Id Answer ε α ι → Sys Row Id Answer ε α ι → Prop}
    {progs : ι → TxProg Row Id Answer ε α} {db : Db Row}
    (h : D.Sound post start J ok progs db) : D.Upheld post start J ok progs db where
  obeys := h.obeys
  init := h.init
  sees := h.sees
  stmt ph sys i tx s k ext φ' hJ _ := h.stmt ph sys i tx s k ext φ' hJ
  commit ph sys i tx a hJ _ := h.commit ph sys i tx a hJ
  abort ph sys i tx e hJ hi _ := h.abort ph sys i tx e hJ hi

theorem Discipline.Sound.reachable {post : ι → Phase → α → Prop} {start : Phase}
    {J : (ι → Phase) → Sys Row Id Answer ε α ι → Prop}
    {ok : Sys Row Id Answer ε α ι → Sys Row Id Answer ε α ι → Prop}
    {progs : ι → TxProg Row Id Answer ε α} {db : Db Row}
    (h : D.Sound post start J ok progs db)
    {sys : Sys Row Id Answer ε α ι} (hr : ReachableVia ok progs db sys) :
    ∃ ph, J ph sys ∧ ∀ i, D.Tracks post ph i (sys.proc i) :=
  h.upheld.reachable hr

end ReadCommitted

end Transactional
