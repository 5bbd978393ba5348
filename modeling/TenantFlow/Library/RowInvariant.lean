import TenantFlow.Library.Isolation

/-!
# Invariants of single rows

A predicate on rows holds of a whole database through any transaction whose statements write
only rows that satisfy it. What such a program reads comes from databases of good rows. The
same holds of interleaved transactions, with no need of their isolation: whichever writes a
view contains, each of them keeps the rows good.
-/

namespace Transactional

section RowInvariant

variable {Table : Type} [DecidableEq Table] {Row : Table → Type} {Id : Type} [DecidableEq Id]
  [Schema Row Id] {Call : Type} {Answer : Call → Type} {ε α β : Type}
  {Good : (t : Table) → Row t → Prop}

def AllGood (Good : (t : Table) → Row t → Prop) (db : Db Row) : Prop :=
  ∀ t, ∀ r ∈ db t, Good t r

/-- An answer from a database of good rows. -/
def FromGood (Good : (t : Table) → Row t → Prop) (s : Stmt Row Id Call) (x : s.Ans Answer) : Prop :=
  ∃ (env : (c : Call) → Answer c) (db : Db Row), AllGood Good db ∧ x = (s.eval env db).1

omit [DecidableEq Table] in
theorem FromGood.possible {s : Stmt Row Id Call} {x : s.Ans Answer} (h : FromGood Good s x) :
    s.Possible x := by
  obtain ⟨env, db, _, hx⟩ := h
  exact ⟨env, db, hx⟩

/-- The statement makes good rows, from good rows. -/
def Stmt.WritesGood (Good : (t : Table) → Row t → Prop) : Stmt Row Id Call → Prop
  | .insert t r => Good t r
  | .insertOnConflictDoNothing t _ r => Good t r
  | .update t _ f => ∀ r, Good t r → Good t (f r)
  | _ => True

/-- Every path of the program that starts from good rows writes good rows. -/
abbrev WritesGood (Good : (t : Table) → Row t → Prop) (χ : α → Prop)
    (p : TxProg Row Id Answer ε α) : Prop :=
  p.Every (FromGood Good) (Stmt.WritesGood Good) (fun _ => True) χ

theorem AllGood.apply {db : Db Row} (h : AllGood Good db) {op : Op Row Id}
    (hinsert : ∀ t r, op = .insert t r → Good t r)
    (hupdate : ∀ t id f, op = .update t id f → ∀ r, Good t r → Good t (f r)) :
    AllGood Good (op.apply db) := by
  intro t r hr
  by_cases ht : op.table = t
  · cases op with
    | insert t' r' =>
      obtain rfl : t' = t := ht
      rw [apply_insert_self] at hr
      rcases List.mem_append.mp hr with hr | hr
      · exact h _ r hr
      · obtain rfl := List.mem_singleton.mp hr
        exact hinsert _ _ rfl
    | update t' id f =>
      obtain rfl : t' = t := ht
      rw [apply_update_self] at hr
      obtain ⟨r', hr', rfl⟩ := List.mem_map.mp hr
      split
      · exact hupdate _ _ _ rfl r' (h _ r' hr')
      · exact h _ r' hr'
    | delete t' id =>
      obtain rfl : t' = t := ht
      rw [apply_delete_self] at hr
      exact h _ r (List.mem_filter.mp hr).1
  · rw [apply_of_table_ne db ht] at hr
    exact h t r hr

theorem AllGood.replay {db : Db Row} (h : AllGood Good db) {ops : List (Op Row Id)}
    (hinsert : ∀ t r, .insert t r ∈ ops → Good t r)
    (hupdate : ∀ t id f, .update t id f ∈ ops → ∀ r, Good t r → Good t (f r)) :
    AllGood Good (replay ops db) := by
  induction ops generalizing db with
  | nil => exact h
  | cons op ops ih =>
    refine ih (h.apply ?_ ?_) (fun t r hop => hinsert t r (List.mem_cons_of_mem _ hop))
      fun t id f hop => hupdate t id f (List.mem_cons_of_mem _ hop)
    · rintro t r rfl
      exact hinsert t r List.mem_cons_self
    · rintro t id f rfl
      exact hupdate t id f List.mem_cons_self

/-- The write keeps the rows of any database good. -/
def Op.KeepsGood (Good : (t : Table) → Row t → Prop) : Op Row Id → Prop
  | .insert t r => Good t r
  | .update t _ f => ∀ r, Good t r → Good t (f r)
  | .delete _ _ => True

theorem AllGood.replay_ops {db : Db Row} (h : AllGood Good db) {ops : List (Op Row Id)}
    (hops : ∀ op ∈ ops, op.KeepsGood Good) : AllGood Good (Transactional.replay ops db) :=
  h.replay (fun _ _ hop => hops _ hop) fun _ _ _ hop => hops _ hop

omit [DecidableEq Table] in
theorem Stmt.WritesGood.ops {s : Stmt Row Id Call} (hs : s.WritesGood Good)
    (env : (c : Call) → Answer c) (db : Db Row) : ∀ op ∈ (s.eval env db).2, op.KeepsGood Good := by
  intro op hop
  rcases mem_eval_ops hop with ⟨t, r, rfl, _, hins⟩ | ⟨t, id, f, rfl, _, rfl⟩ | ⟨t, id, _, _, rfl, _⟩
  · rcases hins with rfl | ⟨a, rfl⟩
    · exact hs
    · exact hs
  · exact hs
  · trivial

theorem AllGood.eval {db : Db Row} (h : AllGood Good db) {s : Stmt Row Id Call}
    (hs : s.WritesGood Good) (env : (c : Call) → Answer c) :
    AllGood Good (Transactional.replay (s.eval env db).2 db) :=
  h.replay_ops (hs.ops env db)

/-- A transaction keeps all rows good. -/
theorem WritesGood.transaction {χ : α → Prop} {p : TxProg Row Id Answer ε α}
    (h : WritesGood Good χ p) {db : Db Row} (hdb : AllGood Good db) (oracle : Oracle Answer) :
    AllGood Good (Transactional.transaction oracle p db).2 := by
  have hend : ∀ st : Session Row, AllGood Good st.db →
      AllGood Good (p.run (execStmt oracle) st).2.db := by
    induction p with
    | ret a => exact fun st hst => hst
    | raise e => exact fun st hst => hst
    | step s k ih =>
      intro st hst
      exact ih _ (h.2 _ ⟨_, st.db, hst, rfl⟩) _ (hst.eval h.1 _)
  have hdb' := hend ⟨db, 0⟩ hdb
  unfold Transactional.transaction
  split
  · rename_i a st hrun
    rw [hrun] at hdb'
    exact hdb'
  · exact hdb

/-! ## Interleaved transactions -/

variable {ι : Type} [DecidableEq ι]

/-- The invariant of a run: the rows are good, in the database and in what an open transaction
makes of it, and a statement that a process has yet to issue satisfies `φ`, as its calls did. -/
structure GoodRun (Good : (t : Table) → Row t → Prop) (φ : ι → Stmt Row Id Call → Prop)
    (sys : Sys Row Id Answer ε α ι) : Prop where
  rows : AllGood Good sys.db
  ops : ∀ i tx, sys.proc i = .active tx → ∀ op ∈ tx.ops, op.KeepsGood Good
  left : ∀ i tx, sys.proc i = .active tx → tx.prog.Every (FromGood Good)
    (fun s => s.WritesGood Good ∧ φ i s) (fun _ => True) (fun _ => True)
  calls : ∀ i c x, (i, .called c x) ∈ sys.trace → φ i (.call c)

variable {φ : ι → Stmt Row Id Call → Prop} {sys sys' : Sys Row Id Answer ε α ι}

theorem GoodRun.step (h : GoodRun Good φ sys) (hstep : Step sys sys') : GoodRun Good φ sys' := by
  cases hstep with
  | stmt i tx s k ext hi hp hfree =>
    have hprog := h.left i tx hi
    rw [hp] at hprog
    have hview : AllGood Good (tx.view sys.db) := h.rows.replay_ops (h.ops i tx hi)
    refine ⟨h.rows, fun j tx' hj => ?_, fun j tx' hj => ?_, fun j c x hmem => ?_⟩
    · rcases active_of_advance hj with ⟨rfl, rfl⟩ | ⟨_, hj⟩
      · intro op hop
        rcases List.mem_append.mp hop with hop | hop
        · exact h.ops _ tx hi op hop
        · exact hprog.1.1.ops ext _ op hop
      · exact h.ops j tx' hj
    · rcases active_of_advance hj with ⟨rfl, rfl⟩ | ⟨_, hj⟩
      · exact hprog.2 _ ⟨ext, _, hview, rfl⟩
      · exact h.left j tx' hj
    · rcases List.mem_append.mp hmem with hmem | hmem
      · exact h.calls j c x hmem
      · obtain ⟨e, he, heq⟩ := List.mem_map.mp hmem
        obtain ⟨c', rfl, rfl⟩ := mem_called.mp he
        cases heq
        exact hprog.1.2
  | commit i tx a hi hp =>
    refine ⟨h.rows.replay_ops (h.ops i tx hi), fun j tx' hj => ?_, fun j tx' hj => ?_,
      fun j c x hmem => ?_⟩
    · exact h.ops j tx' (active_of_commit hj).2
    · exact h.left j tx' (active_of_commit hj).2
    · rcases List.mem_append.mp hmem with hmem | hmem
      · exact h.calls j c x hmem
      · cases List.mem_singleton.mp hmem
  | rollback i tx e hi hp =>
    exact ⟨h.rows, fun j tx' hj => h.ops j tx' (active_of_abort hj).2,
      fun j tx' hj => h.left j tx' (active_of_abort hj).2, h.calls⟩
  | cutOff i tx hi =>
    exact ⟨h.rows, fun j tx' hj => h.ops j tx' (active_of_abort hj).2,
      fun j tx' hj => h.left j tx' (active_of_abort hj).2, h.calls⟩

/-- Programs that write good rows from good rows keep all rows good in every run. -/
theorem Reachable.goodRun {progs : ι → TxProg Row Id Answer ε α} {db : Db Row}
    (hdb : AllGood Good db) (hprogs : ∀ i, (progs i).Every (FromGood Good)
      (fun s => s.WritesGood Good ∧ φ i s) (fun _ => True) (fun _ => True))
    (hr : Reachable progs db sys) : GoodRun Good φ sys := by
  induction hr with
  | refl =>
    refine ⟨hdb, fun i tx hi op hop => ?_, fun i tx hi => ?_, fun i c x hmem => ?_⟩
    · obtain rfl := Proc.active.inj hi
      cases hop
    · obtain rfl := Proc.active.inj hi
      exact hprogs i
    · cases hmem
  | tail _ hstep ih => exact ih.step hstep.1

end RowInvariant

end Transactional
