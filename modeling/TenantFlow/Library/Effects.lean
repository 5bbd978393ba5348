import TenantFlow.Library.Journal

/-!
# What a program that runs alone does, in order

The calls with their answers and the writes of a run, as one list. `Does` is a postcondition
that sees them besides the result and the database; its rules follow the program, and the
effects of a sequential composition are those of its parts, one after the other.
-/

namespace Transactional

section Effects

variable {Table : Type} [DecidableEq Table] {Row : Table → Type} {Id : Type} [DecidableEq Id]
  [Schema Row Id] {Call : Type} {Answer : Call → Type} {ε α β : Type} {oracle : Oracle Answer}

/-- A call with its answer, or the writes of a statement. -/
def Stmt.effects (ext : (c : Call) → Answer c) (db : Db Row) :
    Stmt Row Id Call → List (Fact Row Id Answer)
  | .call c => [.called c (ext c)]
  | s => (s.eval ext db).2.map .wrote

/-- The effects of a program that runs alone, oldest first. -/
def effectsOf (oracle : Oracle Answer) :
    TxProg Row Id Answer ε α → Session Row → List (Fact Row Id Answer)
  | .ret _, _ => []
  | .raise _, _ => []
  | .step s k, st => s.effects (oracle st.clock) st.db ++
      effectsOf oracle (k (execStmt oracle s st).1) (execStmt oracle s st).2

omit [DecidableEq Table] in
theorem Stmt.writesIn_effects (ext : (c : Call) → Answer c) (db : Db Row)
    (s : Stmt Row Id Call) : writesIn (s.effects ext db) = (s.eval ext db).2 := by
  cases s with
  | call c => rfl
  | _ => exact writesIn_map_wrote _

/-- The writes among the effects are what the run makes of the database. -/
theorem replay_effectsOf (oracle : Oracle Answer) (p : TxProg Row Id Answer ε α) (st : Session Row) :
    replay (writesIn (effectsOf oracle p st)) st.db = (p.run (execStmt oracle) st).2.db := by
  induction p generalizing st with
  | ret a => rfl
  | raise e => rfl
  | step s k ih =>
    rw [effectsOf, writesIn_append, replay_append, Stmt.writesIn_effects]
    exact ih _ _

theorem effectsOf_bind {p : TxProg Row Id Answer ε α} {f : α → TxProg Row Id Answer ε β}
    {st st' : Session Row} {a : α} (h : p.run (execStmt oracle) st = (.ok a, st')) :
    effectsOf oracle (p.bind f) st = effectsOf oracle p st ++ effectsOf oracle (f a) st' := by
  induction p generalizing st with
  | ret b =>
    obtain ⟨hb, rfl⟩ := Prod.mk.inj h
    rw [← Except.ok.inj hb]
    rfl
  | raise e => cases (Prod.mk.inj h).1
  | step s k ih =>
    rw [Prog.step_bind, effectsOf, effectsOf, ih _ h, List.append_assoc]

/-- Running alone from `db`, the program returns only with effects, a result and a database
related by `Q`. -/
def Does (oracle : Oracle Answer) (Q : List (Fact Row Id Answer) → α → Db Row → Prop)
    (p : TxProg Row Id Answer ε α) (db : Db Row) : Prop :=
  ∀ n a st, p.run (execStmt oracle) ⟨db, n⟩ = (.ok a, st) → Q (effectsOf oracle p ⟨db, n⟩) a st.db

section Rules

variable {Q Q' : List (Fact Row Id Answer) → α → Db Row → Prop} {db : Db Row}
  {p : TxProg Row Id Answer ε α}

theorem does_ret {a : α} (h : Q [] a db) : Does oracle Q (.ret a : TxProg Row Id Answer ε α) db := by
  intro n b st hrun
  obtain ⟨hb, rfl⟩ := Prod.mk.inj hrun
  rw [← Except.ok.inj hb]
  exact h

theorem does_raise (e : ε) : Does oracle Q (.raise e : TxProg Row Id Answer ε α) db :=
  fun _ _ _ hrun => nomatch (Prod.mk.inj hrun).1

theorem Does.mono (h : Does oracle Q p db) (hQ : ∀ facts a db', Q facts a db' → Q' facts a db') :
    Does oracle Q' p db :=
  fun n a st hrun => hQ _ a st.db (h n a st hrun)

theorem does_bind {f : α → TxProg Row Id Answer ε β}
    {R : List (Fact Row Id Answer) → β → Db Row → Prop}
    (h : Does oracle (fun facts a db' =>
      Does oracle (fun facts' b db'' => R (facts ++ facts') b db'') (f a) db') p db) :
    Does oracle R (p.bind f) db := by
  intro n b st hrun
  rw [Prog.run_bind] at hrun
  split at hrun
  · rename_i a st' hp
    rw [effectsOf_bind hp]
    exact h n a st' hp st'.clock b st hrun
  · cases (Prod.mk.inj hrun).1

theorem does_call {c : Call} {k : Answer c → TxProg Row Id Answer ε α}
    (h : ∀ x, Does oracle (fun facts a db' => Q (.called c x :: facts) a db') (k x) db) :
    Does oracle Q (.step (.call c) k) db :=
  fun n a st hrun => h (oracle n c) (n + 1) a st hrun

theorem does_select {γ : Type} {q : Db Row → γ} {k : γ → TxProg Row Id Answer ε α}
    (h : Does oracle Q (k (q db)) db) : Does oracle Q (.step (.select q) k) db :=
  fun n a st hrun => h (n + 1) a st hrun

theorem does_insert {t : Table} {r : Row t} {k : Except DbError Unit → TxProg Row Id Answer ε α}
    (hok : insertable db r = .ok () → Does oracle (fun facts a db' =>
      Q (.wrote (.insert t r) :: facts) a db') (k (.ok ())) ((Op.insert t r).apply db))
    (hfail : ∀ e, Does oracle Q (k (.error e)) db) :
    Does oracle Q (.step (.insert t r) k) db := by
  intro n a st hrun
  have hrun : (k (insertable db r)).run (execStmt oracle)
      ⟨replay (onlyIfOk (.insert t r) (insertable db r)) db, n + 1⟩ = (.ok a, st) := hrun
  change Q ((onlyIfOk (.insert t r) (insertable db r)).map .wrote ++
    effectsOf oracle (k (insertable db r))
      ⟨replay (onlyIfOk (.insert t r) (insertable db r)) db, n + 1⟩) a st.db
  cases h : insertable db r with
  | ok u =>
    rw [h] at hrun
    exact hok h (n + 1) a st hrun
  | error e =>
    rw [h] at hrun
    exact hfail e (n + 1) a st hrun

/-- The database alone. -/
theorem Does.runs {R : α → Db Row → Prop} (h : Does oracle (fun _ a db' => R a db') p db) :
    Runs oracle (fun _ _ => True) R p db :=
  fun n => Prog.along_of_run fun a st hrun => h n a st hrun

end Rules

end Effects

end Transactional
