import Mathlib.Data.List.Pairwise
import TenantFlow.Library.Program

/-!
# Relational stores and their statements

A database is a list of rows for each table, in physical order. A `Schema` says which row
field is the primary key, which pairs of rows a unique index does not let coexist, what a
new row version must satisfy, and which rows a delete takes along.

A statement sees a database and yields an answer and the writes it performs; `Stmt.eval`
is that function. Queries are arbitrary functions of the database, so joins, ordering and
limits need no constructors of their own. External calls are statements as well: their
answer comes from outside.
-/

namespace Transactional

/-- The rows of every table, each table in physical order. -/
abbrev Db {Table : Type} (Row : Table → Type) : Type := (t : Table) → List (Row t)

/-- The two ways in which the database refuses a row, and the ORM's complaint about an
`UPDATE` that matched nothing. -/
inductive DbError where
  | integrity
  | data
  | stale
  deriving DecidableEq, Repr

class Schema {Table : Type} (Row : Table → Type) (Id : outParam Type) where
  pk : {t : Table} → Row t → Id
  /-- Rows that some unique index, the primary key included, does not let coexist. -/
  clash : {t : Table} → Row t → Row t → Bool
  /-- `NOT NULL`, `CHECK`, length and foreign-key constraints on a new row version. -/
  check : Db Row → {t : Table} → Row t → Option DbError
  /-- Rows deleted together with a row, through `ON DELETE CASCADE`. -/
  cascade : Db Row → Table → Id → List (Table × Id)

export Schema (pk clash)

section Store

variable {Table : Type} [DecidableEq Table] {Row : Table → Type} {Id : Type} [DecidableEq Id]
  [Schema Row Id]

/-- A single write. An update carries the assignment it makes, not the new row, so that it
can be applied to a later version of the row. -/
inductive Op (Row : Table → Type) (Id : Type) where
  | insert (t : Table) (r : Row t)
  | update (t : Table) (id : Id) (f : Row t → Row t)
  | delete (t : Table) (id : Id)

def Op.table : Op Row Id → Table
  | .insert t _ => t
  | .update t _ _ => t
  | .delete t _ => t

def Op.key : Op Row Id → Table × Id
  | .insert t r => (t, pk r)
  | .update t id _ => (t, id)
  | .delete t id => (t, id)

def Op.apply (db : Db Row) : Op Row Id → Db Row
  | .insert t r => Function.update db t (db t ++ [r])
  | .update t id f => Function.update db t ((db t).map fun r => if pk r = id then f r else r)
  | .delete t id => Function.update db t ((db t).filter fun r => pk r ≠ id)

/-- Apply a list of writes, oldest first. -/
def replay (ops : List (Op Row Id)) (db : Db Row) : Db Row := ops.foldl Op.apply db

@[simp] theorem replay_nil (db : Db Row) : replay ([] : List (Op Row Id)) db = db := rfl

@[simp] theorem replay_cons (op : Op Row Id) (ops : List (Op Row Id)) (db : Db Row) :
    replay (op :: ops) db = replay ops (op.apply db) := rfl

@[simp] theorem replay_append (ops ops' : List (Op Row Id)) (db : Db Row) :
    replay (ops ++ ops') db = replay ops' (replay ops db) := by
  simp [replay, List.foldl_append]

@[simp] theorem apply_insert_self (db : Db Row) (t : Table) (r : Row t) :
    (Op.insert t r : Op Row Id).apply db t = db t ++ [r] := by
  simp [Op.apply]

@[simp] theorem apply_update_self (db : Db Row) (t : Table) (id : Id) (f : Row t → Row t) :
    (Op.update t id f).apply db t = (db t).map fun r => if pk r = id then f r else r := by
  simp [Op.apply]

@[simp] theorem apply_delete_self (db : Db Row) (t : Table) (id : Id) :
    (Op.delete t id).apply db t = (db t).filter fun r => pk r ≠ id := by
  simp [Op.apply]

/-- A write touches its own table only. -/
theorem apply_of_table_ne (db : Db Row) {o : Op Row Id} {t : Table} (h : o.table ≠ t) :
    o.apply db t = db t := by
  cases o <;> exact Function.update_of_ne (Ne.symm h) _ _

theorem replay_of_table_ne (db : Db Row) {ops : List (Op Row Id)} {t : Table}
    (h : ∀ op ∈ ops, op.table ≠ t) : replay ops db t = db t := by
  induction ops generalizing db with
  | nil => rfl
  | cons op ops ih =>
    rw [replay_cons, ih _ (fun o ho => h o (List.mem_cons_of_mem _ ho)),
      apply_of_table_ne db (h op List.mem_cons_self)]

/-- The effect of a write on a table depends on that table only. -/
theorem apply_congr {db db' : Db Row} {t : Table} (h : db t = db' t) (op : Op Row Id) :
    op.apply db t = op.apply db' t := by
  by_cases ht : op.table = t
  · cases op with
    | insert t' r => obtain rfl : t' = t := ht; simp [h]
    | update t' id f => obtain rfl : t' = t := ht; simp [h]
    | delete t' id => obtain rfl : t' = t := ht; simp [h]
  · rw [apply_of_table_ne db ht, apply_of_table_ne db' ht, h]

theorem replay_congr {db db' : Db Row} {t : Table} (h : db t = db' t) (ops : List (Op Row Id)) :
    replay ops db t = replay ops db' t := by
  induction ops generalizing db db' with
  | nil => exact h
  | cons op ops ih => exact ih (apply_congr h op)

/-- Inserted rows come after the rows of the table, in order. -/
theorem replay_inserts (db : Db Row) (t : Table) (rows : List (Row t)) :
    replay (rows.map fun r => (.insert t r : Op Row Id)) db =
      Function.update db t (db t ++ rows) := by
  induction rows generalizing db with
  | nil => simp
  | cons r rows ih =>
    rw [List.map_cons, replay_cons, ih, Op.apply, Function.update_self, Function.update_idem,
      List.append_assoc, List.singleton_append]

/-! ## Statements -/

section Statements

variable {Call : Type}

inductive Stmt (Row : Table → Type) (Id : Type) (Call : Type) : Type 1 where
  | select {α : Type} (q : Db Row → α)
  | selectForUpdate {α : Type} (q : Db Row → α) (locked : α → List (Table × Id))
  | insert (t : Table) (r : Row t)
  | insertOnConflictDoNothing (t : Table) (arbiter : Row t → Row t → Bool) (r : Row t)
  | update (t : Table) (id : Id) (f : Row t → Row t)
  | delete (t : Table) (id : Id)
  | call (c : Call)

/-- `insertOnConflictDoNothing` answers whether the row was inserted. -/
def Stmt.Ans (Answer : Call → Type) : Stmt Row Id Call → Type
  | .select (α := α) _ => α
  | .selectForUpdate (α := α) _ _ => α
  | .insert _ _ => Except DbError Unit
  | .insertOnConflictDoNothing _ _ _ => Except DbError Bool
  | .update _ _ _ => Except DbError Unit
  | .delete _ _ => Unit
  | .call c => Answer c

/-- Whether the database accepts `r` as a further row of its table. -/
def insertable (db : Db Row) {t : Table} (r : Row t) : Except DbError Unit :=
  match Schema.check db r with
  | some e => .error e
  | none => if (db t).any (clash r) then .error .integrity else .ok ()

/-- Whether the database accepts the assignment `f` to the row with key `id`. -/
def updatable (db : Db Row) (t : Table) (id : Id) (f : Row t → Row t) : Except DbError Unit :=
  match (db t).find? (fun r => pk r = id) with
  | none => .error .stale
  | some r =>
    match Schema.check db (f r) with
    | some e => .error e
    | none =>
      if (db t).any (fun r' => decide (pk r' ≠ id) && clash (f r) r') then .error .integrity
      else .ok ()

/-- The writes of a statement that the database may refuse. -/
def onlyIfOk (op : Op Row Id) : Except DbError Unit → List (Op Row Id)
  | .ok () => [op]
  | .error _ => []

/-- The deletions of a `DELETE`: none if it matches no row. -/
def deleteOps (db : Db Row) (t : Table) (id : Id) : List (Op Row Id) :=
  if (db t).any (fun r => pk r = id) then
    (Schema.cascade db t id).map (fun k => .delete k.1 k.2) ++ [.delete t id]
  else []

/-- The answer and the writes of a statement in a database it sees. `ext` answers calls. -/
def Stmt.eval {Answer : Call → Type} (ext : (c : Call) → Answer c) (db : Db Row) :
    (s : Stmt Row Id Call) → s.Ans Answer × List (Op Row Id)
  | .select q => (q db, [])
  | .selectForUpdate q _ => (q db, [])
  | .insert t r => (insertable db r, onlyIfOk (.insert t r) (insertable db r))
  | .insertOnConflictDoNothing t arbiter r =>
    if (db t).any (arbiter r) then (.ok false, [])
    else ((insertable db r).map fun _ => true, onlyIfOk (.insert t r) (insertable db r))
  | .update t id f => (updatable db t id f, onlyIfOk (.update t id f) (updatable db t id f))
  | .delete t id => ((), deleteOps db t id)
  | .call c => (ext c, [])

/-- Answers that a statement can give in some database. -/
def Stmt.Possible {Answer : Call → Type} (s : Stmt Row Id Call) (x : s.Ans Answer) : Prop :=
  ∃ (ext : (c : Call) → Answer c) (db : Db Row), x = (s.eval ext db).1

/-- The rows a locking read keeps locked until its transaction ends. -/
def Stmt.locks (db : Db Row) : Stmt Row Id Call → List (Table × Id)
  | .selectForUpdate q locked => locked (q db)
  | _ => []

omit [DecidableEq Table] [DecidableEq Id] [Schema Row Id] in
theorem mem_onlyIfOk {op op' : Op Row Id} {x : Except DbError Unit} (h : op' ∈ onlyIfOk op x) :
    op' = op ∧ x = .ok () := by
  cases x with
  | error e => simp [onlyIfOk] at h
  | ok u => exact ⟨by simpa [onlyIfOk] using h, rfl⟩

omit [DecidableEq Table] in
theorem mem_deleteOps {db : Db Row} {t : Table} {id : Id} {op : Op Row Id}
    (h : op ∈ deleteOps db t id) : (∃ r ∈ db t, pk r = id) ∧
      ∃ k : Table × Id, op = .delete k.1 k.2 ∧ (k = (t, id) ∨ k ∈ Schema.cascade db t id) := by
  unfold deleteOps at h
  split at h
  · rename_i hany
    refine ⟨by simpa using hany, ?_⟩
    rcases List.mem_append.mp h with h | h
    · obtain ⟨k, hk, rfl⟩ := List.mem_map.mp h
      exact ⟨k, rfl, .inr hk⟩
    · exact ⟨(t, id), List.mem_singleton.mp h, .inl rfl⟩
  · cases h

theorem replay_deleteOps {db : Db Row} {t : Table} {id : Id} (h : Schema.cascade db t id = []) :
    replay (deleteOps db t id) db = (Op.delete t id).apply db := by
  unfold deleteOps
  split
  · simp [h]
  · rename_i hnone
    have hkeep : (db t).filter (fun r => pk r ≠ id) = db t := by
      refine List.filter_eq_self.mpr fun r hr => ?_
      have hany : (db t).any (fun r => pk r = id) = false := by simpa using hnone
      simpa using List.any_eq_false.mp hany r hr
    rw [Op.apply, hkeep, Function.update_eq_self]
    rfl

omit [DecidableEq Table] in
/-- The writes of a statement: an accepted row, an accepted assignment, or deletions. -/
theorem mem_eval_ops {Answer : Call → Type} {ext : (c : Call) → Answer c} {db : Db Row}
    {s : Stmt Row Id Call} {op : Op Row Id} (h : op ∈ (s.eval ext db).2) :
    (∃ t r, op = .insert t r ∧ insertable db r = .ok () ∧
      (s = .insert t r ∨ ∃ a, s = .insertOnConflictDoNothing t a r)) ∨
    (∃ t id f, op = .update t id f ∧ updatable db t id f = .ok () ∧ s = .update t id f) ∨
    (∃ t id k, s = .delete t id ∧ op = .delete k.1 k.2 ∧
      (k = (t, id) ∨ k ∈ Schema.cascade db t id) ∧ ∃ r ∈ db t, pk r = id) := by
  cases s with
  | select q => simp [Stmt.eval] at h
  | selectForUpdate q l => simp [Stmt.eval] at h
  | insert t r =>
    obtain ⟨rfl, hins⟩ := mem_onlyIfOk h
    exact .inl ⟨t, r, rfl, hins, .inl rfl⟩
  | insertOnConflictDoNothing t a r =>
    simp only [Stmt.eval] at h
    split at h
    · simp at h
    · obtain ⟨rfl, hins⟩ := mem_onlyIfOk h
      exact .inl ⟨t, r, rfl, hins, .inr ⟨a, rfl⟩⟩
  | update t id f =>
    obtain ⟨rfl, hup⟩ := mem_onlyIfOk h
    exact .inr (.inl ⟨t, id, f, rfl, hup, rfl⟩)
  | delete t id =>
    obtain ⟨hrow, k, rfl, hk⟩ := mem_deleteOps h
    exact .inr (.inr ⟨t, id, k, rfl, rfl, hk, hrow⟩)
  | call c => simp [Stmt.eval] at h

/-- What accepted inserts and updates and all deletes keep, every statement keeps. -/
theorem Stmt.eval_keeps {Answer : Call → Type} {I : Db Row → Prop} {ext : (c : Call) → Answer c}
    {db : Db Row} {s : Stmt Row Id Call} (h : I db)
    (hinsert : ∀ t r, (s = .insert t r ∨ ∃ a, s = .insertOnConflictDoNothing t a r) →
      insertable db r = .ok () → I ((Op.insert t r).apply db))
    (hupdate : ∀ t id f, s = .update t id f → updatable db t id f = .ok () →
      I ((Op.update t id f).apply db))
    (hdelete : ∀ t id, s = .delete t id → I (replay (deleteOps db t id) db)) :
    I (replay (s.eval ext db).2 db) := by
  cases s with
  | select q => exact h
  | selectForUpdate q l => exact h
  | insert t r =>
    cases hins : insertable db r with
    | ok u => simpa [Stmt.eval, hins, onlyIfOk] using hinsert t r (.inl rfl) hins
    | error e => simpa [Stmt.eval, hins, onlyIfOk] using h
  | insertOnConflictDoNothing t a r =>
    cases hany : (db t).any (a r) with
    | true => simpa [Stmt.eval, hany] using h
    | false =>
      cases hins : insertable db r with
      | ok u =>
        simpa [Stmt.eval, hany, hins, onlyIfOk, Except.map] using hinsert t r (.inr ⟨a, rfl⟩) hins
      | error e => simpa [Stmt.eval, hany, hins, onlyIfOk, Except.map] using h
  | update t id f =>
    cases hup : updatable db t id f with
    | ok u => simpa [Stmt.eval, hup, onlyIfOk] using hupdate t id f rfl hup
    | error e => simpa [Stmt.eval, hup, onlyIfOk] using h
  | delete t id => exact hdelete t id rfl
  | call c => exact h

omit [DecidableEq Table] [DecidableEq Id] in
/-- An accepted row passed its checks and meets no clash. -/
theorem insertable_ok {db : Db Row} {t : Table} {r : Row t} (h : insertable db r = .ok ()) :
    Schema.check db r = none ∧ ∀ r' ∈ db t, clash r r' = false := by
  unfold insertable at h
  split at h
  · cases h
  · rename_i hc
    refine ⟨hc, fun r' hr' => ?_⟩
    by_contra hne
    have hany : (db t).any (clash r) = true := List.any_eq_true.mpr ⟨r', hr', by simpa using hne⟩
    simp [hany] at h

omit [DecidableEq Table] [DecidableEq Id] in
theorem insertable_of {db : Db Row} {t : Table} {r : Row t} (hc : Schema.check db r = none)
    (hr : ∀ r' ∈ db t, clash r r' = false) : insertable db r = .ok () := by
  have hany : (db t).any (clash r) = false := by
    simpa [List.any_eq_false] using hr
  simp [insertable, hc, hany]

omit [DecidableEq Table] in
/-- An accepted assignment found its row, and the new version passed its checks. -/
theorem updatable_ok {db : Db Row} {t : Table} {id : Id} {f : Row t → Row t}
    (h : updatable db t id f = .ok ()) :
    ∃ r, (db t).find? (fun r => pk r = id) = some r ∧ Schema.check db (f r) = none ∧
      ∀ r' ∈ db t, pk r' ≠ id → clash (f r) r' = false := by
  unfold updatable at h
  split at h
  · cases h
  · rename_i r hr
    split at h
    · cases h
    · rename_i hc
      refine ⟨r, hr, hc, fun r' hr' hid => ?_⟩
      by_contra hne
      have hany : (db t).any (fun r' => decide (pk r' ≠ id) && clash (f r) r') = true :=
        List.any_eq_true.mpr ⟨r', hr', by simpa [hid] using hne⟩
      rw [if_pos hany] at h
      cases h

omit [DecidableEq Table] in
theorem updatable_of {db : Db Row} {t : Table} {id : Id} {f : Row t → Row t} {r : Row t}
    (hr : (db t).find? (fun r => pk r = id) = some r) (hc : Schema.check db (f r) = none)
    (hn : ∀ r' ∈ db t, pk r' ≠ id → clash (f r) r' = false) : updatable db t id f = .ok () := by
  have hany : (db t).any (fun r' => decide (pk r' ≠ id) && clash (f r) r') = false := by
    simpa [List.any_eq_false] using hn
  simp only [updatable, hr, hc, hany, Bool.false_eq_true, ↓reduceIte]

/-- The constraints of the schema hold: every row passes its checks, and within a table keys
are distinct and no two rows clash. -/
structure Consistent (db : Db Row) : Prop where
  checks : ∀ t, ∀ r ∈ db t, Schema.check db r = none
  keys : ∀ t, (db t).Pairwise fun r s => pk r ≠ pk s
  unique : ∀ t, ∀ r ∈ db t, ∀ s ∈ db t, pk r ≠ pk s → clash r s = false

omit [DecidableEq Table] [DecidableEq Id] in
/-- Within a table, the key determines the row. -/
theorem Consistent.eq_of_pk {db : Db Row} (h : Consistent db) {t : Table} {r s : Row t}
    (hr : r ∈ db t) (hs : s ∈ db t) (hpk : pk r = pk s) : r = s := by
  by_contra hne
  have hsymm : Std.Symm fun r s : Row t => pk r ≠ pk s := ⟨fun _ _ hab => Ne.symm hab⟩
  exact (h.keys t).forall hr hs hne hpk

/-! ## Running alone, with an oracle for external calls -/

/-- The state of a program running alone: the database and the number of statements so far. -/
structure Session (Row : Table → Type) where
  db : Db Row
  clock : Nat

/-- The external answers of a run: what the `n`-th statement receives if it is a call. -/
abbrev Oracle (Answer : Call → Type) : Type := Nat → (c : Call) → Answer c

variable {Answer : Call → Type}

def execStmt (oracle : Oracle Answer) (s : Stmt Row Id Call) (st : Session Row) :
    s.Ans Answer × Session Row :=
  ((s.eval (oracle st.clock) st.db).1,
    ⟨replay (s.eval (oracle st.clock) st.db).2 st.db, st.clock + 1⟩)

@[simp] theorem execStmt_fst (oracle : Oracle Answer) (s : Stmt Row Id Call) (st : Session Row) :
    (execStmt oracle s st).1 = (s.eval (oracle st.clock) st.db).1 := rfl

@[simp] theorem execStmt_snd_db (oracle : Oracle Answer) (s : Stmt Row Id Call)
    (st : Session Row) :
    (execStmt oracle s st).2.db = replay (s.eval (oracle st.clock) st.db).2 st.db := rfl

@[simp] theorem execStmt_snd_clock (oracle : Oracle Answer) (s : Stmt Row Id Call)
    (st : Session Row) : (execStmt oracle s st).2.clock = st.clock + 1 := rfl

abbrev TxProg (Row : Table → Type) (Id : Type) {Call : Type} (Answer : Call → Type)
    (ε α : Type) : Type 1 := Prog (Stmt Row Id Call) (Stmt.Ans Answer) ε α

variable {ε α : Type}

/-- One transaction around a program: its writes stay on success and vanish on failure. -/
def transaction (oracle : Oracle Answer) (p : TxProg Row Id Answer ε α) (db : Db Row) :
    Except ε α × Db Row :=
  match p.run (execStmt oracle) ⟨db, 0⟩ with
  | (.ok a, st) => (.ok a, st.db)
  | (.error e, _) => (.error e, db)

/-- A failed transaction leaves the database as it was. -/
theorem transaction_error {oracle : Oracle Answer} {p : TxProg Row Id Answer ε α} {db : Db Row}
    {e : ε} (h : (transaction oracle p db).1 = .error e) : (transaction oracle p db).2 = db := by
  unfold transaction at h ⊢
  split at h
  · cases h
  · rfl

theorem transaction_ok {oracle : Oracle Answer} {p : TxProg Row Id Answer ε α} {db : Db Row}
    {a : α} {st : Session Row} (h : p.run (execStmt oracle) ⟨db, 0⟩ = (.ok a, st)) :
    transaction oracle p db = (.ok a, st.db) := by
  simp [transaction, h]

/-! ## Rules for a program running alone -/

/-- Running alone from `db`, statements satisfy `φ` where they are executed, and a result
satisfies `Q` in the final database. -/
def Runs (oracle : Oracle Answer) (φ : Stmt Row Id Call → Db Row → Prop) (Q : α → Db Row → Prop)
    (p : TxProg Row Id Answer ε α) (db : Db Row) : Prop :=
  ∀ n, p.Along (execStmt oracle) (fun s st => φ s st.db) (fun a st => Q a st.db) ⟨db, n⟩

section Rules

variable {oracle : Oracle Answer} {φ : Stmt Row Id Call → Db Row → Prop} {Q Q' : α → Db Row → Prop}
  {db : Db Row} {p : TxProg Row Id Answer ε α} {β : Type}

theorem runs_ret {a : α} (h : Q a db) : Runs oracle φ Q (.ret a : TxProg Row Id Answer ε α) db :=
  fun _ => h

theorem runs_raise (e : ε) : Runs oracle φ Q (.raise e : TxProg Row Id Answer ε α) db :=
  fun _ => trivial

theorem runs_bind {f : α → TxProg Row Id Answer ε β} {R : β → Db Row → Prop}
    (h : Runs oracle φ (fun a db' => Runs oracle φ R (f a) db') p db) :
    Runs oracle φ R (p.bind f) db :=
  fun n => Prog.along_bind ((h n).mono fun _ st ha => ha st.clock)

theorem Runs.mono (h : Runs oracle φ Q p db) (hQ : ∀ a db', Q a db' → Q' a db') :
    Runs oracle φ Q' p db :=
  fun n => (h n).mono fun a st ha => hQ a st.db ha

/-- What every permitted statement preserves holds at the end as well. -/
theorem Runs.frame {I : Db Row → Prop} (h : Runs oracle φ Q p db)
    (hstep : ∀ s db (ext : (c : Call) → Answer c), φ s db → I db →
      I (replay (s.eval ext db).2 db)) (hI : I db) :
    Runs oracle φ (fun a db' => Q a db' ∧ I db') p db :=
  fun n => (h n).frame (I := fun st => I st.db) (fun s st hs hst => hstep s st.db _ hs hst) hI

theorem runs_call {c : Call} {k : Answer c → TxProg Row Id Answer ε α} (hφ : φ (.call c) db)
    (h : ∀ n, Runs oracle φ Q (k (oracle n c)) db) : Runs oracle φ Q (.step (.call c) k) db :=
  fun n => ⟨hφ, h n (n + 1)⟩

theorem runs_select {γ : Type} {q : Db Row → γ} {k : γ → TxProg Row Id Answer ε α}
    (hφ : φ (.select q) db) (h : Runs oracle φ Q (k (q db)) db) :
    Runs oracle φ Q (.step (.select q) k) db :=
  fun n => ⟨hφ, h (n + 1)⟩

theorem runs_selectForUpdate {γ : Type} {q : Db Row → γ} {locked : γ → List (Table × Id)}
    {k : γ → TxProg Row Id Answer ε α} (hφ : φ (.selectForUpdate q locked) db)
    (h : Runs oracle φ Q (k (q db)) db) :
    Runs oracle φ Q (.step (.selectForUpdate q locked) k) db :=
  fun n => ⟨hφ, h (n + 1)⟩

theorem runs_insert {t : Table} {r : Row t} {k : Except DbError Unit → TxProg Row Id Answer ε α}
    (hφ : φ (.insert t r) db)
    (hok : insertable db r = .ok () → Runs oracle φ Q (k (.ok ())) ((Op.insert t r).apply db))
    (hfail : ∀ e, Runs oracle φ Q (k (.error e)) db) :
    Runs oracle φ Q (.step (.insert t r) k) db := by
  refine fun n => ⟨hφ, ?_⟩
  cases h : insertable db r with
  | ok u => simpa [execStmt, Stmt.eval, h, onlyIfOk] using hok h (n + 1)
  | error e => simpa [execStmt, Stmt.eval, h, onlyIfOk] using hfail e (n + 1)

theorem runs_insertOnConflict {t : Table} {arbiter : Row t → Row t → Bool} {r : Row t}
    {k : Except DbError Bool → TxProg Row Id Answer ε α}
    (hφ : φ (.insertOnConflictDoNothing t arbiter r) db)
    (hin : (db t).any (arbiter r) = false → insertable db r = .ok () →
      Runs oracle φ Q (k (.ok true)) ((Op.insert t r).apply db))
    (hout : (db t).any (arbiter r) = true → Runs oracle φ Q (k (.ok false)) db)
    (hfail : ∀ e, Runs oracle φ Q (k (.error e)) db) :
    Runs oracle φ Q (.step (.insertOnConflictDoNothing t arbiter r) k) db := by
  refine fun n => ⟨hφ, ?_⟩
  cases hany : (db t).any (arbiter r) with
  | true => simpa [execStmt, Stmt.eval, hany] using hout hany (n + 1)
  | false =>
    cases h : insertable db r with
    | ok u => simpa [execStmt, Stmt.eval, hany, h, onlyIfOk, Except.map] using hin hany h (n + 1)
    | error e => simpa [execStmt, Stmt.eval, hany, h, onlyIfOk, Except.map] using hfail e (n + 1)

theorem runs_update {t : Table} {id : Id} {f : Row t → Row t}
    {k : Except DbError Unit → TxProg Row Id Answer ε α} (hφ : φ (.update t id f) db)
    (hok : updatable db t id f = .ok () →
      Runs oracle φ Q (k (.ok ())) ((Op.update t id f).apply db))
    (hfail : ∀ e, Runs oracle φ Q (k (.error e)) db) :
    Runs oracle φ Q (.step (.update t id f) k) db := by
  refine fun n => ⟨hφ, ?_⟩
  cases h : updatable db t id f with
  | ok u => simpa [execStmt, Stmt.eval, h, onlyIfOk] using hok h (n + 1)
  | error e => simpa [execStmt, Stmt.eval, h, onlyIfOk] using hfail e (n + 1)

theorem runs_delete {t : Table} {id : Id} {k : Unit → TxProg Row Id Answer ε α}
    (hφ : φ (.delete t id) db)
    (h : Runs oracle φ Q (k ()) (replay (deleteOps db t id) db)) :
    Runs oracle φ Q (.step (.delete t id) k) db :=
  fun n => ⟨hφ, h (n + 1)⟩

theorem runs_of_every {φ' : Stmt Row Id Call → Prop} {ψ : ε → Prop} {χ : α → Prop}
    (h : p.Every Stmt.Possible φ' ψ χ) (hφ : ∀ s db, φ' s → φ s db) :
    Runs oracle φ (fun a _ => χ a) p db := by
  intro n
  have hpossible : ∀ (s : Stmt Row Id Call) (st : Session Row), s.Possible (execStmt oracle s st).1 :=
    fun s st => ⟨oracle st.clock, st.db, rfl⟩
  exact (h.along hpossible ⟨db, n⟩).imp fun s st hs => hφ s st.db hs

/-- What every statement keeps, a transaction keeps, whether it commits or not. -/
theorem Runs.transaction_invariant {I : Db Row → Prop} (h : Runs oracle φ Q p db)
    (hstep : ∀ s db (ext : (c : Call) → Answer c), φ s db → I db →
      I (replay (s.eval ext db).2 db)) (hI : I db) : I (transaction oracle p db).2 := by
  have hend := (h 0).run_invariant (I := fun st => I st.db)
    (fun s st hs hst => hstep s st.db _ hs hst) hI
  unfold Transactional.transaction
  split
  · rename_i a st hrun
    rw [hrun] at hend
    exact hend
  · exact hI

/-- What a run establishes, its transaction makes permanent. -/
theorem along_transaction {ψ : Stmt Row Id Call → Session Row → Prop} {a : α}
    (h : p.Along (execStmt oracle) ψ (fun a st => Q a st.db) ⟨db, 0⟩)
    (hok : (transaction oracle p db).1 = .ok a) : Q a (transaction oracle p db).2 := by
  have hrun := h.run_ok
  unfold Transactional.transaction at hok ⊢
  split at hok
  · rename_i b st hp
    obtain rfl := Except.ok.inj hok
    exact hrun b st hp
  · cases hok

theorem Runs.transaction {a : α} (h : Runs oracle φ Q p db)
    (hok : (transaction oracle p db).1 = .ok a) : Q a (transaction oracle p db).2 :=
  along_transaction (h 0) hok

end Rules

end Statements

end Store

end Transactional
