import Mathlib.Data.List.Forall2
import TenantFlow.Library.Store

/-!
# Two runs with the same world

A program runs alone on two databases, and the outside gives both runs the same answers. The
two runs may send different statements, so the answers are not numbered by statements: what is
drawn, such as a random value, is numbered by the draws, and the clock is read by its readings
since the last draw. `Alike` is the rule for such pairs: both runs return results that are
related, or both raise errors that are. A part that is blind to some tables runs the same way
on databases that differ there.
-/

namespace Transactional

section TwoRuns

variable {Table : Type} [DecidableEq Table] {Row : Table → Type} {Id : Type} [DecidableEq Id]
  [Schema Row Id] {Call : Type} {Answer : Call → Type} {ε α β γ δ : Type}

/-! ## Answers by the number of draws -/

/-- `world d 0` answers the draw after `d` others, and `world d (r + 1)` the reading after `r`
others since the `d`-th draw. -/
abbrev World (Answer : Call → Type) : Type := Nat → Nat → (c : Call) → Answer c

/-- How much a run has drawn, and how much it has read since then. -/
structure Tick where
  draws : Nat
  readings : Nat

def Tick.env (fresh : Call → Bool) (world : World Answer) (t : Tick) (c : Call) : Answer c :=
  world t.draws (if fresh c then 0 else t.readings + 1) c

def Tick.after (fresh : Call → Bool) (t : Tick) : Stmt Row Id Call → Tick
  | .call c => if fresh c then ⟨t.draws + 1, 0⟩ else ⟨t.draws, t.readings + 1⟩
  | _ => t

/-- The state of a run whose answers come from a world. -/
structure Visit (Row : Table → Type) where
  db : Db Row
  tick : Tick

def visitStmt (fresh : Call → Bool) (world : World Answer) (s : Stmt Row Id Call)
    (st : Visit Row) : s.Ans Answer × Visit Row :=
  ((s.eval (st.tick.env fresh world) st.db).1,
    ⟨replay (s.eval (st.tick.env fresh world) st.db).2 st.db, st.tick.after fresh s⟩)

/-- A run from the start of a world. -/
def visit (fresh : Call → Bool) (world : World Answer) (p : TxProg Row Id Answer ε α)
    (db : Db Row) : Except ε α × Visit Row :=
  p.run (visitStmt fresh world) ⟨db, ⟨0, 0⟩⟩

/-- As `transaction`. -/
def visitTransaction (fresh : Call → Bool) (world : World Answer) (p : TxProg Row Id Answer ε α)
    (db : Db Row) : Except ε α × Db Row :=
  match visit fresh world p db with
  | (.ok a, st) => (.ok a, st.db)
  | (.error e, _) => (.error e, db)

/-- Answers before the run do not matter. -/
theorem run_congr_oracle {oracle oracle' : Oracle Answer} {p : TxProg Row Id Answer ε α}
    {db : Db Row} {n : Nat} (h : ∀ m, n ≤ m → oracle m = oracle' m) :
    p.run (execStmt oracle) ⟨db, n⟩ = p.run (execStmt oracle') ⟨db, n⟩ := by
  induction p generalizing db n with
  | ret a => rfl
  | raise e => rfl
  | step s k ih =>
    have hexec : execStmt oracle s ⟨db, n⟩ = execStmt oracle' s ⟨db, n⟩ := by
      simp only [execStmt, h n (Nat.le_refl n)]
    rw [Prog.run_step, Prog.run_step, hexec]
    exact ih _ fun m hm => h m (Nat.le_of_succ_le hm)

/-- Such a run is a run with answers by statements. -/
theorem exists_oracle_run (fresh : Call → Bool) (world : World Answer)
    (p : TxProg Row Id Answer ε α) (db : Db Row) (t : Tick) (m : Nat) :
    ∃ oracle : Oracle Answer, (∀ j, ∃ t : Tick, oracle j = t.env fresh world) ∧
      (p.run (visitStmt fresh world) ⟨db, t⟩).1 = (p.run (execStmt oracle) ⟨db, m⟩).1 ∧
      (p.run (visitStmt fresh world) ⟨db, t⟩).2.db = (p.run (execStmt oracle) ⟨db, m⟩).2.db := by
  induction p generalizing db t m with
  | ret a => exact ⟨fun _ => t.env fresh world, fun j => ⟨t, rfl⟩, rfl, rfl⟩
  | raise e => exact ⟨fun _ => t.env fresh world, fun j => ⟨t, rfl⟩, rfl, rfl⟩
  | step s k ih =>
    obtain ⟨rest, hrest, hresult, hdb⟩ := ih (s.eval (t.env fresh world) db).1
      (replay (s.eval (t.env fresh world) db).2 db) (t.after fresh s) (m + 1)
    let oracle : Oracle Answer := fun j => if j = m then t.env fresh world else rest j
    have hnow : oracle m = t.env fresh world := if_pos rfl
    have hlater : ∀ j, m + 1 ≤ j → oracle j = rest j := fun j hj => if_neg (by omega)
    have hexec : execStmt oracle s ⟨db, m⟩ =
        ((s.eval (t.env fresh world) db).1,
          ⟨replay (s.eval (t.env fresh world) db).2 db, m + 1⟩) := by
      simp only [execStmt, hnow]
    refine ⟨oracle, fun j => ?_, ?_, ?_⟩
    · by_cases hj : j = m
      · exact ⟨t, if_pos hj⟩
      · obtain ⟨t', ht'⟩ := hrest j
        exact ⟨t', (if_neg hj).trans ht'⟩
    · rw [Prog.run_step, Prog.run_step, hexec, run_congr_oracle hlater]
      exact hresult
    · rw [Prog.run_step, Prog.run_step, hexec, run_congr_oracle hlater]
      exact hdb

theorem exists_oracle_transaction (fresh : Call → Bool) (world : World Answer)
    (p : TxProg Row Id Answer ε α) (db : Db Row) :
    ∃ oracle : Oracle Answer, (∀ j, ∃ t : Tick, oracle j = t.env fresh world) ∧
      visitTransaction fresh world p db = transaction oracle p db := by
  obtain ⟨oracle, horacle, hresult, hdb⟩ := exists_oracle_run fresh world p db ⟨0, 0⟩ 0
  refine ⟨oracle, horacle, ?_⟩
  unfold visitTransaction visit transaction
  cases hvisit : p.run (visitStmt fresh world) ⟨db, ⟨0, 0⟩⟩ with
  | mk x st =>
    cases hexec : p.run (execStmt oracle) ⟨db, 0⟩ with
    | mk y st' =>
      rw [hvisit, hexec] at hresult hdb
      cases hresult
      cases x with
      | ok a => simpa using hdb
      | error e => rfl

/-- The answers that a run can still receive from the tick on. -/
def Tick.Ahead (t : Tick) (d r : Nat) : Prop :=
  t.draws < d ∨ d = t.draws ∧ (r = 0 ∨ t.readings < r)

theorem Tick.env_congr {fresh : Call → Bool} {world world' : World Answer} {t : Tick}
    (h : ∀ d r, t.Ahead d r → world d r = world' d r) : t.env fresh world = t.env fresh world' := by
  funext c
  refine congrFun (h _ _ (.inr ⟨rfl, ?_⟩)) c
  split
  · exact .inl rfl
  · exact .inr (Nat.lt_succ_self _)

omit [DecidableEq Table] [DecidableEq Id] [Schema Row Id] in
theorem Tick.ahead_of_after {fresh : Call → Bool} {t : Tick} {s : Stmt Row Id Call} {d r : Nat}
    (h : (t.after fresh s).Ahead d r) : t.Ahead d r := by
  cases s with
  | call c =>
    cases hc : fresh c <;> simp only [Tick.after, hc, Tick.Ahead] at h ⊢ <;> grind
  | _ => exact h

theorem run_congr_world {fresh : Call → Bool} {world world' : World Answer}
    {p : TxProg Row Id Answer ε α} {db : Db Row} {t : Tick}
    (h : ∀ d r, t.Ahead d r → world d r = world' d r) :
    p.run (visitStmt fresh world) ⟨db, t⟩ = p.run (visitStmt fresh world') ⟨db, t⟩ := by
  induction p generalizing db t with
  | ret a => rfl
  | raise e => rfl
  | step s k ih =>
    have hvisit : visitStmt fresh world s ⟨db, t⟩ = visitStmt fresh world' s ⟨db, t⟩ := by
      simp only [visitStmt, Tick.env_congr h]
    rw [Prog.run_step, Prog.run_step, hvisit]
    exact ih _ fun d r hahead => h d r (Tick.ahead_of_after hahead)

/-- Conversely every run with answers by statements is a run in some world. -/
theorem exists_world_run (fresh : Call → Bool) (oracle : Oracle Answer)
    (p : TxProg Row Id Answer ε α) (db : Db Row) (t : Tick) (m : Nat) :
    ∃ world : World Answer,
      (p.run (visitStmt fresh world) ⟨db, t⟩).1 = (p.run (execStmt oracle) ⟨db, m⟩).1 ∧
      (p.run (visitStmt fresh world) ⟨db, t⟩).2.db = (p.run (execStmt oracle) ⟨db, m⟩).2.db := by
  induction p generalizing db t m with
  | ret a => exact ⟨fun _ _ => oracle m, rfl, rfl⟩
  | raise e => exact ⟨fun _ _ => oracle m, rfl, rfl⟩
  | step s k ih =>
    obtain ⟨rest, hresult, hdb⟩ := ih (s.eval (oracle m) db).1 (replay (s.eval (oracle m) db).2 db)
      (t.after fresh s) (m + 1)
    -- The answer to this statement is behind every later tick.
    obtain ⟨world, heval, hrest⟩ : ∃ world : World Answer,
        s.eval (t.env fresh world) db = s.eval (oracle m) db ∧
          ∀ d r, (t.after fresh s).Ahead d r → world d r = rest d r := by
      cases s with
      | call c =>
        let here : Nat × Nat := (t.draws, if fresh c then 0 else t.readings + 1)
        refine ⟨fun d r => if (d, r) = here then oracle m else rest d r, ?_, fun d r h => ?_⟩
        · simp [Stmt.eval, Tick.env, here]
        · refine if_neg fun heq => ?_
          simp only [here, Prod.mk.injEq] at heq
          cases hc : fresh c <;> simp only [Tick.after, hc, Tick.Ahead] at h heq <;> grind
      | _ => exact ⟨rest, rfl, fun _ _ _ => rfl⟩
    have hvisit : visitStmt fresh world s ⟨db, t⟩ = ((s.eval (oracle m) db).1,
        ⟨replay (s.eval (oracle m) db).2 db, t.after fresh s⟩) := by
      simp only [visitStmt, heval]
    refine ⟨world, ?_, ?_⟩
    · rw [Prog.run_step, Prog.run_step, hvisit, run_congr_world hrest]
      exact hresult
    · rw [Prog.run_step, Prog.run_step, hvisit, run_congr_world hrest]
      exact hdb

/-! ## Pairs of runs -/

/-- How two runs may end. -/
inductive EndAlike (E : ε → ε → Prop) (Q : α → β → Visit Row → Visit Row → Prop) :
    Except ε α × Visit Row → Except ε β × Visit Row → Prop where
  | ok {a : α} {b : β} {st st' : Visit Row} (h : Q a b st st') :
    EndAlike E Q (.ok a, st) (.ok b, st')
  | error {e e' : ε} {st st' : Visit Row} (h : E e e') :
    EndAlike E Q (.error e, st) (.error e', st')

/-- From `db` and `db'`, at the ticks `t` and `t'`, the two programs end alike. -/
def AlikeAt (fresh : Call → Bool) (world : World Answer) (t t' : Tick) (E : ε → ε → Prop)
    (Q : α → β → Db Row → Db Row → Prop) (p : TxProg Row Id Answer ε α)
    (p' : TxProg Row Id Answer ε β) (db db' : Db Row) : Prop :=
  EndAlike E (fun a b st st' => Q a b st.db st'.db) (p.run (visitStmt fresh world) ⟨db, t⟩)
    (p'.run (visitStmt fresh world) ⟨db', t'⟩)

/-- The two programs end alike, and at the same tick if they start at the same. -/
def Alike (fresh : Call → Bool) (world : World Answer) (E : ε → ε → Prop)
    (Q : α → β → Db Row → Db Row → Prop) (p : TxProg Row Id Answer ε α)
    (p' : TxProg Row Id Answer ε β) (db db' : Db Row) : Prop :=
  ∀ t, EndAlike E (fun a b st st' => st.tick = st'.tick ∧ Q a b st.db st'.db)
    (p.run (visitStmt fresh world) ⟨db, t⟩) (p'.run (visitStmt fresh world) ⟨db', t⟩)

section Rules

variable {fresh : Call → Bool} {world : World Answer} {E : ε → ε → Prop}
  {Q : α → β → Db Row → Db Row → Prop} {db db' : Db Row} {p : TxProg Row Id Answer ε α}
  {p' : TxProg Row Id Answer ε β} {t t' : Tick}

omit [DecidableEq Table] in
theorem EndAlike.mono {P P' : α → β → Visit Row → Visit Row → Prop}
    {x : Except ε α × Visit Row} {y : Except ε β × Visit Row} (h : EndAlike E P x y)
    (hP : ∀ a b st st', P a b st st' → P' a b st st') : EndAlike E P' x y := by
  cases h with
  | ok h => exact .ok (hP _ _ _ _ h)
  | error h => exact .error h

theorem alike_ret {a : α} {b : β} (h : Q a b db db') :
    Alike fresh world E Q (.ret a : TxProg Row Id Answer ε α) (.ret b) db db' :=
  fun _ => .ok ⟨rfl, h⟩

theorem alike_raise {e e' : ε} (h : E e e') :
    Alike fresh world E Q (.raise e : TxProg Row Id Answer ε α) (.raise e') db db' :=
  fun _ => .error h

theorem Alike.mono {Q' : α → β → Db Row → Db Row → Prop} (h : Alike fresh world E Q p p' db db')
    (hQ : ∀ a b d d', Q a b d d' → Q' a b d d') : Alike fresh world E Q' p p' db db' :=
  fun t => (h t).mono fun a b _ _ hend => ⟨hend.1, hQ a b _ _ hend.2⟩

/-- A result that is only wrapped. -/
theorem AlikeAt.bind_ret (h : AlikeAt fresh world t t' E Q p p' db db') {f : α → γ} {f' : β → δ}
    {R : γ → δ → Db Row → Db Row → Prop} (hR : ∀ a b d d', Q a b d d' → R (f a) (f' b) d d') :
    AlikeAt fresh world t t' E R (p.bind fun a => .ret (f a)) (p'.bind fun b => .ret (f' b))
      db db' := by
  unfold AlikeAt at h ⊢
  rw [Prog.run_bind, Prog.run_bind]
  generalize p.run (visitStmt fresh world) ⟨db, t⟩ = x at h ⊢
  generalize p'.run (visitStmt fresh world) ⟨db', t'⟩ = x' at h ⊢
  cases h with
  | ok hend => exact .ok (hR _ _ _ _ hend)
  | error herror => exact .error herror

theorem alikeAt_ret {a : α} {b : β} (h : Q a b db db') :
    AlikeAt fresh world t t' E Q (.ret a : TxProg Row Id Answer ε α) (.ret b) db db' :=
  .ok h

theorem alikeAt_raise {e e' : ε} (h : E e e') :
    AlikeAt fresh world t t' E Q (.raise e : TxProg Row Id Answer ε α) (.raise e') db db' :=
  .error h

theorem Alike.at (h : Alike fresh world E Q p p' db db') (t : Tick) :
    AlikeAt fresh world t t E Q p p' db db' :=
  (h t).mono fun _ _ _ _ hend => hend.2

/-- Sequential composition. -/
theorem alike_bind {f : α → TxProg Row Id Answer ε γ} {f' : β → TxProg Row Id Answer ε δ}
    {R : γ → δ → Db Row → Db Row → Prop}
    (h : Alike fresh world E (fun a b d d' => Alike fresh world E R (f a) (f' b) d d')
      p p' db db') :
    Alike fresh world E R (p.bind f) (p'.bind f') db db' := by
  intro t
  have hfirst := h t
  rw [Prog.run_bind, Prog.run_bind]
  generalize p.run (visitStmt fresh world) ⟨db, t⟩ = x at hfirst ⊢
  generalize p'.run (visitStmt fresh world) ⟨db', t⟩ = x' at hfirst ⊢
  cases hfirst with
  | @ok a b st st' hend =>
    obtain ⟨d, t₁⟩ := st
    obtain ⟨d', t₂⟩ := st'
    obtain rfl : t₁ = t₂ := hend.1
    exact hend.2 t₁
  | error herror => exact .error herror

/-- Sequential composition after which the runs may drift apart. -/
theorem alikeAt_bind {f : α → TxProg Row Id Answer ε γ} {f' : β → TxProg Row Id Answer ε δ}
    {R : γ → δ → Db Row → Db Row → Prop}
    (h : Alike fresh world E
      (fun a b d d' => ∀ t, AlikeAt fresh world t t E R (f a) (f' b) d d') p p' db db') :
    AlikeAt fresh world t t E R (p.bind f) (p'.bind f') db db' := by
  have hfirst := h t
  unfold AlikeAt
  rw [Prog.run_bind, Prog.run_bind]
  generalize p.run (visitStmt fresh world) ⟨db, t⟩ = x at hfirst ⊢
  generalize p'.run (visitStmt fresh world) ⟨db', t⟩ = x' at hfirst ⊢
  cases hfirst with
  | @ok a b st st' hend =>
    obtain ⟨d, t₁⟩ := st
    obtain ⟨d', t₂⟩ := st'
    obtain rfl : t₁ = t₂ := hend.1
    exact hend.2 t₁
  | error herror => exact .error herror

/-- A call of both programs, at the same tick. -/
theorem alikeAt_call {c : Call} {k : Answer c → TxProg Row Id Answer ε α}
    {k' : Answer c → TxProg Row Id Answer ε β}
    (h : ∀ t₁ : Tick, AlikeAt fresh world t₁ t₁ E Q (k (t.env fresh world c))
      (k' (t.env fresh world c)) db db') :
    AlikeAt fresh world t t E Q (.step (.call c) k) (.step (.call c) k') db db' :=
  h _

theorem alike_call {c : Call} {k : Answer c → TxProg Row Id Answer ε α}
    {k' : Answer c → TxProg Row Id Answer ε β}
    (h : ∀ t : Tick, Alike fresh world E Q (k (t.env fresh world c))
      (k' (t.env fresh world c)) db db') :
    Alike fresh world E Q (.step (.call c) k) (.step (.call c) k') db db' :=
  fun t => h t _

/-- A call of the first program alone, which draws nothing. -/
theorem alikeAt_call_left {c : Call} {k : Answer c → TxProg Row Id Answer ε α}
    (hc : fresh c = false)
    (h : ∀ r, AlikeAt fresh world ⟨t.draws, r⟩ t' E Q (k (t.env fresh world c)) p' db db') :
    AlikeAt fresh world t t' E Q (.step (.call c) k) p' db db' := by
  have hafter : t.after fresh (.call c : Stmt Row Id Call) = ⟨t.draws, t.readings + 1⟩ := by
    simp [Tick.after, hc]
  change EndAlike E _ ((k (t.env fresh world c)).run _ ⟨db, t.after fresh (.call c)⟩) _
  rw [hafter]
  exact h (t.readings + 1)

/-- The next draw brings the two runs together again. -/
theorem alikeAt_draw {c : Call} {k : Answer c → TxProg Row Id Answer ε α}
    {k' : Answer c → TxProg Row Id Answer ε β} (hc : fresh c = true) (ht : t.draws = t'.draws)
    (h : Alike fresh world E Q (k (world t.draws 0 c)) (k' (world t.draws 0 c)) db db') :
    AlikeAt fresh world t t' E Q (.step (.call c) k) (.step (.call c) k') db db' := by
  have hafter : ∀ t₁ : Tick, t₁.draws = t.draws →
      t₁.env fresh world c = world t.draws 0 c ∧
        t₁.after fresh (.call c : Stmt Row Id Call) = ⟨t.draws + 1, 0⟩ := by
    intro t₁ ht₁
    simp [Tick.env, Tick.after, hc, ht₁]
  change EndAlike E _ ((k (t.env fresh world c)).run _ ⟨db, t.after fresh (.call c)⟩)
    ((k' (t'.env fresh world c)).run _ ⟨db', t'.after fresh (.call c)⟩)
  rw [(hafter t rfl).1, (hafter t rfl).2, (hafter t' ht.symm).1, (hafter t' ht.symm).2]
  exact h.at _

theorem alike_select {q : Db Row → γ} {q' : Db Row → δ} {k : γ → TxProg Row Id Answer ε α}
    {k' : δ → TxProg Row Id Answer ε β}
    (h : Alike fresh world E Q (k (q db)) (k' (q' db')) db db') :
    Alike fresh world E Q (.step (.select q) k) (.step (.select q') k') db db' :=
  fun t => h t

theorem alikeAt_select {q : Db Row → γ} {q' : Db Row → δ} {k : γ → TxProg Row Id Answer ε α}
    {k' : δ → TxProg Row Id Answer ε β}
    (h : AlikeAt fresh world t t' E Q (k (q db)) (k' (q' db')) db db') :
    AlikeAt fresh world t t' E Q (.step (.select q) k) (.step (.select q') k') db db' :=
  h

theorem alikeAt_selectForUpdate {q : Db Row → γ} {q' : Db Row → δ} {locked : γ → List (Table × Id)}
    {locked' : δ → List (Table × Id)} {k : γ → TxProg Row Id Answer ε α}
    {k' : δ → TxProg Row Id Answer ε β}
    (h : AlikeAt fresh world t t' E Q (k (q db)) (k' (q' db')) db db') :
    AlikeAt fresh world t t' E Q (.step (.selectForUpdate q locked) k)
      (.step (.selectForUpdate q' locked') k') db db' :=
  h

theorem alike_insert {T : Table} {r : Row T} {k : Except DbError Unit → TxProg Row Id Answer ε α}
    {k' : Except DbError Unit → TxProg Row Id Answer ε β}
    (hsame : insertable db' r = insertable db r)
    (hok : insertable db r = .ok () → Alike fresh world E Q (k (.ok ())) (k' (.ok ()))
      ((Op.insert T r).apply db) ((Op.insert T r).apply db'))
    (hfail : ∀ e, Alike fresh world E Q (k (.error e)) (k' (.error e)) db db') :
    Alike fresh world E Q (.step (.insert T r) k) (.step (.insert T r) k') db db' := by
  intro t
  change EndAlike E _
    ((k (insertable db r)).run _ ⟨replay (onlyIfOk (.insert T r) (insertable db r)) db, t⟩)
    ((k' (insertable db' r)).run _ ⟨replay (onlyIfOk (.insert T r) (insertable db' r)) db', t⟩)
  rw [hsame]
  cases hins : insertable db r with
  | ok u => exact hok hins t
  | error e => exact hfail e t

theorem alike_update {T : Table} {id : Id} {f : Row T → Row T}
    {k : Except DbError Unit → TxProg Row Id Answer ε α}
    {k' : Except DbError Unit → TxProg Row Id Answer ε β}
    (hsame : updatable db' T id f = updatable db T id f)
    (hok : updatable db T id f = .ok () → Alike fresh world E Q (k (.ok ())) (k' (.ok ()))
      ((Op.update T id f).apply db) ((Op.update T id f).apply db'))
    (hfail : ∀ e, Alike fresh world E Q (k (.error e)) (k' (.error e)) db db') :
    Alike fresh world E Q (.step (.update T id f) k) (.step (.update T id f) k') db db' := by
  intro t
  change EndAlike E _
    ((k (updatable db T id f)).run _
      ⟨replay (onlyIfOk (.update T id f) (updatable db T id f)) db, t⟩)
    ((k' (updatable db' T id f)).run _
      ⟨replay (onlyIfOk (.update T id f) (updatable db' T id f)) db', t⟩)
  rw [hsame]
  cases hup : updatable db T id f with
  | ok u => exact hok hup t
  | error e => exact hfail e t

/-- An update of the first program alone, which the database accepts. -/
theorem alikeAt_update_left {T : Table} {id : Id} {f : Row T → Row T}
    {k : Except DbError Unit → TxProg Row Id Answer ε α} (hup : updatable db T id f = .ok ())
    (h : AlikeAt fresh world t t' E Q (k (.ok ())) p' ((Op.update T id f).apply db) db') :
    AlikeAt fresh world t t' E Q (.step (.update T id f) k) p' db db' := by
  unfold AlikeAt
  change EndAlike E _
    ((k (updatable db T id f)).run _
      ⟨replay (onlyIfOk (.update T id f) (updatable db T id f)) db, t⟩)
    _
  rw [hup]
  exact h

/-- What two runs that end alike make of their databases. -/
theorem AlikeAt.transaction (h : AlikeAt fresh world ⟨0, 0⟩ ⟨0, 0⟩ E Q p p' db db') :
    (∃ a b, (visitTransaction fresh world p db).1 = .ok a ∧
      (visitTransaction fresh world p' db').1 = .ok b ∧
      Q a b (visitTransaction fresh world p db).2 (visitTransaction fresh world p' db').2) ∨
    ∃ e e', visitTransaction fresh world p db = (.error e, db) ∧
      visitTransaction fresh world p' db' = (.error e', db') ∧ E e e' := by
  unfold AlikeAt at h
  unfold visitTransaction visit
  generalize p.run (visitStmt fresh world) ⟨db, ⟨0, 0⟩⟩ = x at h ⊢
  generalize p'.run (visitStmt fresh world) ⟨db', ⟨0, 0⟩⟩ = x' at h ⊢
  cases h with
  | ok hresult => exact .inl ⟨_, _, rfl, rfl, hresult⟩
  | error herror => exact .inr ⟨_, _, rfl, rfl, herror⟩

end Rules

/-! ## Parts that are blind to some tables -/

/-- The databases agree outside some tables. -/
def AgreeOff (hidden : Table → Prop) (db db' : Db Row) : Prop := ∀ t, ¬ hidden t → db' t = db t

theorem AgreeOff.apply {hidden : Table → Prop} {db db' : Db Row} (h : AgreeOff hidden db db')
    (op : Op Row Id) : AgreeOff hidden (op.apply db) (op.apply db') :=
  fun t ht => apply_congr (h t ht) op

theorem AgreeOff.replay {hidden : Table → Prop} {db db' : Db Row} (h : AgreeOff hidden db db')
    (ops : List (Op Row Id)) :
    AgreeOff hidden (Transactional.replay ops db) (Transactional.replay ops db') :=
  fun t ht => replay_congr (h t ht) ops

/-- The statement neither depends on the hidden tables nor writes them. -/
def Stmt.Blind (hidden : Table → Prop) : Stmt Row Id Call → Prop
  | .select q => ∀ db db', AgreeOff hidden db db' → q db' = q db
  | .selectForUpdate q _ => ∀ db db', AgreeOff hidden db db' → q db' = q db
  | .insert t r => ¬ hidden t ∧ ∀ db db', AgreeOff hidden db db' →
      Schema.check db' r = Schema.check db r
  | .insertOnConflictDoNothing t _ r => ¬ hidden t ∧ ∀ db db', AgreeOff hidden db db' →
      Schema.check db' r = Schema.check db r
  | .update t _ f => ¬ hidden t ∧ ∀ db db' r, AgreeOff hidden db db' →
      Schema.check db' (f r) = Schema.check db (f r)
  | .delete t id => ¬ hidden t ∧ ∀ db db' : Db Row, AgreeOff hidden db db' →
      Schema.cascade db' t id = Schema.cascade db t id ∧
        ∀ k ∈ Schema.cascade db t id, ¬ hidden k.1
  | .call _ => True

section Blind

variable {hidden : Table → Prop} {db db' : Db Row}

omit [DecidableEq Table] [DecidableEq Id] in
theorem insertable_congr {t : Table} {r : Row t} (ht : db' t = db t)
    (hc : Schema.check db' r = Schema.check db r) : insertable db' r = insertable db r := by
  unfold insertable
  rw [ht, hc]

omit [DecidableEq Table] in
theorem updatable_congr {t : Table} {id : Id} {f : Row t → Row t} (ht : db' t = db t)
    (hc : ∀ r, Schema.check db' (f r) = Schema.check db (f r)) :
    updatable db' t id f = updatable db t id f := by
  unfold updatable
  simp only [ht, hc]

omit [DecidableEq Table] in
/-- A blind statement does the same on both databases, and nothing to the hidden tables. -/
theorem Stmt.Blind.eval {s : Stmt Row Id Call} (hs : s.Blind hidden) (h : AgreeOff hidden db db')
    (env : (c : Call) → Answer c) :
    s.eval env db' = s.eval env db ∧ ∀ op ∈ (s.eval env db).2, ¬ hidden op.table := by
  cases s with
  | select q =>
    have hq : q db' = q db := hs db db' h
    exact ⟨by simp only [Stmt.eval, hq], fun op hop => by cases hop⟩
  | selectForUpdate q l =>
    have hq : q db' = q db := hs db db' h
    exact ⟨by simp only [Stmt.eval, hq], fun op hop => by cases hop⟩
  | insert t r =>
    refine ⟨by simp only [Stmt.eval, insertable_congr (h t hs.1) (hs.2 db db' h)], fun op hop => ?_⟩
    obtain ⟨rfl, _⟩ := mem_onlyIfOk hop
    exact hs.1
  | insertOnConflictDoNothing t a r =>
    refine ⟨?_, fun op hop => ?_⟩
    · simp only [Stmt.eval, insertable_congr (h t hs.1) (hs.2 db db' h), h t hs.1]
    · simp only [Stmt.eval] at hop
      split at hop
      · cases hop
      · obtain ⟨rfl, _⟩ := mem_onlyIfOk hop
        exact hs.1
  | update t id f =>
    refine ⟨?_, fun op hop => ?_⟩
    · simp only [Stmt.eval, updatable_congr (h t hs.1) fun r => hs.2 db db' r h]
    · obtain ⟨rfl, _⟩ := mem_onlyIfOk hop
      exact hs.1
  | delete t id =>
    obtain ⟨hcascade, hkeys⟩ := hs.2 db db' h
    refine ⟨by simp only [Stmt.eval, deleteOps, h t hs.1, hcascade], fun op hop => ?_⟩
    obtain ⟨_, k, rfl, hk⟩ := mem_deleteOps hop
    rcases hk with rfl | hk
    · exact hs.1
    · exact hkeys k hk
  | call c => exact ⟨rfl, fun op hop => by cases hop⟩

/-- A blind part ends with the same result on both, and leaves the hidden tables. -/
theorem alike_blind {fresh : Call → Bool} {world : World Answer} {E : ε → ε → Prop}
    {χ : α → Prop} {p : TxProg Row Id Answer ε α}
    (hp : p.Every Stmt.Possible (Stmt.Blind hidden) (fun _ => True) χ) (hE : ∀ e, E e e)
    (h : AgreeOff hidden db db') :
    Alike fresh world E (fun a b d d' => a = b ∧ χ a ∧ AgreeOff hidden d d' ∧
      ∀ t, hidden t → d t = db t ∧ d' t = db' t) p p db db' := by
  induction p generalizing db db' with
  | ret a => exact alike_ret ⟨rfl, hp, h, fun _ _ => ⟨rfl, rfl⟩⟩
  | raise e => exact alike_raise (hE e)
  | step s k ih =>
    intro t
    obtain ⟨heval, hspare⟩ := hp.1.eval h (t.env fresh world)
    have hrest := ih (s.eval (t.env fresh world) db).1 (hp.2 _ ⟨_, db, rfl⟩)
      (h.replay (s.eval (t.env fresh world) db).2)
    have hkept : ∀ (d : Db Row) T, hidden T →
        replay (s.eval (t.env fresh world) db).2 d T = d T :=
      fun d T hT => replay_of_table_ne d fun op hop htable => hspare op hop (htable ▸ hT)
    have hends : Alike fresh world E (fun a b d d' => a = b ∧ χ a ∧ AgreeOff hidden d d' ∧
        ∀ T, hidden T → d T = db T ∧ d' T = db' T)
        (k (s.eval (t.env fresh world) db).1) (k (s.eval (t.env fresh world) db).1)
        (replay (s.eval (t.env fresh world) db).2 db)
        (replay (s.eval (t.env fresh world) db).2 db') := by
      refine hrest.mono ?_
      rintro a b d d' ⟨hab, ha, hagree, hhidden⟩
      refine ⟨hab, ha, hagree, fun T hT => ?_⟩
      rw [(hhidden T hT).1, (hhidden T hT).2, hkept db T hT, hkept db' T hT]
      exact ⟨rfl, rfl⟩
    have hsame : visitStmt fresh world s ⟨db', t⟩ = ((s.eval (t.env fresh world) db).1,
        ⟨replay (s.eval (t.env fresh world) db).2 db', t.after fresh s⟩) := by
      simp only [visitStmt, heval]
    rw [Prog.run_step, Prog.run_step, hsame]
    exact hends (t.after fresh s)

end Blind

/-! ## Tables that match row by row -/

section Matching

variable {ρ : Type} {R S : ρ → ρ → Prop} {l l' : List ρ}

theorem exists_match_right (h : List.Forall₂ R l l') {r : ρ} (hr : r ∈ l) : ∃ r' ∈ l', R r r' := by
  induction h with
  | nil => cases hr
  | cons hrel _ ih =>
    rcases List.mem_cons.mp hr with rfl | hr
    · exact ⟨_, List.mem_cons_self, hrel⟩
    · obtain ⟨r', hr', hrel'⟩ := ih hr
      exact ⟨r', List.mem_cons_of_mem _ hr', hrel'⟩

theorem exists_match_left (h : List.Forall₂ R l l') {r' : ρ} (hr' : r' ∈ l') : ∃ r ∈ l, R r r' :=
  exists_match_right h.flip hr'

/-- A test that matching rows pass together finds matching rows. -/
theorem find_match (h : List.Forall₂ R l l') {p : ρ → Bool} (hp : ∀ r r', R r r' → p r = p r') :
    (l.find? p = none ∧ l'.find? p = none) ∨
      ∃ r r', l.find? p = some r ∧ l'.find? p = some r' ∧ R r r' := by
  induction h with
  | nil => exact .inl ⟨rfl, rfl⟩
  | @cons r r' l l' hrel _ ih =>
    have hsame := hp r r' hrel
    cases hr : p r with
    | true => exact .inr ⟨r, r', by simp [hr], by simp [← hsame, hr], hrel⟩
    | false => simpa [List.find?_cons, hr, ← hsame] using ih

theorem any_match (h : List.Forall₂ R l l') {p : ρ → Bool}
    (hp : ∀ r ∈ l, ∀ r', R r r' → p r = p r') : l.any p = l'.any p := by
  induction h with
  | nil => rfl
  | @cons r r' l l' hrel _ ih =>
    rw [List.any_cons, List.any_cons, hp r List.mem_cons_self r' hrel,
      ih fun s hs => hp s (List.mem_cons_of_mem r hs)]

theorem map_match (h : List.Forall₂ R l l') {g g' : ρ → ρ}
    (hg : ∀ r ∈ l, ∀ r' ∈ l', R r r' → S (g r) (g' r')) :
    List.Forall₂ S (l.map g) (l'.map g') := by
  induction h with
  | nil => exact .nil
  | @cons r r' l l' hrel _ ih =>
    refine .cons (hg r List.mem_cons_self r' List.mem_cons_self hrel) (ih fun s hs s' hs' => ?_)
    exact hg s (List.mem_cons_of_mem r hs) s' (List.mem_cons_of_mem r' hs')

end Matching

end TwoRuns

end Transactional
