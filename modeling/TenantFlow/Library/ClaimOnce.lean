import TenantFlow.Library.ReadCommitted

/-!
# Claiming a key once

The pattern behind deduplication tables. A process inserts a marker row under a unique
key with `INSERT ... ON CONFLICT DO NOTHING`. If the row goes in, the process owns the key
until it ends: it does its work, may revise its own marker, and commits both together. If
not, a committed marker of the same key exists, and the process may answer from it.

For any number of processes and any interleaving: at most one process of each key commits
as owner, every committed marker is the final version its owner left, and every other
committed process answered from such a marker.
-/

namespace Transactional

section ClaimOnce

variable {Table : Type} [DecidableEq Table] {Row : Table → Type} {Id : Type} [DecidableEq Id]
  [Schema Row Id] {Call : Type} {Answer : Call → Type} {ε α ι : Type}

/-- The statement writes no row of `T`. -/
def Stmt.Spares (T : Table) : Stmt Row Id Call → Prop
  | .insert t _ => t ≠ T
  | .insertOnConflictDoNothing t _ _ => t ≠ T
  | .update t _ _ => t ≠ T
  | .delete t id => t ≠ T ∧ ∀ db : Db Row, ∀ k ∈ Schema.cascade db t id, k.1 ≠ T
  | _ => True

omit [DecidableEq Table] in
theorem Stmt.Spares.ops_table {T : Table} {s : Stmt Row Id Call} (h : s.Spares T)
    (ext : (c : Call) → Answer c) (db : Db Row) :
    ∀ op ∈ (s.eval ext db).2, op.table ≠ T := by
  intro op hop
  rcases mem_eval_ops hop with ⟨t, r, rfl, _, rfl | ⟨a, rfl⟩⟩ | ⟨t, id, f, rfl, _, rfl⟩ |
    ⟨t, id, k, rfl, rfl, hk⟩
  · exact h
  · exact h
  · exact h
  · rcases hk with rfl | hk
    · exact h.1
    · exact h.2 db k hk

/-- Where a process stands with its key: it has not tried, it owns the key with this
version of its marker, or it was beaten by this committed marker. -/
inductive ClaimPhase (R : Type) where
  | idle
  | owner (r : R)
  | beaten (r : R)

/-- The data of a claiming system: the marker table and its unique key, the key of each
process, what a final marker is, and what owners and beaten processes may answer. Processes
that claim nothing may answer what `passes` says. -/
structure Claim (Row : Table → Type) (ε α ι : Type) where
  T : Table
  K : Type
  key : Row T → K
  procKey : ι → K
  final : Row T → Prop
  produces : ι → Row T → α → Prop
  replays : ι → Row T → α → Prop
  fails : ι → ε → Prop
  passes : ι → α → Prop := fun _ _ => False

variable (C : Claim Row ε α ι) [DecidableEq C.K]

/-- The conflict target of the marker's insert: the unique index on its key. -/
def Claim.arbiter (r r' : Row C.T) : Bool := decide (C.key r = C.key r')

/-- How statements move the phase. -/
inductive Claim.Next (i : ι) : ClaimPhase (Row C.T) → Stmt Row Id Call → Db Row →
    ((c : Call) → Answer c) → ClaimPhase (Row C.T) → Prop where
  | spare {φ : ClaimPhase (Row C.T)} {s : Stmt Row Id Call} {view : Db Row}
      {ext : (c : Call) → Answer c} (h : ∀ op ∈ (s.eval ext view).2, op.table ≠ C.T) :
      Claim.Next i φ s view ext φ
  | claim {r : Row C.T} {view : Db Row} {ext : (c : Call) → Answer c}
      (hkey : C.key r = C.procKey i) (hno : (view C.T).any (C.arbiter r) = false)
      (hok : insertable view r = .ok ()) :
      Claim.Next i .idle (.insertOnConflictDoNothing C.T C.arbiter r) view ext (.owner r)
  | lose {r r' : Row C.T} {view : Db Row} {ext : (c : Call) → Answer c}
      (hmem : r' ∈ view C.T) (hkey : C.key r' = C.procKey i)
      (h : ∀ op ∈ ((Stmt.insertOnConflictDoNothing C.T C.arbiter r :
        Stmt Row Id Call).eval ext view).2, op.table ≠ C.T) :
      Claim.Next i .idle (.insertOnConflictDoNothing C.T C.arbiter r) view ext (.beaten r')
  | revise {r : Row C.T} {f : Row C.T → Row C.T} {view : Db Row} {ext : (c : Call) → Answer c}
      (hpk : pk (f r) = pk r) (hkey : C.key (f r) = C.key r)
      (hok : updatable view C.T (pk r) f = .ok ()) :
      Claim.Next i (.owner r) (.update C.T (pk r) f) view ext (.owner (f r))

/-- What a process sees of the marker table. -/
def Claim.Sees : ClaimPhase (Row C.T) → Db Row → Prop
  | .idle, view => ∀ r ∈ view C.T, C.final r
  | .owner r, view => ∃ l, view C.T = l ++ [r] ∧ ∀ r' ∈ l, clash r r' = false
  | .beaten r, view => r ∈ view C.T ∧ C.final r ∧ ∀ r' ∈ view C.T, C.key r' = C.key r → r' = r

def Claim.discipline : Discipline Row Id Answer ε ι (ClaimPhase (Row C.T)) where
  sees _ := C.Sees
  next := C.Next
  fails i _ e := C.fails i e

/-- Results a process may return in the phase it has reached. -/
def Claim.Post (i : ι) : ClaimPhase (Row C.T) → α → Prop
  | .idle, a => C.passes i a
  | .owner r, a => C.final r ∧ C.produces i r a
  | .beaten r, a => C.replays i r a

omit [DecidableEq Table] in
/-- A program that writes no marker keeps its phase. -/
theorem Claim.obeys_of_every {i : ι} {β : Type} {p : TxProg Row Id Answer ε β} {χ : β → Prop}
    (φ : ClaimPhase (Row C.T))
    (h : p.Every Stmt.Possible (Stmt.Spares C.T) (C.fails i) χ) :
    (C.discipline : Discipline Row Id Answer ε ι _).Obeys i (fun φ' b => φ' = φ ∧ χ b) φ p :=
  Discipline.obeys_of_every (fun _ view ext hs => .spare (hs.ops_table ext view)) h

section Rules

variable {C} {i : ι} {β : Type} {post : ClaimPhase (Row C.T) → β → Prop}

omit [DecidableEq Table] in
/-- The claiming insert has three outcomes: the marker goes in, a marker of the key is there
already, or the database refuses the row. -/
theorem Claim.obeys_insert {r : Row C.T} (hkey : C.key r = C.procKey i)
    {k : Except DbError Bool → TxProg Row Id Answer ε β}
    (hown : C.discipline.Obeys i post (.owner r) (k (.ok true)))
    (hbeaten : ∀ r', C.key r' = C.procKey i →
      C.discipline.Obeys i post (.beaten r') (k (.ok false)))
    (hfail : ∀ e, C.discipline.Obeys i post .idle (k (.error e))) :
    C.discipline.Obeys i post .idle
      (.step (.insertOnConflictDoNothing C.T C.arbiter r) k) := by
  intro view ext _
  by_cases hany : (view C.T).any (C.arbiter r) = true
  · obtain ⟨r', hmem, hsame⟩ := List.any_eq_true.mp hany
    have hr' : C.key r' = C.procKey i := (of_decide_eq_true hsame).symm.trans hkey
    have heval : (Stmt.insertOnConflictDoNothing C.T C.arbiter r : Stmt Row Id Call).eval ext view =
        (.ok false, []) := by
      simp [Stmt.eval, hany]
    refine ⟨.beaten r', .lose hmem hr' (by simp [heval]), ?_⟩
    rw [heval]
    exact hbeaten r' hr'
  · have hno : (view C.T).any (C.arbiter r) = false := by simpa using hany
    cases hok : insertable view r with
    | ok u =>
      have heval : (Stmt.insertOnConflictDoNothing C.T C.arbiter r : Stmt Row Id Call).eval ext
          view = (.ok true, [.insert C.T r]) := by
        simp [Stmt.eval, hno, hok, onlyIfOk, Except.map]
      refine ⟨.owner r, .claim hkey hno hok, ?_⟩
      rw [heval]
      exact hown
    | error e =>
      have heval : (Stmt.insertOnConflictDoNothing C.T C.arbiter r : Stmt Row Id Call).eval ext
          view = (.error e, []) := by
        simp [Stmt.eval, hno, hok, onlyIfOk, Except.map]
      refine ⟨.idle, .spare (by simp [heval]), ?_⟩
      rw [heval]
      exact hfail e

omit [DecidableEq Table] in
/-- An owner may revise its marker, as long as it keeps the keys. -/
theorem Claim.obeys_revise {r : Row C.T} {f : Row C.T → Row C.T} (hpk : pk (f r) = pk r)
    (hkey : C.key (f r) = C.key r) {k : Except DbError Unit → TxProg Row Id Answer ε β}
    (hok : C.discipline.Obeys i post (.owner (f r)) (k (.ok ())))
    (hfail : ∀ e, C.discipline.Obeys i post (.owner r) (k (.error e))) :
    C.discipline.Obeys i post (.owner r) (.step (.update C.T (pk r) f) k) := by
  intro view ext _
  cases hup : updatable view C.T (pk r) f with
  | ok u =>
    refine ⟨.owner (f r), .revise hpk hkey hup, ?_⟩
    simpa [Stmt.eval, hup] using hok
  | error e =>
    refine ⟨.owner r, .spare (by simp [Stmt.eval, hup, onlyIfOk]), ?_⟩
    simpa [Stmt.eval, hup] using hfail e

omit [DecidableEq Table] in
/-- Reads see the marker table as the phase describes it. -/
theorem Claim.obeys_select {γ : Type} {φ : ClaimPhase (Row C.T)} {q : Db Row → γ}
    {k : γ → TxProg Row Id Answer ε β}
    (h : ∀ view, C.Sees φ view → C.discipline.Obeys i post φ (k (q view))) :
    C.discipline.Obeys i post φ (.step (.select q) k) := by
  intro view ext hsees
  exact ⟨φ, .spare (by simp [Stmt.eval]), h view hsees⟩

omit [DecidableEq Table] in
theorem Claim.obeys_selectForUpdate {γ : Type} {φ : ClaimPhase (Row C.T)} {q : Db Row → γ}
    {locked : γ → List (Table × Id)} {k : γ → TxProg Row Id Answer ε β}
    (h : ∀ view, C.Sees φ view → C.discipline.Obeys i post φ (k (q view))) :
    C.discipline.Obeys i post φ (.step (.selectForUpdate q locked) k) := by
  intro view ext hsees
  exact ⟨φ, .spare (by simp [Stmt.eval]), h view hsees⟩

end Rules

/-- The pending writes of an open transaction, as its phase describes them. -/
def Claim.Pending (i : ι) (db : Db Row) (tx : Tx Row Id Answer ε α) :
    ClaimPhase (Row C.T) → Prop
  | .idle => ∀ op ∈ tx.ops, op.table ≠ C.T
  | .owner r => C.key r = C.procKey i ∧ (∀ r' ∈ db C.T, clash r r' = false) ∧
      ∀ db' : Db Row, (∀ r' ∈ db' C.T, pk r' ≠ pk r) →
        replay tx.ops db' C.T = db' C.T ++ [r]
  | .beaten r => (∀ op ∈ tx.ops, op.table ≠ C.T) ∧ r ∈ db C.T ∧ C.key r = C.procKey i

/-- The system invariant. -/
structure Claim.Inv (ph : ι → ClaimPhase (Row C.T)) (sys : Sys Row Id Answer ε α ι) : Prop where
  unique : ∀ r ∈ sys.db C.T, ∀ r' ∈ sys.db C.T, C.key r = C.key r' → r = r'
  rows : ∀ r ∈ sys.db C.T, C.final r ∧
    ∃ i a, sys.proc i = .committed a ∧ C.key r = C.procKey i ∧ C.produces i r a
  pending : ∀ i tx, sys.proc i = .active tx → C.Pending i sys.db tx (ph i)
  disjoint : ∀ i j tx tx' r r', i ≠ j → sys.proc i = .active tx → sys.proc j = .active tx' →
    ph i = .owner r → ph j = .owner r' → clash r r' = false
  results : ∀ i a, sys.proc i = .committed a → ¬ C.passes i a →
    ∃ r ∈ sys.db C.T, C.key r = C.procKey i ∧ (C.produces i r a ∨ C.replays i r a)
  once : ∀ i j a b r r', i ≠ j → sys.proc i = .committed a → sys.proc j = .committed b →
    C.produces i r a → C.produces j r' b → C.procKey i ≠ C.procKey j

/-- What a claiming system must provide: markers clash exactly on primary key or key, and
owners' answers are told apart from the others. -/
structure Claim.Lawful (Id : Type) [DecidableEq Id] [Schema Row Id] (C : Claim Row ε α ι) :
    Prop where
  clash_iff : ∀ r r' : Row C.T, clash r r' = true ↔ (pk r = pk r' ∨ C.key r = C.key r')
  exclusive : ∀ i r r' a, C.produces i r a → ¬ C.replays i r' a ∧ ¬ C.passes i a

variable {C} (hC : C.Lawful Id)

include hC in
omit [DecidableEq Table] [DecidableEq C.K] in
theorem Claim.Lawful.clash_false {r r' : Row C.T} :
    clash r r' = false ↔ pk r ≠ pk r' ∧ C.key r ≠ C.key r' := by
  rw [← Bool.not_eq_true, hC.clash_iff]
  push Not
  rfl

include hC in
omit [DecidableEq Table] [DecidableEq C.K] in
theorem Claim.Lawful.clash_symm {r r' : Row C.T} (h : clash r r' = false) :
    clash r' r = false := by
  rw [hC.clash_false] at h ⊢
  exact ⟨h.1.symm, h.2.symm⟩

omit [DecidableEq C.K] in
/-- The own view of a process that has written no marker. -/
theorem Claim.view_of_spare {db : Db Row} {tx : Tx Row Id Answer ε α}
    (h : ∀ op ∈ tx.ops, op.table ≠ C.T) : tx.view db C.T = db C.T :=
  replay_of_table_ne db h

include hC in
omit [DecidableEq C.K] in
theorem Claim.Inv.sees {ph : ι → ClaimPhase (Row C.T)} {sys : Sys Row Id Answer ε α ι}
    (h : C.Inv ph sys) {i : ι} {tx : Tx Row Id Answer ε α} (hi : sys.proc i = .active tx) :
    C.Sees (ph i) (tx.view sys.db) := by
  have hpend := h.pending i tx hi
  cases hph : ph i with
  | idle =>
    rw [hph] at hpend
    intro r hr
    rw [Claim.view_of_spare hpend] at hr
    exact (h.rows r hr).1
  | owner r =>
    rw [hph] at hpend
    obtain ⟨_, hfree, hview⟩ := hpend
    exact ⟨sys.db C.T, hview sys.db (fun r' hr' => ((hC.clash_false).mp (hfree r' hr')).1.symm),
      hfree⟩
  | beaten r =>
    rw [hph] at hpend
    obtain ⟨hops, hmem, _⟩ := hpend
    refine ⟨?_, (h.rows r hmem).1, ?_⟩
    · rw [Claim.view_of_spare hops]
      exact hmem
    · intro r' hr' hkey
      rw [Claim.view_of_spare hops] at hr'
      exact h.unique r' hr' r hmem hkey

omit [DecidableEq C.K] in
/-- Writes to other tables leave what is pending on markers as it is. -/
theorem Claim.Pending.append {i : ι} {db : Db Row} {tx tx' : Tx Row Id Answer ε α}
    {φ : ClaimPhase (Row C.T)} (h : C.Pending i db tx φ) {ops : List (Op Row Id)}
    (hops : ∀ op ∈ ops, op.table ≠ C.T) (htx : tx'.ops = tx.ops ++ ops) :
    C.Pending i db tx' φ := by
  have happ : (∀ op ∈ tx.ops, op.table ≠ C.T) → ∀ op ∈ tx'.ops, op.table ≠ C.T := by
    intro hspare op hop
    rw [htx] at hop
    rcases List.mem_append.mp hop with hop | hop
    · exact hspare op hop
    · exact hops op hop
  cases φ with
  | idle => exact happ h
  | owner r =>
    refine ⟨h.1, h.2.1, fun db' hdb' => ?_⟩
    rw [htx, replay_append, replay_of_table_ne _ hops]
    exact h.2.2 db' hdb'
  | beaten r => exact ⟨happ h.1, h.2⟩

omit [DecidableEq C.K] in
/-- A statement that changes only the phase and the pending writes of one process. -/
theorem Claim.Inv.advance [DecidableEq ι] {ph : ι → ClaimPhase (Row C.T)}
    {sys : Sys Row Id Answer ε α ι} (h : C.Inv ph sys) {i : ι} {tx : Tx Row Id Answer ε α}
    (hi : sys.proc i = .active tx)
    (s : Stmt Row Id Call) (k : s.Ans Answer → TxProg Row Id Answer ε α)
    (ext : (c : Call) → Answer c) (φ : ClaimPhase (Row C.T))
    (hpend : C.Pending i sys.db (tx.advance sys.db s k ext) φ)
    (hdisj : ∀ j tx'' r r', j ≠ i → sys.proc j = .active tx'' → φ = .owner r →
      ph j = .owner r' → clash r r' = false ∧ clash r' r = false) :
    C.Inv (Function.update ph i φ) (sys.advance i tx s k ext) := by
  have hact : ∀ j t, (sys.advance i tx s k ext).proc j = .active t →
      (j = i ∧ t = tx.advance sys.db s k ext) ∨ (j ≠ i ∧ sys.proc j = .active t) := by
    intro j t hj
    by_cases hji : j = i
    · subst hji
      rw [advance_proc_self] at hj
      exact .inl ⟨rfl, (Proc.active.inj hj).symm⟩
    · rw [advance_proc_of_ne _ hji] at hj
      exact .inr ⟨hji, hj⟩
  have hcom : ∀ j a, (sys.advance i tx s k ext).proc j = .committed a ↔
      sys.proc j = .committed a := by
    intro j a
    by_cases hji : j = i
    · subst hji
      rw [advance_proc_self, hi]
      constructor <;> intro h <;> cases h
    · rw [advance_proc_of_ne _ hji]
  constructor
  · exact h.unique
  · intro r hr
    obtain ⟨hf, j, a, hj, hk⟩ := h.rows r hr
    exact ⟨hf, j, a, (hcom j a).mpr hj, hk⟩
  · intro j t hj
    rcases hact j t hj with ⟨rfl, rfl⟩ | ⟨hji, hj'⟩
    · rw [Function.update_self]
      exact hpend
    · rw [Function.update_of_ne hji]
      exact h.pending j t hj'
  · intro j l t t' r r' hjl hj hl hpj hpl
    rcases hact j t hj with ⟨rfl, rfl⟩ | ⟨hji, hj'⟩
    · rcases hact l t' hl with ⟨rfl, _⟩ | ⟨hli, hl'⟩
      · exact absurd rfl hjl
      · rw [Function.update_self] at hpj
        rw [Function.update_of_ne hli] at hpl
        exact (hdisj l t' r r' hli hl' hpj hpl).1
    · rw [Function.update_of_ne hji] at hpj
      rcases hact l t' hl with ⟨rfl, rfl⟩ | ⟨hli, hl'⟩
      · rw [Function.update_self] at hpl
        exact (hdisj j t r' r hji hj' hpl hpj).2
      · rw [Function.update_of_ne hli] at hpl
        exact h.disjoint j l t t' r r' hjl hj' hl' hpj hpl
  · intro j a hj
    exact h.results j a ((hcom j a).mp hj)
  · intro j l a b r r' hjl hj hl hpj hpl
    exact h.once j l a b r r' hjl ((hcom j a).mp hj) ((hcom l b).mp hl) hpj hpl

/-- The marker of another owner decides a claim: without waiting for it, no clash. -/
theorem Claim.no_clash_of_free {j : ι} {db view : Db Row} {tx : Tx Row Id Answer ε α}
    {r r' : Row C.T} (hself : clash r' r' = true) (hpend : C.Pending j db tx (.owner r'))
    (hpk : ∀ r'' ∈ db C.T, pk r'' ≠ pk r')
    (hfree : ¬ Waits db view tx (.insertOnConflictDoNothing C.T C.arbiter r)) :
    clash r r' = false := by
  by_contra hne
  apply hfree
  refine ⟨r', by simpa using hne, .inr ⟨?_, ?_⟩⟩
  · intro hmem
    have := hpend.2.1 r' hmem
    simp [hself] at this
  · rw [Tx.view, hpend.2.2 db hpk]
    simp

include hC in
theorem Claim.Lawful.stmt [DecidableEq ι] {ph : ι → ClaimPhase (Row C.T)}
    {sys : Sys Row Id Answer ε α ι} (h : C.Inv ph sys) {i : ι} {tx : Tx Row Id Answer ε α}
    (hi : sys.proc i = .active tx)
    {s : Stmt Row Id Call} {k : s.Ans Answer → TxProg Row Id Answer ε α}
    {ext : (c : Call) → Answer c} {φ : ClaimPhase (Row C.T)}
    (hfree : ∀ j tx', j ≠ i → sys.proc j = .active tx' →
      ¬ Waits sys.db (tx.view sys.db) tx' s)
    (hnext : C.Next i (ph i) s (tx.view sys.db) ext φ) :
    C.Inv (Function.update ph i φ) (sys.advance i tx s k ext) := by
  have hpend := h.pending i tx hi
  have hself : ∀ r : Row C.T, clash r r = true := fun r => (hC.clash_iff r r).mpr (.inl rfl)
  generalize hφ : ph i = φ₀ at hnext hpend
  cases hnext with
  | spare hops =>
    refine h.advance hi _ k ext _ (hpend.append hops rfl) ?_
    intro j tx' r r' hj hact hr hr'
    have hd := h.disjoint i j tx tx' r r' (Ne.symm hj) hi hact (hφ.trans hr) hr'
    exact ⟨hd, hC.clash_symm hd⟩
  | @claim r _ _ hkey hno hok =>
    have hview : tx.view sys.db C.T = sys.db C.T := Claim.view_of_spare hpend
    have hops : ((Stmt.insertOnConflictDoNothing C.T C.arbiter r : Stmt Row Id Call).eval ext
        (tx.view sys.db)).2 = [.insert C.T r] := by
      simp [Stmt.eval, hno, hok, onlyIfOk]
    refine h.advance hi _ k ext (.owner r) ⟨hkey, ?_, ?_⟩ ?_
    · rw [← hview]
      exact (insertable_ok hok).2
    · intro db' _
      have : (tx.advance sys.db _ k ext).ops = tx.ops ++ [.insert C.T r] := by
        rw [Tx.advance, hops]
      rw [this, replay_append, replay_cons, replay_nil, apply_insert_self,
        replay_of_table_ne db' hpend]
    · intro j tx' r₁ r' hj hact hr hr'
      obtain rfl : r = r₁ := ClaimPhase.owner.inj hr
      have hpj := h.pending j tx' hact
      rw [hr'] at hpj
      have hpk : ∀ r'' ∈ sys.db C.T, pk r'' ≠ pk r' := fun r'' hm =>
        ((hC.clash_false).mp (hpj.2.1 r'' hm)).1.symm
      have hn := Claim.no_clash_of_free (hself r') hpj hpk (hfree j tx' hj hact)
      exact ⟨hn, hC.clash_symm hn⟩
  | @lose r r' _ _ hmem hkey hops =>
    have hview : tx.view sys.db C.T = sys.db C.T := Claim.view_of_spare hpend
    have hp : C.Pending i sys.db (tx.advance sys.db _ k ext) .idle := hpend.append hops rfl
    refine h.advance hi _ k ext (.beaten r') ⟨hp, by rw [← hview]; exact hmem, hkey⟩ ?_
    intro j tx' r₁ r₂ _ _ hr
    cases hr
  | @revise r f _ _ hpk hkey hok =>
    have hcl : ∀ r', clash (f r) r' = false ↔ clash r r' = false := by
      intro r'
      rw [hC.clash_false, hC.clash_false, hpk, hkey]
    refine h.advance hi _ k ext (.owner (f r)) ⟨hkey.trans hpend.1, ?_, ?_⟩ ?_
    · intro r' hr'
      exact (hcl r').mpr (hpend.2.1 r' hr')
    · intro db' hdb'
      have hops : (tx.advance sys.db _ k ext).ops = tx.ops ++ [.update C.T (pk r) f] := by
        simp [Tx.advance, Stmt.eval, hok, onlyIfOk]
      have hdb'' : ∀ r' ∈ db' C.T, pk r' ≠ pk r := fun r' hr' => hpk ▸ hdb' r' hr'
      rw [hops, replay_append, replay_cons, replay_nil, apply_update_self,
        hpend.2.2 db' hdb'', List.map_append]
      congr 1
      · conv_rhs => rw [← List.map_id (db' C.T)]
        apply List.map_congr_left
        intro r' hr'
        simp [hdb'' r' hr']
      · simp
    · intro j tx' r₁ r' hj hact hr hr'
      obtain rfl : f r = r₁ := ClaimPhase.owner.inj hr
      have hd := h.disjoint i j tx tx' r r' (Ne.symm hj) hi hact hφ hr'
      exact ⟨(hcl r').mpr hd, hC.clash_symm ((hcl r').mpr hd)⟩

omit [DecidableEq C.K] in
/-- The end of a process that commits nothing on the marker table. -/
theorem Claim.Inv.close [DecidableEq ι] {ph : ι → ClaimPhase (Row C.T)}
    {sys : Sys Row Id Answer ε α ι} (h : C.Inv ph sys) {i : ι} {tx : Tx Row Id Answer ε α}
    (hi : sys.proc i = .active tx)
    {sys' : Sys Row Id Answer ε α ι} (hdb : sys'.db C.T = sys.db C.T)
    {p : Proc Row Id Answer ε α} (hproc : sys'.proc = Function.update sys.proc i p)
    (hact : ∀ tx', p ≠ .active tx')
    (hres : ∀ a, p = .committed a → (∀ r, ¬ C.produces i r a) ∧ (¬ C.passes i a →
      ∃ r ∈ sys.db C.T, C.key r = C.procKey i ∧ (C.produces i r a ∨ C.replays i r a))) :
    C.Inv ph sys' := by
  have hold : ∀ j t, sys'.proc j = .active t → j ≠ i ∧ sys.proc j = .active t := by
    intro j t hj
    rw [hproc] at hj
    by_cases hji : j = i
    · subst hji
      rw [Function.update_self] at hj
      exact absurd hj (hact t)
    · rw [Function.update_of_ne hji] at hj
      exact ⟨hji, hj⟩
  have hpast : ∀ j a, sys.proc j = .committed a → sys'.proc j = .committed a := by
    intro j a hj
    rw [hproc]
    by_cases hji : j = i
    · subst hji
      rw [hi] at hj
      cases hj
    · rw [Function.update_of_ne hji]
      exact hj
  have hcom : ∀ j a, sys'.proc j = .committed a →
      (j = i ∧ p = .committed a) ∨ sys.proc j = .committed a := by
    intro j a hj
    rw [hproc] at hj
    by_cases hji : j = i
    · subst hji
      rw [Function.update_self] at hj
      exact .inl ⟨rfl, hj⟩
    · rw [Function.update_of_ne hji] at hj
      exact .inr hj
  constructor
  · rw [hdb]
    exact h.unique
  · intro r hr
    rw [hdb] at hr
    obtain ⟨hf, j, a, hj, hk⟩ := h.rows r hr
    exact ⟨hf, j, a, hpast j a hj, hk⟩
  · intro j t hj
    have hp := h.pending j t (hold j t hj).2
    cases hφ : ph j with
    | idle => rw [hφ] at hp; exact hp
    | owner r => rw [hφ] at hp; exact ⟨hp.1, hdb ▸ hp.2.1, hp.2.2⟩
    | beaten r => rw [hφ] at hp; exact ⟨hp.1, hdb ▸ hp.2.1, hp.2.2⟩
  · intro j l t t' r r' hjl hj hl
    exact h.disjoint j l t t' r r' hjl (hold j t hj).2 (hold l t' hl).2
  · intro j a hj
    rw [hdb]
    rcases hcom j a hj with ⟨rfl, hp⟩ | hj'
    · exact (hres a hp).2
    · exact h.results j a hj'
  · intro j l a b r r' hjl hj hl hpj hpl
    rcases hcom j a hj with ⟨rfl, hp⟩ | hj'
    · exact absurd hpj ((hres a hp).1 r)
    · rcases hcom l b hl with ⟨rfl, hp⟩ | hl'
      · exact absurd hpl ((hres b hp).1 r')
      · exact h.once j l a b r r' hjl hj' hl' hpj hpl

include hC in
omit [DecidableEq C.K] in
/-- The commit of an owner adds its final marker. -/
theorem Claim.Lawful.commit_owner [DecidableEq ι] {ph : ι → ClaimPhase (Row C.T)}
    {sys : Sys Row Id Answer ε α ι} (h : C.Inv ph sys) {i : ι} {tx : Tx Row Id Answer ε α}
    (hi : sys.proc i = .active tx) {r : Row C.T} (hφ : ph i = .owner r) {a : α}
    (hfinal : C.final r) (hprod : C.produces i r a) : C.Inv ph (sys.commit i tx a) := by
  have hpend := h.pending i tx hi
  rw [hφ] at hpend
  obtain ⟨hkey, hfree, hview⟩ := hpend
  have hdb : (sys.commit i tx a).db C.T = sys.db C.T ++ [r] :=
    hview sys.db (fun r' hr' => ((hC.clash_false).mp (hfree r' hr')).1.symm)
  have hmem : ∀ r', r' ∈ (sys.commit i tx a).db C.T ↔ r' ∈ sys.db C.T ∨ r' = r := by
    intro r'
    rw [hdb]
    simp
  have hne : ∀ r' ∈ sys.db C.T, C.key r ≠ C.key r' := fun r' hr' =>
    ((hC.clash_false).mp (hfree r' hr')).2
  have hcom : ∀ j b, (sys.commit i tx a).proc j = .committed b →
      (j = i ∧ b = a) ∨ (j ≠ i ∧ sys.proc j = .committed b) := by
    intro j b hj
    by_cases hji : j = i
    · subst hji
      rw [commit_proc_self] at hj
      exact .inl ⟨rfl, (Proc.committed.inj hj).symm⟩
    · rw [commit_proc_of_ne _ hji] at hj
      exact .inr ⟨hji, hj⟩
  have hact : ∀ j t, (sys.commit i tx a).proc j = .active t → j ≠ i ∧ sys.proc j = .active t := by
    intro j t hj
    by_cases hji : j = i
    · subst hji
      rw [commit_proc_self] at hj
      cases hj
    · rw [commit_proc_of_ne _ hji] at hj
      exact ⟨hji, hj⟩
  -- An owner that committed earlier has another key: its marker is already there.
  have hkeys : ∀ j b r', sys.proc j = .committed b → C.produces j r' b →
      C.procKey i ≠ C.procKey j := by
    intro j b r₀ hj hprod heq
    obtain ⟨r', hr', hk', _⟩ := h.results j b hj (hC.exclusive j r₀ r₀ b hprod).2
    exact hne r' hr' (hkey.trans (heq.trans hk'.symm))
  constructor
  · intro r₁ h₁ r₂ h₂ hk
    rcases (hmem r₁).mp h₁ with h₁ | rfl <;> rcases (hmem r₂).mp h₂ with h₂ | rfl
    · exact h.unique r₁ h₁ r₂ h₂ hk
    · exact absurd hk.symm (hne r₁ h₁)
    · exact absurd hk (hne r₂ h₂)
    · rfl
  · intro r' hr'
    rcases (hmem r').mp hr' with hr' | rfl
    · obtain ⟨hf, j, b, hj, hk⟩ := h.rows r' hr'
      refine ⟨hf, j, b, ?_, hk⟩
      have hji : j ≠ i := by
        rintro rfl
        rw [hi] at hj
        cases hj
      rw [commit_proc_of_ne _ hji]
      exact hj
    · exact ⟨hfinal, i, a, commit_proc_self _ _ _ _, hkey, hprod⟩
  · intro j t hj
    obtain ⟨hji, hj'⟩ := hact j t hj
    have hp := h.pending j t hj'
    cases hφj : ph j with
    | idle => rw [hφj] at hp; exact hp
    | owner r' =>
      rw [hφj] at hp
      refine ⟨hp.1, fun r'' hr'' => ?_, hp.2.2⟩
      rcases (hmem r'').mp hr'' with hr'' | rfl
      · exact hp.2.1 r'' hr''
      · exact h.disjoint j i t tx r' r'' hji hj' hi hφj hφ
    | beaten r' =>
      rw [hφj] at hp
      exact ⟨hp.1, (hmem r').mpr (.inl hp.2.1), hp.2.2⟩
  · intro j l t t' r₁ r₂ hjl hj hl
    exact h.disjoint j l t t' r₁ r₂ hjl (hact j t hj).2 (hact l t' hl).2
  · intro j b hj
    rcases hcom j b hj with ⟨rfl, rfl⟩ | ⟨_, hj'⟩
    · exact fun _ => ⟨r, (hmem r).mpr (.inr rfl), hkey, .inl hprod⟩
    · intro hpasses
      obtain ⟨r', hr', hk', hres⟩ := h.results j b hj' hpasses
      exact ⟨r', (hmem r').mpr (.inl hr'), hk', hres⟩
  · intro j l b c r₁ r₂ hjl hj hl hpj hpl
    rcases hcom j b hj with ⟨rfl, rfl⟩ | ⟨_, hj'⟩
    · rcases hcom l c hl with ⟨rfl, _⟩ | ⟨_, hl'⟩
      · exact absurd rfl hjl
      · exact hkeys l c r₂ hl' hpl
    · rcases hcom l c hl with ⟨rfl, rfl⟩ | ⟨_, hl'⟩
      · exact (hkeys j b r₁ hj' hpj).symm
      · exact h.once j l b c r₁ r₂ hjl hj' hl' hpj hpl

include hC in
/-- Programs that follow the claiming discipline, started on an empty marker table, keep
the invariant in every interleaving. -/
theorem Claim.Lawful.reachable [DecidableEq ι] {progs : ι → TxProg Row Id Answer ε α} {db : Db Row}
    (hempty : db C.T = [])
    (hobeys : ∀ i, (C.discipline : Discipline Row Id Answer ε ι _).Obeys i (C.Post i) .idle
      (progs i))
    {sys : Sys Row Id Answer ε α ι} (hr : Reachable progs db sys) :
    ∃ ph, C.Inv ph sys ∧ ∀ i, C.discipline.Tracks C.Post ph i (sys.proc i) := by
  have hsound : (C.discipline : Discipline Row Id Answer ε ι _).Sound C.Post .idle C.Inv
      (fun _ _ => True) progs db := by
    refine ⟨hobeys, ?_, ?_, ?_, ?_, ?_⟩
    · constructor
      · intro r hr
        simp [Sys.init, hempty] at hr
      · intro r hr
        simp [Sys.init, hempty] at hr
      · intro i tx hi
        obtain rfl := Proc.active.inj hi
        intro op hop
        cases hop
      · intro i j tx tx' r r' _ _ _ hφ
        cases hφ
      · intro i a hi
        cases hi
      · intro i j a b r r' _ hi
        cases hi
    · intro ph sys i tx h hi
      exact h.sees hC hi
    · intro ph sys i tx s k ext φ h hi _ hfree hnext _
      exact hC.stmt h hi hfree hnext
    · intro ph sys i tx a h hi _ hpost _
      have hpend := h.pending i tx hi
      cases hφ : ph i with
      | idle =>
        rw [hφ] at hpend hpost
        refine h.close hi (Claim.view_of_spare hpend) rfl (fun _ hp => by cases hp) ?_
        intro b hb
        obtain rfl := Proc.committed.inj hb
        exact ⟨fun r hp => (hC.exclusive i r r a hp).2 hpost, fun hno => absurd hpost hno⟩
      | owner r =>
        rw [hφ] at hpost
        exact hC.commit_owner h hi hφ hpost.1 hpost.2
      | beaten r =>
        rw [hφ] at hpend hpost
        refine h.close hi (Claim.view_of_spare hpend.1) rfl (fun _ hp => by cases hp) ?_
        intro b hb
        obtain rfl := Proc.committed.inj hb
        exact ⟨fun r' hp => (hC.exclusive i r' r a hp).1 hpost,
          fun _ => ⟨r, hpend.2.1, hpend.2.2, .inr hpost⟩⟩
    · intro ph sys i tx e h hi _
      exact h.close hi rfl rfl (fun _ hp => by cases hp) (fun _ hp => by cases hp)
  exact hsound.reachable hr

end ClaimOnce

end Transactional
