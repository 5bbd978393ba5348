import TenantFlow.Library.Journal

/-!
# The databases that a transaction saw

A process may note the views of its statements, each with the writes that it had sent by then.
In a run such a view is the committed database of some time with these writes on top of it. So
what one program does with whatever it sees is true of every commit, and what was seen comes
before the commit in the trace.
-/

namespace Transactional

section Views

variable {Table : Type} {Row : Table → Type} {Id : Type} {Call : Type} {Answer : Call → Type}
  {ε α β ι : Type}

/-- The writes of a process so far, and its views with the writes before each of them. -/
structure Notes (Row : Table → Type) (Id : Type) where
  ops : List (Op Row Id) := []
  seen : List (List (Op Row Id) × Db Row) := []

def Notes.wrote (notes : Notes Row Id) (op : Op Row Id) : Notes Row Id :=
  { notes with ops := notes.ops ++ [op] }

def Notes.saw (notes : Notes Row Id) (view : Db Row) : Notes Row Id :=
  { notes with seen := notes.seen ++ [(notes.ops, view)] }

theorem Notes.mem_saw {notes : Notes Row Id} {view : Db Row}
    {x : List (Op Row Id) × Db Row}
    (h : x ∈ (notes.saw view).seen) : x ∈ notes.seen ∨ x = (notes.ops, view) := by
  simpa [Notes.saw] using h

variable [DecidableEq Id] [Schema Row Id]

/-- All writes are noted, and any views. -/
def notesDiscipline : Discipline Row Id Answer ε ι (Notes Row Id) where
  sees _ _ _ := True
  next _ notes s view env notes' := notes'.ops = notes.ops ++ (s.eval env view).2 ∧
    ∀ x ∈ notes'.seen, x ∈ notes.seen ∨ x = (notes.ops, view)
  fails _ _ _ := True

/-! ## Rules for programs -/

section Rules

variable {i : ι} {post : Notes Row Id → β → Prop} {notes : Notes Row Id}

theorem notes_select {γ : Type} {q : Db Row → γ} {k : γ → TxProg Row Id Answer ε β}
    (h : ∀ view, notesDiscipline.Obeys i post (notes.saw view) (k (q view))) :
    notesDiscipline.Obeys i post notes (.step (.select q) k) := by
  intro view env _
  exact ⟨notes.saw view, ⟨by simp [Notes.saw, Stmt.eval], fun _ => Notes.mem_saw⟩, h view⟩

theorem notes_call {c : Call} {k : Answer c → TxProg Row Id Answer ε β}
    (h : ∀ x, notesDiscipline.Obeys i post notes (k x)) :
    notesDiscipline.Obeys i post notes (.step (.call c) k) := by
  intro view env _
  exact ⟨notes, ⟨by simp [Stmt.eval], fun _ => .inl⟩, h (env c)⟩

theorem notes_insert {t : Table} {r : Row t} {k : Except DbError Unit → TxProg Row Id Answer ε β}
    (hok : notesDiscipline.Obeys i post (notes.wrote (.insert t r)) (k (.ok ())))
    (hfail : ∀ e, notesDiscipline.Obeys i post notes (k (.error e))) :
    notesDiscipline.Obeys i post notes (.step (.insert t r) k) := by
  intro view env _
  cases hins : insertable view r with
  | ok u =>
    refine ⟨notes.wrote (.insert t r), ⟨?_, fun _ => .inl⟩, ?_⟩
    · simp [Notes.wrote, Stmt.eval, hins, onlyIfOk]
    · simpa [Stmt.eval, hins] using hok
  | error e =>
    refine ⟨notes, ⟨?_, fun _ => .inl⟩, ?_⟩
    · simp [Stmt.eval, hins, onlyIfOk]
    · simpa [Stmt.eval, hins] using hfail e

theorem notes_update {t : Table} {id : Id} {f : Row t → Row t}
    {k : Except DbError Unit → TxProg Row Id Answer ε β}
    (hok : notesDiscipline.Obeys i post (notes.wrote (.update t id f)) (k (.ok ())))
    (hfail : ∀ e, notesDiscipline.Obeys i post notes (k (.error e))) :
    notesDiscipline.Obeys i post notes (.step (.update t id f) k) := by
  intro view env _
  cases hup : updatable view t id f with
  | ok u =>
    refine ⟨notes.wrote (.update t id f), ⟨?_, fun _ => .inl⟩, ?_⟩
    · simp [Notes.wrote, Stmt.eval, hup, onlyIfOk]
    · simpa [Stmt.eval, hup] using hok
  | error e =>
    refine ⟨notes, ⟨?_, fun _ => .inl⟩, ?_⟩
    · simp [Stmt.eval, hup, onlyIfOk]
    · simpa [Stmt.eval, hup] using hfail e

theorem notes_insertOnConflict {t : Table} {arbiter : Row t → Row t → Bool} {r : Row t}
    {k : Except DbError Bool → TxProg Row Id Answer ε β}
    (hin : ∀ view,
      notesDiscipline.Obeys i post ((notes.saw view).wrote (.insert t r)) (k (.ok true)))
    (hout : notesDiscipline.Obeys i post notes (k (.ok false)))
    (hfail : ∀ e, notesDiscipline.Obeys i post notes (k (.error e))) :
    notesDiscipline.Obeys i post notes (.step (.insertOnConflictDoNothing t arbiter r) k) := by
  intro view env _
  by_cases hany : (view t).any (arbiter r) = true
  · refine ⟨notes, ⟨?_, fun _ => .inl⟩, ?_⟩
    · simp [Stmt.eval, hany]
    · simpa [Stmt.eval, hany] using hout
  cases hins : insertable view r with
  | ok u =>
    refine ⟨(notes.saw view).wrote (.insert t r), ⟨?_, fun _ => Notes.mem_saw⟩, ?_⟩
    · simp [Notes.wrote, Notes.saw, Stmt.eval, hany, hins, onlyIfOk, Except.map]
    · simpa [Stmt.eval, hany, hins, Except.map] using hin view
  | error e =>
    refine ⟨notes, ⟨?_, fun _ => .inl⟩, ?_⟩
    · simp [Stmt.eval, hany, hins, onlyIfOk, Except.map]
    · simpa [Stmt.eval, hany, hins, Except.map] using hfail e

end Rules

/-! ## Notes beside the trace -/

variable [DecidableEq Table]

/-- The committed database of some time of the trace, with the writes on top of it. -/
def WasView (db : Db Row) (trace : List (ι × Entry Row Id Answer)) (ops : List (Op Row Id))
    (view : Db Row) : Prop :=
  ∃ before, before <+: trace ∧ view = replay ops (dbAfter db before)

theorem WasView.extend {db view : Db Row} {trace : List (ι × Entry Row Id Answer)}
    {ops : List (Op Row Id)} (h : WasView db trace ops view)
    (more : List (ι × Entry Row Id Answer)) : WasView db (trace ++ more) ops view := by
  obtain ⟨before, hbefore, rfl⟩ := h
  exact ⟨before, hbefore.trans (List.prefix_append _ _), rfl⟩

variable [DecidableEq ι]

/-- The notes of the processes of a run that started on `db`. -/
structure Noted (post : ι → Notes Row Id → α → Prop) (db : Db Row) (notes : ι → Notes Row Id)
    (sys : Sys Row Id Answer ε α ι) : Prop where
  db_eq : sys.db = dbAfter db sys.trace
  writes : ∀ i tx, sys.proc i = .active tx → tx.ops = (notes i).ops
  seen : ∀ i tx, sys.proc i = .active tx →
    ∀ x ∈ (notes i).seen, WasView db sys.trace x.1 x.2
  committed : ∀ i before ops after, sys.trace = before ++ (i, .committed ops) :: after →
    ops = (notes i).ops ∧ (∀ x ∈ (notes i).seen, WasView db before x.1 x.2) ∧
      ∃ a, sys.proc i = .committed a ∧ post i (notes i) a

section Noted

variable {post : ι → Notes Row Id → α → Prop} {db : Db Row} {notes : ι → Notes Row Id}
  {sys : Sys Row Id Answer ε α ι} {i : ι} {tx : Tx Row Id Answer ε α}

theorem Noted.stmt (h : Noted post db notes sys) (hi : sys.proc i = .active tx)
    {s : Stmt Row Id Call} {k : s.Ans Answer → TxProg Row Id Answer ε α}
    {env : (c : Call) → Answer c} {notes' : Notes Row Id}
    (hops : notes'.ops = (notes i).ops ++ (s.eval env (tx.view sys.db)).2)
    (hseen : ∀ x ∈ notes'.seen, x ∈ (notes i).seen ∨ x = ((notes i).ops, tx.view sys.db)) :
    Noted post db (Function.update notes i notes') (sys.advance i tx s k env) where
  db_eq := by
    change sys.db = dbAfter db (sys.trace ++ _)
    rw [dbAfter_append, dbAfter_calls]
    exact h.db_eq
  writes j txj hj := by
    rcases active_of_advance hj with ⟨rfl, rfl⟩ | ⟨hji, hj⟩
    · rw [Function.update_self, hops, ← h.writes j tx hi]
      rfl
    · rw [Function.update_of_ne hji]
      exact h.writes j txj hj
  seen j txj hj x hx := by
    rcases active_of_advance hj with ⟨rfl, rfl⟩ | ⟨hji, hj⟩
    · rw [Function.update_self] at hx
      rcases hseen x hx with hx | rfl
      · exact (h.seen j tx hi x hx).extend _
      · refine ⟨sys.trace, List.prefix_append _ _, ?_⟩
        rw [← h.db_eq, ← h.writes j tx hi]
        rfl
    · rw [Function.update_of_ne hji] at hx
      exact (h.seen j txj hj x hx).extend _
  committed j before ops after htrace := by
    obtain ⟨m, hm⟩ := commit_of_advance htrace
    obtain ⟨hops, hseen, a, ha, hpost⟩ := h.committed j before ops m hm
    have hji : j ≠ i := by
      rintro rfl
      rw [hi] at ha
      cases ha
    rw [Function.update_of_ne hji, advance_proc_of_ne _ hji]
    exact ⟨hops, hseen, a, ha, hpost⟩

theorem Noted.commit (h : Noted post db notes sys) (hi : sys.proc i = .active tx) {a : α}
    (hpost : post i (notes i) a) : Noted post db notes (sys.commit i tx a) where
  db_eq := by
    change replay tx.ops sys.db = dbAfter db (sys.trace ++ _)
    rw [dbAfter_append, dbAfter_committed, ← h.db_eq]
  writes j txj hj := h.writes j txj (active_of_commit hj).2
  seen j txj hj x hx := (h.seen j txj (active_of_commit hj).2 x hx).extend _
  committed j before ops after htrace := by
    rcases commit_of_commit htrace with ⟨m, hm⟩ | ⟨rfl, rfl, rfl⟩
    · obtain ⟨hops, hseen, b, hb, hpostb⟩ := h.committed j before ops m hm
      exact ⟨hops, hseen, b, committed_commit hi hb, hpostb⟩
    · exact ⟨h.writes i tx hi, h.seen i tx hi, a, commit_proc_self _ _ _ _, hpost⟩

theorem Noted.abort (h : Noted post db notes sys) (hi : sys.proc i = .active tx) {e : Option ε} :
    Noted post db notes (sys.abort i e) where
  db_eq := h.db_eq
  writes j txj hj := h.writes j txj (active_of_abort hj).2
  seen j txj hj := h.seen j txj (active_of_abort hj).2
  committed j before ops after htrace := by
    obtain ⟨hops, hseen, b, hb, hpost⟩ := h.committed j before ops after htrace
    exact ⟨hops, hseen, b, (committed_abort_iff hi).mpr hb, hpost⟩

/-- If, whatever it sees, every program returns only with notes and results related by `post`,
then so are the notes and results of all commits. -/
theorem ReachableVia.noted {ok : Sys Row Id Answer ε α ι → Sys Row Id Answer ε α ι → Prop}
    {progs : ι → TxProg Row Id Answer ε α}
    (h : ∀ i, notesDiscipline.Obeys i (post i) {} (progs i)) (hr : ReachableVia ok progs db sys) :
    ∃ notes, Noted post db notes sys := by
  have hsound : (notesDiscipline : Discipline Row Id Answer ε ι _).Sound post {} (Noted post db) ok
      progs db := by
    refine ⟨h, ⟨rfl, fun i tx hi => ?_, fun i tx hi x hx => absurd hx List.not_mem_nil,
      fun i before ops after h => ?_⟩, fun _ _ _ _ _ _ => trivial, ?_, ?_, ?_⟩
    · obtain rfl := Proc.active.inj hi
      rfl
    · exact absurd h (by simp [Sys.init])
    · exact fun notes sys i tx s k env notes' hJ hi _ _ hnext _ => hJ.stmt hi hnext.1 hnext.2
    · exact fun notes sys i tx a hJ hi _ hpost _ => hJ.commit hi hpost
    · exact fun notes sys i tx e hJ hi _ => hJ.abort hi
  obtain ⟨notes, hnoted, _⟩ := hsound.reachable hr
  exact ⟨notes, hnoted⟩

end Noted

end Views

end Transactional
