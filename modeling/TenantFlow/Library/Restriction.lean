import TenantFlow.Library.Journal
import TenantFlow.Library.Sharing

/-!
# Leaving processes out

Every process acts for an owner and stays inside the border of that owner, and the borders of two
owners are apart. Then the steps of all other owners can be left out of an interleaved run: what
remains is a run, on any database with the same rows of the owner, in which the processes of the
owner do what they did.
-/

namespace Transactional

variable {Table : Type} {Row : Table → Type} {Id : Type}
  [Schema Row Id] {Call : Type} {Answer : Call → Type} {ε α ι κ : Type} [DecidableEq ι]
  {db db' : Db Row} {sys sys' next : Sys Row Id Answer ε α ι} {i : ι}
  {tx other : Tx Row Id Answer ε α} {W D : ι → Table → Prop}

/-! ## What waiting depends on -/

theorem Stmt.Needs.mono {view : Db Row} {Held : Table × Id → Prop}
    {Open Open' : (t : Table) → Row t → Prop} {s : Stmt Row Id Call} (h : s.Needs view Held Open)
    (hopen : ∀ t r, Open t r → Open' t r) : s.Needs view Held Open' := by
  cases s with
  | select q => exact h
  | selectForUpdate q l => exact h
  | insert t r =>
    obtain ⟨x, hclash, hx⟩ := h
    exact ⟨x, hclash, hopen _ _ hx⟩
  | insertOnConflictDoNothing t a r =>
    obtain ⟨x, hclash, hx⟩ := h
    exact ⟨x, hclash, hopen _ _ hx⟩
  | update t id f =>
    rcases h with hheld | ⟨r, hr, hpk, x, hne, hclash, hx⟩
    · exact .inl hheld
    · exact .inr ⟨r, hr, hpk, x, hne, hclash, hopen _ _ hx⟩
  | delete t id => exact h
  | call c => exact h

variable [DecidableEq Table] [DecidableEq Id]

/-- A transaction inside the border leaves the same rows undecided wherever the part is shared. -/
theorem Sharing.undecided {B : Border Row Id} (h : Sharing B db db')
    (hview : Sharing B (tx.view db) (tx.view db')) (hops : ∀ op ∈ tx.ops, op.Inside B) {t : Table}
    {r : Row t} (hr : tx.Undecided db' t r) : tx.Undecided db t r := by
  have hrest : B.part.rest (tx.view db') = B.part.rest db' := (inside_replay h.good' hops).2.2
  have hside : ∀ d d' : Db Row, B.part.rest d = B.part.rest d' → r ∈ d t → r ∉ d' t →
      B.part t r = true := by
    intro d d' hsame hd hd'
    by_contra hP
    have hmem : r ∈ B.part.rest d t := Part.mem_rest.mpr ⟨hd, by simpa using hP⟩
    rw [hsame] at hmem
    exact hd' (Part.mem_rest.mp hmem).1
  rcases hr with ⟨hdb, hnew⟩ | ⟨hdb, hnew⟩
  · have hP := hside _ _ hrest.symm hdb hnew
    exact .inl ⟨h.symm.mem hdb hP, fun hmem => hnew (hview.mem hmem hP)⟩
  · have hP := hside _ _ hrest hnew hdb
    exact .inr ⟨fun hmem => hdb (h.mem hmem hP), hview.symm.mem hnew hP⟩

/-! ## Many owners -/

section Owners

variable {B : κ → Border Row Id} {A : κ → (c : Call) → Answer c → Prop} {owner : ι → κ} {k l : κ}
  {ops : List (Op Row Id)}

/-- A good row of one owner is good for all. -/
def Compatible (B : κ → Border Row Id) : Prop :=
  ∀ k l t r, (B k).part t r = true → (B k).Good t r → (B l).Good t r

/-- Parts of two owners have no row of the tables in common. -/
def SeparateParts (B : κ → Border Row Id) (tables : Table → Prop) : Prop :=
  ∀ k l t r, k ≠ l → tables t → (B k).Good t r → (B k).part t r = true → (B l).part t r = false

theorem Compatible.good (hB : Compatible B) (hgood : ∀ l, AllGood (B l).Good db)
    (hops : ∀ op ∈ ops, op.Inside (B k)) (l : κ) : AllGood (B l).Good (replay ops db) := by
  obtain ⟨hgood', _, hrest⟩ := inside_replay (hgood k) hops
  intro t r hr
  cases hP : (B k).part t r with
  | true => exact hB k l t r hP (hgood' t r hr)
  | false =>
    have hold : r ∈ (B k).part.rest db t := hrest ▸ Part.mem_rest.mpr ⟨hr, hP⟩
    exact hgood l t r (Part.mem_rest.mp hold).1

/-- What one owner writes leaves the rows of the others. -/
theorem SeparateParts.mine_eq {tables : Table → Prop} (hB : SeparateParts B tables) (hne : k ≠ l)
    (hgood : AllGood (B k).Good db) (hops : ∀ op ∈ ops, op.Inside (B k))
    (htables : ∀ op ∈ ops, tables op.table) :
    (B l).part.mine (replay ops db) = (B l).part.mine db := by
  obtain ⟨hgood', _, hrest⟩ := inside_replay hgood hops
  funext t
  by_cases ht : tables t
  · have hfilter : ∀ d : Db Row, AllGood (B k).Good d →
        (B l).part.mine d t = ((B k).part.rest d t).filter ((B l).part t) := by
      intro d hd
      refine filter_eq_filter_filter fun r hr => ?_
      obtain ⟨hr, hP⟩ := List.mem_filter.mp hr
      exact hB k l t r hne ht (hd t r hr) (by simpa using hP)
    rw [hfilter _ hgood', hfilter _ hgood, hrest]
  · have hsame : replay ops db t = db t :=
      replay_of_table_ne db fun op hop htable => ht (htable ▸ htables op hop)
    simp only [Part.mine, hsame]

/-- All rows are good for every owner, and every open transaction stays inside the border of its
own. -/
structure Bordered (B : κ → Border Row Id) (A : κ → (c : Call) → Answer c → Prop) (owner : ι → κ)
    (sys : Sys Row Id Answer ε α ι) : Prop where
  good : ∀ k, AllGood (B k).Good sys.db
  inside : ∀ i tx, sys.proc i = .active tx → ∀ op ∈ tx.ops, op.Inside (B (owner i))
  coupled : ∀ i tx, sys.proc i = .active tx →
    Coupled (A (owner i)) (B (owner i)) (fun _ => True) tx.prog

/-- Calls gave the processes what their owners expect. -/
def Expected (A : κ → (c : Call) → Answer c → Prop) (owner : ι → κ)
    (trace : List (ι × Entry Row Id Answer)) : Prop :=
  ∀ i c x, (i, .called c x) ∈ trace → A (owner i) c x

omit [DecidableEq Table] [DecidableEq Id] [Schema Row Id] [DecidableEq ι] in
theorem Expected.admits {ext : (c : Call) → Answer c} {s : Stmt Row Id Call}
    (h : Expected A owner (sys.trace ++ (s.called ext).map fun e => (i, e))) :
    s.Admits (A (owner i)) ext := by
  cases s with
  | call c => exact h i c (ext c) (by simp [Stmt.called])
  | _ => trivial

omit [DecidableEq ι] in
theorem Bordered.view_good (h : Bordered B A owner sys) (hi : sys.proc i = .active tx) :
    AllGood (B (owner i)).Good (tx.view sys.db) :=
  (inside_replay (h.good _) (h.inside i tx hi)).1

theorem Bordered.step (hB : Compatible B) (h : Bordered B A owner sys)
    (hisolated : Isolated W D sys) (hexpected : Expected A owner next.trace)
    (hstep : Step sys next) : Bordered B A owner next := by
  cases hstep with
  | stmt i tx s k ext hi hp hfree =>
    have hview : Sharing (B (owner i)) (tx.view sys.db) (tx.view sys.db) :=
      ⟨rfl, h.view_good hi, h.view_good hi, hisolated.views i tx hi, hisolated.views i tx hi⟩
    have hprog := h.coupled i tx hi
    rw [hp] at hprog
    have hagrees := hprog.1 ext _ _ hview
    refine ⟨h.good, fun j tx' hj => ?_, fun j tx' hj => ?_⟩
    · rcases active_of_advance hj with ⟨rfl, rfl⟩ | ⟨_, hj⟩
      · intro op hop
        exact (List.mem_append.mp hop).elim (h.inside j tx hi op) (hagrees.inside op)
      · exact h.inside j tx' hj
    · rcases active_of_advance hj with ⟨rfl, rfl⟩ | ⟨_, hj⟩
      · exact hprog.2 _ ⟨ext, hexpected.admits, _, _, hview, rfl⟩
      · exact h.coupled j tx' hj
  | commit i tx a hi hp =>
    exact ⟨hB.good h.good (h.inside i tx hi),
      fun j tx' hj => h.inside j tx' (active_of_commit hj).2,
      fun j tx' hj => h.coupled j tx' (active_of_commit hj).2⟩
  | rollback i tx e hi hp =>
    exact ⟨h.good, fun j tx' hj => h.inside j tx' (active_of_abort hj).2,
      fun j tx' hj => h.coupled j tx' (active_of_abort hj).2⟩
  | cutOff i tx hi =>
    exact ⟨h.good, fun j tx' hj => h.inside j tx' (active_of_abort hj).2,
      fun j tx' hj => h.coupled j tx' (active_of_abort hj).2⟩

end Owners

/-! ## The run of one owner -/

section Shadow

variable [DecidableEq κ] {B : κ → Border Row Id} {A : κ → (c : Call) → Answer c → Prop}
  {owner : ι → κ} {k : κ} {progs : ι → TxProg Row Id Answer ε α}

/-- In the second system the processes of the owner stand where they stand in the first, and no
other has made a step. -/
structure Shadow (B : Border Row Id) (owner : ι → κ) (k : κ) (progs : ι → TxProg Row Id Answer ε α)
    (sys sys' : Sys Row Id Answer ε α ι) : Prop where
  same : B.part.mine sys'.db = B.part.mine sys.db
  good : AllGood B.Good sys'.db
  own : ∀ i, owner i = k → sys'.proc i = sys.proc i
  idle : ∀ i, owner i ≠ k → sys'.proc i = .active { prog := progs i }
  trace : sys'.trace = sys.trace.filter fun e => owner e.1 = k

omit [DecidableEq ι] in
theorem Shadow.sharing (h : Shadow (B k) owner k progs sys sys') (hb : Bordered B A owner sys)
    (hisolated : Isolated W D sys) (hisolated' : Isolated W D sys') :
    Sharing (B k) sys.db sys'.db :=
  ⟨h.same, hb.good k, h.good, hisolated.unclashing, hisolated'.unclashing⟩

omit [DecidableEq ι] in
theorem Shadow.view (h : Shadow (B k) owner k progs sys sys') (hb : Bordered B A owner sys)
    (hisolated : Isolated W D sys) (hisolated' : Isolated W D sys') (hk : owner i = k)
    (hi : sys.proc i = .active tx) : Sharing (B k) (tx.view sys.db) (tx.view sys'.db) :=
  (h.sharing hb hisolated hisolated').replay (hk ▸ hb.inside i tx hi) (hisolated.views i tx hi)
    (hisolated'.views i tx ((h.own i hk).trans hi))

omit [DecidableEq ι] in
/-- A statement of the owner that need not wait need not wait there either. -/
theorem Shadow.free (h : Shadow (B k) owner k progs sys sys') (hb : Bordered B A owner sys)
    (hisolated : Isolated W D sys) (hisolated' : Isolated W D sys')
    {s : Stmt Row Id Call} {ext : (c : Call) → Answer c}
    (hagrees : s.Agrees (B k) ext (tx.view sys.db) (tx.view sys'.db))
    (hfree : ∀ j other, j ≠ i → sys.proc j = .active other →
      ¬ Waits sys.db (tx.view sys.db) other s) (j : ι) (other : Tx Row Id Answer ε α) (hji : j ≠ i)
    (hj : sys'.proc j = .active other) : ¬ Waits sys'.db (tx.view sys'.db) other s := by
  by_cases hkj : owner j = k
  · have hj' : sys.proc j = .active other := (h.own j hkj).symm.trans hj
    have hshared := h.sharing hb hisolated hisolated'
    intro hwaits
    refine hfree j other hji hj' (waits_iff.mpr ?_)
    refine (hagrees.needs _ _ (waits_iff.mp hwaits)).mono fun t r hr => ?_
    exact hshared.undecided (h.view hb hisolated hisolated' hkj hj')
      (hkj ▸ hb.inside j other hj') hr
  · have hquiet := h.idle j hkj
    rw [hj] at hquiet
    obtain rfl := Proc.active.inj hquiet
    exact not_waits_of_quiet ⟨rfl, rfl⟩ s

omit [DecidableEq Table] [DecidableEq Id] in
/-- The process of the owner does the same in both systems. -/
theorem Shadow.move (h : Shadow (B k) owner k progs sys sys') (hk : owner i = k)
    {next next' : Sys Row Id Answer ε α ι} {p : Proc Row Id Answer ε α}
    (es : List (Entry Row Id Answer)) (hproc : next.proc = Function.update sys.proc i p)
    (hproc' : next'.proc = Function.update sys'.proc i p)
    (htrace : next.trace = sys.trace ++ es.map fun e => (i, e))
    (htrace' : next'.trace = sys'.trace ++ es.map fun e => (i, e))
    (hsame : (B k).part.mine next'.db = (B k).part.mine next.db)
    (hgood : AllGood (B k).Good next'.db) : Shadow (B k) owner k progs next next' where
  same := hsame
  good := hgood
  own j hj := by
    rw [hproc, hproc']
    by_cases hji : j = i
    · subst hji
      rw [Function.update_self, Function.update_self]
    · rw [Function.update_of_ne hji, Function.update_of_ne hji]
      exact h.own j hj
  idle j hj := by
    have hji : j ≠ i := by
      rintro rfl
      exact hj hk
    rw [hproc', Function.update_of_ne hji]
    exact h.idle j hj
  trace := by
    rw [htrace, htrace', List.filter_append, h.trace]
    refine congrArg (List.append _) (List.filter_eq_self.mpr fun e he => ?_).symm
    obtain ⟨x, _, rfl⟩ := List.mem_map.mp he
    simpa using hk

omit [DecidableEq Table] [DecidableEq Id] in
/-- A process of another owner moves in the first system only. -/
theorem Shadow.stay (h : Shadow (B k) owner k progs sys sys') (hk : owner i ≠ k)
    {next : Sys Row Id Answer ε α ι} {p : Proc Row Id Answer ε α}
    (es : List (Entry Row Id Answer)) (hproc : next.proc = Function.update sys.proc i p)
    (htrace : next.trace = sys.trace ++ es.map fun e => (i, e))
    (hsame : (B k).part.mine next.db = (B k).part.mine sys.db) :
    Shadow (B k) owner k progs next sys' where
  same := h.same.trans hsame.symm
  good := h.good
  own j hj := by
    have hji : j ≠ i := by
      rintro rfl
      exact hk hj
    rw [hproc, Function.update_of_ne hji]
    exact h.own j hj
  idle := h.idle
  trace := by
    have hnone : (es.map fun e => (i, e)).filter (fun e => owner e.1 = k) = [] := by
      refine List.filter_eq_nil_iff.mpr fun e he => ?_
      obtain ⟨x, _, rfl⟩ := List.mem_map.mp he
      simpa using hk
    rw [htrace, List.filter_append, hnone, List.append_nil]
    exact h.trace

theorem Shadow.advance (h : Shadow (B k) owner k progs sys sys') (hb : Bordered B A owner sys)
    (hisolated : Isolated W D sys) (hisolated' : Isolated W D sys') (hk : owner i = k)
    {s : Stmt Row Id Call} {f : s.Ans Answer → TxProg Row Id Answer ε α}
    {ext : (c : Call) → Answer c} (hi : sys.proc i = .active tx) (hp : tx.prog = .step s f)
    (hfree : ∀ j other, j ≠ i → sys.proc j = .active other →
      ¬ Waits sys.db (tx.view sys.db) other s) :
    Step sys' (sys'.advance i tx s f ext) ∧
      Shadow (B k) owner k progs (sys.advance i tx s f ext) (sys'.advance i tx s f ext) := by
  have hprog := hb.coupled i tx hi
  rw [hp, hk] at hprog
  have hagrees := hprog.1 ext _ _ (h.view hb hisolated hisolated' hk hi)
  have hsame : tx.advance sys'.db s f ext = tx.advance sys.db s f ext := by
    simp only [Tx.advance, hagrees.eval, hagrees.locks]
  refine ⟨.stmt i tx s f ext ((h.own i hk).trans hi) hp
    (h.free hb hisolated hisolated' hagrees hfree), h.move hk _ rfl ?_ rfl rfl h.same h.good⟩
  simp only [Sys.advance, hsame]

theorem Shadow.commit (h : Shadow (B k) owner k progs sys sys') (hb : Bordered B A owner sys)
    (hk : owner i = k) (a : α) (hi : sys.proc i = .active tx) :
    Shadow (B k) owner k progs (sys.commit i tx a) (sys'.commit i tx a) := by
  have hinside : ∀ op ∈ tx.ops, op.Inside (B k) := hk ▸ hb.inside i tx hi
  obtain ⟨_, hmine, _⟩ := inside_replay (hb.good k) hinside
  obtain ⟨hgood', hmine', _⟩ := inside_replay h.good hinside
  refine h.move hk [.committed tx.ops] rfl rfl rfl rfl ?_ hgood'
  exact hmine'.trans ((congrArg (replay tx.ops) h.same).trans hmine.symm)

omit [DecidableEq Table] [DecidableEq Id] in
theorem Shadow.abort (h : Shadow (B k) owner k progs sys sys') (hk : owner i = k) (e : Option ε) :
    Shadow (B k) owner k progs (sys.abort i e) (sys'.abort i e) :=
  h.move hk [] rfl rfl (List.append_nil _).symm (List.append_nil _).symm h.same h.good

/-- A step of the owner is a step in the second system; any other step is none. -/
theorem Shadow.step {tables : Table → Prop} (hapart : SeparateParts B tables)
    (htables : ∀ i t, W i t ∨ D i t → tables t) (h : Shadow (B k) owner k progs sys sys')
    (hb : Bordered B A owner sys) (hisolated : Isolated W D sys) (hisolated' : Isolated W D sys')
    (hstep : Step sys next) :
    ∃ next', Relation.ReflTransGen Step sys' next' ∧ Shadow (B k) owner k progs next next' := by
  cases hstep with
  | stmt i tx s f ext hi hp hfree =>
    by_cases hk : owner i = k
    · obtain ⟨hstep, hnext⟩ := h.advance hb hisolated hisolated' hk hi hp hfree
      exact ⟨_, .single hstep, hnext⟩
    · exact ⟨sys', .refl, h.stay hk _ rfl rfl rfl⟩
  | commit i tx a hi hp =>
    by_cases hk : owner i = k
    · exact ⟨sys'.commit i tx a, .single (.commit i tx a ((h.own i hk).trans hi) hp),
        h.commit hb hk a hi⟩
    · refine ⟨sys', .refl, h.stay hk [.committed tx.ops] rfl rfl ?_⟩
      exact hapart.mine_eq hk (hb.good _) (hb.inside i tx hi) fun op hop =>
        htables i _ (hisolated.within i tx hi op hop).table
  | rollback i tx e hi hp =>
    by_cases hk : owner i = k
    · exact ⟨sys'.abort i (some e), .single (.rollback i tx e ((h.own i hk).trans hi) hp),
        h.abort hk (some e)⟩
    · exact ⟨sys', .refl, h.stay hk [] rfl (List.append_nil _).symm rfl⟩
  | cutOff i tx hi =>
    by_cases hk : owner i = k
    · exact ⟨sys'.abort i none, .single (.cutOff i tx ((h.own i hk).trans hi)), h.abort hk none⟩
    · exact ⟨sys', .refl, h.stay hk [] rfl (List.append_nil _).symm rfl⟩

/-- The other owners can be left out of a run. -/
theorem Reachable.restrict [Schema.Lawful Row Id] {tables : Table → Prop} (hB : Compatible B)
    (hapart : SeparateParts B tables) (htables : ∀ i t, W i t ∨ D i t → tables t)
    (hprogs : ∀ i, Orderly (W i) (D i) (progs i))
    (hcoupled : ∀ i, Coupled (A (owner i)) (B (owner i)) (fun _ => True) (progs i))
    (hdb : Unclashing db) (hgood : ∀ l, AllGood (B l).Good db) (hdb' : Unclashing db')
    (hgood' : AllGood (B k).Good db') (hsame : (B k).part.mine db' = (B k).part.mine db)
    (hr : Reachable progs db sys) (hexpected : Expected A owner sys.trace) :
    Bordered B A owner sys ∧
      ∃ sys', Reachable progs db' sys' ∧ Shadow (B k) owner k progs sys sys' := by
  induction hr with
  | refl =>
    refine ⟨⟨hgood, fun i tx hi => ?_, fun i tx hi => ?_⟩, Sys.init progs db', .refl, hsame, hgood',
      fun _ _ => rfl, fun _ _ => rfl, rfl⟩
    · obtain rfl := Proc.active.inj hi
      exact fun op hop => absurd hop List.not_mem_nil
    · obtain rfl := Proc.active.inj hi
      exact hcoupled i
  | tail hr hstep ih =>
    obtain ⟨more, hmore⟩ := hstep.1.exists_trace
    obtain ⟨hb, sys', hr', hshadow⟩ := ih fun i c x hmem =>
      hexpected i c x (hmore ▸ List.mem_append_left _ hmem)
    have hisolated := ReachableVia.isolated hprogs hdb hr
    obtain ⟨next', hsteps, hnext⟩ :=
      hshadow.step hapart htables hb hisolated (ReachableVia.isolated hprogs hdb' hr') hstep.1
    exact ⟨hb.step hB hisolated hexpected hstep.1, next', hr'.steps hsteps, hnext⟩

end Shadow

end Transactional
