import Mathlib.Data.Prod.Lex
import Mathlib.Order.Lattice
import TenantFlow.Library.Keyset
import TenantFlow.Verification.Cursors
import TenantFlow.Verification.ReferenceMonitor

/-!
# Walking through the pages of tasks and projects

A client that follows `next_cursor` makes one request after the other, while the tables
change in between. The position in a cursor is the pair `(created_at, id)` of the last row
shown, and the list routes are keyset pages in that order.
-/

namespace TenantFlow

open JsonText Transactional

/-! ## Cursors in order -/

/-- The order of `(created_at, id)`; uuids compare byte by byte. -/
def Cursor.rank (c : Cursor) : Int ×ₗ Nat := toLex (c.createdAt, c.entityId.bits.toNat)

theorem Cursor.rank_injective : Function.Injective Cursor.rank := by
  rintro ⟨t, ⟨u⟩⟩ ⟨t', ⟨u'⟩⟩ h
  obtain ⟨rfl, hbits⟩ := Prod.mk.inj (toLex.injective h)
  obtain rfl := BitVec.eq_of_toNat_eq hbits
  rfl

instance : LinearOrder Cursor := LinearOrder.lift' Cursor.rank Cursor.rank_injective

theorem Cursor.lt_iff {c d : Cursor} : c < d ↔
    c.createdAt < d.createdAt ∨ c.createdAt = d.createdAt ∧ c.entityId < d.entityId :=
  Prod.Lex.lt_iff

theorem Cursor.le_iff {c d : Cursor} : c ≤ d ↔
    c.createdAt < d.createdAt ∨ c.createdAt = d.createdAt ∧ ¬ d.entityId < c.entityId := by
  rw [← not_lt, Cursor.lt_iff]
  constructor
  · intro h
    rcases Int.lt_trichotomy c.createdAt d.createdAt with hlt | heq | hgt
    · exact .inl hlt
    · exact .inr ⟨heq, fun hid => h (.inr ⟨heq.symm, hid⟩)⟩
    · exact absurd (.inl hgt) h
  · rintro (hlt | ⟨heq, hid⟩) (hgt | ⟨heq', hid'⟩)
    · exact Int.lt_asymm hlt hgt
    · exact Int.ne_of_lt hlt heq'.symm
    · exact Int.ne_of_lt hgt heq.symm
    · exact hid hid'

section Pages

variable {ρ : Type} (createdAt : ρ → Datetime) (id : ρ → UUID)

/-- The cursor of a row. -/
def position (r : ρ) : Cursor := ⟨createdAt r, id r⟩

theorem keysetPage_eq (p : Option Cursor) (limit : Nat) (rows : List ρ) :
    keysetPage createdAt id p limit rows =
      (Keyset.descending (position createdAt id) p rows).take (limit + 1) := by
  have hafter : (fun r : ρ => p.all fun p =>
      decide (createdAt r < p.createdAt ∨ createdAt r = p.createdAt ∧ id r < p.entityId)) =
        Keyset.beyond (position createdAt id) p := by
    funext r
    unfold Keyset.beyond
    congr 1
    funext c
    exact decide_eq_decide.mpr (Cursor.lt_iff (c := position createdAt id r) (d := c)).symm
  have hle : (fun a b : ρ =>
      decide (createdAt b < createdAt a ∨ createdAt a = createdAt b ∧ ¬ id a < id b)) =
        fun a b => decide (position createdAt id b ≤ position createdAt id a) := by
    funext a b
    have hle := Cursor.le_iff (c := position createdAt id b) (d := position createdAt id a)
    refine decide_eq_decide.mpr (Iff.trans ?_ hle.symm)
    simp only [position, eq_comm]
  simp only [keysetPage, Keyset.descending, hafter, hle]

theorem keysetPage_take (p : Option Cursor) (limit : Nat) (rows : List ρ) :
    (keysetPage createdAt id p limit rows).take limit =
      Keyset.page (position createdAt id) p limit rows := by
  rw [keysetPage_eq, List.take_take, Nat.min_eq_left (Nat.le_succ limit)]
  rfl

theorem nextCursor_eq [Platform] (p : Option Cursor) (limit : Nat) (rows : List ρ) :
    nextCursor createdAt id limit (keysetPage createdAt id p limit rows) =
      (Keyset.nextPosition (position createdAt id) p limit rows).map fun c =>
        encodeCursor c.createdAt 0 c.entityId := by
  unfold nextCursor Keyset.nextPosition
  rw [keysetPage_take, keysetPage_eq, List.length_take]
  by_cases h : limit < (Keyset.descending (position createdAt id) p rows).length
  · rw [if_pos (by omega), if_pos h, Option.map_map]
    rfl
  · rw [if_neg (by omega), if_neg h]
    rfl

end Pages

/-! ## The list routes -/

theorem mapM_ok {ε α β : Type} {f : α → Except ε β} {g : α → β} {l : List α}
    (h : ∀ a ∈ l, f a = .ok (g a)) : l.mapM f = .ok (l.map g) := by
  induction l with
  | nil => rfl
  | cons a l ih =>
    rw [List.mapM_cons, h a List.mem_cons_self, ih fun b hb => h b (List.mem_cons_of_mem a hb)]
    rfl

section Routes

variable [Platform] {db : Db Row} {organizationId userId : UUID} {context : OrganizationContext}
  {limit : Nat}

/-- A task as the API shows it; its title, status and priority are `NOT NULL`. -/
def Task.shown (t : Task) : TaskResponse :=
  { id := t.id, organizationId := t.organizationId, projectId := t.projectId,
    title := t.title.getD "", description := t.description, status := t.status.getD .todo,
    priority := t.priority.getD .medium, assigneeId := t.assigneeId, createdBy := t.createdBy,
    dueAt := t.dueAt, createdAt := t.createdAt, updatedAt := t.updatedAt }

def Project.shown (p : Project) : ProjectResponse :=
  { id := p.id, organizationId := p.organizationId, name := p.name.getD "",
    description := p.description, status := p.status.getD .active, createdBy := p.createdBy,
    createdAt := p.createdAt, updatedAt := p.updatedAt }

omit [Platform] in
theorem toResponse_of_consistent (hdb : Consistent db) :
    (∀ t ∈ db .tasks, t.toResponse = .ok t.shown) ∧
      ∀ p ∈ db .projects, p.toResponse = .ok p.shown := by
  refine ⟨fun t ht => ?_, fun p hp => ?_⟩
  · have hcheck := (check_eq_none_iff.mp (hdb.checks .tasks t ht)).2.1
    simp only [constraintsOk, Bool.and_eq_true, Option.isSome_iff_exists] at hcheck
    obtain ⟨⟨⟨title, htitle⟩, status, hstatus⟩, priority, hpriority⟩ := hcheck
    simp [Task.toResponse, Task.shown, htitle, hstatus, hpriority]
  · have hcheck := (check_eq_none_iff.mp (hdb.checks .projects p hp)).2.1
    simp only [constraintsOk, Bool.and_eq_true, Option.isSome_iff_exists] at hcheck
    obtain ⟨⟨name, hname⟩, status, hstatus⟩ := hcheck
    simp [Project.toResponse, Project.shown, hname, hstatus]

/-- The tasks of the organization that pass the filters. -/
def matchingTasks (organizationId : UUID) (filter : TaskFilter) (db : Db Row) : List Task :=
  (db .tasks).filter fun t => t.organizationId = organizationId ∧ filter.accepts t

def projectsOf (organizationId : UUID) (db : Db Row) : List Project :=
  (db .projects).filter (·.organizationId = organizationId)

/-- A list route, run on the cursor of a position. -/
theorem run_listRoute {α ρ δ γ : Type} (ok : α → Bool) (cursor : α → Option String)
    (q : α → Option Cursor → Db Row → List ρ) (items : α → List ρ → Except Failure (List δ))
    (result : α → List ρ → List δ → γ) {a : α} {p : Option Cursor} {xs : List δ}
    (hcodec : CursorCodec)
    (hcontext : contextOf .projectRead organizationId userId db = .ok context)
    (hok : ok a = true) (hcursor : cursor a = p.map Cursor.encode)
    (hitems : items a (q a p db) = .ok xs) (oracle : Oracle Answer) :
    ∃ n, ((requirePermission .projectRead organizationId userId).bind fun _ =>
        (validated (some a) ok).bind fun a => (cursorPosition (cursor a)).bind fun position =>
          (select (q a position)).bind fun rows => (Prog.ofExcept (items a rows)).bind fun xs =>
            .ret (result a rows xs) : App γ).run (execStmt oracle) ⟨db, 0⟩ =
      (.ok (result a (q a p db) xs), ⟨db, n⟩) := by
  obtain ⟨n, hpermission⟩ :=
    run_requirePermission oracle .projectRead organizationId userId ⟨db, 0⟩
  rw [hcontext] at hpermission
  refine ⟨n + 1, ?_⟩
  rw [Prog.run_bind_ok hpermission]
  simp only [validated, hok, if_true, Prog.ret_bind, hcursor, cursorPosition_encode hcodec]
  rw [Prog.run_bind_ok (run_select _ _), hitems]
  rfl

theorem serve_of_run {request : OrganizationRequest} {oracle : Oracle Answer} {α : Type}
    {p : App α} {f : α → Response} {a : α} {st : Session Row}
    (hhandler : request.handler organizationId userId = p.bind fun a => .ret (f a))
    (hrun : p.run (execStmt oracle) ⟨db, 0⟩ = (.ok a, st)) :
    (serve oracle request organizationId userId db).1 = .ok (f a) := by
  have hrun' : (request.handler organizationId userId).run (execStmt oracle) ⟨db, 0⟩ =
      (.ok (f a), st) := by
    rw [hhandler, Prog.run_bind_ok hrun]
    rfl
  rw [serve, transaction_ok hrun']

theorem serve_listTasks (hcodec : CursorCodec) (hdb : Consistent db)
    (hcontext : contextOf .projectRead organizationId userId db = .ok context)
    (hlimit : 1 ≤ limit ∧ limit ≤ 100) (oracle : Oracle Answer) (filter : TaskFilter)
    (p : Option Cursor) :
    (serve oracle (.listTasks (some { filter with cursor := p.map Cursor.encode, limit }))
        organizationId userId db).1 =
      .ok (.tasks
        { items := (Keyset.page (position Task.createdAt Task.id) p limit
            (matchingTasks organizationId filter db)).map Task.shown,
          nextCursor := (Keyset.nextPosition (position Task.createdAt Task.id) p limit
            (matchingTasks organizationId filter db)).map Cursor.encode }) := by
  have hitems : ((keysetPage Task.createdAt Task.id p limit
      (matchingTasks organizationId filter db)).take limit).mapM Task.toResponse =
        .ok ((Keyset.page (position Task.createdAt Task.id) p limit
          (matchingTasks organizationId filter db)).map Task.shown) := by
    rw [keysetPage_take]
    refine mapM_ok fun t ht => (toResponse_of_consistent hdb).1 t ?_
    exact (List.mem_filter.mp (Keyset.mem_of_mem_page ht).1).1
  have hvalid : (decide (1 ≤ limit) && decide (limit ≤ 100)) = true := by simpa using hlimit
  obtain ⟨n, hrun⟩ := run_listRoute
    (fun f : TaskFilter => decide (1 ≤ f.limit) && decide (f.limit ≤ 100)) (·.cursor)
    (fun f position db => keysetPage Task.createdAt Task.id position f.limit
      (matchingTasks organizationId f db))
    (fun f rows => (rows.take f.limit).mapM Task.toResponse)
    (fun f rows items => TaskPage.mk items (nextCursor Task.createdAt Task.id f.limit rows))
    (a := { filter with cursor := p.map Cursor.encode, limit }) hcodec hcontext hvalid rfl hitems
    oracle
  rw [serve_of_run (p := listTasks organizationId userId _) rfl hrun, nextCursor_eq]
  rfl

theorem serve_listProjects (hcodec : CursorCodec) (hdb : Consistent db)
    (hcontext : contextOf .projectRead organizationId userId db = .ok context)
    (hlimit : 1 ≤ limit ∧ limit ≤ 100) (oracle : Oracle Answer) (p : Option Cursor) :
    (serve oracle (.listProjects (some (p.map Cursor.encode, limit))) organizationId userId db).1 =
      .ok (.projects
        { items := (Keyset.page (position Project.createdAt Project.id) p limit
            (projectsOf organizationId db)).map Project.shown,
          nextCursor := (Keyset.nextPosition (position Project.createdAt Project.id) p limit
            (projectsOf organizationId db)).map Cursor.encode }) := by
  have hitems : ((keysetPage Project.createdAt Project.id p limit
      (projectsOf organizationId db)).take limit).mapM Project.toResponse =
        .ok ((Keyset.page (position Project.createdAt Project.id) p limit
          (projectsOf organizationId db)).map Project.shown) := by
    rw [keysetPage_take]
    refine mapM_ok fun t ht => (toResponse_of_consistent hdb).2 t ?_
    exact (List.mem_filter.mp (Keyset.mem_of_mem_page ht).1).1
  have hvalid : (decide (1 ≤ limit) && decide (limit ≤ 100)) = true := by simpa using hlimit
  obtain ⟨n, hrun⟩ := run_listRoute
    (fun a : Option String × Nat => decide (1 ≤ a.2) && decide (a.2 ≤ 100)) (·.1)
    (fun a position db => keysetPage Project.createdAt Project.id position a.2
      (projectsOf organizationId db))
    (fun a rows => (rows.take a.2).mapM Project.toResponse)
    (fun a rows items => ProjectPage.mk items (nextCursor Project.createdAt Project.id a.2 rows))
    (a := (p.map Cursor.encode, limit)) hcodec hcontext hvalid rfl hitems oracle
  rw [serve_of_run (p := listProjects organizationId userId _) rfl hrun, nextCursor_eq]
  rfl

end Routes

/-! ## Following the cursors -/

/-- The pages of a client that follows `next_cursor` until there is none: `fetch n` answers
its `n`-th request. -/
inductive FollowsCursor {δ : Type} (fetch : Nat → Option String → Option (List δ × Option String)) :
    Nat → Option String → List (List δ) → Prop where
  | last {n : Nat} {cursor : Option String} {items : List δ}
      (h : fetch n cursor = some (items, none)) : FollowsCursor fetch n cursor [items]
  | next {n : Nat} {cursor : Option String} {items : List δ} {c : String} {pages : List (List δ)}
      (h : fetch n cursor = some (items, some c)) (hnext : FollowsCursor fetch (n + 1) (some c) pages) :
      FollowsCursor fetch n cursor (items :: pages)

/-- The client comes to an end and has then seen, in strictly descending order of
`(created_at, id)`, no row twice and every row once that was there for each request. -/
structure SeesAll {δ : Type} (createdAt : δ → Datetime) (id : δ → UUID)
    (fetch : Nat → Option String → Option (List δ × Option String))
    (present : Nat → UUID → Prop) : Prop where
  ends : ∃ pages, FollowsCursor fetch 0 none pages
  descending : ∀ pages, FollowsCursor fetch 0 none pages → pages.flatten.Pairwise fun a b =>
    createdAt b < createdAt a ∨ createdAt b = createdAt a ∧ id b < id a
  nodup : ∀ pages, FollowsCursor fetch 0 none pages → (pages.flatten.map id).Nodup
  complete : ∀ pages, FollowsCursor fetch 0 none pages → ∀ u, (∀ n < pages.length, present n u) →
    pages.flatten.countP (id · = u) = 1

theorem SeesAll.of_present {δ : Type} {createdAt : δ → Datetime} {id : δ → UUID}
    {fetch : Nat → Option String → Option (List δ × Option String)}
    {present present' : Nat → UUID → Prop} (h : SeesAll createdAt id fetch present)
    (hpresent : ∀ n u, present' n u → present n u) : SeesAll createdAt id fetch present' :=
  ⟨h.ends, h.descending, h.nodup, fun pages hpages u hu =>
    h.complete pages hpages u fun n hn => hpresent n u (hu n hn)⟩

section Follow

variable [Platform] {ρ δ : Type} {createdAt : ρ → Datetime} {id : ρ → UUID} {show_ : ρ → δ}
  {fetch : Nat → Option String → Option (List δ × Option String)} {tables : Nat → List ρ}
  {limits : Nat → Nat}

/-- Following the cursors is walking through the keyset pages. -/
theorem follows_iff_walk (hfetch : ∀ n p, fetch n (p.map Cursor.encode) =
      some ((Keyset.page (position createdAt id) p (limits n) (tables n)).map show_,
        (Keyset.nextPosition (position createdAt id) p (limits n) (tables n)).map Cursor.encode))
    {n : Nat} {p : Option Cursor} {pages : List (List δ)} :
    FollowsCursor fetch n (p.map Cursor.encode) pages ↔
      ∃ rowPages, Keyset.Walk (position createdAt id) tables limits n p rowPages ∧
        pages = rowPages.map (List.map show_) := by
  constructor
  · intro h
    generalize hcursor : p.map Cursor.encode = cursor at h
    induction h generalizing p with
    | last h =>
      subst hcursor
      rw [hfetch, Option.some.injEq, Prod.mk.injEq, Option.map_eq_none_iff] at h
      exact ⟨_, .last h.2, by rw [← h.1]; rfl⟩
    | next h hnext ih =>
      subst hcursor
      rw [hfetch, Option.some.injEq, Prod.mk.injEq, Option.map_eq_some_iff] at h
      obtain ⟨hitems, q, hq, rfl⟩ := h
      obtain ⟨rowPages, hwalk, rfl⟩ := ih (p := some q) rfl
      exact ⟨_, .next hq hwalk, by rw [← hitems]; rfl⟩
  · rintro ⟨rowPages, hwalk, rfl⟩
    induction hwalk with
    | @last n p h => exact .last (by rw [hfetch, h]; rfl)
    | @next n p q rowPages h hwalk ih =>
      refine .next (c := q.encode) ?_ ih
      rw [hfetch, h]
      rfl

/-- Keyset pages show all that stays, whatever else comes and goes. -/
theorem seesAll_of_fetch (createdAt' : δ → Datetime) (id' : δ → UUID)
    (hfetch : ∀ n p, fetch n (p.map Cursor.encode) =
      some ((Keyset.page (position createdAt id) p (limits n) (tables n)).map show_,
        (Keyset.nextPosition (position createdAt id) p (limits n) (tables n)).map Cursor.encode))
    (hshow : ∀ r, createdAt' (show_ r) = createdAt r ∧ id' (show_ r) = id r)
    (hlimits : ∀ n, 1 ≤ limits n) (hids : ∀ n, (tables n).Pairwise fun r s => id r ≠ id s)
    (hfixed : ∀ m n, ∀ r ∈ tables m, ∀ s ∈ tables n, id r = id s → createdAt r = createdAt s)
    (hend : ∃ N, ∀ n ≥ N, ∀ r ∈ tables (n + 1), ∃ r' ∈ tables n, id r' = id r) :
    SeesAll createdAt' id' fetch fun n u => ∃ r ∈ tables n, id r = u := by
  have hkeys : ∀ n, (tables n).Pairwise fun r s => position createdAt id r ≠ position createdAt id s :=
    fun n => (hids n).imp fun hne heq => hne (congrArg Cursor.entityId heq)
  have hwalks : ∀ pages, FollowsCursor fetch 0 none pages → ∃ rowPages,
      Keyset.Walk (position createdAt id) tables limits 0 none rowPages ∧
        pages.flatten = rowPages.flatten.map show_ ∧ pages.length = rowPages.length := by
    intro pages h
    obtain ⟨rowPages, hwalk, rfl⟩ := (follows_iff_walk hfetch (p := none)).mp h
    exact ⟨rowPages, hwalk, by rw [List.map_flatten], by simp⟩
  have hnodup : ∀ pages, FollowsCursor fetch 0 none pages → (pages.flatten.map id').Nodup := by
    intro pages h
    obtain ⟨rowPages, hwalk, hflatten, _⟩ := hwalks pages h
    rw [hflatten, List.map_map, List.Nodup, List.pairwise_map]
    refine (hwalk.pairwise hkeys).imp_of_mem fun {a b} ha hb hlt => ?_
    obtain ⟨m, ham⟩ := hwalk.exists_table ha
    obtain ⟨n, hbn⟩ := hwalk.exists_table hb
    simp only [Function.comp, (hshow _).2]
    intro hid
    have hpos : position createdAt id b = position createdAt id a := by
      simp only [position, hid, hfixed m n a ham b hbn hid]
    exact absurd hpos hlt.ne
  refine ⟨?_, fun pages h => ?_, hnodup, fun pages h u hpresent => ?_⟩
  · obtain ⟨N, hN⟩ := hend
    have hkept : ∀ m, N ≤ m → ∀ r ∈ tables (m + 1), ∃ r' ∈ tables m,
        position createdAt id r' = position createdAt id r := by
      intro m hm r hr
      obtain ⟨r', hr', hid⟩ := hN m hm r hr
      refine ⟨r', hr', ?_⟩
      simp only [position, hid, hfixed m (m + 1) r' hr' r hr hid]
    obtain ⟨rowPages, hwalk⟩ :
        ∃ rowPages, Keyset.Walk (position createdAt id) tables limits 0 none rowPages :=
      Keyset.exists_walk hkept 0 none
    exact ⟨_, (follows_iff_walk hfetch (p := none)).mpr ⟨rowPages, hwalk, rfl⟩⟩
  · obtain ⟨rowPages, hwalk, hflatten, _⟩ := hwalks pages h
    rw [hflatten, List.pairwise_map]
    refine (hwalk.pairwise hkeys).imp fun {a b} hlt => ?_
    simp only [hshow]
    exact Cursor.lt_iff.mp hlt
  · obtain ⟨rowPages, hwalk, hflatten, hlength⟩ := hwalks pages h
    obtain ⟨r₀, hr₀, hu₀⟩ := hpresent 0 (hlength ▸ hwalk.length_pos)
    obtain ⟨r, hr, hpos⟩ := hwalk.mem hkeys hlimits (c := position createdAt id r₀) rfl
      fun m _ hm => by
        obtain ⟨r, hr, hu⟩ := hpresent m (by omega)
        refine ⟨r, hr, ?_⟩
        have hid : id r = id r₀ := hu.trans hu₀.symm
        simp only [position, hid, hfixed m 0 r hr r₀ hr₀ hid]
    have hone : u ∈ pages.flatten.map id' := by
      rw [hflatten, List.map_map]
      refine List.mem_map.mpr ⟨r, hr, ?_⟩
      rw [Function.comp, (hshow r).2]
      exact (congrArg Cursor.entityId hpos).trans hu₀
    have hcount := List.count_eq_one_of_mem (hnodup pages h) hone
    rw [List.count, List.countP_map] at hcount
    rw [← hcount]
    congr 1

end Follow

section Theorem

variable [Platform] {dbs : Nat → Db Row} {limits : Nat → Nat} {organizationId userId : UUID}

/-- The `n`-th response of the task list, if it is a page. -/
def fetchTasks (oracles : Nat → Oracle Answer) (limits : Nat → Nat) (organizationId userId : UUID)
    (filter : TaskFilter) (dbs : Nat → Db Row) (n : Nat) (cursor : Option String) :
    Option (List TaskResponse × Option String) :=
  match (serve (oracles n) (.listTasks (some { filter with cursor, limit := limits n }))
    organizationId userId (dbs n)).1 with
  | .ok (.tasks page) => some (page.items, page.nextCursor)
  | _ => none

/-- The `n`-th response of the project list, if it is a page. -/
def fetchProjects (oracles : Nat → Oracle Answer) (limits : Nat → Nat)
    (organizationId userId : UUID) (dbs : Nat → Db Row) (n : Nat) (cursor : Option String) :
    Option (List ProjectResponse × Option String) :=
  match (serve (oracles n) (.listProjects (some (cursor, limits n))) organizationId userId
    (dbs n)).1 with
  | .ok (.projects page) => some (page.items, page.nextCursor)
  | _ => none

section Fetch

variable (hcodec : CursorCodec) (hdbs : ∀ n, Consistent (dbs n))
  (hread : ∀ n, ∃ context, contextOf .projectRead organizationId userId (dbs n) = .ok context)
  (hlimits : ∀ n, 1 ≤ limits n ∧ limits n ≤ 100) (oracles : Nat → Oracle Answer)

include hcodec hdbs hread hlimits

theorem fetchTasks_eq (filter : TaskFilter) (n : Nat) (p : Option Cursor) :
    fetchTasks oracles limits organizationId userId filter dbs n (p.map Cursor.encode) =
      some ((Keyset.page (position Task.createdAt Task.id) p (limits n)
          (matchingTasks organizationId filter (dbs n))).map Task.shown,
        (Keyset.nextPosition (position Task.createdAt Task.id) p (limits n)
          (matchingTasks organizationId filter (dbs n))).map Cursor.encode) := by
  obtain ⟨context, hcontext⟩ := hread n
  rw [fetchTasks, serve_listTasks hcodec (hdbs n) hcontext (hlimits n)]

theorem fetchProjects_eq (n : Nat) (p : Option Cursor) :
    fetchProjects oracles limits organizationId userId dbs n (p.map Cursor.encode) =
      some ((Keyset.page (position Project.createdAt Project.id) p (limits n)
          (projectsOf organizationId (dbs n))).map Project.shown,
        (Keyset.nextPosition (position Project.createdAt Project.id) p (limits n)
          (projectsOf organizationId (dbs n))).map Cursor.encode) := by
  obtain ⟨context, hcontext⟩ := hread n
  rw [fetchProjects, serve_listProjects hcodec (hdbs n) hcontext (hlimits n)]

end Fetch

/-- Following `next_cursor` through the tasks or the projects of an organization ends, shows
no row twice, and shows every matching row that is there throughout, whatever is inserted,
deleted or changed between two requests. -/
theorem pagination_sees_all (hcodec : CursorCodec) (hdbs : ∀ n, Consistent (dbs n))
    (hread : ∀ n, ∃ context, contextOf .projectRead organizationId userId (dbs n) = .ok context)
    (hlimits : ∀ n, 1 ≤ limits n ∧ limits n ≤ 100)
    (htasks : ∀ m n, ∀ t ∈ dbs m .tasks, ∀ t' ∈ dbs n .tasks, t.id = t'.id →
      t.createdAt = t'.createdAt)
    (hprojects : ∀ m n, ∀ p ∈ dbs m .projects, ∀ p' ∈ dbs n .projects, p.id = p'.id →
      p.createdAt = p'.createdAt)
    (hend : ∃ N, ∀ n ≥ N, (∀ t ∈ dbs (n + 1) .tasks, t ∈ dbs n .tasks) ∧
      ∀ p ∈ dbs (n + 1) .projects, p ∈ dbs n .projects)
    (oracles : Nat → Oracle Answer) (filter : TaskFilter) :
    SeesAll TaskResponse.createdAt TaskResponse.id
      (fetchTasks oracles limits organizationId userId filter dbs)
      (fun n id => ∃ t ∈ dbs n .tasks, t.id = id ∧ t.organizationId = organizationId ∧
        filter.accepts t = true) ∧
    SeesAll ProjectResponse.createdAt ProjectResponse.id
      (fetchProjects oracles limits organizationId userId dbs)
      (fun n id => ∃ p ∈ dbs n .projects, p.id = id ∧ p.organizationId = organizationId) := by
  obtain ⟨N, hN⟩ := hend
  constructor
  · have hmatching : ∀ n t, t ∈ matchingTasks organizationId filter (dbs n) ↔
        t ∈ dbs n .tasks ∧ t.organizationId = organizationId ∧ filter.accepts t = true := by
      simp [matchingTasks]
    have hsees := seesAll_of_fetch TaskResponse.createdAt TaskResponse.id
      (fetchTasks_eq hcodec hdbs hread hlimits oracles filter) (fun _ => ⟨rfl, rfl⟩)
      (fun n => (hlimits n).1) (fun n => ((hdbs n).keys .tasks).filter _)
      (fun m n r hr s hs => htasks m n r ((hmatching m r).mp hr).1 s ((hmatching n s).mp hs).1)
      ⟨N, fun n hn t ht => ⟨t, (hmatching n t).mpr ⟨(hN n hn).1 t ((hmatching _ t).mp ht).1,
        ((hmatching _ t).mp ht).2⟩, rfl⟩⟩
    refine hsees.of_present fun n id ⟨t, ht, hid, hmatch⟩ => ?_
    exact ⟨t, (hmatching n t).mpr ⟨ht, hmatch⟩, hid⟩
  · have hproject : ∀ n p, p ∈ projectsOf organizationId (dbs n) ↔
        p ∈ dbs n .projects ∧ p.organizationId = organizationId := by
      simp [projectsOf]
    have hsees := seesAll_of_fetch ProjectResponse.createdAt ProjectResponse.id
      (fetchProjects_eq hcodec hdbs hread hlimits oracles) (fun _ => ⟨rfl, rfl⟩)
      (fun n => (hlimits n).1) (fun n => ((hdbs n).keys .projects).filter _)
      (fun m n r hr s hs => hprojects m n r ((hproject m r).mp hr).1 s ((hproject n s).mp hs).1)
      ⟨N, fun n hn p hp => ⟨p, (hproject n p).mpr ⟨(hN n hn).2 p ((hproject _ p).mp hp).1,
        ((hproject _ p).mp hp).2⟩, rfl⟩⟩
    refine hsees.of_present fun n id ⟨p, hp, hid, horganization⟩ => ?_
    exact ⟨p, (hproject n p).mpr ⟨hp, horganization⟩, hid⟩

end Theorem

/-! ## A walk over two tasks of one instant -/

section Sample

attribute [local instance] cursorPlatform

/-- The team with two tasks of one instant, and from the second request on with a third. -/
def pagedDb (n : Nat) : Db Row
  | .projects => [⟨⟨30⟩, sampleOrganization.id, some "Engine", none, some .active, sampleUser.id, 0, 0⟩]
  | .tasks =>
    let task (id : UUID) (createdAt : Datetime) : Task :=
      ⟨id, sampleOrganization.id, ⟨30⟩, some "Draft", none, some .todo, some .low, none,
        sampleUser.id, none, createdAt, createdAt⟩
    if n = 0 then [task ⟨31⟩ 0, task ⟨32⟩ 0] else [task ⟨31⟩ 0, task ⟨32⟩ 0, task ⟨33⟩ 1]
  | t => teamDb t

theorem pagedDb_succ (n : Nat) : pagedDb (n + 1) = pagedDb 1 := by
  funext t
  cases t <;> rfl

theorem exists_pagedDb_eq (n : Nat) : ∃ k : Fin 2, pagedDb n = pagedDb k := by
  cases n with
  | zero => exact ⟨0, rfl⟩
  | succ n => exact ⟨1, pagedDb_succ n⟩

theorem pagedDb_consistent (n : Nat) : Consistent (pagedDb n) := by
  obtain ⟨k, hk⟩ := exists_pagedDb_eq n
  rw [hk]
  clear hk
  refine ⟨fun t => ?_, fun t => ?_, fun t => ?_⟩ <;> revert k <;> cases t <;> decide +kernel

/-- One task a page: the two tasks are seen once each, although a third appears meanwhile. -/
theorem pagination_of_two_tasks :
    ∃ pages, FollowsCursor (fetchTasks (fun _ => sampleOracle) (fun _ => 1) sampleOrganization.id
        sampleUser.id ⟨none, none, none, none, none, 1⟩ pagedDb) 0 none pages ∧
      pages.flatten.countP (·.id = ⟨31⟩) = 1 ∧ pages.flatten.countP (·.id = ⟨32⟩) = 1 := by
  have htasks : ∀ m n, ∀ t ∈ pagedDb m .tasks, ∀ t' ∈ pagedDb n .tasks, t.id = t'.id →
      t.createdAt = t'.createdAt := by
    intro m n
    obtain ⟨k, hk⟩ := exists_pagedDb_eq m
    obtain ⟨l, hl⟩ := exists_pagedDb_eq n
    rw [hk, hl]
    clear hk hl
    revert k l
    decide +kernel
  have hprojects : ∀ m n, ∀ p ∈ pagedDb m .projects, ∀ p' ∈ pagedDb n .projects, p.id = p'.id →
      p.createdAt = p'.createdAt := by
    intro m n
    obtain ⟨k, hk⟩ := exists_pagedDb_eq m
    obtain ⟨l, hl⟩ := exists_pagedDb_eq n
    rw [hk, hl]
    clear hk hl
    revert k l
    decide +kernel
  have hstay : ∀ n ≥ 1, pagedDb (n + 1) = pagedDb n := by
    intro n hn
    obtain ⟨m, rfl⟩ := Nat.exists_eq_add_of_le' hn
    rw [pagedDb_succ (m + 1), pagedDb_succ m]
  have hread : ∀ n, ∃ context,
      contextOf .projectRead sampleOrganization.id sampleUser.id (pagedDb n) = .ok context :=
    fun _ => ⟨_, rfl⟩
  have hsees := (pagination_sees_all cursorPlatform_codec pagedDb_consistent hread
    (fun _ => ⟨le_rfl, by decide⟩) htasks hprojects
    ⟨1, fun n hn => by rw [hstay n hn]; exact ⟨fun _ h => h, fun _ h => h⟩⟩
    (fun _ => sampleOracle) ⟨none, none, none, none, none, 1⟩).1
  obtain ⟨pages, hpages⟩ := hsees.ends
  have hpresent : ∀ u ∈ [(⟨31⟩ : UUID), ⟨32⟩], ∀ n, ∃ t ∈ pagedDb n .tasks, t.id = u ∧
      t.organizationId = sampleOrganization.id ∧
        TaskFilter.accepts ⟨none, none, none, none, none, 1⟩ t = true := by
    intro u hu n
    obtain ⟨k, hk⟩ := exists_pagedDb_eq n
    rw [hk]
    clear hk
    revert u k
    decide +kernel
  exact ⟨pages, hpages, hsees.complete pages hpages ⟨31⟩ fun n _ => hpresent _ (by simp) n,
    hsees.complete pages hpages ⟨32⟩ fun n _ => hpresent _ (by simp) n⟩

end Sample

end TenantFlow
