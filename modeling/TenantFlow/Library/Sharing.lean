import TenantFlow.Library.RowInvariant

/-!
# Databases that share a part

A part selects some rows of a database; the others are its rest. A border tells the keys of the
part from those of the rest, whatever rows there are. Two databases share a part if it holds the
same rows in both, in the same order. Statements that stay inside the border answer alike in both
databases and leave the rests alone, and so do the programs made of them.
-/

namespace Transactional

variable {Table : Type} [DecidableEq Table] {Row : Table → Type} {Id : Type} [DecidableEq Id]
  [Schema Row Id] {Call : Type} {Answer : Call → Type} {ε α β : Type}

/-! ## Parts -/

/-- Which rows of a table belong to the part. -/
abbrev Part (Row : Table → Type) : Type := (t : Table) → Row t → Bool

def Part.mine (P : Part Row) (db : Db Row) : Db Row := fun t => (db t).filter (P t)

def Part.rest (P : Part Row) (db : Db Row) : Db Row := fun t => (db t).filter fun r => !P t r

section Parts

variable {P : Part Row} {db : Db Row} {t : Table}

omit [DecidableEq Table] in
theorem Part.mem_mine {r : Row t} : r ∈ P.mine db t ↔ r ∈ db t ∧ P t r = true := List.mem_filter

omit [DecidableEq Table] in
theorem Part.mem_rest {r : Row t} : r ∈ P.rest db t ↔ r ∈ db t ∧ P t r = false := by
  rw [Part.rest, List.mem_filter, Bool.not_eq_true']

theorem filter_eq_filter_filter {ρ : Type} {l : List ρ} {p q : ρ → Bool}
    (h : ∀ r ∈ l.filter fun r => !q r, p r = false) : l.filter p = (l.filter q).filter p := by
  rw [List.filter_filter]
  refine List.filter_congr fun r hr => ?_
  cases hq : q r with
  | true => simp
  | false => simp [h r (List.mem_filter.mpr ⟨hr, by simp [hq]⟩)]

omit [DecidableEq Table] in
/-- A condition that no row of the rest meets selects from the part. -/
theorem Part.filter_mine {p : Row t → Bool} (h : ∀ r ∈ P.rest db t, p r = false) :
    (db t).filter p = (P.mine db t).filter p :=
  filter_eq_filter_filter h

omit [DecidableEq Table] in
/-- Rows of the rest that yield nothing may be left out. -/
theorem Part.flatMap_mine {γ : Type} {f : Row t → List γ} (h : ∀ r ∈ P.rest db t, f r = []) :
    (db t).flatMap f = (P.mine db t).flatMap f := by
  have hall : ∀ l : List (Row t), (∀ r ∈ l, P t r = false → f r = []) →
      l.flatMap f = (l.filter (P t)).flatMap f := by
    intro l
    induction l with
    | nil => exact fun _ => rfl
    | cons r l ih =>
      intro hl
      have ih := ih fun s hs => hl s (List.mem_cons_of_mem r hs)
      cases hP : P t r with
      | true => simp [hP, ih]
      | false => simp [hP, ih, hl r List.mem_cons_self hP]
  exact hall _ fun r hr hP => h r (Part.mem_rest.mpr ⟨hr, hP⟩)

end Parts

/-! ## Borders -/

/-- A part, what holds of every row, and the keys of the part. -/
structure Border (Row : Table → Type) (Id : Type) [Schema Row Id] where
  part : Part Row
  Good : (t : Table) → Row t → Prop
  Key : Table → Id → Prop
  /-- The key of a good row tells on which side it is. -/
  key_iff : ∀ t r, Good t r → (Key t (pk r) ↔ part t r = true)

variable {B : Border Row Id} {db db' : Db Row} {t : Table}

omit [DecidableEq Id] [DecidableEq Table] in
theorem Border.not_key (hgood : AllGood B.Good db) {r : Row t} (hr : r ∈ B.part.rest db t) {id : Id}
    (hid : B.Key t id) : pk r ≠ id := by
  rintro rfl
  obtain ⟨hr, hpart⟩ := Part.mem_rest.mp hr
  rw [(B.key_iff t r (hgood t r hr)).mp hid] at hpart
  cases hpart

/-- The write stays inside the border. -/
def Op.Inside (B : Border Row Id) : Op Row Id → Prop
  | .insert t r => B.part t r = true ∧ B.Good t r
  | .update t id f => B.Key t id ∧ ∀ r, pk (f r) = pk r ∧ B.part t (f r) = B.part t r ∧
    (B.Good t r → B.Good t (f r))
  | .delete t id => B.Key t id

omit [DecidableEq Table] [DecidableEq Id] in
theorem Op.Inside.keepsGood {op : Op Row Id} (h : op.Inside B) : op.KeepsGood B.Good := by
  cases op with
  | insert t r => exact h.2
  | update t id f => exact fun r => (h.2 r).2.2
  | delete t id => trivial

theorem Op.Inside.mine {op : Op Row Id} (h : op.Inside B) :
    B.part.mine (op.apply db) = op.apply (B.part.mine db) := by
  funext t
  by_cases ht : op.table = t
  · cases op with
    | insert t' r =>
      obtain rfl : t' = t := ht
      simp [Part.mine, h.1]
    | update t' id f =>
      obtain rfl : t' = t := ht
      simp only [Part.mine, apply_update_self, List.filter_map]
      refine congrArg (List.map _) (List.filter_congr fun r _ => ?_)
      simp only [Function.comp_apply]
      split
      · exact (h.2 r).2.1
      · rfl
    | delete t' id =>
      obtain rfl : t' = t := ht
      simp only [Part.mine, apply_delete_self, List.filter_filter, Bool.and_comm]
  · rw [Part.mine, apply_of_table_ne db ht, apply_of_table_ne _ ht, Part.mine]

theorem Op.Inside.rest {op : Op Row Id} (h : op.Inside B) (hgood : AllGood B.Good db) :
    B.part.rest (op.apply db) = B.part.rest db := by
  funext t
  by_cases ht : op.table = t
  · cases op with
    | insert t' r =>
      obtain rfl : t' = t := ht
      simp [Part.rest, h.1]
    | update t' id f =>
      obtain rfl : t' = t := ht
      simp only [Part.rest, apply_update_self, List.filter_map]
      have hsame : ∀ r ∈ db t', (!B.part t' (if pk r = id then f r else r)) = !B.part t' r := by
        intro r _
        split
        · rw [(h.2 r).2.1]
        · rfl
      have hrest : (db t').filter
          ((fun r => !B.part t' r) ∘ fun r => if pk r = id then f r else r) =
            B.part.rest db t' := List.filter_congr hsame
      rw [hrest]
      refine (List.map_congr_left fun r hr => ?_).trans (List.map_id' _)
      exact if_neg (Border.not_key hgood hr h.1)
    | delete t' id =>
      obtain rfl : t' = t := ht
      simp only [Part.rest, apply_delete_self, List.filter_filter]
      refine List.filter_congr fun r hr => ?_
      cases hP : B.part t' r with
      | true => simp
      | false => simpa using Border.not_key hgood (Part.mem_rest.mpr ⟨hr, hP⟩) h
  · rw [Part.rest, apply_of_table_ne db ht, Part.rest]

theorem inside_replay {ops : List (Op Row Id)} (hgood : AllGood B.Good db)
    (h : ∀ op ∈ ops, op.Inside B) :
    AllGood B.Good (replay ops db) ∧ B.part.mine (replay ops db) = replay ops (B.part.mine db) ∧
      B.part.rest (replay ops db) = B.part.rest db := by
  induction ops generalizing db with
  | nil => exact ⟨hgood, rfl, rfl⟩
  | cons op ops ih =>
    have hop := h op List.mem_cons_self
    have hafter : AllGood B.Good (replay [op] db) := by
      refine hgood.replay_ops fun o ho => ?_
      rw [List.mem_singleton.mp ho]
      exact hop.keepsGood
    obtain ⟨hgood', hmine, hrest⟩ := ih hafter fun o ho => h o (List.mem_cons_of_mem _ ho)
    exact ⟨hgood', hmine.trans (congrArg (replay ops) hop.mine),
      hrest.trans (hop.rest hgood)⟩

/-! ## Sharing a part -/

/-- The databases `db` and `db'` share the part; what else they hold is good. -/
structure Sharing (B : Border Row Id) (db db' : Db Row) : Prop where
  same : B.part.mine db' = B.part.mine db
  good : AllGood B.Good db
  good' : AllGood B.Good db'
  unclashing : Unclashing db
  unclashing' : Unclashing db'

section Sharing

omit [DecidableEq Table] in
theorem Sharing.symm (h : Sharing B db db') : Sharing B db' db :=
  ⟨h.same.symm, h.good', h.good, h.unclashing', h.unclashing⟩

omit [DecidableEq Table] in
theorem Sharing.mem (h : Sharing B db db') {r : Row t} (hr : r ∈ db t)
    (hP : B.part t r = true) : r ∈ db' t := by
  have hmine : r ∈ B.part.mine db' t := by
    rw [h.same]
    exact Part.mem_mine.mpr ⟨hr, hP⟩
  exact (Part.mem_mine.mp hmine).1

omit [DecidableEq Table] in
theorem Sharing.key (h : Sharing B db db') {r : Row t} (hr : r ∈ db t)
    (hP : B.part t r = true) : B.Key t (pk r) :=
  (B.key_iff t r (h.good t r hr)).mpr hP

omit [DecidableEq Table] in
/-- A condition that no row of the rests meets selects the same rows. -/
theorem Sharing.filter_of_rest (h : Sharing B db db') {p : Row t → Bool}
    (hp : ∀ r, r ∈ db t ∨ r ∈ db' t → B.part t r = false → p r = false) :
    (db' t).filter p = (db t).filter p := by
  have hleft : ∀ r ∈ B.part.rest db t, p r = false :=
    fun r hr => hp r (.inl (Part.mem_rest.mp hr).1) (Part.mem_rest.mp hr).2
  have hright : ∀ r ∈ B.part.rest db' t, p r = false :=
    fun r hr => hp r (.inr (Part.mem_rest.mp hr).1) (Part.mem_rest.mp hr).2
  rw [Part.filter_mine hleft, Part.filter_mine hright, h.same]

omit [DecidableEq Table] in
theorem Sharing.find_of_rest (h : Sharing B db db') {p : Row t → Bool}
    (hp : ∀ r, r ∈ db t ∨ r ∈ db' t → B.part t r = false → p r = false) :
    (db' t).find? p = (db t).find? p := by
  rw [← List.head?_filter, ← List.head?_filter, h.filter_of_rest hp]

omit [DecidableEq Table] in
theorem Sharing.any_of_rest (h : Sharing B db db') {p : Row t → Bool}
    (hp : ∀ r, r ∈ db t ∨ r ∈ db' t → B.part t r = false → p r = false) :
    (db' t).any p = (db t).any p := by
  rw [← List.isSome_find?, ← List.isSome_find?, h.find_of_rest hp]

omit [DecidableEq Table] in
theorem Sharing.good_of_mem (h : Sharing B db db') {r : Row t} (hr : r ∈ db t ∨ r ∈ db' t) :
    B.Good t r :=
  hr.elim (h.good t r) (h.good' t r)

omit [DecidableEq Table] in
/-- A good row outside the part fails a condition that good rows meet in the part only. -/
theorem Sharing.fails (h : Sharing B db db') {p : Row t → Bool}
    (hp : ∀ r, B.Good t r → p r = true → B.part t r = true) (r : Row t)
    (hr : r ∈ db t ∨ r ∈ db' t) (hP : B.part t r = false) : p r = false := by
  by_contra hpr
  rw [hp r (h.good_of_mem hr) (by simpa using hpr)] at hP
  cases hP

omit [DecidableEq Table] in
theorem Sharing.filter (h : Sharing B db db') {p : Row t → Bool}
    (hp : ∀ r, B.Good t r → p r = true → B.part t r = true) :
    (db' t).filter p = (db t).filter p :=
  h.filter_of_rest (h.fails hp)

omit [DecidableEq Table] in
theorem Sharing.find (h : Sharing B db db') {p : Row t → Bool}
    (hp : ∀ r, B.Good t r → p r = true → B.part t r = true) :
    (db' t).find? p = (db t).find? p :=
  h.find_of_rest (h.fails hp)

omit [DecidableEq Table] in
theorem Sharing.any (h : Sharing B db db') {p : Row t → Bool}
    (hp : ∀ r, B.Good t r → p r = true → B.part t r = true) :
    (db' t).any p = (db t).any p :=
  h.any_of_rest (h.fails hp)

omit [DecidableEq Table] in
theorem Sharing.flatMap (h : Sharing B db db') {γ : Type} {f : Row t → List γ}
    (hf : ∀ r ∈ B.part.rest db t, f r = []) (hf' : ∀ r ∈ B.part.rest db' t, f r = []) :
    (db' t).flatMap f = (db t).flatMap f := by
  rw [Part.flatMap_mine hf, Part.flatMap_mine hf', h.same]

/-- Writes inside the border keep the part shared. -/
theorem Sharing.replay (h : Sharing B db db') {ops : List (Op Row Id)}
    (hops : ∀ op ∈ ops, op.Inside B) (hdb : Unclashing (replay ops db))
    (hdb' : Unclashing (replay ops db')) :
    Sharing B (Transactional.replay ops db) (Transactional.replay ops db') := by
  obtain ⟨hgood, hmine, _⟩ := inside_replay h.good hops
  obtain ⟨hgood', hmine', _⟩ := inside_replay h.good' hops
  exact ⟨by rw [hmine, hmine', h.same], hgood, hgood', hdb, hdb'⟩

omit [DecidableEq Table] in
/-- A row of the part that meets no row of the rests may be inserted in both databases or in
neither. -/
theorem Sharing.insertable (h : Sharing B db db') {r : Row t}
    (hcheck : Schema.check db' r = Schema.check db r)
    (hclear : ∀ x, B.Good t x → B.part t x = false → clash r x = false) :
    Transactional.insertable db' r = Transactional.insertable db r := by
  unfold Transactional.insertable
  rw [hcheck, h.any_of_rest fun x hx hP => hclear x (h.good_of_mem hx) hP]

omit [DecidableEq Table] in
/-- The key of the part selects rows of the part. -/
theorem Border.part_of_key {id : Id} (hid : B.Key t id) (r : Row t) (hr : B.Good t r)
    (hpk : decide (pk r = id) = true) : B.part t r = true := by
  refine (B.key_iff t r hr).mp ?_
  rw [of_decide_eq_true hpk]
  exact hid

omit [DecidableEq Table] in
theorem Sharing.updatable (h : Sharing B db db') {id : Id} (hid : B.Key t id) {f : Row t → Row t}
    (hcheck : ∀ r ∈ db t, B.part t r = true → Schema.check db' (f r) = Schema.check db (f r))
    (hclear : ∀ r ∈ db t, B.part t r = true → ∀ x, x ∈ db t ∨ x ∈ db' t → B.part t x = false →
      clash (f r) x = false) :
    Transactional.updatable db' t id f = Transactional.updatable db t id f := by
  unfold Transactional.updatable
  rw [h.find (Border.part_of_key hid)]
  cases hr : (db t).find? fun r => pk r = id with
  | none => rfl
  | some r =>
    have hmem : r ∈ db t := List.mem_of_find?_eq_some hr
    have hpk : decide (pk r = id) = true := by simpa using List.find?_some hr
    have hP : B.part t r = true := Border.part_of_key hid r (h.good t r hmem) hpk
    have hany : (db' t).any (fun r' => decide (pk r' ≠ id) && clash (f r) r') =
        (db t).any fun r' => decide (pk r' ≠ id) && clash (f r) r' :=
      h.any_of_rest fun x hx hother => by simp [hclear r hmem hP x hx hother]
    simp only [hcheck r hmem hP, hany]

omit [DecidableEq Table] in
theorem Sharing.deleteOps (h : Sharing B db db') {id : Id} (hid : B.Key t id)
    (hcascade : Schema.cascade db' t id = Schema.cascade db t id) :
    Transactional.deleteOps db' t id = Transactional.deleteOps db t id := by
  unfold Transactional.deleteOps
  rw [hcascade, h.any (Border.part_of_key hid)]

end Sharing

/-! ## Statements -/

/-- What the statement has to wait for: rows that are `Held`, and unique values of rows that are
`Open`. -/
def Stmt.Needs (view : Db Row) (Held : Table × Id → Prop) (Open : (t : Table) → Row t → Prop) :
    Stmt Row Id Call → Prop
  | .select _ => False
  | .selectForUpdate q locked => ∃ k ∈ locked (q view), Held k
  | .insert t r => ∃ x, clash r x = true ∧ Open t x
  | .insertOnConflictDoNothing t _ r => ∃ x, clash r x = true ∧ Open t x
  | .update t id f => Held (t, id) ∨
      ∃ r ∈ view t, pk r = id ∧ ∃ x, pk x ≠ id ∧ clash (f r) x = true ∧ Open t x
  | .delete t id => ∃ k ∈ (t, id) :: Schema.cascade view t id, Held k
  | .call _ => False

theorem waits_iff {db view : Db Row} {other : Tx Row Id Answer ε α} {s : Stmt Row Id Call} :
    Waits db view other s ↔ s.Needs view other.Holds (other.Undecided db) := by
  cases s <;> exact Iff.rfl

/-- In databases that share the part the statement answers alike, writes inside the border, and
waits for the same. -/
structure Stmt.Agrees (B : Border Row Id) (env : (c : Call) → Answer c) (db db' : Db Row)
    (s : Stmt Row Id Call) : Prop where
  eval : s.eval env db' = s.eval env db
  inside : ∀ op ∈ (s.eval env db).2, op.Inside B
  left : Unclashing (replay (s.eval env db).2 db)
  right : Unclashing (replay (s.eval env db).2 db')
  needs : ∀ Held Open, s.Needs db' Held Open → s.Needs db Held Open
  locks : s.locks db' = s.locks db

def Stmt.Couples (Answer : Call → Type) (B : Border Row Id) (s : Stmt Row Id Call) : Prop :=
  ∀ (env : (c : Call) → Answer c) db db', Sharing B db db' → s.Agrees B env db db'

section Rules

variable {B : Border Row Id} {t : Table}

theorem agrees_of_silent {s : Stmt Row Id Call} {env : (c : Call) → Answer c} {db db' : Db Row}
    (h : Sharing B db db') (heval : s.eval env db' = s.eval env db)
    (hops : ∀ db, (s.eval env db).2 = [])
    (hneeds : ∀ Held Open, s.Needs db' Held Open → s.Needs db Held Open)
    (hlocks : s.locks db' = s.locks db) : s.Agrees B env db db' where
  eval := heval
  inside op hop := by simp [hops] at hop
  left := by simpa [hops] using h.unclashing
  right := by simpa [hops] using h.unclashing'
  needs := hneeds
  locks := hlocks

theorem couples_call (c : Call) : (Stmt.call c : Stmt Row Id Call).Couples Answer B :=
  fun _ _ _ h => agrees_of_silent h rfl (fun _ => rfl) (fun _ _ hneeds => hneeds) rfl

theorem couples_select {γ : Type} {q : Db Row → γ} (hq : ∀ db db', Sharing B db db' → q db' = q db) :
    (Stmt.select q : Stmt Row Id Call).Couples Answer B :=
  fun _ db db' h => agrees_of_silent h (by simp only [Stmt.eval, hq db db' h]) (fun _ => rfl)
    (fun _ _ hneeds => hneeds) rfl

theorem couples_selectForUpdate {γ : Type} {q : Db Row → γ} {locked : γ → List (Table × Id)}
    (hq : ∀ db db', Sharing B db db' → q db' = q db) :
    (Stmt.selectForUpdate q locked : Stmt Row Id Call).Couples Answer B := by
  intro env db db' h
  have hsame := hq db db' h
  refine agrees_of_silent h (by simp only [Stmt.eval, hsame]) (fun _ => rfl) ?_
    (by simp only [Stmt.locks, hsame])
  intro Held Open hneeds
  simpa only [Stmt.Needs, hsame] using hneeds

variable [Schema.Lawful Row Id]

theorem couples_insert {r : Row t} (hP : B.part t r = true) (hgood : B.Good t r)
    (hcheck : ∀ db db', Sharing B db db' → Schema.check db' r = Schema.check db r)
    (hclear : ∀ x, B.Good t x → B.part t x = false → clash r x = false) :
    (Stmt.insert t r : Stmt Row Id Call).Couples Answer B := by
  intro env db db' h
  have hsame := h.insertable (hcheck db db' h) hclear
  have hwrites : ∀ d : Db Row, Unclashing d →
      Unclashing (replay (onlyIfOk (.insert t r) (insertable d r)) d) := by
    intro d hd
    cases hins : insertable d r with
    | error e => exact hd
    | ok u => exact hd.insert hins
  refine ⟨by simp only [Stmt.eval, hsame], fun op hop => ?_, hwrites db h.unclashing, ?_,
    fun _ _ hneeds => hneeds, rfl⟩
  · obtain ⟨rfl, _⟩ := mem_onlyIfOk hop
    exact ⟨hP, hgood⟩
  · have hright := hwrites db' h.unclashing'
    rwa [hsame] at hright

theorem couples_insertOnConflict {arbiter : Row t → Row t → Bool} {r : Row t}
    (hP : B.part t r = true) (hgood : B.Good t r)
    (hcheck : ∀ db db', Sharing B db db' → Schema.check db' r = Schema.check db r)
    (hclear : ∀ x, B.Good t x → B.part t x = false → clash r x = false)
    (harbiter : ∀ x, B.Good t x → B.part t x = false → arbiter r x = false) :
    (Stmt.insertOnConflictDoNothing t arbiter r : Stmt Row Id Call).Couples Answer B := by
  intro env db db' h
  have hany : (db' t).any (arbiter r) = (db t).any (arbiter r) :=
    h.any_of_rest fun x hx hother => harbiter x (h.good_of_mem hx) hother
  have hsame := h.insertable (hcheck db db' h) hclear
  obtain ⟨_, hinside, hleft, hright, _⟩ := couples_insert hP hgood hcheck hclear env db db' h
  simp only [Stmt.eval] at hinside hleft hright
  refine ⟨by simp only [Stmt.eval, hany, hsame], fun op hop => ?_, ?_, ?_,
    fun _ _ hneeds => hneeds, rfl⟩
  · simp only [Stmt.eval] at hop
    split at hop
    · cases hop
    · exact hinside op hop
  · simp only [Stmt.eval]
    split
    · exact h.unclashing
    · exact hleft
  · simp only [Stmt.eval]
    split
    · exact h.unclashing'
    · exact hright

theorem couples_update {id : Id} {f : Row t → Row t} (hid : B.Key t id)
    (hf : ∀ r, pk (f r) = pk r ∧ B.part t (f r) = B.part t r ∧ (B.Good t r → B.Good t (f r)))
    (hcheck : ∀ db db', Sharing B db db' → ∀ r ∈ db t, B.part t r = true →
      Schema.check db' (f r) = Schema.check db (f r))
    (hclear : ∀ db db', Sharing B db db' → ∀ r ∈ db t, B.part t r = true → ∀ x,
      x ∈ db t ∨ x ∈ db' t → B.part t x = false → clash (f r) x = false) :
    (Stmt.update t id f : Stmt Row Id Call).Couples Answer B := by
  intro env db db' h
  have hsame := h.updatable hid (fun r hr hPr => hcheck db db' h r hr hPr)
    fun r hr hPr => hclear db db' h r hr hPr
  have hwrites : ∀ d : Db Row, Unclashing d →
      Unclashing (replay (onlyIfOk (.update t id f) (updatable d t id f)) d) := by
    intro d hd
    cases hup : updatable d t id f with
    | error e => exact hd
    | ok u => exact hd.update (fun r => (hf r).1) hup
  refine ⟨by simp only [Stmt.eval, hsame], fun op hop => ?_, hwrites db h.unclashing, ?_, ?_, rfl⟩
  · obtain ⟨rfl, _⟩ := mem_onlyIfOk hop
    exact ⟨hid, hf⟩
  · have hright := hwrites db' h.unclashing'
    rwa [hsame] at hright
  · rintro Held Open (hheld | ⟨r, hr, rfl, hopen⟩)
    · exact .inl hheld
    · have hP := (B.key_iff t r (h.good' t r hr)).mp hid
      exact .inr ⟨r, h.symm.mem hr hP, rfl, hopen⟩

omit [Schema.Lawful Row Id] in
theorem couples_delete {id : Id} (hid : B.Key t id)
    (hcascade : ∀ db db', Sharing B db db' →
      Schema.cascade db' t id = Schema.cascade db t id ∧
        ∀ k ∈ Schema.cascade db t id, B.Key k.1 k.2) :
    (Stmt.delete t id : Stmt Row Id Call).Couples Answer B := by
  intro env db db' h
  obtain ⟨hsame, hinner⟩ := hcascade db db' h
  have hops := h.deleteOps hid hsame
  have hdeletes : ∀ d : Db Row, ∀ op ∈ deleteOps d t id, ∃ t id, op = (.delete t id : Op Row Id) := by
    intro d op hop
    obtain ⟨_, k, rfl, _⟩ := mem_deleteOps hop
    exact ⟨k.1, k.2, rfl⟩
  refine ⟨by simp only [Stmt.eval, hops], fun op hop => ?_, h.unclashing.deletes (hdeletes db), ?_,
    ?_, rfl⟩
  · obtain ⟨_, k, rfl, rfl | hk⟩ := mem_deleteOps hop
    · exact hid
    · exact hinner k hk
  · have hright := h.unclashing'.deletes (hdeletes db')
    rwa [hops] at hright
  · intro Held Open hneeds
    simpa only [Stmt.Needs, hsame] using hneeds

end Rules

/-! ## Programs -/

/-- What a call may give, and any answer of the database. -/
def Stmt.Admits (A : (c : Call) → Answer c → Prop) (env : (c : Call) → Answer c) :
    Stmt Row Id Call → Prop
  | .call c => A c (env c)
  | _ => True

/-- An answer that databases which share the part give. -/
def Stmt.Given (A : (c : Call) → Answer c → Prop) (B : Border Row Id) (s : Stmt Row Id Call)
    (x : s.Ans Answer) : Prop :=
  ∃ env, s.Admits A env ∧ ∃ db db', Sharing B db db' ∧ x = (s.eval env db).1

/-- The program goes the same way wherever the part is shared, if its calls give what `A` says. -/
abbrev Coupled (A : (c : Call) → Answer c → Prop) (B : Border Row Id) (χ : α → Prop)
    (p : TxProg Row Id Answer ε α) : Prop :=
  p.Every (Stmt.Given A B) (Stmt.Couples Answer B) (fun _ => True) χ

/-- Its run ends with the same result in both databases, after the same writes. -/
theorem Coupled.run {A : (c : Call) → Answer c → Prop} {χ : α → Prop}
    {p : TxProg Row Id Answer ε α} (h : Coupled A B χ p) {oracle : Oracle Answer}
    (horacle : ∀ n c, A c (oracle n c)) (hshared : Sharing B db db') (n : Nat) :
    (p.run (execStmt oracle) ⟨db', n⟩).1 = (p.run (execStmt oracle) ⟨db, n⟩).1 ∧
      ∃ ops : List (Op Row Id), (∀ op ∈ ops, op.Inside B) ∧
        (p.run (execStmt oracle) ⟨db, n⟩).2.db = replay ops db ∧
        (p.run (execStmt oracle) ⟨db', n⟩).2.db = replay ops db' := by
  induction p generalizing db db' n with
  | ret a => exact ⟨rfl, [], fun _ hop => absurd hop List.not_mem_nil, rfl, rfl⟩
  | raise e => exact ⟨rfl, [], fun _ hop => absurd hop List.not_mem_nil, rfl, rfl⟩
  | step s k ih =>
    have hagrees := h.1 (oracle n) db db' hshared
    have hadmits : s.Admits A (oracle n) := by
      cases s with
      | call c => exact horacle n c
      | _ => trivial
    have hnext : Sharing B (replay (s.eval (oracle n) db).2 db)
        (replay (s.eval (oracle n) db).2 db') :=
      hshared.replay hagrees.inside hagrees.left hagrees.right
    obtain ⟨hresult, ops, hops, hdb, hdb'⟩ :=
      ih _ (h.2 _ ⟨oracle n, hadmits, db, db', hshared, rfl⟩) hnext (n + 1)
    simp only [Prog.run_step, execStmt, hagrees.eval]
    refine ⟨hresult, (s.eval (oracle n) db).2 ++ ops, fun op hop => ?_, ?_, ?_⟩
    · exact (List.mem_append.mp hop).elim (hagrees.inside op) (hops op)
    · rw [hdb, replay_append]
    · rw [hdb', replay_append]

/-- Its transaction ends with the same result, after the same writes inside the border. -/
theorem Coupled.transaction {A : (c : Call) → Answer c → Prop} {χ : α → Prop}
    {p : TxProg Row Id Answer ε α} (h : Coupled A B χ p) {oracle : Oracle Answer}
    (horacle : ∀ n c, A c (oracle n c)) (hshared : Sharing B db db') :
    (transaction oracle p db').1 = (transaction oracle p db).1 ∧
      ∃ ops : List (Op Row Id), (∀ op ∈ ops, op.Inside B) ∧
        (transaction oracle p db).2 = replay ops db ∧
        (transaction oracle p db').2 = replay ops db' := by
  obtain ⟨hresult, ops, hops, hdb, hdb'⟩ := h.run horacle hshared 0
  unfold Transactional.transaction
  generalize p.run (execStmt oracle) ⟨db, 0⟩ = x at hresult hdb ⊢
  generalize p.run (execStmt oracle) ⟨db', 0⟩ = x' at hresult hdb' ⊢
  obtain ⟨r, st⟩ := x
  obtain ⟨r', st'⟩ := x'
  obtain rfl : r' = r := hresult
  cases r' with
  | ok a => exact ⟨rfl, ops, hops, hdb, hdb'⟩
  | error e => exact ⟨rfl, [], fun _ hop => absurd hop List.not_mem_nil, rfl, rfl⟩

end Transactional
