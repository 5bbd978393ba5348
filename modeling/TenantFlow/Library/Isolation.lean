import TenantFlow.Library.ReadCommitted

/-!
# What unique indexes and row locks guarantee

The rows of one key change only by writes of that key. In every reachable state of
interleaved transactions no two rows clash, nor would they after any one open transaction
committed; what an open transaction holds no other one holds; and the rows of a key that it
holds stay as they are until it ends.
-/

namespace Transactional

section Isolation

variable {Table : Type} [DecidableEq Table] {Row : Table → Type} {Id : Type} [DecidableEq Id]
  [Schema Row Id]

/-! ## The rows of a key -/

def rowsAt (db : Db Row) (t : Table) (id : Id) : List (Row t) := (db t).filter fun r => pk r = id

omit [DecidableEq Table] in
theorem mem_rowsAt {db : Db Row} {t : Table} {id : Id} {r : Row t} :
    r ∈ rowsAt db t id ↔ r ∈ db t ∧ pk r = id := by
  simp [rowsAt]

/-- An update assigns no primary key. -/
def Op.KeepsKey : Op Row Id → Prop
  | .update _ _ f => ∀ r, pk (f r) = pk r
  | _ => True

section RowsAt

variable {db db' : Db Row} {t : Table} {id : Id} {op : Op Row Id} {ops : List (Op Row Id)}

theorem rowsAt_update_self {f : Row t → Row t} (hf : ∀ r, pk (f r) = pk r) :
    rowsAt ((Op.update t id f).apply db) t id = (rowsAt db t id).map f := by
  unfold rowsAt
  rw [apply_update_self, List.filter_map]
  have hpred : ((fun r => decide (pk r = id)) ∘ fun r => if pk r = id then f r else r) =
      fun r : Row t => decide (pk r = id) := by
    funext r
    by_cases h : pk r = id <;> simp [h, hf]
  rw [hpred]
  refine List.map_congr_left fun r hr => ?_
  simp [show pk r = id by simpa using (List.mem_filter.mp hr).2]

theorem rowsAt_update_of_ne {id' : Id} {f : Row t → Row t} (hf : ∀ r, pk (f r) = pk r)
    (h : id' ≠ id) : rowsAt ((Op.update t id' f).apply db) t id = rowsAt db t id := by
  unfold rowsAt
  rw [apply_update_self, List.filter_map]
  have hpred : ((fun r => decide (pk r = id)) ∘ fun r => if pk r = id' then f r else r) =
      fun r : Row t => decide (pk r = id) := by
    funext r
    by_cases hr : pk r = id' <;> simp [hr, hf]
  rw [hpred]
  conv_rhs => rw [← List.map_id ((db t).filter _)]
  refine List.map_congr_left fun r hr => ?_
  have hid : pk r = id := by simpa using (List.mem_filter.mp hr).2
  simp [hid, h.symm]

theorem rowsAt_insert_self {r : Row t} :
    rowsAt ((Op.insert t r).apply db) t (pk r) = rowsAt db t (pk r) ++ [r] := by
  simp [rowsAt]

theorem rowsAt_delete_self : rowsAt ((Op.delete t id).apply db) t id = [] := by
  simp [rowsAt]

/-- A write changes the rows of its own key only. -/
theorem rowsAt_apply_of_ne (hop : op.KeepsKey) (h : op.key ≠ (t, id)) :
    rowsAt (op.apply db) t id = rowsAt db t id := by
  by_cases ht : op.table = t
  · cases op with
    | insert t' r =>
      obtain rfl : t' = t := ht
      have hid : pk r ≠ id := fun hid => h (by simp [Op.key, hid])
      simp [rowsAt, hid]
    | update t' id' f =>
      obtain rfl : t' = t := ht
      exact rowsAt_update_of_ne hop fun hid => h (by simp [Op.key, hid])
    | delete t' id' =>
      obtain rfl : t' = t := ht
      have hid : id' ≠ id := fun hid => h (by simp [Op.key, hid])
      unfold rowsAt
      rw [apply_delete_self, List.filter_filter]
      refine List.filter_congr fun r _ => ?_
      by_cases hr : pk r = id <;> simp [hr, hid.symm]
  · simp [rowsAt, apply_of_table_ne db ht]

theorem rowsAt_replay_of_ne (hops : ∀ op ∈ ops, op.KeepsKey) (h : ∀ op ∈ ops, op.key ≠ (t, id)) :
    rowsAt (replay ops db) t id = rowsAt db t id := by
  induction ops generalizing db with
  | nil => rfl
  | cons op ops ih =>
    rw [replay_cons, ih (fun o ho => hops o (List.mem_cons_of_mem _ ho))
      (fun o ho => h o (List.mem_cons_of_mem _ ho))]
    exact rowsAt_apply_of_ne (hops op List.mem_cons_self) (h op List.mem_cons_self)

/-- The effect of a write on the rows of a key depends on these rows only. -/
theorem rowsAt_apply_congr (hop : op.KeepsKey) (h : rowsAt db t id = rowsAt db' t id) :
    rowsAt (op.apply db) t id = rowsAt (op.apply db') t id := by
  by_cases hkey : op.key = (t, id)
  · cases op with
    | insert t' r =>
      obtain ⟨rfl, rfl⟩ := Prod.mk.inj hkey
      unfold rowsAt at h ⊢
      rw [apply_insert_self, apply_insert_self, List.filter_append, List.filter_append, h]
    | update t' id' f =>
      obtain ⟨rfl, rfl⟩ := Prod.mk.inj hkey
      rw [rowsAt_update_self hop, rowsAt_update_self hop, h]
    | delete t' id' =>
      obtain ⟨rfl, rfl⟩ := Prod.mk.inj hkey
      rw [rowsAt_delete_self, rowsAt_delete_self]
  · rw [rowsAt_apply_of_ne hop hkey, rowsAt_apply_of_ne hop hkey, h]

theorem rowsAt_replay_congr (hops : ∀ op ∈ ops, op.KeepsKey)
    (h : rowsAt db t id = rowsAt db' t id) :
    rowsAt (replay ops db) t id = rowsAt (replay ops db') t id := by
  induction ops generalizing db db' with
  | nil => exact h
  | cons op ops ih =>
    exact ih (fun o ho => hops o (List.mem_cons_of_mem _ ho))
      (rowsAt_apply_congr (hops op List.mem_cons_self) h)

omit [DecidableEq Table] in
theorem mem_of_rowsAt_eq {r : Row t} (h : rowsAt db t (pk r) = rowsAt db' t (pk r)) :
    r ∈ db t ↔ r ∈ db' t := by
  have hmem : r ∈ rowsAt db t (pk r) ↔ r ∈ rowsAt db' t (pk r) := by rw [h]
  simpa [mem_rowsAt] using hmem

/-- Without deletes every row stays, up to what updates assign. -/
theorem apply_keeps_rows {γ : Type} (g : Row t → γ) (hdel : ∀ id, op ≠ .delete t id)
    (hup : ∀ id f, op = .update t id f → ∀ r : Row t, g (f r) = g r) {r : Row t}
    (hr : r ∈ db t) : ∃ r' ∈ op.apply db t, g r' = g r := by
  by_cases ht : op.table = t
  · cases op with
    | insert t' s =>
      obtain rfl : t' = t := ht
      exact ⟨r, by simp [hr], rfl⟩
    | update t' id f =>
      obtain rfl : t' = t := ht
      refine ⟨if pk r = id then f r else r, ?_, ?_⟩
      · rw [apply_update_self]
        exact List.mem_map.mpr ⟨r, hr, rfl⟩
      · split
        · exact hup id f rfl r
        · rfl
    | delete t' id =>
      obtain rfl : t' = t := ht
      exact absurd rfl (hdel id)
  · exact ⟨r, by rw [apply_of_table_ne db ht]; exact hr, rfl⟩

theorem replay_keeps_rows {γ : Type} (g : Row t → γ) (hdel : ∀ id, .delete t id ∉ ops)
    (hup : ∀ id f, .update t id f ∈ ops → ∀ r : Row t, g (f r) = g r) {r : Row t}
    (hr : r ∈ db t) : ∃ r' ∈ replay ops db t, g r' = g r := by
  induction ops generalizing db r with
  | nil => exact ⟨r, hr, rfl⟩
  | cons op ops ih =>
    obtain ⟨r₁, hr₁, hg⟩ := apply_keeps_rows g
      (fun id h => hdel id (h ▸ List.mem_cons_self))
      (fun id f h => hup id f (h ▸ List.mem_cons_self)) hr
    obtain ⟨r₂, hr₂, hg₂⟩ := ih (fun id h => hdel id (List.mem_cons_of_mem _ h))
      (fun id f h => hup id f (List.mem_cons_of_mem _ h)) hr₁
    exact ⟨r₂, hr₂, hg₂.trans hg⟩

/-- A row that no update or delete names stays as it is. -/
theorem mem_replay_of_inserts {r : Row t}
    (hops : ∀ op ∈ ops, op.key = (t, pk r) → ∃ s, op = .insert t s) (hr : r ∈ db t) :
    r ∈ replay ops db t := by
  induction ops generalizing db with
  | nil => exact hr
  | cons op ops ih =>
    refine ih (fun o ho => hops o (List.mem_cons_of_mem _ ho)) ?_
    have hop := hops op List.mem_cons_self
    by_cases ht : op.table = t
    · cases op with
      | insert t' s =>
        obtain rfl : t' = t := ht
        simp [hr]
      | update t' id f =>
        obtain rfl : t' = t := ht
        have hid : pk r ≠ id := fun hid => by simpa using hop (by rw [hid]; rfl)
        rw [apply_update_self]
        exact List.mem_map.mpr ⟨r, hr, if_neg hid⟩
      | delete t' id =>
        obtain rfl : t' = t := ht
        have hid : pk r ≠ id := fun hid => by simpa using hop (by rw [hid]; rfl)
        rw [apply_delete_self]
        exact List.mem_filter.mpr ⟨hr, by simpa using hid⟩
    · rwa [apply_of_table_ne db ht]

/-- Without deletes no key loses a row. -/
theorem length_rowsAt_apply (hdel : op ≠ .delete t id) (hop : op.KeepsKey) :
    (rowsAt db t id).length ≤ (rowsAt (op.apply db) t id).length := by
  by_cases hkey : op.key = (t, id)
  · cases op with
    | insert t' r =>
      obtain ⟨rfl, rfl⟩ := Prod.mk.inj hkey
      simp [rowsAt_insert_self]
    | update t' id' f =>
      obtain ⟨rfl, rfl⟩ := Prod.mk.inj hkey
      simp [rowsAt_update_self hop]
    | delete t' id' =>
      obtain ⟨rfl, rfl⟩ := Prod.mk.inj hkey
      exact absurd rfl hdel
  · exact Nat.le_of_eq (congrArg List.length (rowsAt_apply_of_ne hop hkey).symm)

theorem length_rowsAt_replay (hdel : .delete t id ∉ ops) (hops : ∀ op ∈ ops, op.KeepsKey) :
    (rowsAt db t id).length ≤ (rowsAt (replay ops db) t id).length := by
  induction ops generalizing db with
  | nil => exact Nat.le_refl _
  | cons op ops ih =>
    have hfirst : (rowsAt db t id).length ≤ (rowsAt (op.apply db) t id).length :=
      length_rowsAt_apply (fun h => hdel (h ▸ List.mem_cons_self)) (hops op List.mem_cons_self)
    exact Nat.le_trans hfirst (ih (fun h => hdel (List.mem_cons_of_mem _ h))
      fun o ho => hops o (List.mem_cons_of_mem _ ho))

/-- Deletes alone add no row. -/
theorem mem_of_replay_deletes (h : ∀ op ∈ ops, op.table = t → ∃ id, op = .delete t id) {r : Row t}
    (hr : r ∈ replay ops db t) : r ∈ db t := by
  induction ops generalizing db with
  | nil => exact hr
  | cons op ops ih =>
    have hrest := ih (fun o ho => h o (List.mem_cons_of_mem _ ho)) hr
    by_cases ht : op.table = t
    · obtain ⟨id, rfl⟩ := h op List.mem_cons_self ht
      rw [apply_delete_self] at hrest
      exact (List.mem_filter.mp hrest).1
    · rwa [apply_of_table_ne db ht] at hrest

end RowsAt

/-! ## Unique indexes -/

/-- What the unique indexes and cascades of a schema satisfy. -/
class Schema.Lawful (Row : Table → Type) (Id : outParam Type) [Schema Row Id] : Prop where
  clash_comm : ∀ {t : Table} (r s : Row t), clash r s = clash s r
  clash_of_pk : ∀ {t : Table} {r s : Row t}, pk r = pk s → clash r s = true
  cascade_mem : ∀ {db : Db Row} {t : Table} {id : Id} {k : Table × Id},
    k ∈ Schema.cascade db t id → ∃ r ∈ db k.1, pk r = k.2

/-- Within a table keys are distinct and no two rows clash. -/
structure Unclashing (db : Db Row) : Prop where
  keys : ∀ t id, (rowsAt db t id).length ≤ 1
  unique : ∀ t, ∀ r ∈ db t, ∀ s ∈ db t, pk r ≠ pk s → clash r s = false

section Unclashing

variable {db : Db Row} {t : Table} {id : Id}

omit [DecidableEq Table] in
theorem Unclashing.eq_of_pk (h : Unclashing db) {r s : Row t} (hr : r ∈ db t) (hs : s ∈ db t)
    (hpk : pk r = pk s) : r = s := by
  have hlen := h.keys t (pk s)
  have hr' : r ∈ rowsAt db t (pk s) := mem_rowsAt.mpr ⟨hr, hpk⟩
  have hs' : s ∈ rowsAt db t (pk s) := mem_rowsAt.mpr ⟨hs, rfl⟩
  match hrows : rowsAt db t (pk s) with
  | [] => simp [hrows] at hr'
  | [x] =>
    rw [hrows] at hr' hs'
    rw [List.mem_singleton.mp hr', List.mem_singleton.mp hs']
  | x :: y :: l =>
    rw [hrows] at hlen
    simp at hlen

omit [DecidableEq Table] in
theorem Consistent.unclashing (h : Consistent db) : Unclashing db where
  keys t id := by
    have hpw : (rowsAt db t id).Pairwise fun r s => pk r ≠ pk s := (h.keys t).filter _
    match hrows : rowsAt db t id with
    | [] => simp
    | [x] => simp
    | x :: y :: l =>
      have hx : x ∈ rowsAt db t id := by simp [hrows]
      have hy : y ∈ rowsAt db t id := by simp [hrows]
      rw [hrows] at hpw
      have hne : pk x ≠ pk y := (List.pairwise_cons.mp hpw).1 y List.mem_cons_self
      exact absurd ((mem_rowsAt.mp hx).2.trans (mem_rowsAt.mp hy).2.symm) hne
  unique := h.unique

omit [DecidableEq Table] in
/-- Tables of at most one row. -/
theorem unclashing_of_length (h : ∀ t, (db t).length ≤ 1) : Unclashing db where
  keys t _ := Nat.le_trans (List.length_filter_le _ _) (h t)
  unique t r hr s hs hne := by
    match hrows : db t with
    | [] => simp [hrows] at hr
    | [x] =>
      rw [hrows] at hr hs
      rw [List.mem_singleton.mp hr, List.mem_singleton.mp hs] at hne
      exact absurd rfl hne
    | x :: y :: l =>
      have hlen := h t
      rw [hrows] at hlen
      simp at hlen

omit [DecidableEq Table] in
theorem Unclashing.rowsAt_eq (h : Unclashing db) {r : Row t} (hr : r ∈ db t) :
    rowsAt db t (pk r) = [r] := by
  have hmem : r ∈ rowsAt db t (pk r) := mem_rowsAt.mpr ⟨hr, rfl⟩
  match hrows : rowsAt db t (pk r) with
  | [] => simp [hrows] at hmem
  | [x] =>
    rw [hrows] at hmem
    rw [List.mem_singleton.mp hmem]
  | x :: y :: l =>
    have hlen := h.keys t (pk r)
    rw [hrows] at hlen
    simp at hlen

omit [DecidableEq Table] in
theorem Unclashing.nodup_keys (h : Unclashing db) (t : Table) : ((db t).map pk).Nodup := by
  refine List.nodup_iff_count.mpr fun id => ?_
  rw [List.count, List.countP_map, List.countP_eq_length_filter]
  refine Nat.le_trans (Nat.le_of_eq ?_) (h.keys t id)
  exact congrArg List.length (List.filter_congr fun r _ => beq_eq_decide _ _)

omit [DecidableEq Table] in
/-- A selection holds a row once or not at all. -/
theorem Unclashing.countP_filter (h : Unclashing db) {r : Row t} (hr : r ∈ db t)
    (p : Row t → Bool) :
    ((db t).filter p).countP (fun s => pk s = pk r) = if p r then 1 else 0 := by
  have hrows : ((db t).filter p).filter (fun s => pk s = pk r) = (rowsAt db t (pk r)).filter p := by
    rw [rowsAt, List.filter_filter, List.filter_filter]
    exact List.filter_congr fun s _ => Bool.and_comm _ _
  rw [List.countP_eq_length_filter, hrows, h.rowsAt_eq hr]
  cases hp : p r <;> simp [hp]

omit [DecidableEq Table] in
theorem Unclashing.find (h : Unclashing db) {r : Row t} (hr : r ∈ db t) :
    (db t).find? (fun s => pk s = pk r) = some r := by
  cases hfind : (db t).find? (fun s => pk s = pk r) with
  | none =>
    have hno := List.find?_eq_none.mp hfind r hr
    simp at hno
  | some s =>
    have hs : s ∈ db t := List.mem_of_find?_eq_some hfind
    have hpk : pk s = pk r := by simpa using List.find?_some hfind
    rw [h.eq_of_pk hs hr hpk]

/-- Without deletes, a key is inserted only while no row has it. -/
theorem Unclashing.fresh_key {ops : List (Op Row Id)} {r : Row t} (h : Unclashing (replay ops db))
    (hins : .insert t r ∈ ops) (hdel : .delete t (pk r) ∉ ops) (hops : ∀ op ∈ ops, op.KeepsKey) :
    ∀ s ∈ db t, pk s ≠ pk r := by
  intro s hs hpk
  obtain ⟨before, after, rfl⟩ := List.append_of_mem hins
  have hs : 0 < (rowsAt db t (pk r)).length := List.length_pos_of_mem (mem_rowsAt.mpr ⟨hs, hpk⟩)
  have hbefore : (rowsAt db t (pk r)).length ≤ (rowsAt (replay before db) t (pk r)).length :=
    length_rowsAt_replay (fun hd => hdel (List.mem_append_left _ hd))
      fun op hop => hops op (List.mem_append_left _ hop)
  have hafter : (rowsAt ((Op.insert t r).apply (replay before db)) t (pk r)).length ≤
      (rowsAt (replay after ((Op.insert t r).apply (replay before db))) t (pk r)).length :=
    length_rowsAt_replay
    (fun hd => hdel (List.mem_append_right _ (List.mem_cons_of_mem _ hd)))
    fun op hop => hops op (List.mem_append_right _ (List.mem_cons_of_mem _ hop))
  have hend := h.keys t (pk r)
  rw [rowsAt_insert_self, List.length_append, List.length_singleton] at hafter
  rw [replay_append, replay_cons] at hend
  omega

theorem mem_apply_update {f : Row t → Row t} {r : Row t}
    (h : r ∈ (Op.update t id f).apply db t) :
    (r ∈ db t ∧ pk r ≠ id) ∨ ∃ s ∈ db t, pk s = id ∧ r = f s := by
  rw [apply_update_self] at h
  obtain ⟨s, hs, rfl⟩ := List.mem_map.mp h
  by_cases hid : pk s = id
  · exact .inr ⟨s, hs, hid, by simp [hid]⟩
  · rw [if_neg hid]
    exact .inl ⟨hs, hid⟩

omit [DecidableEq Table] in
/-- An assignment that the database accepts, applied to the row of its key. -/
theorem Unclashing.updatable_ok (h : Unclashing db) {f : Row t → Row t}
    (hup : updatable db t id f = .ok ()) {s : Row t} (hs : s ∈ db t) (hid : pk s = id) :
    Schema.check db (f s) = none ∧ ∀ r ∈ db t, pk r ≠ id → clash (f s) r = false := by
  obtain ⟨s', hfind, hcheck, hclash⟩ := Transactional.updatable_ok hup
  obtain rfl : s' = s := by
    have hs' : pk s' = id := by simpa using List.find?_some hfind
    exact h.eq_of_pk (List.mem_of_find?_eq_some hfind) hs (hs'.trans hid.symm)
  exact ⟨hcheck, hclash⟩

variable [Schema.Lawful Row Id]

omit [DecidableEq Table] [DecidableEq Id] in
theorem pk_ne_of_clash {r s : Row t} (h : clash r s = false) : pk r ≠ pk s := by
  intro hpk
  rw [Schema.Lawful.clash_of_pk hpk] at h
  cases h

theorem Unclashing.insert (h : Unclashing db) {r : Row t} (hins : insertable db r = .ok ()) :
    Unclashing ((Op.insert t r).apply db) := by
  have hclash := (insertable_ok hins).2
  refine ⟨fun t' id' => ?_, fun t' x hx y hy hne => ?_⟩
  · by_cases hkey : (t, pk r) = (t', id')
    · obtain ⟨rfl, rfl⟩ := Prod.mk.inj hkey
      have hnone : rowsAt db t (pk r) = [] := by
        refine List.filter_eq_nil_iff.mpr fun s hs => ?_
        simpa using (pk_ne_of_clash (hclash s hs)).symm
      simp [rowsAt_insert_self, hnone]
    · have hkeep : rowsAt ((Op.insert t r).apply db) t' id' = rowsAt db t' id' :=
        rowsAt_apply_of_ne trivial hkey
      rw [hkeep]
      exact h.keys t' id'
  · by_cases ht : t = t'
    · subst ht
      rw [apply_insert_self, List.mem_append, List.mem_singleton] at hx hy
      rcases hx with hx | rfl <;> rcases hy with hy | rfl
      · exact h.unique t x hx y hy hne
      · rw [Schema.Lawful.clash_comm]
        exact hclash x hx
      · exact hclash y hy
      · exact absurd rfl hne
    · have hkeep : (Op.insert t r : Op Row Id).apply db t' = db t' := apply_of_table_ne db ht
      rw [hkeep] at hx hy
      exact h.unique t' x hx y hy hne

theorem Unclashing.update (h : Unclashing db) {f : Row t → Row t} (hf : ∀ r, pk (f r) = pk r)
    (hup : updatable db t id f = .ok ()) : Unclashing ((Op.update t id f).apply db) := by
  refine ⟨fun t' id' => ?_, fun t' x hx y hy hne => ?_⟩
  · by_cases hkey : (t, id) = (t', id')
    · obtain ⟨rfl, rfl⟩ := Prod.mk.inj hkey
      rw [rowsAt_update_self hf, List.length_map]
      exact h.keys t id
    · have hkeep : rowsAt ((Op.update t id f).apply db) t' id' = rowsAt db t' id' :=
        rowsAt_apply_of_ne hf hkey
      rw [hkeep]
      exact h.keys t' id'
  · by_cases ht : t = t'
    · subst ht
      rcases mem_apply_update hx with ⟨hx, hxid⟩ | ⟨x', hx', hxid, rfl⟩ <;>
        rcases mem_apply_update hy with ⟨hy, hyid⟩ | ⟨y', hy', hyid, rfl⟩
      · exact h.unique t x hx y hy hne
      · rw [Schema.Lawful.clash_comm]
        exact (h.updatable_ok hup hy' hyid).2 x hx hxid
      · exact (h.updatable_ok hup hx' hxid).2 y hy hyid
      · exact absurd (by rw [hf, hf, hxid, hyid]) hne
    · have hkeep : (Op.update t id f : Op Row Id).apply db t' = db t' := apply_of_table_ne db ht
      rw [hkeep] at hx hy
      exact h.unique t' x hx y hy hne

omit [Schema.Lawful Row Id] in
theorem mem_of_apply_delete {t' : Table} {r : Row t'} (h : r ∈ (Op.delete t id).apply db t') :
    r ∈ db t' := by
  by_cases ht : t = t'
  · subst ht
    rw [apply_delete_self] at h
    exact (List.mem_filter.mp h).1
  · have hkeep : (Op.delete t id : Op Row Id).apply db t' = db t' := apply_of_table_ne db ht
    rwa [hkeep] at h

omit [Schema.Lawful Row Id] in
theorem Unclashing.delete (h : Unclashing db) : Unclashing ((Op.delete t id).apply db) := by
  refine ⟨fun t' id' => ?_, fun t' x hx y hy hne =>
    h.unique t' x (mem_of_apply_delete hx) y (mem_of_apply_delete hy) hne⟩
  by_cases hkey : (t, id) = (t', id')
  · obtain ⟨rfl, rfl⟩ := Prod.mk.inj hkey
    simp [rowsAt_delete_self]
  · have hkeep : rowsAt ((Op.delete t id).apply db) t' id' = rowsAt db t' id' :=
      rowsAt_apply_of_ne trivial hkey
    rw [hkeep]
    exact h.keys t' id'

omit [Schema.Lawful Row Id] in
theorem Unclashing.deletes (h : Unclashing db) {ops : List (Op Row Id)}
    (hops : ∀ op ∈ ops, ∃ t id, op = .delete t id) : Unclashing (replay ops db) := by
  induction ops generalizing db with
  | nil => exact h
  | cons op ops ih =>
    obtain ⟨t, id, rfl⟩ := hops op List.mem_cons_self
    exact ih h.delete fun o ho => hops o (List.mem_cons_of_mem _ ho)

end Unclashing

/-! ## Orderly programs -/

section Orderly

variable {Call : Type} {Answer : Call → Type} {ε α : Type}

/-- A statement that inserts and updates in the tables `W` and deletes from the tables `D`,
assigns no primary key, and locks existing rows. -/
def Stmt.Within (W D : Table → Prop) : Stmt Row Id Call → Prop
  | .select _ => True
  | .selectForUpdate q locked => ∀ db : Db Row, ∀ k ∈ locked (q db), ∃ r ∈ db k.1, pk r = k.2
  | .insert t _ => W t
  | .insertOnConflictDoNothing t _ _ => W t
  | .update t _ f => W t ∧ ∀ r, pk (f r) = pk r
  | .delete t _ => D t ∧ ∀ (db : Db Row) (id : Id), ∀ k ∈ Schema.cascade db t id, D k.1
  | .call _ => True

def Op.Within (W D : Table → Prop) : Op Row Id → Prop
  | .insert t _ => W t
  | .update t _ f => W t ∧ ∀ r, pk (f r) = pk r
  | .delete t _ => D t

omit [DecidableEq Table] [DecidableEq Id] in
theorem Op.Within.table {W D : Table → Prop} {op : Op Row Id} (h : op.Within W D) :
    W op.table ∨ D op.table := by
  cases op with
  | insert t r => exact .inl h
  | update t id f => exact .inl h.1
  | delete t id => exact .inr h

omit [DecidableEq Table] [DecidableEq Id] in
theorem Op.Within.keepsKey {W D : Table → Prop} {op : Op Row Id} (h : op.Within W D) :
    op.KeepsKey := by
  cases op with
  | update t id f => exact h.2
  | _ => trivial

/-- On every path the program inserts and updates in some tables and deletes from others. -/
def Orderly (W D : Table → Prop) (p : TxProg Row Id Answer ε α) : Prop :=
  (∀ t, W t → ¬ D t) ∧
    p.Every Stmt.Possible (Stmt.Within W D) (fun _ => True) (fun _ => True)

omit [DecidableEq Table] in
theorem Stmt.Within.ops {W D : Table → Prop} {s : Stmt Row Id Call} (h : s.Within W D)
    (ext : (c : Call) → Answer c) (db : Db Row) : ∀ op ∈ (s.eval ext db).2, op.Within W D := by
  intro op hop
  rcases mem_eval_ops hop with ⟨t, r, rfl, _, rfl | ⟨a, rfl⟩⟩ | ⟨t, id, f, rfl, _, rfl⟩ |
    ⟨t, id, k, rfl, rfl, hk, _⟩
  · exact h
  · exact h
  · exact h
  · rcases hk with rfl | hk
    · exact h.1
    · exact h.2 db id k hk

/-- No statement lets two rows clash. -/
theorem Unclashing.eval [Schema.Lawful Row Id] {db : Db Row} (h : Unclashing db)
    {W D : Table → Prop} {s : Stmt Row Id Call} (hs : s.Within W D)
    (ext : (c : Call) → Answer c) : Unclashing (replay (s.eval ext db).2 db) := by
  cases s with
  | select q => exact h
  | selectForUpdate q l => exact h
  | insert t r =>
    cases hins : insertable db r with
    | ok u => simpa [Stmt.eval, hins, onlyIfOk] using h.insert hins
    | error e => simpa [Stmt.eval, hins, onlyIfOk] using h
  | insertOnConflictDoNothing t a r =>
    simp only [Stmt.eval]
    split
    · exact h
    · cases hins : insertable db r with
      | ok u => simpa [onlyIfOk] using h.insert hins
      | error e => simpa [onlyIfOk] using h
  | update t id f =>
    cases hup : updatable db t id f with
    | ok u => simpa [Stmt.eval, hup, onlyIfOk] using h.update hs.2 hup
    | error e => simpa [Stmt.eval, hup, onlyIfOk] using h
  | delete t id =>
    refine h.deletes fun op hop => ?_
    obtain ⟨_, k, rfl, _⟩ := mem_deleteOps hop
    exact ⟨_, _, rfl⟩
  | call c => exact h

end Orderly

/-! ## Interleaved transactions -/

section Interleaved

variable {Call : Type} {Answer : Call → Type} {ε α ι : Type}
  {W D : ι → Table → Prop} {sys : Sys Row Id Answer ε α ι} {i j : ι}
  {tx tx' : Tx Row Id Answer ε α} {t : Table}

/-- What holds on every path of the programs holds on what is left of them. -/
theorem ReachableVia.every [DecidableEq ι]
    {ok : Sys Row Id Answer ε α ι → Sys Row Id Answer ε α ι → Prop}
    {progs : ι → TxProg Row Id Answer ε α} {db : Db Row} {φ : ι → Stmt Row Id Call → Prop}
    {ψ : ι → ε → Prop} {χ : ι → α → Prop}
    (h : ∀ i, (progs i).Every Stmt.Possible (φ i) (ψ i) (χ i)) (hr : ReachableVia ok progs db sys)
    (hi : sys.proc i = .active tx) : tx.prog.Every Stmt.Possible (φ i) (ψ i) (χ i) := by
  induction hr generalizing i tx with
  | refl =>
    obtain rfl := Proc.active.inj hi
    exact h i
  | tail _ hstep ih =>
    cases hstep.1 with
    | stmt l txl s k ext hl hp _ =>
      rcases active_of_advance hi with ⟨rfl, rfl⟩ | ⟨_, hi⟩
      · have hleft := ih hl
        rw [hp] at hleft
        exact hleft.2 _ ⟨ext, _, rfl⟩
      · exact ih hi
    | commit l txl a hl hp => exact ih (active_of_commit hi).2
    | rollback l txl e hl hp => exact ih (active_of_abort hi).2
    | cutOff l txl hl => exact ih (active_of_abort hi).2

/-- The guarantees of the database, over all open transactions: `W i` and `D i` are the
tables in which process `i` inserts and updates, and from which it deletes. -/
structure Isolated (W D : ι → Table → Prop) (sys : Sys Row Id Answer ε α ι) : Prop where
  unclashing : Unclashing sys.db
  views : ∀ i tx, sys.proc i = .active tx → Unclashing (tx.view sys.db)
  within : ∀ i tx, sys.proc i = .active tx → ∀ op ∈ tx.ops, op.Within (W i) (D i)
  /-- No two open transactions hold the same row. -/
  exclusive : ∀ i j tx tx', i ≠ j → sys.proc i = .active tx → sys.proc j = .active tx' →
    ∀ k, tx.Holds k → ¬ tx'.Holds k
  /-- What is held is a committed row or a row that its holder has written. -/
  held : ∀ i tx, sys.proc i = .active tx → ∀ k, tx.Holds k → (∃ r ∈ sys.db k.1, pk r = k.2) ∨
    W i k.1 ∧ ∃ r ∈ tx.view sys.db k.1, pk r = k.2
  /-- Versions that two open transactions have written do not clash. -/
  compatible : ∀ i j tx tx', i ≠ j → sys.proc i = .active tx → sys.proc j = .active tx' →
    ∀ t, ∀ r ∈ tx.view sys.db t, ∀ s ∈ tx'.view sys.db t, r ∉ sys.db t → s ∉ sys.db t →
    clash r s = false

theorem Isolated.keepsKey (h : Isolated W D sys) (hi : sys.proc i = .active tx) :
    ∀ op ∈ tx.ops, op.KeepsKey :=
  fun op hop => (h.within i tx hi op hop).keepsKey

/-- A transaction sees the rows of a key that it does not hold as they are committed. -/
theorem Isolated.rowsAt_view (h : Isolated W D sys) (hi : sys.proc i = .active tx) {id : Id}
    (hk : ¬ tx.Holds (t, id)) : rowsAt (tx.view sys.db) t id = rowsAt sys.db t id :=
  rowsAt_replay_of_ne (h.keepsKey hi) fun op hop hkey => hk (.inr ⟨op, hop, hkey⟩)

theorem Isolated.mem_view (h : Isolated W D sys) (hi : sys.proc i = .active tx) {r : Row t}
    (hk : ¬ tx.Holds (t, pk r)) : r ∈ tx.view sys.db t ↔ r ∈ sys.db t :=
  mem_of_rowsAt_eq (h.rowsAt_view hi hk)

/-- A process that only deletes from a table sees no rows but committed ones there. -/
theorem Isolated.mem_db (h : Isolated W D sys) (hi : sys.proc i = .active tx) (ht : ¬ W i t)
    {r : Row t} (hr : r ∈ tx.view sys.db t) : r ∈ sys.db t := by
  refine mem_of_replay_deletes (fun op hop htable => ?_) hr
  have hwithin := h.within i tx hi op hop
  cases op with
  | insert t' r =>
    obtain rfl : t' = t := htable
    exact absurd hwithin ht
  | update t' id f =>
    obtain rfl : t' = t := htable
    exact absurd hwithin.1 ht
  | delete t' id =>
    obtain rfl : t' = t := htable
    exact ⟨id, rfl⟩

/-! A statement of process `i`. -/

section Statement

variable (h : Isolated W D sys) (hi : sys.proc i = .active tx) {s : Stmt Row Id Call}
  {k : s.Ans Answer → TxProg Row Id Answer ε α} {ext : (c : Call) → Answer c}

theorem holds_advance {db : Db Row} {key : Table × Id} :
    (tx.advance db s k ext).Holds key ↔ tx.Holds key ∨ key ∈ s.locks (tx.view db) ∨
      ∃ op ∈ (s.eval ext (tx.view db)).2, op.key = key := by
  simp only [Tx.Holds, Tx.advance, List.mem_append]
  constructor
  · rintro ((hk | hk) | ⟨op, hop | hop, hkey⟩)
    · exact .inl (.inl hk)
    · exact .inr (.inl hk)
    · exact .inl (.inr ⟨op, hop, hkey⟩)
    · exact .inr (.inr ⟨op, hop, hkey⟩)
  · rintro ((hk | ⟨op, hop, hkey⟩) | hk | ⟨op, hop, hkey⟩)
    · exact .inl (.inl hk)
    · exact .inr ⟨op, .inl hop, hkey⟩
    · exact .inl (.inr hk)
    · exact .inr ⟨op, .inr hop, hkey⟩

@[simp] theorem view_advance {db : Db Row} :
    (tx.advance db s k ext).view db = replay (s.eval ext (tx.view db)).2 (tx.view db) := by
  simp [Tx.view, Tx.advance]

omit [DecidableEq Table] [DecidableEq Id] [Schema Row Id] in
theorem mem_locks {view : Db Row} {key : Table × Id} (hk : key ∈ s.locks view) :
    ∃ (γ : Type) (q : Db Row → γ) (l : γ → List (Table × Id)), s = .selectForUpdate q l ∧
      key ∈ l (q view) := by
  cases s with
  | selectForUpdate q l => exact ⟨_, q, l, rfl, hk⟩
  | _ => cases hk

theorem mem_apply_insert_of_not_mem {db : Db Row} {t' : Table} {r' : Row t'} {r : Row t}
    (hr : r ∈ (Op.insert t' r').apply db t) (hold : r ∉ db t) :
    (⟨t', r'⟩ : (t : Table) × Row t) = ⟨t, r⟩ := by
  by_cases ht : t' = t
  · subst ht
    rw [apply_insert_self, List.mem_append, List.mem_singleton] at hr
    rcases hr with hr | rfl
    · exact absurd hr hold
    · rfl
  · have hkeep : (Op.insert t' r' : Op Row Id).apply db t = db t := apply_of_table_ne db ht
    rw [hkeep] at hr
    exact absurd hr hold

omit [DecidableEq Table] in
theorem eval_ops_of_insert {view : Db Row} {r : Row t} (hop : .insert t r ∈ (s.eval ext view).2) :
    (s.eval ext view).2 = [.insert t r] := by
  rcases mem_eval_ops hop with ⟨t', r', heq, hins, hstmt⟩ | ⟨t', id, f, heq, _⟩ |
    ⟨t', id, key, _, heq, _⟩
  · cases heq
    rcases hstmt with rfl | ⟨a, rfl⟩
    · simp [Stmt.eval, hins, onlyIfOk]
    · simp only [Stmt.eval] at hop ⊢
      split
      · rename_i hany
        rw [if_pos hany] at hop
        cases hop
      · simp [hins, onlyIfOk]
  · cases heq
  · cases heq

/-- A row version that appears in the view through a statement: an inserted row, or the new
version of an updated one. -/
theorem mem_view_of_stmt {view : Db Row} {r : Row t}
    (hr : r ∈ replay (s.eval ext view).2 view t) (hold : r ∉ view t) :
    (insertable view r = .ok () ∧ (s = .insert t r ∨ ∃ a, s = .insertOnConflictDoNothing t a r)) ∨
    ∃ id f, s = .update t id f ∧ updatable view t id f = .ok () ∧
      ∃ r' ∈ view t, pk r' = id ∧ r = f r' := by
  cases s with
  | select q => exact absurd hr hold
  | selectForUpdate q l => exact absurd hr hold
  | insert t' r' =>
    cases hins : insertable view r' with
    | error e => exact absurd (by simpa [Stmt.eval, hins, onlyIfOk] using hr) hold
    | ok u =>
      have hnew : r ∈ (Op.insert t' r').apply view t := by
        simpa [Stmt.eval, hins, onlyIfOk] using hr
      cases mem_apply_insert_of_not_mem hnew hold
      exact .inl ⟨hins, .inl rfl⟩
  | insertOnConflictDoNothing t' a r' =>
    simp only [Stmt.eval] at hr
    split at hr
    · exact absurd hr hold
    · cases hins : insertable view r' with
      | error e => exact absurd (by simpa [hins, onlyIfOk] using hr) hold
      | ok u =>
        have hnew : r ∈ (Op.insert t' r').apply view t := by
          simpa [hins, onlyIfOk] using hr
        cases mem_apply_insert_of_not_mem hnew hold
        exact .inl ⟨hins, .inr ⟨a, rfl⟩⟩
  | update t' id f =>
    cases hup : updatable view t' id f with
    | error e => exact absurd (by simpa [Stmt.eval, hup, onlyIfOk] using hr) hold
    | ok u =>
      have hnew : r ∈ (Op.update t' id f).apply view t := by
        simpa [Stmt.eval, hup, onlyIfOk] using hr
      by_cases ht : t' = t
      · subst ht
        rcases mem_apply_update hnew with ⟨hr', _⟩ | ⟨r', hr', hid, rfl⟩
        · exact absurd hr' hold
        · exact .inr ⟨id, f, rfl, hup, r', hr', hid, rfl⟩
      · have hkeep : (Op.update t' id f : Op Row Id).apply view t = view t :=
          apply_of_table_ne view ht
        rw [hkeep] at hnew
        exact absurd hnew hold
  | delete t' id =>
    refine absurd (mem_of_replay_deletes (fun op hop htable => ?_) hr) hold
    obtain ⟨_, key, rfl, _⟩ := mem_deleteOps hop
    obtain rfl : key.1 = t := htable
    exact ⟨key.2, rfl⟩
  | call c => exact absurd hr hold

include h hi

/-- An accepted row meets no row that another transaction holds. -/
theorem Isolated.insert_free {r : Row t} (hins : insertable (tx.view sys.db) r = .ok ())
    (hj : sys.proc j = .active tx') (hji : j ≠ i)
    (hwait : ∀ r', clash r r' = true → ¬ tx'.Undecided sys.db t r') [Schema.Lawful Row Id] :
    ¬ tx'.Holds (t, pk r) := by
  intro hk
  have hnot : ¬ tx.Holds (t, pk r) := h.exclusive j i tx' tx hji hj hi _ hk
  by_cases hrow : ∃ x ∈ sys.db t, pk x = pk r
  · obtain ⟨x, hx, hpk⟩ := hrow
    have hview : x ∈ tx.view sys.db t := (h.mem_view hi (by rwa [hpk])).mpr hx
    exact pk_ne_of_clash ((insertable_ok hins).2 x hview) hpk.symm
  · rcases h.held j tx' hj _ hk with hdb | ⟨_, x, hx, hpk⟩
    · exact hrow hdb
    · exact hwait x (Schema.Lawful.clash_of_pk hpk.symm) (.inr ⟨fun hx' => hrow ⟨x, hx', hpk⟩, hx⟩)

variable [Schema.Lawful Row Id]

/-- What a statement comes to hold no other open transaction holds. -/
theorem Isolated.stmt_exclusive (hj : sys.proc j = .active tx') (hji : j ≠ i)
    (hfree : ¬ Waits sys.db (tx.view sys.db) tx' s) {key : Table × Id}
    (hk : key ∈ s.locks (tx.view sys.db) ∨
      ∃ op ∈ (s.eval ext (tx.view sys.db)).2, op.key = key) : ¬ tx'.Holds key := by
  rcases hk with hk | ⟨op, hop, rfl⟩
  · obtain ⟨γ, q, l, rfl, hmem⟩ := mem_locks hk
    exact fun hholds => hfree ⟨key, hmem, hholds⟩
  rcases mem_eval_ops hop with ⟨t, r, rfl, hins, rfl | ⟨a, rfl⟩⟩ | ⟨t, id, f, rfl, _, rfl⟩ |
    ⟨t, id, key, rfl, rfl, hkey, _⟩
  · exact h.insert_free hi hins hj hji fun r' hc hu => hfree ⟨r', hc, hu⟩
  · exact h.insert_free hi hins hj hji fun r' hc hu => hfree ⟨r', hc, hu⟩
  · exact fun hholds => hfree (.inl hholds)
  · exact fun hholds => hfree ⟨key, by simpa using hkey, hholds⟩

omit [Schema.Lawful Row Id] in
theorem Isolated.stmt_compatible (hj : sys.proc j = .active tx') (hji : j ≠ i)
    (hfree : ¬ Waits sys.db (tx.view sys.db) tx' s) {r x : Row t}
    (hr : r ∈ replay (s.eval ext (tx.view sys.db)).2 (tx.view sys.db) t)
    (hx : x ∈ tx'.view sys.db t) (hrdb : r ∉ sys.db t) (hxdb : x ∉ sys.db t) :
    clash r x = false := by
  by_cases hold : r ∈ tx.view sys.db t
  · exact h.compatible i j tx tx' hji.symm hi hj t r hold x hx hrdb hxdb
  have hund : tx'.Undecided sys.db t x := .inr ⟨hxdb, hx⟩
  by_contra hclash
  have hclash : clash r x = true := by simpa using hclash
  rcases mem_view_of_stmt hr hold with ⟨_, rfl | ⟨a, rfl⟩⟩ | ⟨id, f, rfl, _, r', hr', hid, rfl⟩
  · exact hfree ⟨x, hclash, hund⟩
  · exact hfree ⟨x, hclash, hund⟩
  · refine hfree (.inr ⟨r', hr', hid, x, ?_, hclash, hund⟩)
    -- The other transaction has written the row, so it holds its key.
    rintro rfl
    have hheld : tx'.Holds (t, pk x) := by
      by_contra hk
      exact hxdb ((h.mem_view hj hk).mp hx)
    exact hfree (.inl hheld)

theorem Isolated.stmt_held (hW : ∀ t, W i t → ¬ D i t) (hs : s.Within (W i) (D i))
    {key : Table × Id} (hk : (tx.advance sys.db s k ext).Holds key) :
    (∃ r ∈ sys.db key.1, pk r = key.2) ∨ W i key.1 ∧
      ∃ r ∈ (tx.advance sys.db s k ext).view sys.db key.1, pk r = key.2 := by
  rw [view_advance]
  have hops := hs.ops ext (tx.view sys.db)
  -- In a table where the process inserts and updates, it deletes no row.
  have hkeep : ∀ t, W i t → ∀ r ∈ tx.view sys.db t,
      ∃ r' ∈ replay (s.eval ext (tx.view sys.db)).2 (tx.view sys.db) t, pk r' = pk r := by
    intro t ht r hr
    refine replay_keeps_rows pk (fun id hop => hW t ht (hops _ hop)) (fun id f hop => ?_) hr
    exact (hops _ hop).2
  have hseen : ∀ key : Table × Id, (∃ r ∈ tx.view sys.db key.1, pk r = key.2) →
      (∃ r ∈ sys.db key.1, pk r = key.2) ∨ W i key.1 ∧
        ∃ r ∈ replay (s.eval ext (tx.view sys.db)).2 (tx.view sys.db) key.1, pk r = key.2 := by
    rintro key ⟨r, hr, hpk⟩
    by_cases ht : W i key.1
    · obtain ⟨r', hr', hpk'⟩ := hkeep key.1 ht r hr
      exact .inr ⟨ht, r', hr', hpk'.trans hpk⟩
    · exact .inl ⟨r, h.mem_db hi ht hr, hpk⟩
  rcases holds_advance.mp hk with hk | hk | ⟨op, hop, rfl⟩
  · rcases h.held i tx hi key hk with hrow | ⟨_, hrow⟩
    · exact .inl hrow
    · exact hseen key hrow
  · obtain ⟨γ, q, l, rfl, hmem⟩ := mem_locks hk
    exact hseen key (hs _ key hmem)
  · rcases mem_eval_ops hop with ⟨t, r, rfl, hins, hstmt⟩ | ⟨t, id, f, rfl, hup, rfl⟩ |
      ⟨t, id, key, rfl, rfl, hkey, hrow⟩
    · have ht : W i t := hops _ hop
      refine .inr ⟨ht, r, ?_, rfl⟩
      rw [eval_ops_of_insert hop]
      change r ∈ (Op.insert t r : Op Row Id).apply (tx.view sys.db) t
      simp
    · obtain ⟨r, hfind, _⟩ := Transactional.updatable_ok hup
      exact hseen (t, id) ⟨r, List.mem_of_find?_eq_some hfind, by simpa using List.find?_some hfind⟩
    · rcases hkey with rfl | hkey
      · exact hseen (t, id) hrow
      · exact hseen key (Schema.Lawful.cascade_mem hkey)

end Statement

theorem Isolated.stmt [DecidableEq ι] [Schema.Lawful Row Id] (h : Isolated W D sys)
    (hi : sys.proc i = .active tx) (hW : ∀ t, W i t → ¬ D i t) {s : Stmt Row Id Call}
    {k : s.Ans Answer → TxProg Row Id Answer ε α} {ext : (c : Call) → Answer c}
    (hs : s.Within (W i) (D i))
    (hfree : ∀ j tx', j ≠ i → sys.proc j = .active tx' →
      ¬ Waits sys.db (tx.view sys.db) tx' s) : Isolated W D (sys.advance i tx s k ext) where
  unclashing := h.unclashing
  views j txj hj := by
    rcases active_of_advance hj with ⟨rfl, rfl⟩ | ⟨_, hj⟩
    · change Unclashing ((tx.advance sys.db s k ext).view sys.db)
      rw [view_advance]
      exact (h.views j tx hi).eval hs ext
    · exact h.views j txj hj
  within j txj hj op hop := by
    rcases active_of_advance hj with ⟨rfl, rfl⟩ | ⟨_, hj⟩
    · rcases List.mem_append.mp hop with hop | hop
      · exact h.within j tx hi op hop
      · exact hs.ops ext _ op hop
    · exact h.within j txj hj op hop
  exclusive j l txj txl hjl hj hl key hk hk' := by
    rcases active_of_advance hj with ⟨rfl, rfl⟩ | ⟨hji, hj'⟩ <;>
      rcases active_of_advance hl with ⟨rfl, rfl⟩ | ⟨hli, hl'⟩
    · exact hjl rfl
    · rcases holds_advance.mp hk with hk | hk
      · exact h.exclusive j l tx txl hjl hi hl' key hk hk'
      · exact h.stmt_exclusive hi hl' hli (hfree l txl hli hl') hk hk'
    · rcases holds_advance.mp hk' with hk' | hk'
      · exact h.exclusive j l txj tx hjl hj' hi key hk hk'
      · exact h.stmt_exclusive hi hj' hji (hfree j txj hji hj') hk' hk
    · exact h.exclusive j l txj txl hjl hj' hl' key hk hk'
  held j txj hj key hk := by
    rcases active_of_advance hj with ⟨rfl, rfl⟩ | ⟨_, hj⟩
    · exact h.stmt_held hi hW hs hk
    · exact h.held j txj hj key hk
  compatible j l txj txl hjl hj hl t r hr x hx hrdb hxdb := by
    rcases active_of_advance hj with ⟨rfl, rfl⟩ | ⟨hji, hj'⟩ <;>
      rcases active_of_advance hl with ⟨rfl, rfl⟩ | ⟨hli, hl'⟩
    · exact absurd rfl hjl
    · change r ∈ (tx.advance sys.db s k ext).view sys.db t at hr
      rw [view_advance] at hr
      exact h.stmt_compatible hi hl' hli (hfree l txl hli hl') hr hx hrdb hxdb
    · change x ∈ (tx.advance sys.db s k ext).view sys.db t at hx
      rw [view_advance] at hx
      rw [Schema.Lawful.clash_comm]
      exact h.stmt_compatible hi hj' hji (hfree j txj hji hj') hx hr hxdb hrdb
    · exact h.compatible j l txj txl hjl hj' hl' t r hr x hx hrdb hxdb

/-! A commit of process `i`, seen by the others. -/

section Commit

variable (h : Isolated W D sys) (hi : sys.proc i = .active tx) (hj : sys.proc j = .active tx')
  (hji : j ≠ i)

include h hi hj hji

/-- A commit leaves the rows that another open transaction holds as they are. -/
theorem Isolated.rowsAt_commit {id : Id} (hk : tx'.Holds (t, id)) :
    rowsAt (tx.view sys.db) t id = rowsAt sys.db t id :=
  h.rowsAt_view hi (h.exclusive j i tx' tx hji hj hi _ hk)

/-- What another open transaction sees of a key after a commit. -/
theorem Isolated.rowsAt_view_commit (t : Table) (id : Id) :
    (tx'.Holds (t, id) ∧
      rowsAt (tx'.view (tx.view sys.db)) t id = rowsAt (tx'.view sys.db) t id) ∨
    (¬ tx'.Holds (t, id) ∧
      rowsAt (tx'.view (tx.view sys.db)) t id = rowsAt (tx.view sys.db) t id) := by
  by_cases hk : tx'.Holds (t, id)
  · exact .inl ⟨hk, rowsAt_replay_congr (h.keepsKey hj) (h.rowsAt_commit hi hj hji hk)⟩
  · exact .inr ⟨hk, rowsAt_replay_of_ne (h.keepsKey hj) fun op hop hkey => hk (.inr ⟨op, hop, hkey⟩)⟩

/-- A row version that another open transaction will see after the commit and that the commit
does not make permanent is one that it has written. -/
theorem Isolated.mem_of_view_commit {r : Row t} (hr : r ∈ tx'.view (tx.view sys.db) t) :
    r ∈ tx.view sys.db t ∨ (r ∈ tx'.view sys.db t ∧ tx'.Holds (t, pk r)) := by
  rcases h.rowsAt_view_commit hi hj hji t (pk r) with ⟨hk, hrows⟩ | ⟨_, hrows⟩
  · exact .inr ⟨(mem_of_rowsAt_eq hrows).mp hr, hk⟩
  · exact .inl ((mem_of_rowsAt_eq hrows).mp hr)

theorem Isolated.not_mem_of_view_commit {r : Row t} (hr : r ∈ tx'.view (tx.view sys.db) t)
    (hnew : r ∉ tx.view sys.db t) : r ∈ tx'.view sys.db t ∧ r ∉ sys.db t := by
  rcases h.mem_of_view_commit hi hj hji hr with hold | ⟨hview, hk⟩
  · exact absurd hold hnew
  · exact ⟨hview, fun hdb => hnew ((mem_of_rowsAt_eq (h.rowsAt_commit hi hj hji hk)).mpr hdb)⟩

/-- A version written by one open transaction and one seen by another do not clash. -/
theorem Isolated.views_compatible {r x : Row t} (hr : r ∈ tx'.view sys.db t)
    (hk : tx'.Holds (t, pk r)) (hx : x ∈ tx.view sys.db t) (hne : pk r ≠ pk x)
    (hx' : ¬ tx'.Holds (t, pk x)) : clash r x = false := by
  by_cases hxdb : x ∈ sys.db t
  · have hview : x ∈ tx'.view sys.db t := (h.mem_view hj hx').mpr hxdb
    exact (h.views j tx' hj).unique t r hr x hview hne
  by_cases hrdb : r ∈ sys.db t
  · have hview : r ∈ tx.view sys.db t := (mem_of_rowsAt_eq (h.rowsAt_commit hi hj hji hk)).mpr hrdb
    exact (h.views i tx hi).unique t r hview x hx hne
  · exact h.compatible j i tx' tx hji hj hi t r hr x hx hrdb hxdb

variable [Schema.Lawful Row Id]

theorem Isolated.view_commit : Unclashing (tx'.view (tx.view sys.db)) := by
  refine ⟨fun t id => ?_, fun t r hr x hx hne => ?_⟩
  · rcases h.rowsAt_view_commit hi hj hji t id with ⟨_, hrows⟩ | ⟨_, hrows⟩
    · rw [hrows]
      exact (h.views j tx' hj).keys t id
    · rw [hrows]
      exact (h.views i tx hi).keys t id
  · rcases h.rowsAt_view_commit hi hj hji t (pk r) with ⟨hk, hrows⟩ | ⟨hk, hrows⟩ <;>
      rcases h.rowsAt_view_commit hi hj hji t (pk x) with ⟨hk', hrows'⟩ | ⟨hk', hrows'⟩
    · exact (h.views j tx' hj).unique t r ((mem_of_rowsAt_eq hrows).mp hr) x
        ((mem_of_rowsAt_eq hrows').mp hx) hne
    · exact h.views_compatible hi hj hji ((mem_of_rowsAt_eq hrows).mp hr) hk
        ((mem_of_rowsAt_eq hrows').mp hx) hne hk'
    · rw [Schema.Lawful.clash_comm]
      exact h.views_compatible hi hj hji ((mem_of_rowsAt_eq hrows').mp hx) hk'
        ((mem_of_rowsAt_eq hrows).mp hr) hne.symm hk
    · exact (h.views i tx hi).unique t r ((mem_of_rowsAt_eq hrows).mp hr) x
        ((mem_of_rowsAt_eq hrows').mp hx) hne

end Commit

theorem Isolated.commit [DecidableEq ι] [Schema.Lawful Row Id] (h : Isolated W D sys)
    (hi : sys.proc i = .active tx) {a : α} : Isolated W D (sys.commit i tx a) where
  unclashing := h.views i tx hi
  views j txj hj := h.view_commit hi (active_of_commit hj).2 (active_of_commit hj).1
  within j txj hj := h.within j txj (active_of_commit hj).2
  exclusive j l txj txl hjl hj hl :=
    h.exclusive j l txj txl hjl (active_of_commit hj).2 (active_of_commit hl).2
  held j txj hj key hk := by
    obtain ⟨hji, hj⟩ := active_of_commit hj
    rcases h.held j txj hj key hk with ⟨r, hr, hpk⟩ | ⟨ht, r, hr, hpk⟩
    · have hk' : txj.Holds (key.1, pk r) := by rwa [hpk]
      exact .inl ⟨r, (mem_of_rowsAt_eq (h.rowsAt_commit hi hj hji hk')).mpr hr, hpk⟩
    · refine .inr ⟨ht, r, ?_, hpk⟩
      have hk' : txj.Holds (key.1, pk r) := by rwa [hpk]
      have hrows := rowsAt_replay_congr (h.keepsKey hj) (h.rowsAt_commit hi hj hji hk')
      exact (mem_of_rowsAt_eq hrows).mpr hr
  compatible j l txj txl hjl hj hl t r hr x hx hrdb hxdb := by
    obtain ⟨hji, hj⟩ := active_of_commit hj
    obtain ⟨hli, hl⟩ := active_of_commit hl
    obtain ⟨hr', hrdb'⟩ := h.not_mem_of_view_commit hi hj hji hr hrdb
    obtain ⟨hx', hxdb'⟩ := h.not_mem_of_view_commit hi hl hli hx hxdb
    exact h.compatible j l txj txl hjl hj hl t r hr' x hx' hrdb' hxdb'

theorem Isolated.abort [DecidableEq ι] (h : Isolated W D sys) {e : Option ε} : Isolated W D
    (sys.abort i e) where
  unclashing := h.unclashing
  views j txj hj := h.views j txj (active_of_abort hj).2
  within j txj hj := h.within j txj (active_of_abort hj).2
  exclusive j l txj txl hjl hj hl :=
    h.exclusive j l txj txl hjl (active_of_abort hj).2 (active_of_abort hl).2
  held j txj hj := h.held j txj (active_of_abort hj).2
  compatible j l txj txl hjl hj hl :=
    h.compatible j l txj txl hjl (active_of_abort hj).2 (active_of_abort hl).2

/-- Orderly programs, started on a database without clashes, are isolated in every state. -/
theorem ReachableVia.isolated [DecidableEq ι] [Schema.Lawful Row Id]
    {ok : Sys Row Id Answer ε α ι → Sys Row Id Answer ε α ι → Prop}
    {progs : ι → TxProg Row Id Answer ε α} {db : Db Row}
    (hprogs : ∀ i, Orderly (W i) (D i) (progs i)) (hdb : Unclashing db)
    (hr : ReachableVia ok progs db sys) : Isolated W D sys := by
  induction hr with
  | refl =>
    have hempty : ∀ i tx, (Sys.init progs db).proc i = .active tx → tx = { prog := progs i } :=
      fun i tx hi => (Proc.active.inj hi).symm
    have hholds : ∀ i key, ¬ ({ prog := progs i } : Tx Row Id Answer ε α).Holds key := by
      rintro i key (hk | ⟨op, hop, _⟩)
      · cases hk
      · cases hop
    refine ⟨hdb, ?_, ?_, ?_, ?_, ?_⟩
    · intro i tx hi
      rw [hempty i tx hi]
      exact hdb
    · intro i tx hi op hop
      rw [hempty i tx hi] at hop
      cases hop
    · intro i j tx tx' _ hi _ key hk
      rw [hempty i tx hi] at hk
      exact absurd hk (hholds i key)
    · intro i tx hi key hk
      rw [hempty i tx hi] at hk
      exact absurd hk (hholds i key)
    · intro i j tx tx' _ hi _ t r hr _ _ hrdb
      rw [hempty i tx hi] at hr
      exact absurd hr hrdb
  | tail hr hstep ih =>
    cases hstep.1 with
    | stmt i tx s k ext hi hp hfree =>
      have hleft := ReachableVia.every (fun i => (hprogs i).2) hr hi
      rw [hp] at hleft
      exact ih.stmt hi (hprogs i).1 hleft.1 hfree
    | commit i tx a hi _ => exact ih.commit hi
    | rollback i tx e _ _ => exact ih.abort
    | cutOff i tx _ => exact ih.abort

end Interleaved

end Isolation

end Transactional
