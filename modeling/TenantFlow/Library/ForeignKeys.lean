import TenantFlow.Library.Isolation

/-!
# Foreign keys

A foreign key holds if every child row whose key columns are set has a parent row. Writes keep
it if new children are checked, updates leave the columns of the key alone, and a delete takes
the children of every row it removes along.
-/

namespace Transactional

variable {Table : Type} [DecidableEq Table] {Row : Table → Type} {Id : Type} [DecidableEq Id]
  [Schema Row Id]

/-- The deletion of the rows with the given keys. -/
theorem replay_deletes (keys : List (Table × Id)) (db : Db Row) (t : Table) :
    replay (keys.map fun k => .delete k.1 k.2) db t =
      (db t).filter fun r => (t, pk r) ∉ keys := by
  induction keys generalizing db with
  | nil => exact (List.filter_eq_self.mpr fun _ _ => by simp).symm
  | cons k keys ih =>
    obtain ⟨t', id⟩ := k
    rw [List.map_cons, replay_cons, ih]
    by_cases ht : t' = t
    · subst ht
      rw [apply_delete_self, List.filter_filter]
      refine List.filter_congr fun r _ => ?_
      simp [Bool.and_comm]
    · rw [apply_of_table_ne db (o := .delete t' id) ht]
      refine List.filter_congr fun r _ => ?_
      simp [Ne.symm ht]

structure ForeignKey (Row : Table → Type) where
  child : Table
  parent : Table
  /-- The columns of the key are not null. -/
  set : Row child → Prop
  references : Row child → Row parent → Prop

namespace ForeignKey

variable {fk : ForeignKey Row} {db db' : Db Row}

def Holds (fk : ForeignKey Row) (db : Db Row) : Prop :=
  ∀ r ∈ db fk.child, fk.set r → ∃ s ∈ db fk.parent, fk.references r s

omit [DecidableEq Table] in
/-- Children that are versions of old children, and parents that stay in some version. -/
theorem Holds.of_versions (h : fk.Holds db)
    (hchild : ∀ r' ∈ db' fk.child, ∃ r ∈ db fk.child, (fk.set r' → fk.set r) ∧
      ∀ s, fk.references r s → fk.references r' s)
    (hparent : ∀ s ∈ db fk.parent, ∃ s' ∈ db' fk.parent, ∀ r, fk.references r s →
      fk.references r s') : fk.Holds db' := by
  intro r' hr' hset
  obtain ⟨r, hr, hset', hrefs⟩ := hchild r' hr'
  obtain ⟨s, hs, href⟩ := h r hr (hset' hset)
  obtain ⟨s', hs', href'⟩ := hparent s hs
  exact ⟨s', hs', hrefs s' (href' r href)⟩

omit [DecidableEq Table] in
theorem Holds.congr (h : fk.Holds db) (hchild : db' fk.child = db fk.child)
    (hparent : db' fk.parent = db fk.parent) : fk.Holds db' := by
  unfold Holds
  rw [hchild, hparent]
  exact h

/-- A new row whose own reference has been checked. -/
theorem Holds.insert (h : fk.Holds db) {t : Table} {r : Row t}
    (hnew : ∀ r', Op.insert t r = (.insert fk.child r' : Op Row Id) → fk.set r' →
      ∃ s ∈ db fk.parent, fk.references r' s) :
    fk.Holds ((Op.insert t r : Op Row Id).apply db) := by
  have hparent : ∀ s ∈ db fk.parent, s ∈ (Op.insert t r : Op Row Id).apply db fk.parent := by
    intro s hs
    by_cases ht : t = fk.parent
    · subst ht
      simp [hs]
    · rwa [apply_of_table_ne db (o := Op.insert t r) ht]
  intro r' hr' hset
  have hsome : ∃ s ∈ db fk.parent, fk.references r' s := by
    by_cases ht : t = fk.child
    · subst ht
      rw [apply_insert_self, List.mem_append, List.mem_singleton] at hr'
      rcases hr' with hr' | rfl
      · exact h r' hr' hset
      · exact hnew r' rfl hset
    · rw [apply_of_table_ne db (o := Op.insert t r) ht] at hr'
      exact h r' hr' hset
  obtain ⟨s, hs, href⟩ := hsome
  exact ⟨s, hparent s hs, href⟩

/-- An assignment that leaves the columns of the key and of what it references alone. -/
theorem Holds.update (h : fk.Holds db) {t : Table} {id : Id} {f : Row t → Row t}
    (hchild : ∀ f', Op.update t id f = (.update fk.child id f' : Op Row Id) → ∀ r,
      (fk.set (f' r) → fk.set r) ∧ ∀ s, fk.references r s → fk.references (f' r) s)
    (hparent : ∀ f', Op.update t id f = (.update fk.parent id f' : Op Row Id) → ∀ r s,
      fk.references r s → fk.references r (f' s)) :
    fk.Holds ((Op.update t id f).apply db) := by
  refine h.of_versions (fun r' hr' => ?_) fun s hs => ?_
  · by_cases ht : t = fk.child
    · subst ht
      rcases mem_apply_update hr' with ⟨hr', _⟩ | ⟨r, hr, _, rfl⟩
      · exact ⟨r', hr', fun h => h, fun _ h => h⟩
      · exact ⟨r, hr, hchild f rfl r⟩
    · rw [apply_of_table_ne db (o := Op.update t id f) ht] at hr'
      exact ⟨r', hr', fun h => h, fun _ h => h⟩
  · by_cases ht : t = fk.parent
    · subst ht
      rw [apply_update_self]
      refine ⟨_, List.mem_map.mpr ⟨s, hs, rfl⟩, fun r href => ?_⟩
      split
      · exact hparent f rfl r s href
      · exact href
    · exact ⟨s, by rwa [apply_of_table_ne db (o := Op.update t id f) ht], fun _ h => h⟩

/-- Deletes that take the children of every deleted parent along. -/
theorem Holds.deletes (h : fk.Holds db) {keys : List (Table × Id)}
    (hcascade : ∀ r ∈ db fk.child, ∀ s ∈ db fk.parent, fk.set r → fk.references r s →
      (fk.parent, pk s) ∈ keys → (fk.child, pk r) ∈ keys) :
    fk.Holds (replay (keys.map fun k => .delete k.1 k.2) db) := by
  intro r hr hset
  rw [replay_deletes] at hr ⊢
  obtain ⟨hr, hkept⟩ := List.mem_filter.mp hr
  obtain ⟨s, hs, href⟩ := h r hr hset
  refine ⟨s, List.mem_filter.mpr ⟨hs, ?_⟩, href⟩
  simp only [decide_eq_true_eq] at hkept ⊢
  exact fun hdeleted => hkept (hcascade r hr s hs hset href hdeleted)

end ForeignKey

end Transactional
