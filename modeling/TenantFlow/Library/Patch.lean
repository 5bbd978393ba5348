import Mathlib.Data.List.Induction

/-!
# Patches of a record

A patch is made from a loaded record: it assigns values to some columns and writes those whose
new value differs from the loaded one. Patches that were loaded before others were applied leave
the columns of the others alone.
-/

namespace Transactional

section Patches

variable {Column : Type} {Value : Column → Type}

structure Patch (Value : Column → Type) where
  loaded : (c : Column) → Value c
  assigned : (c : Column) → Option (Value c)

variable [∀ c, DecidableEq (Value c)] {p q : Patch Value} {patches : List (Patch Value)}
  {init r : (c : Column) → Value c} {c : Column} {v : Value c}

def Patch.apply (p : Patch Value) (r : (c : Column) → Value c) : (c : Column) → Value c := fun c =>
  (p.assigned c).elim (r c) fun v => if v = p.loaded c then r c else v

def patchAll (patches : List (Patch Value)) (r : (c : Column) → Value c) : (c : Column) → Value c :=
  patches.foldl (fun r p => p.apply r) r

@[simp] theorem patchAll_nil : patchAll ([] : List (Patch Value)) r = r := rfl

@[simp] theorem patchAll_snoc : patchAll (patches ++ [p]) r = p.apply (patchAll patches r) := by
  simp [patchAll]

theorem Patch.apply_unassigned (h : p.assigned c = none) : p.apply r c = r c := by
  simp [Patch.apply, h]

/-- A patch writes the value unless it was loaded. -/
theorem Patch.apply_assigned (h : p.assigned c = some v) (hr : r c = p.loaded c ∨ r c = v) :
    p.apply r c = v := by
  simp only [Patch.apply, h, Option.elim_some]
  split
  · rename_i heq
    rcases hr with hr | hr
    · rw [hr, heq]
    · exact hr
  · rfl

/-- A patch that assigns nothing new changes nothing. -/
theorem Patch.apply_clean (h : ∀ c v, p.assigned c = some v → v = p.loaded c) : p.apply r = r := by
  funext c
  cases hassigned : p.assigned c with
  | none => exact Patch.apply_unassigned hassigned
  | some v => simp [Patch.apply, hassigned, h c v hassigned]

/-- Every patch was loaded from what an earlier part of the sequence had left. -/
inductive LoadedBefore (init : (c : Column) → Value c) : List (Patch Value) → Prop where
  | nil : LoadedBefore init []
  | snoc {patches earlier : List (Patch Value)} {p : Patch Value}
    (h : LoadedBefore init patches) (hearlier : earlier <+: patches)
    (hloaded : p.loaded = patchAll earlier init) : LoadedBefore init (patches ++ [p])

theorem patchAll_unassigned (h : ∀ p ∈ patches, p.assigned c = none) :
    patchAll patches r c = r c := by
  induction patches using List.reverseRecOn with
  | nil => rfl
  | append_singleton patches p ih =>
    rw [patchAll_snoc, Patch.apply_unassigned (h p (by simp))]
    exact ih fun q hq => h q (List.mem_append_left _ hq)

/-- A column that one patch alone assigns ends with its value. -/
theorem LoadedBefore.patchAll_assigned (h : LoadedBefore init patches) (hp : p ∈ patches)
    (hv : p.assigned c = some v) (honly : ∀ q ∈ patches, q = p ∨ q.assigned c = none) :
    patchAll patches init c = v := by
  induction h with
  | nil => cases hp
  | @snoc patches earlier q h hearlier hloaded ih =>
    have honly' : ∀ q ∈ patches, q = p ∨ q.assigned c = none :=
      fun q hq => honly q (List.mem_append_left _ hq)
    rw [patchAll_snoc]
    by_cases hin : p ∈ patches
    · -- a second application finds the value that it assigns
      have hvalue := ih hin honly'
      rcases honly q (by simp) with rfl | hnone
      · exact Patch.apply_assigned hv (.inr hvalue)
      · rw [Patch.apply_unassigned hnone, hvalue]
    · obtain rfl : p = q := by simpa [hin] using hp
      have hunassigned : ∀ q ∈ patches, q.assigned c = none := fun q hq =>
        (honly' q hq).resolve_left fun heq => hin (heq ▸ hq)
      refine Patch.apply_assigned hv (.inl ?_)
      rw [hloaded, patchAll_unassigned hunassigned,
        patchAll_unassigned fun q hq => hunassigned q (hearlier.subset hq)]

end Patches

end Transactional
