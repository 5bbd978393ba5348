import Mathlib.Data.Finset.Card
import Mathlib.Data.List.Basic
import Mathlib.Order.Lattice

/-!
# Keyset pagination

Rows are listed in descending order of a key, a page at a time. A page starts strictly below
the key where the last one ended, and shows the first rows there. The table may change
between two pages: what a walk through the pages returns is then described by the keys alone.
-/

namespace Keyset

variable {ρ κ : Type} [LinearOrder κ] (key : ρ → κ)

/-- The row lies strictly below the position. -/
def beyond (position : Option κ) (r : ρ) : Bool := position.all fun p => decide (key r < p)

/-- The rows below the position, in descending order. -/
def descending (position : Option κ) (rows : List ρ) : List ρ :=
  (rows.filter (beyond key position)).mergeSort fun a b => decide (key b ≤ key a)

def page (position : Option κ) (limit : Nat) (rows : List ρ) : List ρ :=
  (descending key position rows).take limit

/-- Where the next page starts, if there is one. -/
def nextPosition (position : Option κ) (limit : Nat) (rows : List ρ) : Option κ :=
  if limit < (descending key position rows).length then
    (page key position limit rows).getLast?.map key
  else none

/-- A complete walk through the pages: the `n`-th one is read from `tables n`. -/
inductive Walk (tables : Nat → List ρ) (limits : Nat → Nat) :
    Nat → Option κ → List (List ρ) → Prop where
  | last {n : Nat} {p : Option κ} (h : nextPosition key p (limits n) (tables n) = none) :
      Walk tables limits n p [page key p (limits n) (tables n)]
  | next {n : Nat} {p : Option κ} {q : κ} {pages : List (List ρ)}
      (h : nextPosition key p (limits n) (tables n) = some q)
      (hwalk : Walk tables limits (n + 1) (some q) pages) :
      Walk tables limits n p (page key p (limits n) (tables n) :: pages)

variable {key} {p : Option κ} {q : κ} {limit : Nat} {rows : List ρ} {r : ρ}

theorem mem_descending : r ∈ descending key p rows ↔ r ∈ rows ∧ beyond key p r = true := by
  simp [descending]

/-- With distinct keys the order is strict. -/
theorem descending_pairwise (hkeys : rows.Pairwise fun r s => key r ≠ key s) :
    (descending key p rows).Pairwise fun a b => key b < key a := by
  have hsorted : (descending key p rows).Pairwise fun a b => decide (key b ≤ key a) = true := by
    refine List.pairwise_mergeSort (fun a b c hab hbc => ?_) (fun a b => ?_) _
    · exact decide_eq_true ((of_decide_eq_true hbc).trans (of_decide_eq_true hab))
    · simpa using le_total (key b) (key a)
  have hdistinct : (descending key p rows).Pairwise fun a b => key a ≠ key b :=
    ((List.mergeSort_perm _ _).pairwise_iff fun h => Ne.symm h).mpr (hkeys.filter _)
  refine (hsorted.and hdistinct).imp fun h => ?_
  exact lt_of_le_of_ne (of_decide_eq_true h.1) h.2.symm

theorem page_sublist : (page key p limit rows).Sublist (descending key p rows) :=
  List.take_sublist _ _

theorem mem_of_mem_page (h : r ∈ page key p limit rows) : r ∈ rows ∧ beyond key p r = true :=
  mem_descending.mp (page_sublist.subset h)

/-- A next position is the key of the last row that this page shows. -/
theorem nextPosition_eq_some (h : nextPosition key p limit rows = some q) :
    ∃ rest last, page key p limit rows = rest ++ [last] ∧ key last = q := by
  unfold nextPosition at h
  split at h
  · obtain ⟨last, hlast, hq⟩ := Option.map_eq_some_iff.mp h
    obtain ⟨rest, hrest⟩ := List.getLast?_eq_some_iff.mp hlast
    exact ⟨rest, last, hrest, hq⟩
  · cases h

/-- Without a next position, the page shows every row below its start. -/
theorem mem_page_of_no_next (h : nextPosition key p limit rows = none) (hlimit : 1 ≤ limit)
    (hr : r ∈ rows) (hp : beyond key p r = true) : r ∈ page key p limit rows := by
  have hmem : r ∈ descending key p rows := mem_descending.mpr ⟨hr, hp⟩
  by_cases hlen : limit < (descending key p rows).length
  · -- A page that leaves rows out is not empty, so it has a last row.
    rw [nextPosition, if_pos hlen, Option.map_eq_none_iff, List.getLast?_eq_none_iff] at h
    have hpage : (page key p limit rows).length = limit := by
      rw [page, List.length_take]
      omega
    rw [h] at hpage
    simp at hpage
    omega
  · rw [page, List.take_of_length_le (by omega)]
    exact hmem

section Next

variable (hkeys : rows.Pairwise fun r s => key r ≠ key s)
  (h : nextPosition key p limit rows = some q)

include h

theorem next_beyond : p.all (fun p => decide (q < p)) = true := by
  obtain ⟨rest, last, hpage, rfl⟩ := nextPosition_eq_some h
  have hlast : last ∈ page key p limit rows := by simp [hpage]
  exact (mem_of_mem_page hlast).2

theorem exists_mem_next : ∃ last ∈ rows, beyond key p last = true ∧ key last = q := by
  obtain ⟨rest, last, hpage, hq⟩ := nextPosition_eq_some h
  have hlast : last ∈ page key p limit rows := by simp [hpage]
  exact ⟨last, (mem_of_mem_page hlast).1, (mem_of_mem_page hlast).2, hq⟩

include hkeys

theorem next_le (hr : r ∈ page key p limit rows) : q ≤ key r := by
  obtain ⟨rest, last, hpage, rfl⟩ := nextPosition_eq_some h
  have hsorted : (page key p limit rows).Pairwise fun a b => key b < key a :=
    (descending_pairwise hkeys).sublist page_sublist
  rw [hpage] at hsorted hr
  rcases List.mem_append.mp hr with hr | hr
  · exact ((List.pairwise_append.mp hsorted).2.2 r hr last (by simp)).le
  · rw [List.mem_singleton.mp hr]

/-- The rows down to the next position are all shown. -/
theorem mem_page_of_le (hr : r ∈ rows) (hp : beyond key p r = true) (hq : q ≤ key r) :
    r ∈ page key p limit rows := by
  obtain ⟨rest, last, hpage, rfl⟩ := nextPosition_eq_some h
  have hmem : r ∈ descending key p rows := mem_descending.mpr ⟨hr, hp⟩
  have hsorted := descending_pairwise (p := p) hkeys
  rw [← List.take_append_drop limit (descending key p rows)] at hmem hsorted
  rcases List.mem_append.mp hmem with hmem | hmem
  · exact hmem
  · have hlast : last ∈ (descending key p rows).take limit := by
      change last ∈ page key p limit rows
      simp [hpage]
    exact absurd ((List.pairwise_append.mp hsorted).2.2 last hlast r hmem) (not_lt.mpr hq)

end Next

/-! ## Whole walks -/

section Walks

variable {tables : Nat → List ρ} {limits : Nat → Nat} {n : Nat} {pages : List (List ρ)}

theorem Walk.beyond (h : Walk key tables limits n p pages) (hr : r ∈ pages.flatten) :
    beyond key p r = true := by
  induction h with
  | last hnext =>
    exact (mem_of_mem_page (by simpa using hr)).2
  | @next n p q pages hnext hwalk ih =>
    rw [List.flatten_cons] at hr
    rcases List.mem_append.mp hr with hr | hr
    · exact (mem_of_mem_page hr).2
    · have hq : key r < q := by simpa [Keyset.beyond] using ih hr
      have hp := next_beyond hnext
      cases p with
      | none => rfl
      | some p =>
        have hqp : q < p := by simpa using hp
        simpa [Keyset.beyond] using hq.trans hqp

theorem Walk.exists_table (h : Walk key tables limits n p pages) (hr : r ∈ pages.flatten) :
    ∃ m, r ∈ tables m := by
  induction h with
  | last hnext => exact ⟨_, (mem_of_mem_page (by simpa using hr)).1⟩
  | next hnext hwalk ih =>
    rw [List.flatten_cons] at hr
    rcases List.mem_append.mp hr with hr | hr
    · exact ⟨_, (mem_of_mem_page hr).1⟩
    · exact ih hr

theorem Walk.length_pos (h : Walk key tables limits n p pages) : 0 < pages.length := by
  cases h <;> simp

/-- The pages of a walk, one after the other, are strictly descending. -/
theorem Walk.pairwise (hkeys : ∀ n, (tables n).Pairwise fun r s => key r ≠ key s)
    (h : Walk key tables limits n p pages) :
    pages.flatten.Pairwise fun a b => key b < key a := by
  induction h with
  | last hnext =>
    simpa using (descending_pairwise (hkeys _)).sublist page_sublist
  | @next n p q pages hnext hwalk ih =>
    rw [List.flatten_cons]
    refine List.pairwise_append.mpr
      ⟨(descending_pairwise (hkeys n)).sublist page_sublist, ih, fun a ha b hb => ?_⟩
    have hb : key b < q := by simpa [Keyset.beyond] using hwalk.beyond hb
    exact hb.trans_le (next_le (hkeys n) hnext ha)

/-- A key below the start that every table of the walk has is returned. -/
theorem Walk.mem (hkeys : ∀ n, (tables n).Pairwise fun r s => key r ≠ key s)
    (hlimits : ∀ n, 1 ≤ limits n) (h : Walk key tables limits n p pages) {c : κ}
    (hc : p.all (fun p => decide (c < p)) = true)
    (hrows : ∀ m, n ≤ m → m < n + pages.length → ∃ r ∈ tables m, key r = c) :
    ∃ r ∈ pages.flatten, key r = c := by
  induction h with
  | @last n p hnext =>
    obtain ⟨r, hr, rfl⟩ := hrows n le_rfl (by simp)
    exact ⟨r, by simpa using mem_page_of_no_next hnext (hlimits n) hr hc, rfl⟩
  | @next n p q pages hnext hwalk ih =>
    by_cases hq : c < q
    · obtain ⟨r, hr, hrc⟩ := ih (by simpa using hq) fun m hm hlt =>
        hrows m (by omega) (by simp only [List.length_cons]; omega)
      exact ⟨r, by simp only [List.flatten_cons, List.mem_append]; exact .inr hr, hrc⟩
    · obtain ⟨r, hr, rfl⟩ := hrows n le_rfl (by simp)
      refine ⟨r, ?_, rfl⟩
      simp only [List.flatten_cons, List.mem_append]
      exact .inl (mem_page_of_le (hkeys n) hnext hr hc (not_lt.mp hq))

/-! ## Walks end -/

/-- The keys of the rows below a position. -/
def keysBeyond (key : ρ → κ) (p : Option κ) (rows : List ρ) : Finset κ :=
  ((rows.filter (Keyset.beyond key p)).map key).toFinset

theorem mem_keysBeyond {rows : List ρ} {c : κ} :
    c ∈ keysBeyond key p rows ↔ ∃ r ∈ rows, Keyset.beyond key p r = true ∧ key r = c := by
  simp [keysBeyond, and_assoc]

/-- If no new key appears, fewer keys are left after a page. -/
theorem keysBeyond_ssubset {rows rows' : List ρ} (h : nextPosition key p limit rows = some q)
    (hkept : ∀ r ∈ rows', ∃ r' ∈ rows, key r' = key r) :
    keysBeyond key (some q) rows' ⊂ keysBeyond key p rows := by
  have hq := next_beyond h
  refine Finset.ssubset_iff_of_subset ?_ |>.mpr ?_
  · intro c hc
    obtain ⟨r, hr, hbeyond, rfl⟩ := mem_keysBeyond.mp hc
    obtain ⟨r', hr', hkey⟩ := hkept r hr
    refine mem_keysBeyond.mpr ⟨r', hr', ?_, hkey⟩
    have hlt : key r < q := by simpa [Keyset.beyond] using hbeyond
    cases p with
    | none => rfl
    | some p =>
      have hqp : q < p := by simpa using hq
      simpa [Keyset.beyond, hkey] using hlt.trans hqp
  · obtain ⟨last, hlast, hbeyond, rfl⟩ := exists_mem_next h
    refine ⟨key last, mem_keysBeyond.mpr ⟨last, hlast, hbeyond, rfl⟩, fun hc => ?_⟩
    obtain ⟨r, _, hlt, heq⟩ := mem_keysBeyond.mp hc
    have hlt : key r < key last := by simpa [Keyset.beyond] using hlt
    exact absurd heq hlt.ne

/-- While no new key appears, a walk ends. -/
theorem exists_walk_of_kept
    (hkept : ∀ m, n ≤ m → ∀ r ∈ tables (m + 1), ∃ r' ∈ tables m, key r' = key r)
    (p : Option κ) : ∃ pages, Walk key tables limits n p pages := by
  induction hcard : (keysBeyond key p (tables n)).card using Nat.strong_induction_on
    generalizing n p with
  | _ size ih =>
    cases hnext : nextPosition key p (limits n) (tables n) with
    | none => exact ⟨_, .last hnext⟩
    | some q =>
      have hsmaller := Finset.card_lt_card
        (keysBeyond_ssubset hnext (hkept n le_rfl))
      obtain ⟨pages, hwalk⟩ := ih _ (hcard ▸ hsmaller)
        (fun m hm => hkept m (by omega)) (some q) rfl
      exact ⟨_, .next hnext hwalk⟩

/-- If new keys stop appearing at some point, a walk ends. -/
theorem exists_walk {N : Nat}
    (hkept : ∀ m, N ≤ m → ∀ r ∈ tables (m + 1), ∃ r' ∈ tables m, key r' = key r) (n : Nat)
    (p : Option κ) : ∃ pages, Walk key tables limits n p pages := by
  induction hleft : N - n generalizing n p with
  | zero => exact exists_walk_of_kept (fun m hm => hkept m (by omega)) p
  | succ k ih =>
    cases hnext : nextPosition key p (limits n) (tables n) with
    | none => exact ⟨_, .last hnext⟩
    | some q =>
      obtain ⟨pages, hwalk⟩ := ih (n + 1) (some q) (by omega)
      exact ⟨_, .next hnext hwalk⟩

end Walks

end Keyset
