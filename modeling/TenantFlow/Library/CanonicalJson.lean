import Mathlib.Data.List.Forall2
import TenantFlow.Library.Json

/-!
# Canonical texts identify JSON values

Sorted keys make the printed text independent of the order of the fields, and nothing else is
lost: two values without fractions print alike exactly if they are the same up to the order of
the fields, at every level (`dumps_eq_iff`). A printed value is a code only among texts that
continue with a separator or a closing bracket, since the digits of an integer have no end of
their own.
-/

namespace JsonText

/-- Induction over the items and the fields of a value. -/
theorem Json.ind {motive : Json → Prop} (null : motive .null) (bool : ∀ b, motive (.bool b))
    (int : ∀ n, motive (.int n)) (float : ∀ q, motive (.float q)) (str : ∀ s, motive (.str s))
    (arr : ∀ items, (∀ x ∈ items, motive x) → motive (.arr items))
    (obj : ∀ fields, (∀ f ∈ fields, motive f.2) → motive (.obj fields)) : ∀ x, motive x
  | .null => null
  | .bool b => bool b
  | .int n => int n
  | .float q => float q
  | .str s => str s
  | .arr items => arr items fun x _ => Json.ind null bool int float str arr obj x
  | .obj fields => obj fields fun f _ => Json.ind null bool int float str arr obj f.2
termination_by x => sizeOf x
decreasing_by
  · have := List.sizeOf_lt_of_mem ‹x ∈ items›
    simp only [Json.arr.sizeOf_spec]
    omega
  · have := List.sizeOf_lt_of_mem ‹f ∈ fields›
    obtain ⟨k, x⟩ := f
    simp only [Json.obj.sizeOf_spec, Prod.mk.sizeOf_spec] at this ⊢
    omega

/-! ## The same value -/

/-- The same value, up to the order of the fields of each object. -/
inductive Json.Same : Json → Json → Prop
  | null : Same .null .null
  | bool (b : Bool) : Same (.bool b) (.bool b)
  | int (n : Int) : Same (.int n) (.int n)
  | float (q : ℚ) : Same (.float q) (.float q)
  | str (s : String) : Same (.str s) (.str s)
  | arr {xs ys : List Json} (items : List.Forall₂ Same xs ys) : Same (.arr xs) (.arr ys)
  | obj {fs gs fs' gs' : List (String × Json)} (left : fs.Perm fs') (right : gs.Perm gs')
      (keys : fs'.map Prod.fst = gs'.map Prod.fst)
      (values : List.Forall₂ Same (fs'.map Prod.snd) (gs'.map Prod.snd)) :
      Same (.obj fs) (.obj gs)

mutual
/-- Without fractions, and with distinct keys in each object, as a dictionary has. -/
def Json.plain : Json → Bool
  | .float _ => false
  | .arr items => plainItems items
  | .obj fields => decide (fields.map Prod.fst).Nodup && plainFields fields
  | _ => true
def plainItems : List Json → Bool
  | [] => true
  | x :: xs => x.plain && plainItems xs
def plainFields : List (String × Json) → Bool
  | [] => true
  | (_, x) :: fs => x.plain && plainFields fs
end

theorem plainItems_iff {items : List Json} : plainItems items = true ↔ ∀ x ∈ items, x.plain = true := by
  induction items with
  | nil => simp [plainItems]
  | cons x items ih => simp [plainItems, ih]

theorem plainFields_iff {fields : List (String × Json)} :
    plainFields fields = true ↔ ∀ f ∈ fields, f.2.plain = true := by
  induction fields with
  | nil => simp [plainFields]
  | cons f fields ih => simp [plainFields, ih]

theorem Json.plain_arr {items : List Json} :
    (Json.arr items).plain = true ↔ ∀ x ∈ items, x.plain = true := plainItems_iff

theorem Json.plain_obj {fields : List (String × Json)} : (Json.obj fields).plain = true ↔
    (fields.map Prod.fst).Nodup ∧ ∀ f ∈ fields, f.2.plain = true := by
  simp [Json.plain, plainFields_iff]

/-! ## What a printed value starts and ends with -/

section Dumps

variable {escape : Char → List Char} {reprFloat : ℚ → List Char}

theorem dumpsItems_eq (items : List Json) :
    dumpsItems escape reprFloat items = items.map (dumps escape reprFloat) := by
  induction items with
  | nil => rfl
  | cons x items ih => rw [dumpsItems, ih, List.map_cons]

theorem dumpsFields_eq (fields : List (String × Json)) : dumpsFields escape reprFloat fields =
    fields.map fun f => (f.1, dumps escape reprFloat f.2) := by
  induction fields with
  | nil => rfl
  | cons f fields ih => rw [dumpsFields, ih, List.map_cons]

/-- A text that may follow a value. -/
def Ends : List Char → Prop
  | [] => True
  | c :: _ => c = ',' ∨ c = ']' ∨ c = '}'

/-- The constructors of plain values. -/
inductive Kind where
  | null | bool | int | str | arr | obj
  deriving DecidableEq, Repr

def Json.kind? : Json → Option Kind
  | .null => some .null
  | .bool _ => some .bool
  | .int _ => some .int
  | .float _ => none
  | .str _ => some .str
  | .arr _ => some .arr
  | .obj _ => some .obj

/-- The kind of the value that starts with a character. -/
def startsKind (c : Char) : Option Kind :=
  if c = 'n' then some .null
  else if c = 't' ∨ c = 'f' then some .bool
  else if c = '"' then some .str
  else if c = '[' then some .arr
  else if c = '{' then some .obj
  else if c.isDigit ∨ c = '-' then some .int
  else none

theorem startsKind_digit {c : Char} (h : c.isDigit = true ∨ c = '-') :
    startsKind c = some .int := by
  have hne : ∀ d : Char, d.isDigit = false → d ≠ '-' → c ≠ d := by
    rintro d hd hminus rfl
    rcases h with h | h
    · rw [hd] at h
      cases h
    · exact hminus h
  simp [startsKind, h, hne 'n' rfl (by decide), hne 't' rfl (by decide), hne 'f' rfl (by decide),
    hne '"' rfl (by decide), hne '[' rfl (by decide), hne '{' rfl (by decide)]

theorem toString_ne_nil (n : Int) : (toString n).toList ≠ [] := by
  rw [toList_toString]
  split
  · exact Nat.toDigits_ne_nil
  · exact List.cons_ne_nil _ _

/-- The first character of a plain value tells its kind. -/
theorem dumps_start (escape : Char → List Char) (reprFloat : ℚ → List Char) {x : Json}
    (hx : x.plain = true) :
    ∃ c cs, dumps escape reprFloat x = c :: cs ∧ startsKind c = x.kind? := by
  cases x with
  | null => exact ⟨'n', _, rfl, by decide⟩
  | bool b =>
    cases b with
    | false => exact ⟨'f', _, rfl, by decide⟩
    | true => exact ⟨'t', _, rfl, by decide⟩
  | int n =>
    obtain ⟨c, cs, hn⟩ := List.exists_cons_of_ne_nil (toString_ne_nil n)
    exact ⟨c, cs, hn, startsKind_digit (mem_toString (by rw [hn]; exact List.mem_cons_self))⟩
  | float q => cases hx
  | str s => exact ⟨'"', _, rfl, rfl⟩
  | arr items => exact ⟨'[', _, by simp only [dumps, List.cons_append]; rfl, rfl⟩
  | obj fields => exact ⟨'{', _, by simp only [dumps, List.cons_append]; rfl, rfl⟩

theorem dumps_start_ne {x : Json} (hx : x.plain = true) :
    ∃ c cs, dumps escape reprFloat x = c :: cs ∧ c ≠ ']' := by
  obtain ⟨c, cs, hc, hkind⟩ := dumps_start escape reprFloat hx
  refine ⟨c, cs, hc, ?_⟩
  rintro rfl
  cases x <;> cases hkind
  cases hx

theorem kind_eq_of_dumps {x y : Json} (hx : x.plain = true) (hy : y.plain = true)
    {u v : List Char}
    (h : dumps escape reprFloat x ++ u = dumps escape reprFloat y ++ v) : x.kind? = y.kind? := by
  obtain ⟨c, cs, hc, hcx⟩ := dumps_start escape reprFloat hx
  obtain ⟨d, ds, hd, hdy⟩ := dumps_start escape reprFloat hy
  rw [hc, hd, List.cons_append, List.cons_append] at h
  rw [← hcx, ← hdy, (List.cons.inj h).1]

theorem toDigits_inj {n m : Nat} (h : Nat.toDigits 10 n = Nat.toDigits 10 m) : n = m := by
  rw [← Nat.ofDigitChars_ten_toDigits (n := n), h, Nat.ofDigitChars_ten_toDigits]

theorem minus_not_mem_toDigits {n : Nat} : '-' ∉ Nat.toDigits 10 n := by
  intro h
  cases isDigit_toDigits '-' h

theorem toString_inj {n m : Int} (h : (toString n).toList = (toString m).toList) : n = m := by
  rw [toList_toString, toList_toString] at h
  split at h <;> split at h
  · have := toDigits_inj h
    omega
  · exact absurd (h ▸ List.mem_cons_self) minus_not_mem_toDigits
  · exact absurd (h ▸ List.mem_cons_self) minus_not_mem_toDigits
  · have := toDigits_inj (List.cons.inj h).2
    omega

/-- The digits of an integer go up to the text that ends it. -/
theorem takeWhile_toString {n : Int} {u : List Char} (hu : Ends u) :
    ((toString n).toList ++ u).takeWhile (fun c => c.isDigit || c = '-') = (toString n).toList := by
  have hend : u.takeWhile (fun c => c.isDigit || c = '-') = [] := by
    cases u with
    | nil => rfl
    | cons c u => rcases hu with rfl | rfl | rfl <;> rfl
  rw [List.takeWhile_append_of_pos, hend, List.append_nil]
  intro c hc
  simpa using mem_toString hc

theorem toString_append_inj {n m : Int} {u v : List Char} (hu : Ends u) (hv : Ends v)
    (h : (toString n).toList ++ u = (toString m).toList ++ v) : n = m ∧ u = v := by
  have hn := takeWhile_toString (n := n) hu
  rw [h, takeWhile_toString hv] at hn
  rw [hn] at h
  exact ⟨toString_inj hn.symm, List.append_cancel_left h⟩

/-! ## Lists between brackets -/

/-- The items after the first one, each behind its comma. -/
def restText (items : List (List Char)) : List Char := items.flatMap fun item => ',' :: item

theorem join_cons (item : List Char) (items : List (List Char)) :
    join (item :: items) = item ++ restText items := by
  induction items generalizing item with
  | nil => simp [join, restText]
  | cons item' items ih =>
    rw [join, List.intercalate_cons_cons, ← join, ih]
    simp [restText]

theorem ends_restText {items : List (List Char)} {close : Char} (hclose : close = ']' ∨ close = '}')
    (u : List Char) : Ends (restText items ++ close :: u) := by
  cases items with
  | nil => exact .inr hclose
  | cons item items => exact .inl rfl

section Lists

variable {α : Type} {R : α → α → Prop} {print : α → List Char} {close : Char} {u v : List Char}

/-- The printed items of a list tell the items, if each of them is told by its printed form. -/
theorem restText_append_inj (hclose : close = ']' ∨ close = '}') {xs ys : List α}
    (hcode : ∀ x ∈ xs, ∀ y ∈ ys, ∀ u v, Ends u → Ends v → print x ++ u = print y ++ v →
      R x y ∧ u = v)
    (h : restText (xs.map print) ++ close :: u = restText (ys.map print) ++ close :: v) :
    List.Forall₂ R xs ys ∧ u = v := by
  have hcomma : close ≠ ',' := by rcases hclose with rfl | rfl <;> decide
  induction xs generalizing ys with
  | nil =>
    cases ys with
    | nil => exact ⟨.nil, by simpa using h⟩
    | cons y ys => exact absurd (List.cons.inj h).1 hcomma
  | cons x xs ih =>
    cases ys with
    | nil => exact absurd (List.cons.inj h).1.symm hcomma
    | cons y ys =>
      have hprint : print x ++ (restText (xs.map print) ++ close :: u) =
          print y ++ (restText (ys.map print) ++ close :: v) := by
        simpa [restText] using h
      obtain ⟨hxy, hrest⟩ := hcode x List.mem_cons_self y List.mem_cons_self _ _
        (ends_restText hclose _) (ends_restText hclose _) hprint
      obtain ⟨hxys, hu⟩ := ih (fun x hx y hy => hcode x (List.mem_cons_of_mem _ hx) y
        (List.mem_cons_of_mem _ hy)) hrest
      exact ⟨.cons hxy hxys, hu⟩

theorem join_append_inj (hclose : close = ']' ∨ close = '}') {xs ys : List α}
    (hstart : ∀ x ∈ xs ++ ys, ∃ c cs, print x = c :: cs ∧ c ≠ close)
    (hcode : ∀ x ∈ xs, ∀ y ∈ ys, ∀ u v, Ends u → Ends v → print x ++ u = print y ++ v →
      R x y ∧ u = v)
    (h : join (xs.map print) ++ close :: u = join (ys.map print) ++ close :: v) :
    List.Forall₂ R xs ys ∧ u = v := by
  cases xs with
  | nil =>
    cases ys with
    | nil => exact ⟨.nil, by simpa [join] using h⟩
    | cons y ys =>
      obtain ⟨c, cs, hy, hc⟩ := hstart y (by simp)
      rw [List.map_cons, join_cons, hy] at h
      exact absurd (List.cons.inj h).1.symm hc
  | cons x xs =>
    cases ys with
    | nil =>
      obtain ⟨c, cs, hx, hc⟩ := hstart x (by simp)
      rw [List.map_cons, join_cons, hx] at h
      exact absurd (List.cons.inj h).1 hc
    | cons y ys =>
      -- Behind a comma the first item is like the others.
      refine restText_append_inj hclose hcode ?_
      simp only [List.map_cons, join_cons, List.append_assoc] at h
      simpa [restText] using h

end Lists

/-! ## Sorted fields -/

def sortFields (fields : List (String × Json)) : List (String × Json) :=
  fields.insertionSort fun f g => f.1 ≤ g.1

theorem perm_sortFields (fields : List (String × Json)) : (sortFields fields).Perm fields :=
  List.perm_insertionSort _ _

/-- Printed fields with distinct keys are sorted in one way only. -/
theorem sortKeys_eq_of_perm {fs gs : List (String × List Char)} (h : fs.Perm gs)
    (hkeys : (fs.map Prod.fst).Nodup) : sortKeys fs = sortKeys gs := by
  have hperm : ∀ l : List (String × List Char), (sortKeys l).Perm l :=
    fun l => List.perm_insertionSort _ l
  have hsorted : ∀ l : List (String × List Char), (sortKeys l).Pairwise fun f g => f.1 ≤ g.1 :=
    fun l => List.pairwise_insertionSort _ l
  have heq : ∀ f g, f ∈ sortKeys fs → g ∈ sortKeys gs → f.1 ≤ g.1 → g.1 ≤ f.1 → f = g := by
    intro f g hf hg hfg hgf
    have hf := (hperm fs).mem_iff.mp hf
    have hg := h.mem_iff.mpr ((hperm gs).mem_iff.mp hg)
    exact List.inj_on_of_nodup_map hkeys hf hg (String.le_antisymm hfg hgf)
  exact List.Perm.eq_of_pairwise heq (hsorted fs) (hsorted gs)
    ((hperm fs).trans (h.trans (hperm gs).symm))

/-- A printed field. -/
def fieldText (escape : Char → List Char) (reprFloat : ℚ → List Char) (f : String × Json) :
    List Char :=
  quote escape f.1 ++ ':' :: dumps escape reprFloat f.2

theorem dumps_arr (items : List Json) : dumps escape reprFloat (.arr items) =
    '[' :: join (items.map (dumps escape reprFloat)) ++ [']'] := by
  rw [dumps, dumpsItems_eq]

theorem dumps_obj (fields : List (String × Json)) : dumps escape reprFloat (.obj fields) =
    '{' :: join ((sortFields fields).map (fieldText escape reprFloat)) ++ ['}'] := by
  have hsort : sortKeys (dumpsFields escape reprFloat fields) =
      (sortFields fields).map fun f => (f.1, dumps escape reprFloat f.2) := by
    rw [dumpsFields_eq, sortKeys, sortFields]
    exact (List.map_insertionSort (fun f g : String × Json => f.1 ≤ g.1)
      (fun f g : String × List Char => f.1 ≤ g.1) _ fields fun f _ g _ => Iff.rfl).symm
  rw [dumps, hsort, List.map_map]
  rfl

/-! ## Printing identifies values -/

theorem fieldText_append_inj (h : Escape escape) {f g : String × Json} {u v : List Char}
    (hvalue : dumps escape reprFloat f.2 ++ u = dumps escape reprFloat g.2 ++ v →
      Json.Same f.2 g.2 ∧ u = v)
    (heq : fieldText escape reprFloat f ++ u = fieldText escape reprFloat g ++ v) :
    (f.1 = g.1 ∧ Json.Same f.2 g.2) ∧ u = v := by
  simp only [fieldText, List.append_assoc, List.cons_append] at heq
  obtain ⟨hkey, hrest⟩ := quote_append_inj h heq
  obtain ⟨hsame, hu⟩ := hvalue (List.cons.inj hrest).2
  exact ⟨⟨hkey, hsame⟩, hu⟩

/-- The same keys and the same values, field by field. -/
theorem same_fields_iff {fs gs : List (String × Json)} :
    (fs.map Prod.fst = gs.map Prod.fst ∧
      List.Forall₂ Json.Same (fs.map Prod.snd) (gs.map Prod.snd)) ↔
    List.Forall₂ (fun f g => f.1 = g.1 ∧ f.2.Same g.2) fs gs := by
  induction fs generalizing gs with
  | nil => cases gs <;> simp
  | cons f fs ih =>
    cases gs with
    | nil => simp
    | cons g gs =>
      simp only [List.map_cons, List.cons.injEq, List.forall₂_cons, ← ih]
      tauto

/-- Plain values that print alike are the same, whatever text ends them. -/
theorem dumps_append_inj (h : Escape escape) {x : Json} (hx : x.plain = true) {y : Json}
    (hy : y.plain = true) {u v : List Char} (hu : Ends u) (hv : Ends v)
    (heq : dumps escape reprFloat x ++ u = dumps escape reprFloat y ++ v) : x.Same y ∧ u = v := by
  induction x using Json.ind generalizing y u v with
  | null =>
    have hkind := kind_eq_of_dumps hx hy heq
    cases y <;> simp only [Json.kind?, Option.some.injEq, reduceCtorEq] at hkind
    exact ⟨.null, List.append_cancel_left heq⟩
  | bool b =>
    have hkind := kind_eq_of_dumps hx hy heq
    cases y <;> simp only [Json.kind?, Option.some.injEq, reduceCtorEq] at hkind
    rename_i b'
    cases b <;> cases b'
    · exact ⟨.bool false, List.append_cancel_left heq⟩
    · exact absurd (List.cons.inj heq).1 (by decide)
    · exact absurd (List.cons.inj heq).1 (by decide)
    · exact ⟨.bool true, List.append_cancel_left heq⟩
  | int n =>
    have hkind := kind_eq_of_dumps hx hy heq
    cases y <;> simp only [Json.kind?, Option.some.injEq, reduceCtorEq] at hkind
    obtain ⟨rfl, rfl⟩ := toString_append_inj hu hv heq
    exact ⟨.int n, rfl⟩
  | float q => cases hx
  | str s =>
    have hkind := kind_eq_of_dumps hx hy heq
    cases y <;> simp only [Json.kind?, Option.some.injEq, reduceCtorEq] at hkind
    obtain ⟨rfl, rfl⟩ := quote_append_inj h heq
    exact ⟨.str s, rfl⟩
  | arr xs ih =>
    have hkind := kind_eq_of_dumps hx hy heq
    cases y <;> simp only [Json.kind?, Option.some.injEq, reduceCtorEq] at hkind
    rename_i ys
    rw [Json.plain_arr] at hx hy
    simp only [dumps_arr, List.cons_append, List.append_assoc, List.cons.injEq, true_and,
      List.nil_append] at heq
    have hstart : ∀ x ∈ xs ++ ys, ∃ c cs, dumps escape reprFloat x = c :: cs ∧ c ≠ ']' :=
      fun x hmem => dumps_start_ne ((List.mem_append.mp hmem).elim (hx x) (hy x))
    obtain ⟨hitems, huv⟩ := join_append_inj (.inl rfl) hstart
      (fun x hxs y hys _ _ hu hv heq => ih x hxs (hx x hxs) (hy y hys) hu hv heq) heq
    exact ⟨.arr hitems, huv⟩
  | obj fs ih =>
    have hkind := kind_eq_of_dumps hx hy heq
    cases y <;> simp only [Json.kind?, Option.some.injEq, reduceCtorEq] at hkind
    rename_i gs
    rw [Json.plain_obj] at hx hy
    simp only [dumps_obj, List.cons_append, List.append_assoc, List.cons.injEq, true_and,
      List.nil_append] at heq
    have hstart : ∀ f ∈ sortFields fs ++ sortFields gs,
        ∃ c cs, fieldText escape reprFloat f = c :: cs ∧ c ≠ '}' :=
      fun f _ => ⟨'"', _, rfl, by decide⟩
    obtain ⟨hfields, huv⟩ := join_append_inj (.inr rfl) hstart (fun f hf g hg _ _ hu hv heq =>
      have hf := (perm_sortFields fs).mem_iff.mp hf
      have hg := (perm_sortFields gs).mem_iff.mp hg
      fieldText_append_inj h (ih f hf (hx.2 f hf) (hy.2 g hg) hu hv) heq) heq
    obtain ⟨hkeys, hvalues⟩ := same_fields_iff.mpr hfields
    exact ⟨.obj (perm_sortFields fs).symm (perm_sortFields gs).symm hkeys hvalues, huv⟩

theorem map_eq_of_forall₂ {α β : Type} {R : α → α → Prop} {print : α → β} {xs ys : List α}
    (h : List.Forall₂ R xs ys) (hprint : ∀ x ∈ xs, ∀ y, R x y → print x = print y) :
    xs.map print = ys.map print := by
  induction h with
  | nil => rfl
  | cons hxy _ ih =>
    rw [List.map_cons, List.map_cons, hprint _ List.mem_cons_self _ hxy,
      ih fun x hx => hprint x (List.mem_cons_of_mem _ hx)]

/-- The order of the fields does not change the printed text. -/
theorem Json.Same.dumps_eq {x y : Json} (h : x.Same y) (hx : x.plain = true) :
    dumps escape reprFloat x = dumps escape reprFloat y := by
  induction x using Json.ind generalizing y with
  | arr xs ih =>
    cases h with
    | arr hitems =>
      rw [Json.plain_arr] at hx
      rw [dumps_arr, dumps_arr, map_eq_of_forall₂ hitems fun x hmem y hxy => ih x hmem hxy (hx x hmem)]
  | obj fs ih =>
    cases h with
    | @obj _ gs fs' gs' left right keys values =>
      rw [Json.plain_obj] at hx
      let print (f : String × Json) := (f.1, dumps escape reprFloat f.2)
      have hprint : fs'.map print = gs'.map print := by
        refine map_eq_of_forall₂ (same_fields_iff.mp ⟨keys, values⟩) fun f hf g hfg => ?_
        have hf := left.mem_iff.mpr hf
        exact Prod.ext hfg.1 (ih f hf hfg.2 (hx.2 f hf))
      have hperm : (fs.map print).Perm (gs.map print) :=
        (left.map print).trans (hprint ▸ (right.map print).symm)
      have hkeys : ((fs.map print).map Prod.fst).Nodup := by
        rw [List.map_map]
        exact hx.1
      rw [dumps, dumps, dumpsFields_eq, dumpsFields_eq, sortKeys_eq_of_perm hperm hkeys]
  | _ =>
    cases h
    rfl

/-- Two plain values print alike exactly if they are the same. -/
theorem dumps_eq_iff (h : Escape escape) {x y : Json} (hx : x.plain = true)
    (hy : y.plain = true) :
    dumps escape reprFloat x = dumps escape reprFloat y ↔ x.Same y := by
  refine ⟨fun heq => ?_, fun hsame => hsame.dumps_eq hx⟩
  exact (dumps_append_inj h hx hy (u := []) (v := []) trivial trivial (by rw [heq])).1

end Dumps

end JsonText
