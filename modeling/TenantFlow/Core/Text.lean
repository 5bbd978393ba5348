import Mathlib.Data.List.DropRight

/-!
# Texts of Python

How `str.strip` trims a text and how `int` reads a number from one: its blanks, its digits of
any script, the underscores between them and the prefix of base 16.
-/

namespace TenantFlow

/-! ## Blanks -/

/-- `str.isspace` -/
def isSpace (c : Char) : Bool :=
  c.toNat ∈ [9, 10, 11, 12, 13, 28, 29, 30, 31, 32, 133, 160, 5760, 8232, 8233, 8239, 8287, 12288] ||
    (8192 ≤ c.toNat && c.toNat ≤ 8202)

def trim (p : Char → Bool) (cs : List Char) : List Char := (cs.dropWhile p).rdropWhile p

/-- `text.strip()` -/
def strip (text : String) : String := String.ofList (trim isSpace text.toList)

section Trim

variable {p : Char → Bool} {cs : List Char}

theorem length_trim_le : (trim p cs).length ≤ cs.length :=
  (List.rdropWhile_prefix p (cs.dropWhile p)).length_le.trans
    (List.dropWhile_suffix (l := cs) p).length_le

/-- Nothing is trimmed from a text without such characters. -/
theorem trim_eq_self (h : ∀ c ∈ cs, ¬ p c) : trim p cs = cs := by
  have hdrop : cs.dropWhile p = cs :=
    List.dropWhile_eq_self_iff.mpr fun hl => h _ (List.getElem_mem _)
  rw [trim, hdrop]
  exact List.rdropWhile_eq_self_iff.mpr fun hl => h _ (List.getLast_mem hl)

theorem trim_trim : trim p (trim p cs) = trim p cs := by
  have hhead : (trim p cs).dropWhile p = trim p cs := by
    refine List.dropWhile_eq_self_iff.mpr fun hl => ?_
    -- What is left after trimming on the right begins as before.
    have hleft := List.rdropWhile_prefix p (cs.dropWhile p)
    have hfirst : (trim p cs)[0] = (cs.dropWhile p).get ⟨0, hl.trans_le hleft.length_le⟩ :=
      hleft.getElem hl
    rw [hfirst]
    exact List.dropWhile_get_zero_not p cs (hl.trans_le hleft.length_le)
  rw [trim, hhead, trim, List.rdropWhile_idempotent]

end Trim

theorem length_strip_le (text : String) : (strip text).length ≤ text.length := by
  rw [strip, String.length_ofList, ← String.length_toList]
  exact length_trim_le

theorem strip_strip (text : String) : strip (strip text) = strip text := by
  rw [strip, strip, String.toList_ofList, trim_trim]

/-! ## Numbers -/

/-- The zeros of the decimal digits of Unicode 15.0; the other nine follow each. -/
def decimalZeros : List Nat :=
  [48, 1632, 1776, 1984, 2406, 2534, 2662, 2790, 2918, 3046, 3174, 3302, 3430, 3558, 3664, 3792,
    3872, 4160, 4240, 6112, 6160, 6470, 6608, 6784, 6800, 6992, 7088, 7232, 7248, 42528, 43216,
    43264, 43472, 43504, 43600, 44016, 65296, 66720, 68912, 69734, 69872, 69942, 70096, 70384,
    70736, 70864, 71248, 71360, 71472, 71904, 72016, 72784, 73040, 73120, 73552, 92768, 92864,
    93008, 120782, 120792, 120802, 120812, 120822, 123200, 123632, 124144, 125264, 130032]

def decimalValue (c : Char) : Option Nat :=
  (decimalZeros.find? fun z => z ≤ c.toNat && c.toNat ≤ z + 9).map (c.toNat - ·)

/-- The value of a letter, which must be ASCII, or of a decimal digit. -/
def alnumValue (c : Char) : Option Nat :=
  if 'a' ≤ c ∧ c ≤ 'z' then some (c.toNat - 87)
  else if 'A' ≤ c ∧ c ≤ 'Z' then some (c.toNat - 55)
  else decimalValue c

def digitValue (base : Nat) (c : Char) : Option Nat := (alnumValue c).filter (· < base)

/-- The digits after the first one; single underscores may stand between them. -/
def readDigits (base n : Nat) : List Char → Option Nat
  | [] => some n
  | '_' :: c :: cs => (digitValue base c).bind fun d => readDigits base (base * n + d) cs
  | c :: cs => (digitValue base c).bind fun d => readDigits base (base * n + d) cs

def readNat (base : Nat) : List Char → Option Nat
  | [] => none
  | c :: cs => (digitValue base c).bind fun d => readDigits base d cs

/-- `0x` may stand before the digits of base 16, and one underscore between them. -/
def dropRadix : List Char → List Char
  | z :: x :: cs =>
    if decimalValue z = some 0 ∧ x ∈ ['x', 'X'] then
      match cs with
      | '_' :: cs => cs
      | cs => cs
    else z :: x :: cs
  | cs => cs

def readUnsigned (base : Nat) (cs : List Char) : Option Nat :=
  readNat base (if base = 16 then dropRadix cs else cs)

def readSigned (base : Nat) : List Char → Option Int
  | '-' :: cs => (readUnsigned base cs).map fun n => -Int.ofNat n
  | '+' :: cs => (readUnsigned base cs).map Int.ofNat
  | cs => (readUnsigned base cs).map Int.ofNat

/-- The blanks around a number: the separators of ASCII, U+001C to U+001F, are none of them. -/
def intBlank (c : Char) : Bool :=
  c.toNat ∈ [9, 10, 11, 12, 13, 32] || (128 ≤ c.toNat && isSpace c)

/-- `int(text, base)` for base 10 or 16, without a limit on the digits; `none` for a
`ValueError`. -/
def readInt (base : Nat) (text : String) : Option Int := readSigned base (trim intBlank text.toList)

/-- `int(text)`, which takes at most `limit` digits unless the limit is switched off. -/
def readDecimal (limit : Option Nat) (text : String) : Option Int :=
  if limit.any (· < text.toList.countP fun c => (decimalValue c).isSome) then none
  else readInt 10 text

/-! ## Texts of digits only -/

section Digits

variable {base : Nat} {cs : List Char} {ds : List Nat}

theorem digitValue_of_alnumValue {c : Char} (h : alnumValue c = none) :
    digitValue base c = none := by
  rw [digitValue, h]
  rfl

theorem readDigits_of_digits (h : cs.mapM (digitValue base) = some ds) (n : Nat) :
    readDigits base n cs = some (ds.foldl (fun n d => base * n + d) n) := by
  induction cs generalizing n ds with
  | nil =>
    obtain rfl : ds = [] := by simpa using h.symm
    rfl
  | cons c cs ih =>
    simp only [List.mapM_cons, Option.bind_eq_bind, Option.bind_eq_some_iff, Option.pure_def,
      Option.some.injEq] at h
    obtain ⟨d, hd, ds, hds, rfl⟩ := h
    have hc : c ≠ '_' := by
      rintro rfl
      rw [digitValue_of_alnumValue (by decide)] at hd
      cases hd
    rw [readDigits.eq_3 _ _ _ _ fun _ _ heq => absurd heq hc, hd, Option.bind_some, ih hds,
      List.foldl_cons]

theorem readNat_of_digits (hne : cs ≠ []) (h : cs.mapM (digitValue base) = some ds) :
    readNat base cs = some (ds.foldl (fun n d => base * n + d) 0) := by
  cases cs with
  | nil => exact absurd rfl hne
  | cons c cs =>
    simp only [List.mapM_cons, Option.bind_eq_bind, Option.bind_eq_some_iff, Option.pure_def,
      Option.some.injEq] at h
    obtain ⟨d, hd, ds, hds, rfl⟩ := h
    rw [readNat, hd, Option.bind_some, readDigits_of_digits hds, List.foldl_cons, Nat.mul_zero,
      Nat.zero_add]

theorem dropRadix_of_not_mem (hx : 'x' ∉ cs) (hX : 'X' ∉ cs) : dropRadix cs = cs := by
  unfold dropRadix
  split
  · rename_i z x cs
    have hplain : ¬ (decimalValue z = some 0 ∧ x ∈ ['x', 'X']) := by
      rintro ⟨-, hmem⟩
      simp only [List.mem_cons, List.not_mem_nil, or_false] at hmem
      rcases hmem with rfl | rfl
      · simp at hx
      · simp at hX
    rw [if_neg hplain]
  · rfl

theorem mem_digits (h : cs.mapM (digitValue base) = some ds) {c : Char} (hc : c ∈ cs) :
    ∃ d, digitValue base c = some d := by
  induction cs generalizing ds with
  | nil => cases hc
  | cons c' cs ih =>
    simp only [List.mapM_cons, Option.bind_eq_bind, Option.bind_eq_some_iff] at h
    obtain ⟨d, hd, ds, hds, -⟩ := h
    rcases List.mem_cons.mp hc with rfl | hc
    · exact ⟨d, hd⟩
    · exact ih hds hc

theorem readUnsigned_of_digits (hne : cs ≠ []) (h : cs.mapM (digitValue base) = some ds) :
    readUnsigned base cs = some (ds.foldl (fun n d => base * n + d) 0) := by
  rw [readUnsigned]
  split
  · rename_i hbase
    have hletter : ∀ c, digitValue 16 c = none → c ∉ cs := by
      intro c hc hmem
      obtain ⟨d, hd⟩ := mem_digits h hmem
      rw [hbase, hc] at hd
      cases hd
    rw [dropRadix_of_not_mem (hletter _ (by decide)) (hletter _ (by decide)),
      readNat_of_digits hne h]
  · exact readNat_of_digits hne h

theorem readSigned_of_digits (hne : cs ≠ []) (h : cs.mapM (digitValue base) = some ds) :
    readSigned base cs = some (Int.ofNat (ds.foldl (fun n d => base * n + d) 0)) := by
  have hsign : ∀ c, alnumValue c = none → c ∉ cs := by
    intro c hc hmem
    obtain ⟨d, hd⟩ := mem_digits h hmem
    rw [digitValue_of_alnumValue hc] at hd
    cases hd
  unfold readSigned
  split
  · exact absurd List.mem_cons_self (hsign '-' (by decide))
  · exact absurd List.mem_cons_self (hsign '+' (by decide))
  · rw [readUnsigned_of_digits hne h, Option.map_some]

end Digits

/-- Blanks are trimmed, scripts may be mixed, and one underscore may separate digits. -/
example : readInt 10 " ١_7 " = some 17 ∧ readInt 10 "\x1c17" = none ∧
    readInt 16 "0x_1f" = some 31 := by
  decide +kernel

end TenantFlow
