import Mathlib.Algebra.Group.Nat.Hom
import Mathlib.Data.List.Sort
import Mathlib.Data.Rat.Defs

/-!
# JSON values and their compact printing

`Json` is the type of the values Python's `json` module reads and writes; an object is a
dictionary, so its keys are distinct and their order is its insertion order. `dumps` prints
with sorted keys and without blanks. Strings are printed by one of two escape modes, which
differ in the characters they leave as they are.

Printing a string between quotes is a prefix code (`quote_append_inj`): nothing that
follows the closing quote can be mistaken for a part of the string.
-/

namespace JsonText

inductive Json where
  | null
  | bool (b : Bool)
  | int (n : Int)
  | float (q : ℚ)
  | str (s : String)
  | arr (items : List Json)
  | obj (fields : List (String × Json))

/-- `dict.get(key)` on an object; `none` if the key is missing. -/
def lookup (fields : List (String × Json)) (key : String) : Option Json :=
  (fields.find? fun f => f.1 = key).map Prod.snd

/-- Python's truth value of a JSON value. -/
def Json.truthy : Json → Bool
  | .null => false
  | .bool b => b
  | .int n => n ≠ 0
  | .float q => q ≠ 0
  | .str s => s ≠ ""
  | .arr items => !items.isEmpty
  | .obj fields => !fields.isEmpty

/-! ## Printing strings -/

def hexDigits : Nat → Nat → List Char
  | 0, _ => []
  | w + 1, n => hexDigits w (n / 16) ++ [Nat.digitChar (n % 16)]

/-- The escape `\uXXXX` of a code unit. -/
def escapeUnit (n : Nat) : List Char := '\\' :: 'u' :: hexDigits 4 n

/-- How a character is printed with `ensure_ascii=False`. -/
def escapeChar (c : Char) : List Char :=
  if c = '"' then ['\\', '"']
  else if c = '\\' then ['\\', '\\']
  else if c = '\n' then ['\\', 'n']
  else if c = '\r' then ['\\', 'r']
  else if c = '\t' then ['\\', 't']
  else if c.toNat = 8 then ['\\', 'b']
  else if c.toNat = 12 then ['\\', 'f']
  else if c.toNat < 32 then escapeUnit c.toNat
  else [c]

/-- How a character is printed with `ensure_ascii=True`: outside printable ASCII as one
escape, or as a surrogate pair beyond the basic plane. -/
def escapeCharAscii (c : Char) : List Char :=
  if c.toNat < 127 then escapeChar c
  else if c.toNat < 0x10000 then escapeUnit c.toNat
  else escapeUnit (0xD800 + (c.toNat - 0x10000) / 0x400) ++
    escapeUnit (0xDC00 + (c.toNat - 0x10000) % 0x400)

/-- A string literal. -/
def quote (escape : Char → List Char) (s : String) : List Char :=
  '"' :: s.toList.flatMap escape ++ ['"']

/-! ## Printing values -/

def join (items : List (List Char)) : List Char := [','].intercalate items

/-- Keys in the order of their code points. -/
def sortKeys (items : List (String × List Char)) : List (String × List Char) :=
  items.insertionSort fun a b => a.1 ≤ b.1

section Dumps

variable (escape : Char → List Char) (reprFloat : ℚ → List Char)

mutual
/-- `json.dumps(value, sort_keys=True, separators=(",", ":"))`, without its limits on the digits
of an integer and on the depth of a value. -/
def dumps : Json → List Char
  | .null => "null".toList
  | .bool true => "true".toList
  | .bool false => "false".toList
  | .int n => (toString n).toList
  | .float q => reprFloat q
  | .str s => quote escape s
  | .arr items => '[' :: join (dumpsItems items) ++ [']']
  | .obj fields =>
    '{' :: join ((sortKeys (dumpsFields fields)).map fun f => quote escape f.1 ++ ':' :: f.2) ++
      ['}']
def dumpsItems : List Json → List (List Char)
  | [] => []
  | x :: xs => dumps x :: dumpsItems xs
def dumpsFields : List (String × Json) → List (String × List Char)
  | [] => []
  | (k, x) :: fs => (k, dumps x) :: dumpsFields fs
end

end Dumps

/-! ## Printed integers -/

theorem isDigit_toDigits {n : Nat} : ∀ c ∈ Nat.toDigits 10 n, c.isDigit = true :=
  fun _ hc => Nat.isDigit_of_mem_toDigits (by decide) (by decide) hc

/-- A sign, and digits. -/
theorem toList_toString (n : Int) :
    (toString n).toList = if 0 ≤ n then Nat.toDigits 10 n.toNat
      else '-' :: Nat.toDigits 10 (-n).toNat := by
  rw [Int.toString_eq_repr, Int.repr_eq_if]
  split <;> simp

theorem mem_toString {n : Int} {c : Char} (h : c ∈ (toString n).toList) :
    c.isDigit = true ∨ c = '-' := by
  rw [toList_toString] at h
  split at h
  · exact .inl (isDigit_toDigits c h)
  · rcases List.mem_cons.mp h with rfl | h
    · exact .inr rfl
    · exact .inl (isDigit_toDigits c h)

/-! ## Strings are printed by a prefix code -/

/-- An escape mode is sound if the printed form of a character is never empty, never starts
with the closing quote, and is never a proper prefix of another one. -/
structure Escape (escape : Char → List Char) : Prop where
  start : ∀ c, ∃ d ds, escape c = d :: ds ∧ d ≠ '"'
  code : ∀ c c' u v, escape c ++ u = escape c' ++ v → c = c' ∧ u = v

theorem flatMap_quote_inj {escape : Char → List Char} (h : Escape escape) :
    ∀ (cs cs' : List Char) (u v : List Char),
      cs.flatMap escape ++ '"' :: u = cs'.flatMap escape ++ '"' :: v → cs = cs' ∧ u = v := by
  intro cs
  induction cs with
  | nil =>
    intro cs' u v heq
    cases cs' with
    | nil => exact ⟨rfl, by simpa using heq⟩
    | cons c cs' =>
      obtain ⟨d, ds, hd, hne⟩ := h.start c
      simp [hd] at heq
      exact absurd heq.1.symm hne
  | cons c cs ih =>
    intro cs' u v heq
    cases cs' with
    | nil =>
      obtain ⟨d, ds, hd, hne⟩ := h.start c
      simp [hd] at heq
      exact absurd heq.1 hne
    | cons c' cs' =>
      simp only [List.flatMap_cons, List.append_assoc] at heq
      obtain ⟨rfl, hrest⟩ := h.code c c' _ _ heq
      obtain ⟨rfl, rfl⟩ := ih cs' u v hrest
      exact ⟨rfl, rfl⟩

/-- Two printed strings, whatever follows them, are equal only for equal strings. -/
theorem quote_append_inj {escape : Char → List Char} (h : Escape escape) {s s' : String}
    {u v : List Char} (heq : quote escape s ++ u = quote escape s' ++ v) : s = s' ∧ u = v := by
  simp only [quote, List.cons_append, List.append_assoc, List.cons.injEq, true_and,
    List.nil_append] at heq
  obtain ⟨hs, hu⟩ := flatMap_quote_inj h _ _ _ _ heq
  exact ⟨String.toList_injective hs, hu⟩

/-- The fields of an object with text values, between its braces. -/
def fieldsText (escape : Char → List Char) : List (String × String) → List Char
  | [] => []
  | [f] => quote escape f.1 ++ ':' :: quote escape f.2
  | f :: fs => quote escape f.1 ++ ':' :: quote escape f.2 ++ ',' :: fieldsText escape fs

theorem fieldsText_append_inj {escape : Char → List Char} (h : Escape escape) :
    ∀ {fs fs' : List (String × String)} {u v : List Char}, fs.length = fs'.length →
      fieldsText escape fs ++ u = fieldsText escape fs' ++ v → fs = fs' ∧ u = v
  | [], [], _, _, _, heq => ⟨rfl, heq⟩
  | [f], [f'], u, v, _, heq => by
    simp only [fieldsText, List.append_assoc, List.cons_append] at heq
    obtain ⟨hk, heq⟩ := quote_append_inj h heq
    obtain ⟨hv, heq⟩ := quote_append_inj h (List.cons.inj heq).2
    exact ⟨by rw [Prod.ext hk hv], heq⟩
  | f :: g :: fs, f' :: g' :: fs', u, v, hlen, heq => by
    simp only [fieldsText, List.append_assoc, List.cons_append] at heq
    obtain ⟨hk, heq⟩ := quote_append_inj h heq
    obtain ⟨hv, heq⟩ := quote_append_inj h (List.cons.inj heq).2
    obtain ⟨hrest, heq⟩ := fieldsText_append_inj h (by simpa using hlen) (List.cons.inj heq).2
    exact ⟨by rw [Prod.ext hk hv, hrest], heq⟩

/-! ## The escape mode of `ensure_ascii=False` -/

@[simp] theorem length_hexDigits (w n : Nat) : (hexDigits w n).length = w := by
  induction w generalizing n with
  | zero => rfl
  | succ w ih => simp [hexDigits, ih]

theorem digitChar_inj {a b : Nat} (ha : a < 16) (hb : b < 16)
    (h : Nat.digitChar a = Nat.digitChar b) : a = b := by
  have hinj : ∀ x y : Fin 16, Nat.digitChar x = Nat.digitChar y → x = y := by decide
  exact congrArg Fin.val (hinj ⟨a, ha⟩ ⟨b, hb⟩ h)

theorem hexDigits_inj {w n m : Nat} (hn : n < 16 ^ w) (hm : m < 16 ^ w)
    (h : hexDigits w n = hexDigits w m) : n = m := by
  induction w generalizing n m with
  | zero => omega
  | succ w ih =>
    simp only [hexDigits] at h
    obtain ⟨hd, hc⟩ := List.append_inj h (by simp)
    have hlow := digitChar_inj (Nat.mod_lt n (by omega)) (Nat.mod_lt m (by omega))
      (List.cons.inj hc).1
    have hhigh := ih (Nat.div_lt_of_lt_mul (by rw [Nat.pow_succ] at hn; omega))
      (Nat.div_lt_of_lt_mul (by rw [Nat.pow_succ] at hm; omega)) hd
    omega

theorem escapeUnit_append_inj {n m : Nat} (hn : n < 16 ^ 4) (hm : m < 16 ^ 4) {u v : List Char}
    (h : escapeUnit n ++ u = escapeUnit m ++ v) : n = m ∧ u = v := by
  simp only [escapeUnit, List.cons_append, List.cons.injEq, true_and] at h
  obtain ⟨hd, hu⟩ := List.append_inj h (by simp)
  exact ⟨hexDigits_inj hn hm hd, hu⟩

/-- The character that a two-character escape stands for. -/
def unescape (c : Char) : Char :=
  if c = 'n' then '\n' else if c = 'r' then '\r' else if c = 't' then '\t'
  else if c = 'b' then Char.ofNat 8 else if c = 'f' then Char.ofNat 12 else c

/-- The three shapes of a printed character. -/
theorem escapeChar_cases (c : Char) :
    (escapeChar c = [c] ∧ c ≠ '\\' ∧ c ≠ '"') ∨
    (∃ x, escapeChar c = ['\\', x] ∧ x ≠ 'u' ∧ unescape x = c) ∨
    (escapeChar c = escapeUnit c.toNat ∧ c.toNat < 32) := by
  have hnat : ∀ n, c.toNat = n → Char.ofNat n = c := fun n h => by rw [← h, Char.ofNat_toNat]
  unfold escapeChar
  split_ifs with h1 h2 h3 h4 h5 h6 h7 h8
  · exact .inr (.inl ⟨'"', rfl, by decide, by subst h1; decide⟩)
  · exact .inr (.inl ⟨'\\', rfl, by decide, by subst h2; decide⟩)
  · exact .inr (.inl ⟨'n', rfl, by decide, by subst h3; decide⟩)
  · exact .inr (.inl ⟨'r', rfl, by decide, by subst h4; decide⟩)
  · exact .inr (.inl ⟨'t', rfl, by decide, by subst h5; decide⟩)
  · exact .inr (.inl ⟨'b', rfl, by decide, by rw [← hnat 8 h6]; decide⟩)
  · exact .inr (.inl ⟨'f', rfl, by decide, by rw [← hnat 12 h7]; decide⟩)
  · exact .inr (.inr ⟨rfl, h8⟩)
  · exact .inl ⟨rfl, h2, h1⟩

theorem escape_escapeChar : Escape escapeChar where
  start c := by
    rcases escapeChar_cases c with ⟨h, _, hq⟩ | ⟨x, h, _⟩ | ⟨h, _⟩
    · exact ⟨c, [], h, hq⟩
    · exact ⟨'\\', [x], h, by decide⟩
    · exact ⟨'\\', _, h, by decide⟩
  code c c' u v heq := by
    rcases escapeChar_cases c with ⟨h, hc, _⟩ | ⟨x, h, hx, hxc⟩ | ⟨h, hc⟩ <;>
      rcases escapeChar_cases c' with ⟨h', hc', _⟩ | ⟨x', h', hx', hxc'⟩ | ⟨h', hc'⟩ <;>
      rw [h, h'] at heq
    · simpa using heq
    · simp at heq
      exact absurd heq.1 hc
    · simp [escapeUnit] at heq
      exact absurd heq.1 hc
    · simp at heq
      exact absurd heq.1.symm hc'
    · simp only [List.cons_append, List.nil_append, List.cons.injEq, true_and] at heq
      exact ⟨by rw [← hxc, ← hxc', heq.1], heq.2⟩
    · simp [escapeUnit] at heq
      exact absurd heq.1 hx
    · simp [escapeUnit] at heq
      exact absurd heq.1.symm hc'
    · simp [escapeUnit] at heq
      exact absurd heq.1.symm hx'
    · obtain ⟨hn, hu⟩ := escapeUnit_append_inj (by omega) (by omega) heq
      exact ⟨Char.toNat_inj.mp hn, hu⟩

/-- The shapes of a character printed in ASCII: as itself, by two characters, by one code
unit or by a surrogate pair. -/
theorem escapeCharAscii_cases (c : Char) :
    (escapeCharAscii c = [c] ∧ c ≠ '\\' ∧ c ≠ '"') ∨
    (∃ x, escapeCharAscii c = ['\\', x] ∧ x ≠ 'u' ∧ unescape x = c) ∨
    (escapeCharAscii c = escapeUnit c.toNat ∧ (c.toNat < 0xD800 ∨ 0xE000 ≤ c.toNat) ∧
      c.toNat < 0x10000) ∨
    (escapeCharAscii c = escapeUnit (0xD800 + (c.toNat - 0x10000) / 0x400) ++
        escapeUnit (0xDC00 + (c.toNat - 0x10000) % 0x400) ∧
      0x10000 ≤ c.toNat ∧ c.toNat < 0x110000) := by
  have hvalid : c.toNat < 0xD800 ∨ 0xDFFF < c.toNat ∧ c.toNat < 0x110000 := c.valid
  unfold escapeCharAscii
  split_ifs with h1 h2
  · rcases escapeChar_cases c with h | h | ⟨h, hc⟩
    · exact .inl h
    · exact .inr (.inl h)
    · exact .inr (.inr (.inl ⟨h, by omega, by omega⟩))
  · exact .inr (.inr (.inl ⟨rfl, by omega, h2⟩))
  · exact .inr (.inr (.inr ⟨rfl, by omega, by omega⟩))

theorem escape_escapeCharAscii : Escape escapeCharAscii where
  start c := by
    rcases escapeCharAscii_cases c with ⟨h, _, hq⟩ | ⟨x, h, _⟩ | ⟨h, _⟩ | ⟨h, _⟩
    · exact ⟨c, [], h, hq⟩
    · exact ⟨'\\', [x], h, by decide⟩
    · exact ⟨'\\', _, h, by decide⟩
    · exact ⟨'\\', _, h, by decide⟩
  code c c' u v heq := by
    rcases escapeCharAscii_cases c with ⟨h, hc, _⟩ | ⟨x, h, hx, hxc⟩ | ⟨h, hc, hc₂⟩ |
      ⟨h, hc, hc₂⟩ <;>
      rcases escapeCharAscii_cases c' with ⟨h', hc', _⟩ | ⟨x', h', hx', hxc'⟩ | ⟨h', hc', hc₂'⟩ |
        ⟨h', hc', hc₂'⟩ <;>
      rw [h, h'] at heq
    · simpa using heq
    · simp at heq
      exact absurd heq.1 hc
    · simp [escapeUnit] at heq
      exact absurd heq.1 hc
    · simp [escapeUnit] at heq
      exact absurd heq.1 hc
    · simp at heq
      exact absurd heq.1.symm hc'
    · simp only [List.cons_append, List.nil_append, List.cons.injEq, true_and] at heq
      exact ⟨by rw [← hxc, ← hxc', heq.1], heq.2⟩
    · simp [escapeUnit] at heq
      exact absurd heq.1 hx
    · simp [escapeUnit] at heq
      exact absurd heq.1 hx
    · simp [escapeUnit] at heq
      exact absurd heq.1.symm hc'
    · simp [escapeUnit] at heq
      exact absurd heq.1.symm hx'
    · obtain ⟨hn, hu⟩ := escapeUnit_append_inj (by omega) (by omega) heq
      exact ⟨Char.toNat_inj.mp hn, hu⟩
    -- A high surrogate is not the code of a character.
    · rw [List.append_assoc] at heq
      have hn := (escapeUnit_append_inj (by omega) (by omega) heq).1
      omega
    · simp [escapeUnit] at heq
      exact absurd heq.1.symm hc'
    · simp [escapeUnit] at heq
      exact absurd heq.1.symm hx'
    · rw [List.append_assoc] at heq
      have hn := (escapeUnit_append_inj (by omega) (by omega) heq).1
      omega
    · rw [List.append_assoc, List.append_assoc] at heq
      obtain ⟨hhigh, hrest⟩ := escapeUnit_append_inj (by omega) (by omega) heq
      obtain ⟨hlow, hu⟩ := escapeUnit_append_inj (by omega) (by omega) hrest
      exact ⟨Char.toNat_inj.mp (by omega), hu⟩

end JsonText
