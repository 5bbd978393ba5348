import Mathlib.Data.List.DropRight
import Mathlib.Tactic.Common

/-!
# Base64

Encoding with padding, and the lenient decoder of CPython's `binascii`, which skips every byte
outside the alphabet and stops at the padding that completes a group of four. The URL-safe
variant translates two symbols. Padding that was stripped can be restored from the length.
-/

namespace Base64

/-! ## The code -/

/-- The symbol of a value below 64. -/
def symbol (n : Nat) : UInt8 :=
  if n < 26 then .ofNat (65 + n)
  else if n < 52 then .ofNat (71 + n)
  else if n < 62 then .ofNat (n - 4)
  else if n = 62 then 43
  else 47

def value? (b : UInt8) : Option Nat :=
  if 65 ≤ b ∧ b ≤ 90 then some (b.toNat - 65)
  else if 97 ≤ b ∧ b ≤ 122 then some (b.toNat - 71)
  else if 48 ≤ b ∧ b ≤ 57 then some (b.toNat + 4)
  else if b = 43 then some 62
  else if b = 47 then some 63
  else none

/-- `=` -/
def pad : UInt8 := 61

/-- `b64encode` -/
def encode : List UInt8 → List UInt8
  | [] => []
  | [a] => [symbol (a.toNat / 4), symbol (a.toNat % 4 * 16), pad, pad]
  | [a, b] => [symbol (a.toNat / 4), symbol (a.toNat % 4 * 16 + b.toNat / 16),
      symbol (b.toNat % 16 * 4), pad]
  | a :: b :: c :: rest =>
    symbol (a.toNat / 4) :: symbol (a.toNat % 4 * 16 + b.toNat / 16) ::
      symbol (b.toNat % 16 * 4 + c.toNat / 64) :: symbol (c.toNat % 64) :: encode rest

/-- The loop of `a2b_base64`: `quad` symbols of the current group have been read, `left` are the
bits of the last one that no byte has taken, and `pads` have followed it. `none` for an error. -/
def decodeFrom (quad left pads : Nat) : List UInt8 → Option (List UInt8)
  | [] => if quad = 0 then some [] else none
  | b :: bs =>
    if b = pad then
      if 2 ≤ quad then
        if 4 ≤ quad + (pads + 1) then some [] else decodeFrom quad left (pads + 1) bs
      else decodeFrom quad left pads bs
    else
      match value? b with
      | none => decodeFrom quad left pads bs
      | some v =>
        match quad with
        | 0 => decodeFrom 1 v 0 bs
        | 1 => (decodeFrom 2 (v % 16) 0 bs).map (.ofNat (left * 4 + v / 16) :: ·)
        | 2 => (decodeFrom 3 (v % 4) 0 bs).map (.ofNat (left * 16 + v / 4) :: ·)
        | _ => (decodeFrom 0 0 0 bs).map (.ofNat (left * 64 + v) :: ·)

/-- `b64decode` without validation. -/
def decode (bytes : List UInt8) : Option (List UInt8) := decodeFrom 0 0 0 bytes

/-- `+` and `/` become `-` and `_`. -/
def urlsafe (b : UInt8) : UInt8 := if b = 43 then 45 else if b = 47 then 95 else b

def ofUrlsafe (b : UInt8) : UInt8 := if b = 45 then 43 else if b = 95 then 47 else b

def urlsafeEncode (bytes : List UInt8) : List UInt8 := (encode bytes).map urlsafe

def urlsafeDecode (bytes : List UInt8) : Option (List UInt8) := decode (bytes.map ofUrlsafe)

/-! ## Groups of six bits -/

/-- The values whose symbols stand before the padding. -/
def sextets : List UInt8 → List Nat
  | [] => []
  | [a] => [a.toNat / 4, a.toNat % 4 * 16]
  | [a, b] => [a.toNat / 4, a.toNat % 4 * 16 + b.toNat / 16, b.toNat % 16 * 4]
  | a :: b :: c :: rest =>
    a.toNat / 4 :: (a.toNat % 4 * 16 + b.toNat / 16) :: (b.toNat % 16 * 4 + c.toNat / 64) ::
      (c.toNat % 64) :: sextets rest

/-- The padding after `n` symbols. -/
def padding (n : Nat) : List UInt8 := .replicate ((4 - n % 4) % 4) pad

theorem lt_of_mem_sextets {bytes : List UInt8} {n : Nat} (h : n ∈ sextets bytes) : n < 64 := by
  fun_induction sextets bytes with
  | case1 => cases h
  | case2 a =>
    have ha := a.toNat_lt
    simp only [List.mem_cons, List.not_mem_nil, or_false] at h
    omega
  | case3 a b =>
    have ha := a.toNat_lt
    have hb := b.toNat_lt
    simp only [List.mem_cons, List.not_mem_nil, or_false] at h
    omega
  | case4 a b c rest ih =>
    have ha := a.toNat_lt
    have hb := b.toNat_lt
    have hc := c.toNat_lt
    simp only [List.mem_cons] at h
    rcases h with rfl | rfl | rfl | rfl | h
    · omega
    · omega
    · omega
    · omega
    · exact ih h

theorem encode_eq (bytes : List UInt8) :
    encode bytes = (sextets bytes).map symbol ++ padding (sextets bytes).length := by
  fun_induction encode bytes with
  | case1 => rfl
  | case2 a => rfl
  | case3 a b => rfl
  | case4 a b c rest ih =>
    have hlength : padding ((sextets rest).length + 1 + 1 + 1 + 1) =
        padding (sextets rest).length := by
      unfold padding
      congr 1
      omega
    rw [sextets, ih]
    simp only [List.map_cons, List.length_cons, List.cons_append, hlength]

/-! ## Reading back -/

theorem value_symbol {n : Nat} (h : n < 64) : value? (symbol n) = some n := by
  have hall : ∀ n : Fin 64, value? (symbol n) = some n.val := by decide
  exact hall ⟨n, h⟩

theorem symbol_ne_pad {n : Nat} (h : n < 64) : symbol n ≠ pad := by
  have hall : ∀ n : Fin 64, symbol n ≠ pad := by decide
  exact hall ⟨n, h⟩

theorem ofUrlsafe_urlsafe_symbol {n : Nat} (h : n < 64) :
    ofUrlsafe (urlsafe (symbol n)) = symbol n := by
  have hall : ∀ n : Fin 64, ofUrlsafe (urlsafe (symbol n)) = symbol n := by decide
  exact hall ⟨n, h⟩

section Symbols

variable {quad left pads n : Nat} {bs : List UInt8}

theorem decodeFrom_zero (h : n < 64) :
    decodeFrom 0 left pads (symbol n :: bs) = decodeFrom 1 n 0 bs := by
  rw [decodeFrom, if_neg (symbol_ne_pad h), value_symbol h]
  rfl

theorem decodeFrom_one (h : n < 64) : decodeFrom 1 left pads (symbol n :: bs) =
    (decodeFrom 2 (n % 16) 0 bs).map (.ofNat (left * 4 + n / 16) :: ·) := by
  rw [decodeFrom, if_neg (symbol_ne_pad h), value_symbol h]
  rfl

theorem decodeFrom_two (h : n < 64) : decodeFrom 2 left pads (symbol n :: bs) =
    (decodeFrom 3 (n % 4) 0 bs).map (.ofNat (left * 16 + n / 4) :: ·) := by
  rw [decodeFrom, if_neg (symbol_ne_pad h), value_symbol h]
  rfl

theorem decodeFrom_three (h : n < 64) : decodeFrom 3 left pads (symbol n :: bs) =
    (decodeFrom 0 0 0 bs).map (.ofNat (left * 64 + n) :: ·) := by
  rw [decodeFrom, if_neg (symbol_ne_pad h), value_symbol h]
  rfl

end Symbols

/-- A byte is put together from the bits of two neighbouring groups. -/
theorem ofNat_eq {a : UInt8} {n : Nat} (h : n = a.toNat) : UInt8.ofNat n = a := by
  rw [h, UInt8.ofNat_toNat]

theorem decode_encode (bytes : List UInt8) : decode (encode bytes) = some bytes := by
  unfold decode
  fun_induction encode bytes with
  | case1 => rfl
  | case2 a =>
    have ha := a.toNat_lt
    rw [decodeFrom_zero (by omega), decodeFrom_one (by omega), ofNat_eq (by omega : _ = a.toNat)]
    rfl
  | case3 a b =>
    have ha := a.toNat_lt
    have hb := b.toNat_lt
    rw [decodeFrom_zero (by omega), decodeFrom_one (by omega), decodeFrom_two (by omega),
      ofNat_eq (by omega : _ = a.toNat), ofNat_eq (by omega : _ = b.toNat)]
    rfl
  | case4 a b c rest ih =>
    have ha := a.toNat_lt
    have hb := b.toNat_lt
    have hc := c.toNat_lt
    rw [decodeFrom_zero (by omega), decodeFrom_one (by omega), decodeFrom_two (by omega),
      decodeFrom_three (by omega), ih, ofNat_eq (by omega : _ = a.toNat),
      ofNat_eq (by omega : _ = b.toNat), ofNat_eq (by omega : _ = c.toNat)]
    rfl

/-! ## Without padding -/

/-- The URL-safe symbols of the data, without padding. -/
def symbols (bytes : List UInt8) : List UInt8 := (sextets bytes).map fun n => urlsafe (symbol n)

theorem mem_symbols {bytes : List UInt8} {b : UInt8} (h : b ∈ symbols bytes) :
    ∃ n < 64, b = urlsafe (symbol n) := by
  obtain ⟨n, hn, rfl⟩ := List.mem_map.mp h
  exact ⟨n, lt_of_mem_sextets hn, rfl⟩

theorem urlsafeEncode_eq (bytes : List UInt8) :
    urlsafeEncode bytes = symbols bytes ++ padding (symbols bytes).length := by
  have hpad : ∀ n, (padding n).map urlsafe = padding n := fun n => by
    rw [padding, List.map_replicate]
    rfl
  rw [urlsafeEncode, encode_eq, List.map_append, List.map_map, hpad, symbols, List.length_map]
  rfl

/-- Stripping the padding leaves the symbols. -/
theorem rdropWhile_urlsafeEncode (bytes : List UInt8) :
    (urlsafeEncode bytes).rdropWhile (· = pad) = symbols bytes := by
  have hsymbol : ∀ n : Fin 64, urlsafe (symbol n) ≠ pad := by decide
  rw [urlsafeEncode_eq, padding]
  induction (4 - (symbols bytes).length % 4) % 4 with
  | zero =>
    rw [List.replicate_zero, List.append_nil, List.rdropWhile_eq_self_iff]
    intro hne
    obtain ⟨n, hn, hlast⟩ := mem_symbols (List.getLast_mem hne)
    rw [hlast]
    simpa using hsymbol ⟨n, hn⟩
  | succ k ih =>
    rw [List.replicate_succ', ← List.append_assoc, List.rdropWhile_concat_pos _ _ _ (by simp), ih]

/-- The padding that the length asks for makes the symbols readable again. -/
theorem urlsafeDecode_symbols (bytes : List UInt8) :
    urlsafeDecode (symbols bytes ++ padding (symbols bytes).length) = some bytes := by
  have hpad : ∀ n, (padding n).map ofUrlsafe = padding n := fun n => by
    rw [padding, List.map_replicate]
    rfl
  have hsymbols : (symbols bytes).map ofUrlsafe = (sextets bytes).map symbol := by
    rw [symbols, List.map_map]
    exact List.map_congr_left fun n hn => ofUrlsafe_urlsafe_symbol (lt_of_mem_sextets hn)
  rw [urlsafeDecode, List.map_append, hpad, hsymbols, symbols, List.length_map, ← encode_eq,
    decode_encode]

end Base64
