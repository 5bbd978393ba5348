import TenantFlow.Core.Text
import TenantFlow.Library.Json
import Mathlib.Algebra.Order.Round
import Mathlib.Data.Rat.Floor

/-!
# What the program takes from Python and from its packages

UUIDs and instants are modelled as such. `Platform` collects what the program only passes
through: the settings, Unicode tables of `str`, SHA-256, and the validators and parsers of
third-party packages. Nothing is assumed about them here; a result that needs one of their
documented properties names it.
-/

namespace TenantFlow

open JsonText

/-! ## UUIDs -/

structure UUID where
  bits : BitVec 128
  deriving DecidableEq, Repr

namespace UUID

/-- PostgreSQL compares uuids byte by byte. -/
instance : LT UUID := ⟨fun u v => u.bits.toNat < v.bits.toNat⟩

instance (u v : UUID) : Decidable (u < v) := inferInstanceAs (Decidable (_ < (_ : Nat)))

/-- Hyphens after 8, 12, 16 and 20 digits. -/
def dash (d : List Char) : List Char :=
  d.take 8 ++ '-' :: ((d.drop 8).take 4 ++ '-' :: ((d.drop 12).take 4 ++ '-' ::
    ((d.drop 16).take 4 ++ '-' :: d.drop 20)))

/-- `str(u)` -/
def str (u : UUID) : String := String.ofList (dash (hexDigits 32 u.bits.toNat))

/-- `text.replace(pat, "")`; the counter skips the rest of an occurrence. -/
def remove (pat : List Char) : Nat → List Char → List Char
  | _, [] => []
  | n + 1, _ :: cs => remove pat n cs
  | 0, c :: cs =>
    if pat.isPrefixOf (c :: cs) then remove pat (pat.length - 1) cs else c :: remove pat 0 cs

/-- `UUID(text)`: a URN prefix, braces and hyphens are dropped, and `int(text, 16)` reads the 32
characters that must be left. -/
def ofString (s : String) : Option UUID :=
  let bare := remove "uuid:".toList 0 (remove "urn:".toList 0 s.toList)
  let hex := (trim (· ∈ ['{', '}']) bare).filter (· ≠ '-')
  if hex.length = 32 then
    (readInt 16 (String.ofList hex)).bind fun n =>
      if 0 ≤ n ∧ n < 2 ^ 128 then some ⟨BitVec.ofInt 128 n⟩ else none
  else none

theorem dash_filter {d : List Char} (h : '-' ∉ d) : (dash d).filter (· ≠ '-') = d := by
  have hkeep : ∀ l : List Char, l ⊆ d → l.filter (· ≠ '-') = l := by
    intro l hl
    apply List.filter_eq_self.mpr
    intro c hc
    have : c ≠ '-' := by
      rintro rfl
      exact h (hl hc)
    simpa using this
  have htake : ∀ m n, (d.drop m).take n ⊆ d := fun m n _ hc =>
    List.drop_subset m d (List.take_subset n _ hc)
  simp only [dash, List.filter_append, List.filter_cons_of_neg (p := (· ≠ '-')) (by simp :
    ¬ decide ('-' ≠ '-') = true), hkeep _ (List.take_subset 8 d), hkeep _ (htake _ _),
    hkeep _ (List.drop_subset 20 d)]
  have hsplit : ∀ m n, (d.drop m).take n ++ d.drop (m + n) = d.drop m := fun m n => by
    rw [← List.drop_drop, List.take_append_drop]
  rw [hsplit 16 4, hsplit 12 4, hsplit 8 4, List.take_append_drop]

theorem mem_dash {d : List Char} {c : Char} (h : c ∈ dash d) : c ∈ d ∨ c = '-' := by
  simp only [dash, List.mem_append, List.mem_cons] at h
  rcases h with h | h | h | h | h | h | h | h | h
  · exact .inl (List.mem_of_mem_take h)
  · exact .inr h
  · exact .inl (List.mem_of_mem_drop (List.mem_of_mem_take h))
  · exact .inr h
  · exact .inl (List.mem_of_mem_drop (List.mem_of_mem_take h))
  · exact .inr h
  · exact .inl (List.mem_of_mem_drop (List.mem_of_mem_take h))
  · exact .inr h
  · exact .inl (List.mem_of_mem_drop h)

theorem mem_hexDigits {w n : Nat} {c : Char} (h : c ∈ hexDigits w n) :
    ∃ k : Fin 16, c = Nat.digitChar k := by
  induction w generalizing n with
  | zero => cases h
  | succ w ih =>
    simp only [hexDigits, List.mem_append, List.mem_singleton] at h
    rcases h with h | rfl
    · exact ih h
    · exact ⟨⟨n % 16, Nat.mod_lt n (by omega)⟩, rfl⟩

/-- The characters of a printed UUID. -/
theorem mem_str {u : UUID} {c : Char} (h : c ∈ u.str.toList) :
    (∃ k : Fin 16, c = Nat.digitChar k) ∨ c = '-' := by
  rw [str, String.toList_ofList] at h
  rcases mem_dash h with h | h
  · exact .inl (mem_hexDigits h)
  · exact .inr h

theorem not_mem_str {u : UUID} {c : Char} (hc : ∀ k : Fin 16, c ≠ Nat.digitChar k)
    (hd : c ≠ '-') : c ∉ u.str.toList := by
  intro h
  rcases mem_str h with ⟨k, hk⟩ | h
  · exact hc k hk
  · exact hd h

theorem str_filter (u : UUID) :
    u.str.toList.filter (· ≠ '-') = hexDigits 32 u.bits.toNat := by
  rw [str, String.toList_ofList, dash_filter]
  intro h
  obtain ⟨k, hk⟩ := mem_hexDigits h
  revert k
  decide

theorem str_injective : Function.Injective str := by
  intro u v h
  have hd := str_filter u
  rw [h, str_filter v] at hd
  have hn := hexDigits_inj (w := 32) v.bits.isLt u.bits.isLt hd
  cases u
  cases v
  simpa using (BitVec.eq_of_toNat_eq hn).symm

@[simp] theorem length_str (u : UUID) : u.str.toList.length = 36 := by
  rw [str, String.toList_ofList]
  simp [dash]

/-! ### Reading a printed UUID back -/

theorem digitValue_digitChar (k : Nat) (h : k < 16) : digitValue 16 (Nat.digitChar k) = some k := by
  have hall : ∀ k : Fin 16, digitValue 16 (Nat.digitChar k) = some k.val := by decide
  exact hall ⟨k, h⟩

theorem remove_of_not_mem {c : Char} {pat cs : List Char} (h : c ∉ cs) :
    remove (c :: pat) 0 cs = cs := by
  induction cs with
  | nil => rfl
  | cons d cs ih =>
    have hcd : ¬ (c :: pat).isPrefixOf (d :: cs) := by
      intro hp
      rw [List.isPrefixOf_iff_prefix] at hp
      exact h ((List.cons_prefix_cons.mp hp).1 ▸ List.mem_cons_self)
    simp only [remove, hcd, Bool.false_eq_true, ↓reduceIte,
      ih (fun hm => h (List.mem_cons_of_mem _ hm))]

theorem mapM_hexDigits (w n : Nat) :
    ∃ ds, (hexDigits w n).mapM (digitValue 16) = some ds ∧
      ds.foldl (fun n d => 16 * n + d) 0 = n % 16 ^ w := by
  induction w generalizing n with
  | zero => exact ⟨[], rfl, by simp [Nat.mod_one]⟩
  | succ w ih =>
    obtain ⟨ds, hds, hval⟩ := ih (n / 16)
    refine ⟨ds ++ [n % 16], ?_, ?_⟩
    · simp [hexDigits, List.mapM_append, hds, digitValue_digitChar _ (Nat.mod_lt n (by omega))]
    · rw [List.foldl_append, hval, List.foldl_cons, List.foldl_nil, Nat.pow_succ,
        Nat.mul_comm (16 ^ w), Nat.mod_mul]
      omega

theorem readInt_hexDigits (u : UUID) :
    readInt 16 (String.ofList (hexDigits 32 u.bits.toNat)) = some (u.bits.toNat : Int) := by
  have hdigit : ∀ k : Fin 16, ¬ intBlank (Nat.digitChar k) := by decide
  have hblank : ∀ c ∈ hexDigits 32 u.bits.toNat, ¬ intBlank c := by
    intro c hc
    obtain ⟨k, rfl⟩ := mem_hexDigits hc
    exact hdigit k
  have hne : hexDigits 32 u.bits.toNat ≠ [] := by
    simp [hexDigits]
  obtain ⟨ds, hds, hval⟩ := mapM_hexDigits 32 u.bits.toNat
  have hlt : u.bits.toNat % 16 ^ 32 = u.bits.toNat := Nat.mod_eq_of_lt u.bits.isLt
  rw [readInt, String.toList_ofList, trim_eq_self hblank, readSigned_of_digits hne hds, hval, hlt,
    Int.ofNat_eq_natCast]

/-- A printed UUID is read back as the same UUID. -/
theorem ofString_str (u : UUID) : ofString u.str = some u := by
  have hu : 'u' ∉ u.str.toList := not_mem_str (by decide) (by decide)
  have hbraces : ∀ c ∈ u.str.toList, ¬ decide (c ∈ ['{', '}']) = true := by
    intro c hc hmem
    simp only [List.mem_cons, List.not_mem_nil, or_false, decide_eq_true_eq] at hmem
    rcases hmem with rfl | rfl
    · exact not_mem_str (by decide) (by decide) hc
    · exact not_mem_str (by decide) (by decide) hc
  have hrange : (0 : Int) ≤ u.bits.toNat ∧ (u.bits.toNat : Int) < 2 ^ 128 := by
    have := u.bits.isLt
    omega
  unfold ofString
  dsimp only
  rw [show "urn:".toList = 'u' :: "rn:".toList from rfl, remove_of_not_mem hu,
    show "uuid:".toList = 'u' :: "uid:".toList from rfl, remove_of_not_mem hu,
    trim_eq_self hbraces, str_filter]
  rw [if_pos (by simp), readInt_hexDigits, Option.bind_some, if_pos hrange, BitVec.ofInt_natCast,
    BitVec.ofNat_toNat]
  simp

end UUID

/-! ## Instants -/

/-- An aware `datetime`, as microseconds from the Unix epoch. -/
abbrev Datetime : Type := Int

/-- A `datetime` of a request body, which may lack a time zone. -/
structure PyDatetime where
  micros : Int
  aware : Bool
  deriving DecidableEq, Repr

def seconds (n : Int) : Int := n * 1000000

def hours (n : Int) : Int := seconds (3600 * n)

def days (n : Int) : Int := hours (24 * n)

/-- Rounding to the nearest integer, ties to even. -/
def roundHalfEven (q : ℚ) : Int :=
  let n := ⌊q⌋
  if q - n < 1 / 2 then n
  else if q - n > 1 / 2 then n + 1
  else if n % 2 = 0 then n else n + 1

/-- The first and the last instant of a `datetime`, in the years 1 and 9999. -/
def minDatetime : Datetime := -62135596800000000

def maxDatetime : Datetime := 253402300799999999

/-- `datetime.fromtimestamp(t, tz=UTC)`; `none` where it raises. -/
def fromTimestamp (t : ℚ) : Option Datetime :=
  let us := roundHalfEven (t * 1000000)
  if minDatetime ≤ us ∧ us ≤ maxDatetime then some us else none

/-- `astimezone(UTC)` finds an instant. A naive value is local time, which is UTC for the program;
reading it also looks at the time a day before. -/
def PyDatetime.inRange (d : PyDatetime) : Bool :=
  minDatetime + (if d.aware then 0 else days 1) ≤ d.micros && d.micros ≤ maxDatetime

/-! ## Bytes -/

/-- `text.encode()` -/
def utf8 (text : String) : List UInt8 := text.toList.flatMap String.utf8EncodeChar

theorem utf8_injective : Function.Injective utf8 := by
  intro s s' h
  have hencode : s.toList.utf8Encode = s'.toList.utf8Encode := congrArg List.toByteArray h
  have hbytes : s.toByteArray = s'.toByteArray := by
    rw [← String.ofList_toList (s := s), ← String.ofList_toList (s := s')]
    exact hencode
  exact String.toByteArray_inj.mp hbytes

/-! ## Settings and packages -/

structure Settings where
  webhookAllowPrivateTargets : Bool := true
  refreshTokenDays : Int := 30
  stripeSecretKey : String := ""
  stripePricePro : String := ""
  stripePriceBusiness : String := ""

/-- The parts of a URL that the program looks at. -/
structure SplitUrl where
  scheme : String
  hostname : Option String
  port : Option Nat

/-- How `json.loads` fails: with a `ValueError`, or because the values are nested too deeply. -/
inductive LoadsError where
  | value | recursion
  deriving DecidableEq, Repr

class Platform where
  settings : Settings
  /-- `str.lower`, by the Unicode tables. -/
  lower : String → String
  /-- The characters beyond ASCII that are alphabetic, decimal, digits or numeric. -/
  isalnumWide : Char → Bool
  /-- `hashlib.sha256(text.encode()).hexdigest()` -/
  sha256 : String → String
  /-- `verify_password`, by argon2. -/
  verifyPassword : String → String → Bool
  /-- `hmac.new(key.encode(), message, sha256).hexdigest()` -/
  hmacSha256 : String → List UInt8 → String
  /-- `str(x)` of a float, a list or a dictionary. -/
  reprValue : Json → String
  /-- Pydantic's `EmailStr`: the normalised address, or `none` for a validation error. -/
  validateEmail : String → Option String
  urlsplit : String → SplitUrl
  /-- `ipaddress.ip_address(host).is_global`; `none` if the host is not an address. -/
  ipIsGlobal : String → Option Bool
  jsonLoads : List UInt8 → Except LoadsError Json
  /-- Whether `session.get` with a lock reloads an object that the session already holds. -/
  getReloads : Bool
  fromisoformat : String → Option PyDatetime
  /-- `isoformat` of an instant at an offset from UTC in minutes. -/
  isoformat : Datetime → Int → String

/-- `str.isalnum` of one character. -/
def isalnumChar [Platform] (c : Char) : Bool :=
  if c.toNat < 128 then c.isAlphanum else Platform.isalnumWide c

/-- `str.isalnum` -/
def isalnum [Platform] (s : String) : Bool := !s.toList.isEmpty && s.toList.all isalnumChar

/-- `str(x)` of a JSON value. -/
def pyStr [Platform] : Json → String
  | .null => "None"
  | .bool true => "True"
  | .bool false => "False"
  | .int n => toString n
  | .str s => s
  | x => Platform.reprValue x

end TenantFlow
