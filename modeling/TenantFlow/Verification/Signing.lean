import TenantFlow.Modules.Signing
import TenantFlow.Verification.Sample

/-!
# Signatures verify

The header that `create_signature` writes is read back by `verify_signature`: the timestamp is
printed without a separator of the header, and so is a hexadecimal digest.
-/

namespace TenantFlow

open JsonText

/-! ## Reading a printed number -/

theorem decimalValue_of_isDigit {c : Char} (h : c.isDigit = true) :
    decimalValue c = some (c.toNat - '0'.toNat) := by
  have hrange := Char.isDigit_iff_toNat.mp h
  have hfind : decimalZeros.find? (fun z => decide (z ≤ c.toNat) && decide (c.toNat ≤ z + 9)) =
      some 48 := by
    rw [decimalZeros, List.find?_cons_of_pos (by simpa using hrange)]
  rw [decimalValue, hfind]
  rfl

theorem digitValue_of_isDigit {c : Char} (h : c.isDigit = true) :
    digitValue 10 c = some (c.toNat - '0'.toNat) := by
  have hrange : 48 ≤ c.toNat ∧ c.toNat ≤ 57 := Char.isDigit_iff_toNat.mp h
  have hlower : ¬ ('a' ≤ c ∧ c ≤ 'z') := fun hc => by
    have : 97 ≤ c.toNat := hc.1
    omega
  have hupper : ¬ ('A' ≤ c ∧ c ≤ 'Z') := fun hc => by
    have : 65 ≤ c.toNat := hc.1
    omega
  have hlt : c.toNat - 48 < 10 := by omega
  rw [digitValue, alnumValue, if_neg hlower, if_neg hupper, decimalValue_of_isDigit h]
  simp [Option.filter, hlt]

theorem mapM_digits {cs : List Char} (h : ∀ c ∈ cs, c.isDigit = true) :
    cs.mapM (digitValue 10) = some (cs.map fun c => c.toNat - '0'.toNat) := by
  induction cs with
  | nil => rfl
  | cons c cs ih =>
    rw [List.mapM_cons, digitValue_of_isDigit (h c List.mem_cons_self),
      ih fun c hc => h c (List.mem_cons_of_mem _ hc)]
    rfl

theorem foldl_toDigits (n : Nat) : ((Nat.toDigits 10 n).map fun c => c.toNat - '0'.toNat).foldl
    (fun n d => 10 * n + d) 0 = n := by
  rw [List.foldl_map]
  exact Nat.ofDigitChars_ten_toDigits

theorem readInt_toString (n : Int) : readInt 10 (toString n) = some n := by
  have hblank : ∀ c ∈ (toString n).toList, ¬ intBlank c = true := by
    intro c hc
    rcases mem_toString hc with hc | rfl
    · have hrange : 48 ≤ c.toNat ∧ c.toNat ≤ 57 := Char.isDigit_iff_toNat.mp hc
      simp [intBlank]
      omega
    · decide
  have hread (m : Nat) : readSigned 10 (Nat.toDigits 10 m) = some (m : Int) := by
    rw [readSigned_of_digits Nat.toDigits_ne_nil (mapM_digits isDigit_toDigits), foldl_toDigits,
      Int.ofNat_eq_natCast]
  have hreadNat (m : Nat) : readUnsigned 10 (Nat.toDigits 10 m) = some m := by
    rw [readUnsigned_of_digits Nat.toDigits_ne_nil (mapM_digits isDigit_toDigits), foldl_toDigits]
  rw [readInt, trim_eq_self hblank, toList_toString]
  by_cases hn : 0 ≤ n
  · rw [if_pos hn, hread, Int.toNat_of_nonneg hn]
  · rw [if_neg hn, readSigned, hreadNat, Option.map_some, Option.some.injEq]
    simp only [Int.ofNat_eq_natCast]
    omega

/-- With the limit switched off, as long as a number is. -/
theorem readDecimal_toString (n : Int) : readDecimal none (toString n) = some n :=
  readInt_toString n

/-! ## Reading the header -/

theorem splitOnce_self (sep rest : List Char) (hsep : sep ≠ []) :
    splitOnce sep (sep ++ rest) = some ([], rest) := by
  cases sep with
  | nil => exact absurd rfl hsep
  | cons d sep => simp [splitOnce]

/-- What stands before the first separator does not begin one. -/
theorem splitOnce_append {d : Char} {before : List Char} (h : d ∉ before) (sep rest : List Char) :
    splitOnce (d :: sep) (before ++ d :: sep ++ rest) = some (before, rest) := by
  induction before with
  | nil => simpa using splitOnce_self (d :: sep) rest (by simp)
  | cons c before ih =>
    obtain ⟨hne, hnot⟩ : d ≠ c ∧ d ∉ before := by simpa using h
    have ih := ih hnot
    simp only [List.append_assoc, List.cons_append] at ih ⊢
    simp [splitOnce, List.isPrefixOf, hne, ih]

/-! ## Signatures -/

/-- `timestamp or now` -/
theorem getD_filter_some {timestamp time : Int} : ((some timestamp).filter (· ≠ 0)).getD time =
    if timestamp = 0 then time else timestamp := by
  by_cases hzero : timestamp = 0 <;> simp [Option.filter, hzero]

section Verify

variable [Platform] {secret : String} {payload payload' : List UInt8} {timestamp : Int}
  {toleranceSeconds time time' : Int}

/-- `hexdigest()` gives hexadecimal digits. -/
def HexDigests : Prop := ∀ key message, ∀ c ∈ (Platform.hmacSha256 key message).toList,
  c ∈ "0123456789abcdef".toList

/-- The digest of a signature. -/
def digestOf (secret : String) (payload : List UInt8) (timestamp : Int) : List Char :=
  (Platform.hmacSha256 secret (signedMessage timestamp payload)).toList

/-- The signature that carries this timestamp. -/
def headerOf (secret : String) (payload : List UInt8) (timestamp : Int) : List Char :=
  't' :: '=' :: (toString timestamp).toList ++ ',' :: 'v' :: '1' :: '=' ::
    digestOf secret payload timestamp

theorem toList_createSignature (timestamp : Option Int) :
    (createSignature secret payload timestamp time).toList =
      headerOf secret payload ((timestamp.filter (· ≠ 0)).getD time) := by
  simp [createSignature, headerOf, digestOf]

theorem HexDigests.ne_comma (hhex : HexDigests) :
    ∀ c ∈ digestOf secret payload timestamp, c ≠ ',' := by
  have hplain : ∀ c ∈ "0123456789abcdef".toList, c ≠ ',' := by simp
  exact fun c hc => hplain c (hhex _ _ c hc)

/-- The header has two fields. -/
theorem splitOn_headerOf (hhex : HexDigests) :
    ((headerOf secret payload timestamp).splitOn ',').mapM (splitOnce ['=']) =
      some [(['t'], (toString timestamp).toList),
        (['v', '1'], digestOf secret payload timestamp)] := by
  have hfirst : ∀ c ∈ 't' :: '=' :: (toString timestamp).toList, (c == ',') = false := by
    intro c hc
    simp only [List.mem_cons] at hc
    rcases hc with rfl | rfl | hc
    · decide
    · decide
    · rcases mem_toString hc with hc | rfl
      · simp only [beq_eq_false_iff_ne, ne_eq]
        rintro rfl
        cases hc
      · decide
  have hsecond : ∀ c ∈ 'v' :: '1' :: '=' :: digestOf secret payload timestamp,
      (c == ',') = false := by
    intro c hc
    simp only [List.mem_cons] at hc
    rcases hc with rfl | rfl | rfl | hc
    · decide
    · decide
    · decide
    · simpa using hhex.ne_comma c hc
  rw [headerOf, List.splitOn, List.splitOnP_append_cons _ _ (by simp),
    List.splitOnP_eq_singleton hfirst, List.splitOnP_eq_singleton hsecond]
  have ht : splitOnce ['='] ('t' :: '=' :: (toString timestamp).toList) =
      some (['t'], (toString timestamp).toList) :=
    splitOnce_append (by decide : '=' ∉ ['t']) [] _
  have hv : splitOnce ['='] ('v' :: '1' :: '=' :: digestOf secret payload timestamp) =
      some (['v', '1'], digestOf secret payload timestamp) :=
    splitOnce_append (by decide : '=' ∉ ['v', '1']) [] _
  simp only [List.cons_append, List.nil_append, List.mapM_cons, List.mapM_nil, ht, hv,
    Option.bind_eq_bind, Option.bind_some, Option.pure_def]

/-- The header is read back. -/
theorem headerFields_of_headerOf (hhex : HexDigests) {header : String}
    (h : header.toList = headerOf secret payload timestamp) : headerFields header =
      some (timestamp, Platform.hmacSha256 secret (signedMessage timestamp payload)) := by
  have hread : readDecimal none (String.ofList (toString timestamp).toList) = some timestamp := by
    rw [String.ofList_toList, readDecimal_toString]
  have ht : lastValue [(['t'], (toString timestamp).toList),
      (['v', '1'], digestOf secret payload timestamp)] "t" = some (toString timestamp).toList := by
    simp [lastValue]
  have hv : lastValue [(['t'], (toString timestamp).toList),
      (['v', '1'], digestOf secret payload timestamp)] "v1" =
        some (digestOf secret payload timestamp) := by
    simp [lastValue]
  rw [headerFields, h, splitOn_headerOf hhex]
  simp only [Option.bind_eq_bind, Option.bind_some, ht, hv, hread, Option.pure_def]
  rw [digestOf, String.ofList_toList]

/-- The text after `v1=` is the digest. -/
theorem splitOnce_headerOf : splitOnce "v1=".toList (headerOf secret payload timestamp) =
    some ('t' :: '=' :: (toString timestamp).toList ++ [','],
      digestOf secret payload timestamp) := by
  have hv : 'v' ∉ 't' :: '=' :: (toString timestamp).toList ++ [','] := by
    simp only [List.mem_append, List.mem_cons, List.not_mem_nil, or_false, not_or]
    refine ⟨⟨by decide, by decide, fun hc => ?_⟩, by decide⟩
    rcases mem_toString hc with hc | hc
    · cases hc
    · cases hc
  have hsplit := splitOnce_append hv ['1', '='] (digestOf secret payload timestamp)
  rw [headerOf]
  simpa using hsplit

/-- What the comparison gets, once the header is read and its time is close enough. -/
theorem verifySignature_eq {header supplied : String} {limit : Option Nat}
    (hfields : headerFields header limit = some (timestamp, supplied))
    (htime : |time - timestamp| ≤ toleranceSeconds) :
    verifySignature secret payload header toleranceSeconds time time' limit =
      compareDigest (Platform.hmacSha256 secret
        (signedMessage (if timestamp = 0 then time' else timestamp) payload)) supplied := by
  rw [verifySignature, hfields]
  simp only [toList_createSignature, splitOnce_headerOf, if_neg (by omega :
    ¬ |time - timestamp| > toleranceSeconds), getD_filter_some, digestOf, String.ofList_toList]

theorem HexDigests.ascii (hhex : HexDigests) {message : List UInt8} :
    (Platform.hmacSha256 secret message).toList.all (·.toNat < 128) = true := by
  have hplain : ∀ c ∈ "0123456789abcdef".toList, c.toNat < 128 := by simp
  exact List.all_eq_true.mpr fun c hc => decide_eq_true (hplain c (hhex secret message c hc))

theorem HexDigests.compareDigest_eq (hhex : HexDigests) {message : List UInt8} {supplied : String} :
    compareDigest (Platform.hmacSha256 secret message) supplied =
      if supplied.toList.all (·.toNat < 128) then
        .ok (decide (Platform.hmacSha256 secret message = supplied))
      else .error "TypeError" := by
  rw [compareDigest, hhex.ascii, Bool.true_and]

/-- A header that carries a timestamp and its signature, for any payload. -/
theorem verifySignature_of_headerOf (hhex : HexDigests) (hzero : timestamp ≠ 0) {header : String}
    (h : header.toList = headerOf secret payload timestamp)
    (htime : |time - timestamp| ≤ toleranceSeconds) :
    verifySignature secret payload' header toleranceSeconds time time' =
      .ok (decide (Platform.hmacSha256 secret (signedMessage timestamp payload') =
        Platform.hmacSha256 secret (signedMessage timestamp payload))) := by
  rw [verifySignature_eq (headerFields_of_headerOf hhex h) htime, hhex.compareDigest_eq,
    if_neg hzero, if_pos hhex.ascii]

/-- A receiver with the secret accepts the signature of the current time while its clock is close
enough. -/
theorem verifySignature_createSignature (hhex : HexDigests) (hzero : timestamp ≠ 0)
    (htime : |time - timestamp| ≤ toleranceSeconds) :
    verifySignature secret payload (createSignature secret payload none timestamp) toleranceSeconds
      time time' = .ok true := by
  rw [verifySignature_of_headerOf hhex hzero (toList_createSignature none) htime]
  simp

/-- A receiver with the secret accepts a signature exactly if it was made for the same payload
and the clock is close enough. -/
theorem verifySignature_createSignature_iff (hhex : HexDigests)
    (hinj : Function.Injective (Platform.hmacSha256 secret)) (hzero : timestamp ≠ 0) {made : Int} :
    verifySignature secret payload' (createSignature secret payload (some timestamp) made)
        toleranceSeconds time time' = .ok true ↔
      payload' = payload ∧ |time - timestamp| ≤ toleranceSeconds := by
  have hheader : (createSignature secret payload (some timestamp) made).toList =
      headerOf secret payload timestamp := by
    rw [toList_createSignature, getD_filter_some, if_neg hzero]
  by_cases htime : |time - timestamp| ≤ toleranceSeconds
  · rw [verifySignature_of_headerOf hhex hzero hheader htime, Except.ok.injEq, decide_eq_true_eq,
      hinj.eq_iff, signedMessage, signedMessage, List.append_cancel_left_eq]
    exact ⟨fun h => ⟨h, htime⟩, And.left⟩
  · have hlate : |time - timestamp| > toleranceSeconds := by omega
    rw [verifySignature, headerFields_of_headerOf hhex hheader]
    simp [hlate, htime]

/-! ## Any header -/

/-- A boolean, and `true` only for a timely timestamp with its own signature. -/
structure Sound (secret : String) (payload : List UInt8) (header : String)
    (toleranceSeconds time : Int) (limit : Option Nat) (result : Except String Bool) : Prop where
  returns : ∃ verified, result = .ok verified
  signed : result = .ok true → ∃ timestamp supplied,
    headerFields header limit = some (timestamp, supplied) ∧ |time - timestamp| ≤ toleranceSeconds ∧
      supplied = Platform.hmacSha256 secret (signedMessage timestamp payload)

/-- The comparison is reached with a text of ASCII characters, and a timestamp of zero not with
the signature of the clock in its place. -/
def Comparable (secret : String) (payload : List UInt8) (header : String)
    (toleranceSeconds time time' : Int) (limit : Option Nat) : Prop :=
  ∀ timestamp supplied, headerFields header limit = some (timestamp, supplied) →
    |time - timestamp| ≤ toleranceSeconds →
      supplied.toList.all (·.toNat < 128) = true ∧
      (timestamp = 0 → supplied = Platform.hmacSha256 secret (signedMessage time' payload) →
        supplied = Platform.hmacSha256 secret (signedMessage 0 payload))

/-- Whatever the limit on the digits of a number: verification is sound exactly for the headers that
can be compared. -/
theorem verifySignature_sound_iff (hhex : HexDigests) {header : String} {limit : Option Nat} :
    Sound secret payload header toleranceSeconds time limit
        (verifySignature secret payload header toleranceSeconds time time' limit) ↔
      Comparable secret payload header toleranceSeconds time time' limit := by
  cases hfields : headerFields header limit with
  | none =>
    have hresult : verifySignature secret payload header toleranceSeconds time time' limit =
        .ok false := by
      rw [verifySignature, hfields]
    rw [hresult]
    refine iff_of_true ⟨⟨_, rfl⟩, fun h => nomatch h⟩ fun timestamp supplied h => ?_
    rw [hfields] at h
    cases h
  | some fields =>
    obtain ⟨timestamp, supplied⟩ := fields
    have hcomparable : Comparable secret payload header toleranceSeconds time time' limit ↔
        (|time - timestamp| ≤ toleranceSeconds → supplied.toList.all (·.toNat < 128) = true ∧
          (timestamp = 0 → supplied = Platform.hmacSha256 secret (signedMessage time' payload) →
            supplied = Platform.hmacSha256 secret (signedMessage 0 payload))) := by
      simp [Comparable, hfields]
    by_cases htime : |time - timestamp| ≤ toleranceSeconds
    · rw [verifySignature_eq hfields htime, hhex.compareDigest_eq, hcomparable]
      cases hascii : supplied.toList.all (·.toNat < 128) with
      | false =>
        refine iff_of_false (fun h => ?_) fun h => by simpa using (h htime).1
        obtain ⟨verified, hverified⟩ := h.returns
        cases hverified
      | true =>
        constructor
        · refine fun h _ => ⟨rfl, fun hzero hsupplied => ?_⟩
          obtain ⟨_, _, hsame, _, hsigned⟩ := h.signed (by simp [hzero, ← hsupplied])
          obtain ⟨rfl, rfl⟩ := Prod.mk.inj (Option.some.inj (hfields.symm.trans hsame))
          rw [hsigned, hzero]
        · refine fun h => ⟨⟨_, rfl⟩, fun htrue => ⟨timestamp, supplied, hfields, htime, ?_⟩⟩
          have hsupplied : Platform.hmacSha256 secret
              (signedMessage (if timestamp = 0 then time' else timestamp) payload) = supplied := by
            simpa using htrue
          by_cases hzero : timestamp = 0
          · rw [if_pos hzero] at hsupplied
            rw [hzero]
            exact (h htime).2 hzero hsupplied.symm
          · rw [if_neg hzero] at hsupplied
            exact hsupplied.symm
    · have hresult : verifySignature secret payload header toleranceSeconds time time' limit =
          .ok false := by
        have hlate : |time - timestamp| > toleranceSeconds := by omega
        rw [verifySignature, hfields]
        simp only [hlate, ↓reduceIte]
      rw [hresult, hcomparable]
      exact iff_of_true ⟨⟨_, rfl⟩, fun h => nomatch h⟩ fun h => absurd h htime

end Verify

section Sample

attribute [local instance] samplePlatform

theorem hexDigests_samplePlatform : HexDigests := by
  intro key message c hc
  have hall : (sampleMacs.all fun m => m.2.toList.all ("0123456789abcdef".toList.contains ·)) =
      true := by decide +kernel
  have hlisted : ∀ m ∈ sampleMacs, ∀ c ∈ m.2.toList, c ∈ "0123456789abcdef".toList := by
    intro m hm c hc
    have hdigits := List.all_eq_true.mp (List.all_eq_true.mp hall m hm) c hc
    exact List.contains_iff_mem.mp hdigits
  have hdigit : ∀ k : Fin 16, Nat.digitChar k ∈ "0123456789abcdef".toList := by decide
  change c ∈ (sampleHmac key message).toList at hc
  unfold sampleHmac at hc
  split at hc
  · rename_i m hm
    exact hlisted m (List.mem_of_find?_eq_some hm) c hc
  · rw [String.toList_ofList] at hc
    rcases List.mem_cons.mp hc with rfl | hc
    · decide
    · obtain ⟨b, _, hb⟩ := List.mem_flatMap.mp hc
      obtain ⟨k, rfl⟩ := UUID.mem_hexDigits hb
      exact hdigit k

theorem flatMap_hexDigits_inj {bytes bytes' : List UInt8}
    (h : (bytes.flatMap fun b => hexDigits 2 b.toNat) =
      bytes'.flatMap fun b => hexDigits 2 b.toNat) : bytes = bytes' := by
  induction bytes generalizing bytes' with
  | nil =>
    cases bytes' with
    | nil => rfl
    | cons b bytes' => simp [hexDigits] at h
  | cons b bytes ih =>
    cases bytes' with
    | nil => simp [hexDigits] at h
    | cons b' bytes' =>
      rw [List.flatMap_cons, List.flatMap_cons] at h
      obtain ⟨hb, hbytes⟩ := List.append_inj h (by simp)
      rw [UInt8.toNat_inj.mp (hexDigits_inj b.toNat_lt b'.toNat_lt hb), ih hbytes]

/-- Listed digests differ, and have a length that others do not have. -/
theorem sampleHmac_injective (key : String) : Function.Injective (sampleHmac key) := by
  intro message message' h
  have hdistinct : ∀ m ∈ sampleMacs, ∀ m' ∈ sampleMacs, m.2 = m'.2 → m.1.2 = m'.1.2 := by
    decide +kernel
  have hlength : ∀ m ∈ sampleMacs, m.2.toList.length = 64 := by decide +kernel
  have hodd : ∀ bytes : List UInt8,
      (bytes.flatMap fun b => hexDigits 2 b.toNat).length = 2 * bytes.length := by
    intro bytes
    simp [List.length_flatMap, Nat.mul_comm]
  have hhex : ∀ m ∈ sampleMacs, ∀ bytes : List UInt8,
      m.2 ≠ String.ofList ('0' :: bytes.flatMap fun b => hexDigits 2 b.toNat) := by
    intro m hm bytes heq
    have hlen := hlength m hm
    rw [heq, String.toList_ofList, List.length_cons, hodd] at hlen
    omega
  unfold sampleHmac at h
  split at h <;> split at h
  · rename_i m hm _ m' hm'
    have hmem := List.mem_of_find?_eq_some hm
    have hmem' := List.mem_of_find?_eq_some hm'
    have hsame := hdistinct m hmem m' hmem' h
    have hm := List.find?_some hm
    have hm' := List.find?_some hm'
    simp only [decide_eq_true_eq] at hm hm'
    rw [← hm.2, ← hm'.2, hsame]
  · rename_i m hm _ _
    exact absurd h (hhex m (List.mem_of_find?_eq_some hm) message')
  · rename_i _ _ m' hm'
    exact absurd h.symm (hhex m' (List.mem_of_find?_eq_some hm') message)
  · exact flatMap_hexDigits_inj (List.cons.inj (String.ofList_injective h)).2

/-- The signature of the test, three seconds later. -/
theorem sample_signature_verifies : verifySignature "whsec_test"
    (utf8 "\x7b\"event\":\"task.completed\"\x7d") (createSignature "whsec_test"
      (utf8 "\x7b\"event\":\"task.completed\"\x7d") (some 1700000000) 0) 5 1700000003 1700000003 =
        .ok true :=
  (verifySignature_createSignature_iff hexDigests_samplePlatform (sampleHmac_injective _)
    (by decide)).mpr ⟨rfl, by decide⟩

/-- The test's header is compared, and verified. -/
def sampleHeader : String :=
  "t=1700000000,v1=72d60e3c2ab752b968d31a79e53de5d105671d4180995b39eaca9508bececd25"

theorem sample_verification_sound :
    Sound "whsec_test" (utf8 "\x7b\"event\":\"task.completed\"\x7d") sampleHeader 300 1700000003
      (some 4300) (verifySignature "whsec_test" (utf8 "\x7b\"event\":\"task.completed\"\x7d")
        sampleHeader 300 1700000003 1700000003 (some 4300)) := by
  refine (verifySignature_sound_iff hexDigests_samplePlatform).mpr fun timestamp supplied h _ => ?_
  have hfields : headerFields sampleHeader (some 4300) = some (1700000000,
      "72d60e3c2ab752b968d31a79e53de5d105671d4180995b39eaca9508bececd25") := by decide +kernel
  obtain ⟨rfl, rfl⟩ := Prod.mk.inj (Option.some.inj (hfields.symm.trans h))
  exact ⟨by decide +kernel, fun hzero => by cases hzero⟩

/-- A signature with a letter outside ASCII, at the right time. -/
theorem verification_raises : ¬ Sound "whsec_test" (utf8 "body") "t=1700000000,v1=é" 300 1700000003
    (some 4300) (verifySignature "whsec_test" (utf8 "body") "t=1700000000,v1=é" 300 1700000003
      1700000003 (some 4300)) := by
  have hraises : verifySignature "whsec_test" (utf8 "body") "t=1700000000,v1=é" 300 1700000003
      1700000003 (some 4300) = .error "TypeError" := by decide +kernel
  rw [hraises]
  intro h
  obtain ⟨verified, hverified⟩ := h.returns
  cases hverified

end Sample

end TenantFlow
