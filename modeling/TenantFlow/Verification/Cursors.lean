import TenantFlow.Core.Pagination
import TenantFlow.Verification.Sample

/-!
# Cursors as clients see them

A cursor is JSON in base64 without its padding. What `encode_cursor` writes, `decode_cursor`
reads back; any other text is refused with a `ValueError`, but for an id of an unexpected type.
-/

namespace TenantFlow

open JsonText Transactional

/-! ## Text and bytes -/

theorem utf8_append (s s' : String) : utf8 (s ++ s') = utf8 s ++ utf8 s' := by
  rw [utf8, String.toList_append, List.flatMap_append, utf8, utf8]

theorem rdropWhile_map {α β : Type} (f : α → β) (p : β → Bool) (l : List α) :
    (l.map f).rdropWhile p = (l.rdropWhile (p ∘ f)).map f := by
  rw [List.rdropWhile, List.rdropWhile, ← List.map_reverse, List.dropWhile_map, List.map_reverse]

/-- A character of ASCII is one byte. -/
theorem utf8EncodeChar_ascii {b : UInt8} (h : b.toNat < 128) :
    String.utf8EncodeChar (Char.ofNat b.toNat) = [b] := by
  have hall : ∀ n : Fin 128, String.utf8EncodeChar (Char.ofNat n) = [UInt8.ofNat n] := by decide
  have hb := hall ⟨b.toNat, h⟩
  rwa [UInt8.ofNat_toNat] at hb

theorem utf8_ofList {bytes : List UInt8} (h : ∀ b ∈ bytes, b.toNat < 128) :
    utf8 (String.ofList (bytes.map fun b => Char.ofNat b.toNat)) = bytes := by
  rw [utf8, String.toList_ofList, List.flatMap_map]
  induction bytes with
  | nil => rfl
  | cons b bytes ih =>
    rw [List.flatMap_cons, utf8EncodeChar_ascii (h b List.mem_cons_self),
      ih fun c hc => h c (List.mem_cons_of_mem _ hc), List.singleton_append]

theorem ascii_symbols {payload : List UInt8} {b : UInt8} (h : b ∈ Base64.symbols payload) :
    b.toNat < 128 := by
  have hall : ∀ n : Fin 64, (Base64.urlsafe (Base64.symbol n)).toNat < 128 := by decide
  obtain ⟨n, hn, rfl⟩ := Base64.mem_symbols h
  exact hall ⟨n, hn⟩

/-- Letters and digits, `-` and `_`. -/
def urlsafeChar (c : Char) : Bool := c.isAlphanum || c = '-' || c = '_'

theorem ofNat_eq_pad (b : UInt8) : Char.ofNat b.toNat = '=' ↔ b = Base64.pad := by
  have hall : ∀ n : Fin 256, Char.ofNat n = '=' ↔ UInt8.ofNat n = Base64.pad := by decide +kernel
  have hb := hall ⟨b.toNat, b.toNat_lt⟩
  rwa [UInt8.ofNat_toNat] at hb

theorem toList_cursorText (payload : List UInt8) :
    (cursorText payload).toList = (Base64.symbols payload).map fun b => Char.ofNat b.toNat := by
  have hpad : ((fun c => decide (c = '=')) ∘ fun b : UInt8 => Char.ofNat b.toNat) =
      fun b => decide (b = Base64.pad) :=
    funext fun b => decide_eq_decide.mpr (ofNat_eq_pad b)
  rw [cursorText, String.toList_ofList, rdropWhile_map, hpad, Base64.rdropWhile_urlsafeEncode]

theorem urlsafeChar_cursorText {payload : List UInt8} {c : Char}
    (h : c ∈ (cursorText payload).toList) : urlsafeChar c = true := by
  have hall : ∀ n : Fin 64,
      urlsafeChar (Char.ofNat (Base64.urlsafe (Base64.symbol n)).toNat) = true := by decide
  rw [toList_cursorText] at h
  obtain ⟨b, hb, rfl⟩ := List.mem_map.mp h
  obtain ⟨n, hn, rfl⟩ := Base64.mem_symbols hb
  exact hall ⟨n, hn⟩

/-- The stripped padding is restored from the length. -/
theorem cursorBytes_cursorText (payload : List UInt8) :
    cursorBytes (cursorText payload) = some payload := by
  have hlength : (cursorText payload).length = (Base64.symbols payload).length := by
    rw [← String.length_toList, toList_cursorText, List.length_map]
  have hcount : ((-((Base64.symbols payload).length : Int)) % 4).toNat =
      (4 - (Base64.symbols payload).length % 4) % 4 := by omega
  have hpad : utf8 (String.ofList (List.replicate
      ((-((Base64.symbols payload).length : Int)) % 4).toNat '=')) =
        Base64.padding (Base64.symbols payload).length := by
    have hbytes : List.replicate ((4 - (Base64.symbols payload).length % 4) % 4) '=' =
        (Base64.padding (Base64.symbols payload).length).map fun b => Char.ofNat b.toNat := by
      rw [Base64.padding, List.map_replicate]
      rfl
    rw [hcount, hbytes]
    refine utf8_ofList fun b hb => ?_
    rw [List.eq_of_mem_replicate hb]
    decide
  have htext : utf8 (cursorText payload) = Base64.symbols payload := by
    rw [← String.ofList_toList (s := cursorText payload), toList_cursorText]
    exact utf8_ofList fun b hb => ascii_symbols hb
  rw [cursorBytes, hlength, utf8_append, hpad, htext, Base64.urlsafeDecode_symbols]

/-! ## The codec -/

section Codec

variable [Platform]

/-- What the codec takes from the standard library: JSON reads back what it wrote, and so does
`datetime` for a timestamp with a time zone. -/
structure CursorCodec : Prop where
  loads_dumps : ∀ key₁ text₁ key₂ text₂ : String, key₁ ≠ key₂ →
    Platform.jsonLoads (utf8 (String.ofList ('{' :: quote escapeCharAscii key₁ ++
      ':' :: quote escapeCharAscii text₁ ++ ',' :: quote escapeCharAscii key₂ ++
      ':' :: quote escapeCharAscii text₂ ++ ['}']))) =
    .ok (.obj [(key₁, .str text₁), (key₂, .str text₂)])
  fromisoformat_isoformat : ∀ t offset,
    Platform.fromisoformat (Platform.isoformat t offset) = some ⟨t, true⟩

theorem encodeCursor_eq (createdAt : Datetime) (offset : Int) (entityId : UUID) :
    encodeCursor createdAt offset entityId = cursorText (utf8 (String.ofList ('{' ::
      quote escapeCharAscii "created_at" ++ ':' :: quote escapeCharAscii
        (Platform.isoformat createdAt offset) ++ ',' :: quote escapeCharAscii "id" ++
      ':' :: quote escapeCharAscii entityId.str ++ ['}']))) := by
  have hkeys : quote escapeCharAscii "created_at" = "\"created_at\"".toList ∧
      quote escapeCharAscii "id" = "\"id\"".toList := by decide
  rw [hkeys.1, hkeys.2, encodeCursor]
  congr 3
  simp

theorem decodeCursor_encodeCursor (h : CursorCodec) (createdAt : Datetime) (offset : Int)
    (entityId : UUID) :
    decodeCursor (encodeCursor createdAt offset entityId) = .ok ⟨createdAt, entityId⟩ := by
  rw [encodeCursor_eq, decodeCursor, cursorBytes_cursorText]
  simp only [h.loads_dumps "created_at" _ "id" _ (by decide)]
  simp [lookup, h.fromisoformat_isoformat, UUID.ofString_str]

/-- A cursor is read back at every offset from UTC, and its text can stand in a URL. -/
theorem cursor_round_trip (h : CursorCodec) (createdAt : Datetime) (offset : Int)
    (entityId : UUID) :
    decodeCursor (encodeCursor createdAt offset entityId) = .ok ⟨createdAt, entityId⟩ ∧
      ∀ c ∈ (encodeCursor createdAt offset entityId).toList, urlsafeChar c = true :=
  ⟨decodeCursor_encodeCursor h createdAt offset entityId, fun _ => urlsafeChar_cursorText⟩

def Cursor.encode (c : Cursor) : String := encodeCursor c.createdAt 0 c.entityId

theorem cursorPosition_encode (h : CursorCodec) (p : Option Cursor) :
    cursorPosition (p.map Cursor.encode) = .ret p := by
  cases p with
  | none => rfl
  | some c =>
    have hne : c.encode ≠ "" := by
      intro hempty
      rw [Cursor.encode, encodeCursor_eq] at hempty
      have hbytes := cursorBytes_cursorText (utf8 (String.ofList ('{' ::
        quote escapeCharAscii "created_at" ++ ':' :: quote escapeCharAscii
          (Platform.isoformat c.createdAt 0) ++ ',' :: quote escapeCharAscii "id" ++
        ':' :: quote escapeCharAscii c.entityId.str ++ ['}'])))
      rw [hempty] at hbytes
      have htext := congrArg String.toList (utf8_injective (Option.some.inj hbytes : utf8 "" = _))
      simp at htext
    have hcursor : cursorPosition (some c.encode) =
        (Prog.ofExcept (decodeCursor c.encode)).bind fun position => .ret (some position) := by
      unfold cursorPosition
      split
      · rename_i heq
        cases heq
      · rename_i heq
        exact absurd (Option.some.inj heq) hne
      · rename_i heq
        rw [Option.some.inj heq]
    rw [Option.map_some, hcursor, Cursor.encode, decodeCursor_encodeCursor h]
    rfl

end Codec

/-! ## Any text -/

section Decoding

variable [Platform]

/-- The cursor was read from a timestamp with a time zone. -/
def ReadsAware (value : String) (c : Cursor) : Prop :=
  ∃ raw data text, cursorBytes value = some raw ∧ Platform.jsonLoads raw = .ok (.obj data) ∧
    lookup data "created_at" = some (.str text) ∧
    Platform.fromisoformat text = some ⟨c.createdAt, true⟩

/-- A cursor with a time zone, or a `ValueError`. -/
def Decodes (value : String) (result : Except Failure Cursor) : Prop :=
  (∃ c, result = .ok c ∧ ReadsAware value c) ∨ ∃ detail, result = .error (.http 422 detail)

/-- The text holds an object with a timestamp and an id that is neither null nor a text, or
values that are nested too deeply. -/
def Escapes (value : String) : Prop :=
  ∃ raw, cursorBytes value = some raw ∧ (Platform.jsonLoads raw = .error .recursion ∨
    ∃ data text createdAt x, Platform.jsonLoads raw = .ok (.obj data) ∧
      lookup data "created_at" = some (.str text) ∧
      Platform.fromisoformat text = some createdAt ∧
      lookup data "id" = some x ∧ x ≠ .null ∧ ∀ text, x ≠ .str text)

theorem decodes_iff_of_invalid {value : String} (h : decodeCursor value = .error invalidCursor)
    (hdecodes : ¬ Escapes value) : Decodes value (decodeCursor value) ↔ ¬ Escapes value :=
  iff_of_true (h ▸ .inr ⟨_, rfl⟩) hdecodes

theorem decodes_iff_of_unhandled {value exception : String}
    (h : decodeCursor value = .error (.unhandled exception)) (hescapes : Escapes value) :
    Decodes value (decodeCursor value) ↔ ¬ Escapes value := by
  refine iff_of_false ?_ (not_not.mpr hescapes)
  rw [h]
  rintro (⟨c, hc, _⟩ | ⟨detail, hdetail⟩)
  · cases hc
  · cases hdetail

/-- A text that holds an object. -/
theorem decodes_iff_of_object {value : String} {raw : List UInt8} {data : List (String × Json)}
    (hraw : cursorBytes value = some raw) (hloads : Platform.jsonLoads raw = .ok (.obj data)) :
    Decodes value (decodeCursor value) ↔ ¬ Escapes value := by
  have hescapes : Escapes value ↔ ∃ text createdAt x, lookup data "created_at" = some (.str text) ∧
      Platform.fromisoformat text = some createdAt ∧ lookup data "id" = some x ∧ x ≠ .null ∧
      ∀ text, x ≠ .str text := by
    simp [Escapes, hraw, hloads]
  cases hcreated : lookup data "created_at" with
  | none =>
    exact decodes_iff_of_invalid (by simp [decodeCursor, hraw, hloads, hcreated])
      (by simp [hescapes, hcreated])
  | some created =>
    cases created with
    | str text =>
      cases hiso : Platform.fromisoformat text with
      | none =>
        exact decodes_iff_of_invalid (by simp [decodeCursor, hraw, hloads, hcreated, hiso])
          (by simp [hescapes, hcreated, hiso])
      | some createdAt =>
        cases hid : lookup data "id" with
        | none =>
          exact decodes_iff_of_invalid (by simp [decodeCursor, hraw, hloads, hcreated, hiso, hid])
            (by simp [hescapes, hid])
        | some x =>
          cases x with
          | null =>
            exact decodes_iff_of_invalid (by simp [decodeCursor, hraw, hloads, hcreated, hiso, hid])
              (by simp [hescapes, hid])
          | str idText =>
            refine iff_of_true ?_ (by simp [hescapes, hid])
            cases hentity : UUID.ofString idText with
            | none => exact .inr ⟨_, by simp [decodeCursor, hraw, hloads, hcreated, hiso, hid, hentity]; rfl⟩
            | some entityId =>
              obtain ⟨micros, aware⟩ := createdAt
              cases aware with
              | true =>
                refine .inl ⟨⟨micros, entityId⟩, ?_, raw, data, text, hraw, hloads, hcreated, hiso⟩
                simp [decodeCursor, hraw, hloads, hcreated, hiso, hid, hentity]
              | false =>
                refine .inr ⟨"Pagination cursor timestamp must be timezone-aware", ?_⟩
                simp [decodeCursor, hraw, hloads, hcreated, hiso, hid, hentity]
          | _ =>
            exact decodes_iff_of_unhandled
              (by simp [decodeCursor, hraw, hloads, hcreated, hiso, hid]; rfl)
              (hescapes.mpr ⟨text, createdAt, _, hcreated, hiso, hid, by simp, by simp⟩)
    | _ =>
      exact decodes_iff_of_invalid (by simp [decodeCursor, hraw, hloads, hcreated])
        (by simp [hescapes, hcreated])

/-- Every other text is decoded or refused. -/
theorem decodeCursor_decodes_iff (value : String) :
    Decodes value (decodeCursor value) ↔ ¬ Escapes value := by
  cases hraw : cursorBytes value with
  | none => exact decodes_iff_of_invalid (by simp [decodeCursor, hraw]) (by simp [Escapes, hraw])
  | some raw =>
    cases hloads : Platform.jsonLoads raw with
    | error e =>
      cases e with
      | value =>
        exact decodes_iff_of_invalid (by simp [decodeCursor, hraw, hloads])
          (by simp [Escapes, hraw, hloads])
      | recursion =>
        exact decodes_iff_of_unhandled (by simp [decodeCursor, hraw, hloads]; rfl)
          ⟨raw, hraw, .inl hloads⟩
    | ok json =>
      cases json with
      | obj data => exact decodes_iff_of_object hraw hloads
      | _ =>
        exact decodes_iff_of_invalid (by simp [decodeCursor, hraw, hloads])
          (by simp [Escapes, hraw, hloads])

end Decoding

section Sample

/-- The text between braces of a payload with two text fields. -/
def payloadText (key₁ text₁ key₂ text₂ : String) : String :=
  String.ofList ('{' :: quote escapeCharAscii key₁ ++ ':' :: quote escapeCharAscii text₁ ++
    ',' :: quote escapeCharAscii key₂ ++ ':' :: quote escapeCharAscii text₂ ++ ['}'])

theorem payloadText_inj {a b c d a' b' c' d' : String}
    (h : payloadText a b c d = payloadText a' b' c' d') :
    a = a' ∧ b = b' ∧ c = c' ∧ d = d' := by
  have h := congrArg String.toList h
  simp only [payloadText, String.toList_ofList, List.cons_append, List.append_assoc,
    List.cons.injEq, true_and] at h
  obtain ⟨rfl, h₁⟩ := quote_append_inj escape_escapeCharAscii h
  obtain ⟨rfl, h₂⟩ := quote_append_inj escape_escapeCharAscii (List.cons.inj h₁).2
  obtain ⟨rfl, h₃⟩ := quote_append_inj escape_escapeCharAscii (List.cons.inj h₂).2
  obtain ⟨rfl, _⟩ := quote_append_inj escape_escapeCharAscii (List.cons.inj h₃).2
  exact ⟨rfl, rfl, rfl, rfl⟩

/-- Instants in unary. -/
def unary (t : Datetime) : List Char := List.replicate t.toNat '+' ++ List.replicate (-t).toNat '-'

theorem unary_count (t : Datetime) :
    (unary t).count '+' = t.toNat ∧ (unary t).count '-' = (-t).toNat ∧ (unary t).count 'T' = 0 := by
  simp [unary, List.count_append, List.count_replicate]

theorem int_eq_of_toNat {m n : Int} (h : m.toNat = n.toNat) (h' : (-m).toNat = (-n).toNat) :
    m = n := by
  omega

/-- True texts of some instants; others are written in unary. -/
def sampleInstants : List ((Datetime × Int) × String) :=
  [((0, 0), "1970-01-01T00:00:00+00:00"),
    ((1786928523456789, 0), "2026-08-17T01:02:03.456789+00:00"),
    ((1786928523000000, 330), "2026-08-17T06:32:03+05:30")]

def sampleIsoformat (t : Datetime) (offset : Int) : String :=
  match sampleInstants.find? (·.1 = (t, offset)) with
  | some e => e.2
  | none => String.ofList (unary t)

/-- The text tells the instant. -/
theorem sampleIsoformat_inj {t t' : Datetime} {offset offset' : Int}
    (h : sampleIsoformat t offset = sampleIsoformat t' offset') : t = t' := by
  have hlisted : ∀ e ∈ sampleInstants, ∀ e' ∈ sampleInstants, e.2 = e'.2 → e.1.1 = e'.1.1 := by
    decide +kernel
  have hmarked : ∀ e ∈ sampleInstants, 'T' ∈ e.2.toList := by decide +kernel
  have hunary : ∀ t, 'T' ∉ unary t := fun t => List.count_eq_zero.mp (unary_count t).2.2
  unfold sampleIsoformat at h
  split at h <;> split at h
  · rename_i e he _ e' he'
    have hsame := hlisted e (List.mem_of_find?_eq_some he) e' (List.mem_of_find?_eq_some he') h
    have he := List.find?_some he
    have he' := List.find?_some he'
    simp only [decide_eq_true_eq] at he he'
    rwa [he, he'] at hsame
  · rename_i e he _ _
    refine absurd (hmarked e (List.mem_of_find?_eq_some he)) ?_
    rw [h, String.toList_ofList]
    exact hunary t'
  · rename_i _ _ e' he'
    refine absurd (hmarked e' (List.mem_of_find?_eq_some he')) ?_
    rw [← h, String.toList_ofList]
    exact hunary t
  · have hlist : unary t = unary t' := by simpa using congrArg String.toList h
    have hplus : Int.toNat t = Int.toNat t' := by
      rw [← (unary_count t).1, hlist, (unary_count t').1]
    have hminus : Int.toNat (-t) = Int.toNat (-t') := by
      rw [← (unary_count t).2.1, hlist, (unary_count t').2.1]
    exact int_eq_of_toNat hplus hminus

open Classical in
/-- What was written as this. -/
noncomputable def readBack {α β : Type} (write : α → β) (written : β) : Option α :=
  if h : ∃ a, write a = written then some h.choose else none

theorem readBack_write {α β : Type} (write : α → β) (a : α) :
    ∃ a', readBack write (write a) = some a' ∧ write a' = write a := by
  have h : ∃ a', write a' = write a := ⟨a, rfl⟩
  exact ⟨h.choose, by rw [readBack, dif_pos h], h.choose_spec⟩

/-- A payload with two text fields. -/
def samplePayload (f : (String × String) × String × String) : List UInt8 :=
  utf8 (payloadText f.1.1 f.1.2 f.2.1 f.2.2)

theorem samplePayload_injective : Function.Injective samplePayload := by
  rintro ⟨⟨a, b⟩, c, d⟩ ⟨⟨a', b'⟩, c', d'⟩ h
  obtain ⟨rfl, rfl, rfl, rfl⟩ := payloadText_inj (utf8_injective h)
  rfl

/-- A timestamp, and a number for an id. -/
def numberedText : String :=
  "\x7b\"created_at\":\"2026-08-17T01:02:03.456789+00:00\",\"id\":5\x7d"

theorem numberedText_ne (f : (String × String) × String × String) :
    samplePayload f ≠ utf8 numberedText := by
  intro h
  have htext := congrArg (fun s => s.toList.reverse.drop 1 |>.head?) (utf8_injective h)
  simp [payloadText, quote, numberedText] at htext

/-- JSON for the numbered text and for payloads with two text fields. -/
noncomputable def sampleLoads (raw : List UInt8) : Except LoadsError Json :=
  if raw = utf8 numberedText then
    .ok (.obj [("created_at", .str "2026-08-17T01:02:03.456789+00:00"), ("id", .int 5)])
  else
    match readBack samplePayload raw with
    | some f => .ok (.obj [(f.1.1, .str f.1.2), (f.2.1, .str f.2.2)])
    | none => .error .value

/-- The sample platform with a codec that reads back what it wrote. -/
@[reducible] noncomputable def cursorPlatform : Platform :=
  { samplePlatform with
    jsonLoads := sampleLoads
    isoformat := sampleIsoformat
    fromisoformat := fun text =>
      (readBack (fun t : Datetime × Int => sampleIsoformat t.1 t.2) text).map fun t => ⟨t.1, true⟩ }

attribute [local instance] cursorPlatform

theorem fromisoformat_sample (t : Datetime) (offset : Int) :
    Platform.fromisoformat (sampleIsoformat t offset) = some ⟨t, true⟩ := by
  obtain ⟨t', hread, hsame⟩ :=
    readBack_write (fun t : Datetime × Int => sampleIsoformat t.1 t.2) (t, offset)
  change (readBack _ (sampleIsoformat t offset)).map _ = _
  rw [hread, Option.map_some, sampleIsoformat_inj hsame]

theorem cursorPlatform_codec : CursorCodec where
  loads_dumps key₁ text₁ key₂ text₂ _ := by
    obtain ⟨f, hread, hsame⟩ := readBack_write samplePayload ((key₁, text₁), key₂, text₂)
    obtain rfl := samplePayload_injective hsame
    change sampleLoads (samplePayload ((key₁, text₁), key₂, text₂)) = _
    rw [sampleLoads, if_neg (numberedText_ne _), hread]
  fromisoformat_isoformat := fromisoformat_sample

/-- The cursor of the test, and one in another time zone without microseconds. -/
theorem sample_cursor_round_trips :
    (decodeCursor (encodeCursor 1786928523456789 0 ⟨32⟩) = .ok ⟨1786928523456789, ⟨32⟩⟩ ∧
      ∀ c ∈ (encodeCursor 1786928523456789 0 ⟨32⟩).toList, urlsafeChar c = true) ∧
    decodeCursor (encodeCursor 1786928523000000 330 ⟨32⟩) = .ok ⟨1786928523000000, ⟨32⟩⟩ ∧
      ∀ c ∈ (encodeCursor 1786928523000000 330 ⟨32⟩).toList, urlsafeChar c = true :=
  ⟨cursor_round_trip cursorPlatform_codec _ _ _, cursor_round_trip cursorPlatform_codec _ _ _⟩

/-- A client's cursor with a number for an id. -/
theorem numbered_cursor_escapes :
    ¬ Decodes "eyJjcmVhdGVkX2F0IjoiMjAyNi0wOC0xN1QwMTowMjowMy40NTY3ODkrMDA6MDAiLCJpZCI6NX0"
      (decodeCursor "eyJjcmVhdGVkX2F0IjoiMjAyNi0wOC0xN1QwMTowMjowMy40NTY3ODkrMDA6MDAiLCJpZCI6NX0") := by
  have hbytes : cursorBytes
      "eyJjcmVhdGVkX2F0IjoiMjAyNi0wOC0xN1QwMTowMjowMy40NTY3ODkrMDA6MDAiLCJpZCI6NX0" =
        some (utf8 numberedText) := by decide +kernel
  have hiso : Platform.fromisoformat "2026-08-17T01:02:03.456789+00:00" =
      some ⟨1786928523456789, true⟩ := fromisoformat_sample 1786928523456789 0
  have hloads : Platform.jsonLoads (utf8 numberedText) =
      .ok (.obj [("created_at", .str "2026-08-17T01:02:03.456789+00:00"), ("id", .int 5)]) := by
    change sampleLoads _ = _
    rw [sampleLoads, if_pos rfl]
  have hresult : decodeCursor
      "eyJjcmVhdGVkX2F0IjoiMjAyNi0wOC0xN1QwMTowMjowMy40NTY3ODkrMDA6MDAiLCJpZCI6NX0" =
        .error (.unhandled "AttributeError") := by
    simp [decodeCursor, hbytes, hloads, hiso, lookup]
  rw [hresult]
  rintro (⟨c, hc, _⟩ | ⟨detail, hdetail⟩)
  · cases hc
  · cases hdetail

end Sample

end TenantFlow
