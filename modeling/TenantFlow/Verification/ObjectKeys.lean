import TenantFlow.Verification.RequestScopes
import TenantFlow.Verification.Sample

/-!
# Object keys stay inside their tenant

A key names its organization, a fresh id and a suffix of letters and digits; the rest of the
filename is not used. Every attachment lies under the prefix of its organization, and so does
every key that the two file routes have signed.
-/

namespace TenantFlow

open JsonText Transactional

section Keys

variable [Platform]

/-! ## Suffixes -/

/-- At least one and at most ten characters, all alphanumeric. -/
structure SafeSuffix (s : String) : Prop where
  nonempty : s ≠ ""
  length : s.length ≤ 10
  alnum : ∀ c ∈ s.toList, isalnumChar c = true

theorem safeSuffix_bin : SafeSuffix "bin" where
  nonempty := by decide
  length := by decide
  alnum c hc := by
    have hall : "bin".toList.all isalnumChar = true := rfl
    exact List.all_eq_true.mp hall c hc

theorem safeSuffix_checked (suffix : String) :
    SafeSuffix (if !isalnum suffix || suffix.length > 10 then "bin" else suffix) := by
  split
  · exact safeSuffix_bin
  · rename_i h
    simp only [isalnum, Bool.or_eq_true, Bool.not_eq_true', decide_eq_true_eq, not_or,
      Bool.not_eq_false, Bool.and_eq_true, List.all_eq_true, not_lt] at h
    obtain ⟨⟨hempty, hall⟩, hlength⟩ := h
    refine ⟨?_, hlength, hall⟩
    rintro rfl
    cases hempty

/-- Whatever the filename is, and whatever lower case makes of the end of it. -/
theorem safeSuffix_safe (filename : String) : SafeSuffix (safeSuffix filename) :=
  safeSuffix_checked _

theorem SafeSuffix.not_mem {s : String} (hs : SafeSuffix s) {c : Char}
    (hc : isalnumChar c = false) :
    c ∉ s.toList := by
  intro h
  rw [hs.alnum c h] at hc
  cases hc

/-! ## Keys -/

/-- The key lies under the prefix of the organization. -/
def Under (organizationId : UUID) (key : String) : Prop :=
  ("organizations/" ++ organizationId.str ++ "/").toList <+: key.toList

/-- What `build_object_key` may return for a filename: the prefix of the organization, a fresh
id and the suffix of the filename, in three segments that fit the column. -/
structure BuiltKey (organizationId : UUID) (filename key : String) : Prop where
  shape : ∃ id : UUID, key =
    "organizations/" ++ organizationId.str ++ "/" ++ id.str ++ "." ++ safeSuffix filename
  segments : ∃ last, key.toList.splitOn '/' =
    ["organizations".toList, organizationId.str.toList, last]
  suffix : SafeSuffix (safeSuffix filename)
  fits : varchar 512 key = true

omit [Platform] in
theorem toList_objectKey (organizationId id : UUID) (suffix : String) :
    (objectKey organizationId id suffix).toList =
      ("organizations/" ++ organizationId.str ++ "/").toList ++
        (id.str ++ "." ++ suffix).toList := by
  unfold objectKey
  simp only [String.toList_append, List.append_assoc]

omit [Platform] in
theorem under_objectKey (organizationId id : UUID) (suffix : String) :
    Under organizationId (objectKey organizationId id suffix) := by
  rw [Under, toList_objectKey]
  exact List.prefix_append _ _

/-- A character that is neither in a printed UUID nor in a suffix. -/
structure Separates (c : Char) : Prop where
  digits : ∀ k : Fin 16, c ≠ Nat.digitChar k
  dash : c ≠ '-'
  dot : c ≠ '.'
  alnum : isalnumChar c = false

theorem Separates.not_mem {c : Char} (h : Separates c) {id : UUID} {suffix : String}
    (hs : SafeSuffix suffix) : c ∉ (id.str ++ "." ++ suffix).toList := by
  simp only [String.toList_append, List.mem_append, not_or]
  refine ⟨⟨UUID.not_mem_str h.digits h.dash, ?_⟩, hs.not_mem h.alnum⟩
  exact fun hdot => h.dot (List.mem_singleton.mp hdot)

theorem separates_slash : Separates '/' := ⟨by decide, by decide, by decide, rfl⟩

theorem separates_zero : Separates (Char.ofNat 0) := ⟨by decide, by decide, by decide, rfl⟩

theorem splitOn_objectKey (organizationId id : UUID) {suffix : String} (hs : SafeSuffix suffix) :
    (objectKey organizationId id suffix).toList.splitOn '/' =
      ["organizations".toList, organizationId.str.toList, (id.str ++ "." ++ suffix).toList] := by
  have hkey : (objectKey organizationId id suffix).toList = ['/'].intercalate
      ["organizations".toList, organizationId.str.toList, (id.str ++ "." ++ suffix).toList] := by
    unfold objectKey
    simp [List.intercalate]
  rw [hkey]
  refine List.splitOn_intercalate '/' ?_ (List.cons_ne_nil _ _)
  rw [List.forall_mem_cons, List.forall_mem_cons, List.forall_mem_singleton]
  exact ⟨by decide, UUID.not_mem_str separates_slash.digits separates_slash.dash,
    separates_slash.not_mem hs⟩

omit [Platform] in
theorem length_objectKey (organizationId id : UUID) (suffix : String) :
    (objectKey organizationId id suffix).length = 88 + suffix.length := by
  have huuid : ∀ u : UUID, u.str.length = 36 := fun u => UUID.length_str u
  have htop : "organizations/".length = 14 := rfl
  have hslash : "/".length = 1 := rfl
  have hdot : ".".length = 1 := rfl
  unfold objectKey
  rw [String.length_append, String.length_append, String.length_append, String.length_append,
    String.length_append, huuid, huuid, htop, hslash, hdot]

theorem varchar_objectKey (organizationId id : UUID) {suffix : String} (hs : SafeSuffix suffix) :
    varchar 512 (objectKey organizationId id suffix) = true := by
  have hlength := length_objectKey organizationId id suffix
  have hsuffix := hs.length
  have hzero : Char.ofNat 0 ∉ (objectKey organizationId id suffix).toList := by
    rw [toList_objectKey, List.mem_append, not_or]
    refine ⟨?_, separates_zero.not_mem hs⟩
    simp only [String.toList_append, List.mem_append, not_or]
    exact ⟨⟨by decide, UUID.not_mem_str separates_zero.digits separates_zero.dash⟩, by decide⟩
  simp only [varchar, storable, Bool.and_eq_true, decide_eq_true_eq]
  exact ⟨by omega, hzero⟩

theorem builtKey_objectKey (organizationId id : UUID) (filename : String) :
    BuiltKey organizationId filename (objectKey organizationId id (safeSuffix filename)) where
  shape := ⟨id, rfl⟩
  segments := ⟨_, splitOn_objectKey organizationId id (safeSuffix_safe filename)⟩
  suffix := safeSuffix_safe filename
  fits := varchar_objectKey organizationId id (safeSuffix_safe filename)

/-- A key tells its organization. -/
theorem BuiltKey.organization_eq {organizationId organizationId' : UUID}
    {filename filename' key : String} (h : BuiltKey organizationId filename key)
    (h' : BuiltKey organizationId' filename' key) : organizationId = organizationId' := by
  obtain ⟨last, hsegments⟩ := h.segments
  obtain ⟨last', hsegments'⟩ := h'.segments
  rw [hsegments] at hsegments'
  simp only [List.cons.injEq, true_and] at hsegments'
  exact UUID.str_injective (String.toList_injective hsegments'.1)

theorem transaction_buildObjectKey (oracle : Oracle Answer) (organizationId : UUID)
    (filename : String) (db : Db Row) : ∃ key, BuiltKey organizationId filename key ∧
      transaction oracle (buildObjectKey organizationId filename) db = (.ok key, db) :=
  ⟨_, builtKey_objectKey organizationId _ filename, rfl⟩

/-! ## Attachments and signed URLs -/

/-- An attachment lies under the prefix of its organization. -/
def OwnKey : (t : Table) → Row t → Prop
  | .attachments, r => Under r.organizationId r.objectKey
  | _, _ => True

/-- The key that a call signs. -/
def Call.signedKey : Call → Option String
  | .presignPut key _ => some key
  | .presignGet key => some key
  | _ => none

/-- The statement signs keys of the organization only. -/
def SignsUnder (organizationId : UUID) : Stmt Row UUID Call → Prop
  | .call c => ∀ key ∈ c.signedKey, Under organizationId key
  | _ => True

/-- The two file routes sign keys of their organization. -/
def Request.Signs : Request → Stmt Row UUID Call → Prop
  | .organization organizationId _ (.createUpload _) => SignsUnder organizationId
  | .organization organizationId _ (.getDownload _) => SignsUnder organizationId
  | _ => fun _ => True

/-- From attachments with keys of their own, the part makes such attachments, and signs keys of
the organization. -/
abbrev Inside {α : Type} (organizationId : UUID) (χ : α → Prop) (p : App α) : Prop :=
  p.Every (FromGood OwnKey) (fun s => s.WritesGood OwnKey ∧ SignsUnder organizationId s)
    (fun _ => True) χ

/-- The scope of the parts that neither write nor sign. -/
def readingScope : Scope where
  calls c := c.signedKey = none

section Parts

variable {α : Type} {organizationId : UUID}

omit [Platform] in
theorem inside_of_confined {p : App α} (hp : Confined readingScope p) :
    Inside organizationId (fun _ => True) p := by
  refine (hp.mono (fun s hs => ?_) (fun _ h => h) fun _ h => h).restrict fun _ _ h => h.possible
  cases s with
  | insert t r => cases hs.1.1
  | insertOnConflictDoNothing t a r => cases hs.1.1
  | update t id f => cases hs.1
  | call c =>
    refine ⟨trivial, fun key hkey => ?_⟩
    have hnone : c.signedKey = none := by
      cases c <;> first | rfl | exact hs
    rw [hnone] at hkey
    cases hkey
  | _ => exact ⟨trivial, trivial⟩

theorem inside_createUpload (userId : UUID) (args : Option PresignUploadRequest) :
    Inside organizationId (fun _ => True) (createUpload organizationId userId args) := by
  refine Prog.every_bind (inside_of_confined (confined_requirePermission _ _ _))
    fun context _ => ?_
  refine Prog.every_bind (inside_of_confined (confined_validated _ _)) fun payload _ => ?_
  cases validateUpload payload.contentType payload.sizeBytes with
  | error e => trivial
  | ok u =>
    refine Prog.every_bind (inside_of_confined (confined_requireParent _ _ _)) fun _ _ => ?_
    refine Prog.every_bind (inside_of_confined (confined_requireParent _ _ _)) fun _ _ => ?_
    refine Prog.every_bind (χ := Under organizationId) ?_ fun key hkey => ?_
    · exact Prog.every_bind (inside_of_confined confined_uuid4) fun id _ => under_objectKey _ _ _
    refine Prog.every_bind (inside_of_confined confined_rowDefaults) fun d _ => ?_
    refine Prog.every_bind (χ := fun _ => True) ?_ fun _ _ => ?_
    · exact ⟨⟨hkey, trivial⟩, fun x _ => by cases x <;> trivial⟩
    refine Prog.every_bind (χ := fun _ => True) ?_ fun url _ => ?_
    · refine ⟨⟨trivial, fun key' hkey' => ?_⟩, fun _ _ => trivial⟩
      obtain rfl := Option.some.inj hkey'
      exact hkey
    exact Prog.every_bind (inside_of_confined (confined_orRaise _ _)) fun _ _ => trivial

omit [Platform] in
theorem inside_getDownload (userId : UUID) (args : Option UUID) :
    Inside organizationId (fun _ => True) (getDownload organizationId userId args) := by
  refine Prog.every_bind (inside_of_confined (confined_requirePermission _ _ _))
    fun context _ => ?_
  refine Prog.every_bind (inside_of_confined (confined_validated _ _)) fun attachmentId _ => ?_
  -- The attachment is one of the organization, in a database of attachments with keys of their own.
  refine Prog.every_bind (χ := fun found : Option Attachment =>
    ∀ attachment ∈ found, Under organizationId attachment.objectKey) ?_ fun found hfound => ?_
  · refine ⟨⟨trivial, trivial⟩, ?_⟩
    rintro _ ⟨_, db, hdb, rfl⟩ attachment hattachment
    have hmem := List.mem_of_find?_eq_some hattachment
    have horganization := List.find?_some hattachment
    simp only [decide_eq_true_eq] at horganization
    have hown : Under attachment.organizationId attachment.objectKey := hdb .attachments _ hmem
    rwa [horganization.2] at hown
  refine Prog.every_bind (χ := fun attachment : Attachment =>
    Under organizationId attachment.objectKey) ?_ fun attachment hkey => ?_
  · cases found with
    | none => trivial
    | some attachment => exact hfound attachment rfl
  refine Prog.every_bind (χ := fun _ => True) ?_ fun url _ => ?_
  · refine ⟨⟨trivial, fun key hsigned => ?_⟩, fun _ _ => trivial⟩
    obtain rfl := Option.some.inj hsigned
    exact hkey
  exact Prog.every_bind (inside_of_confined (confined_orRaise _ _)) fun _ _ => trivial

end Parts

/-- What a request writes and signs. -/
abbrev KeepsKeys (request : Request) : Prop :=
  request.handler.Every (FromGood OwnKey) (fun s => s.WritesGood OwnKey ∧ request.Signs s)
    (fun _ => True) (fun _ => True)

theorem keepsKeys_of_scope {request : Request} (hwrites : Table.attachments ∉ request.scope.writes)
    (hsigns : ∀ s, request.Signs s) : KeepsKeys request := by
  have hgood : ∀ t ∈ request.scope.writes, ∀ r : Row t, OwnKey t r := by
    intro t ht r
    cases t with
    | attachments => exact absurd ht hwrites
    | _ => trivial
  exact ((confined_request request).writesGood hgood).mono (fun s hs => ⟨hs, hsigns s⟩)
    (fun _ h => h) fun _ h => h

theorem keepsKeys_request (request : Request) : KeepsKeys request := by
  cases request with
  | organization organizationId userId request =>
    cases request with
    | createUpload args =>
      exact Prog.every_bind (inside_createUpload userId args) fun _ _ => trivial
    | getDownload args =>
      exact Prog.every_bind (inside_getDownload userId args) fun _ _ => trivial
    | _ =>
      exact keepsKeys_of_scope (by simp [Request.scope, OrganizationRequest.scope])
        fun _ => trivial
  | _ => exact keepsKeys_of_scope (by simp [Request.scope]) fun _ => trivial

/-- A built key has three segments and a short alphanumeric suffix, tells its organization, and
depends on the filename only by the suffix. In every run from attachments under their own
organizations they stay there, and the file routes sign keys of their organization only. -/
theorem object_keys_stay_inside {ι : Type} [DecidableEq ι] {requests : ι → Request} {db : Db Row}
    (hdb : ∀ a ∈ db .attachments, Under a.organizationId a.objectKey)
    {sys : Sys Row UUID Answer Failure Response ι}
    (hr : Reachable (fun i => (requests i).handler) db sys) :
    (∀ oracle organizationId filename before, ∃ key, BuiltKey organizationId filename key ∧
      transaction oracle (buildObjectKey organizationId filename) before = (.ok key, before)) ∧
    (∀ organizationId organizationId' filename filename' key,
      BuiltKey organizationId filename key → BuiltKey organizationId' filename' key →
        organizationId = organizationId') ∧
    (∀ organizationId filename filename', safeSuffix filename = safeSuffix filename' →
      buildObjectKey organizationId filename = buildObjectKey organizationId filename') ∧
    (∀ a ∈ sys.db .attachments, Under a.organizationId a.objectKey) ∧
    ∀ i organizationId userId request, requests i = .organization organizationId userId request →
      ((∃ args, request = .createUpload args) ∨ ∃ args, request = .getDownload args) →
        ∀ c x, (i, .called c x) ∈ sys.trace → ∀ key ∈ c.signedKey, Under organizationId key := by
  have hgood : AllGood OwnKey db := by
    intro t r hmem
    cases t with
    | attachments => exact hdb r hmem
    | _ => trivial
  have hrun : GoodRun OwnKey (fun i => (requests i).Signs) sys :=
    hr.goodRun hgood fun i => keepsKeys_request (requests i)
  refine ⟨fun oracle organizationId filename before =>
      transaction_buildObjectKey oracle organizationId filename before,
    fun _ _ _ _ _ h h' => h.organization_eq h', fun _ _ _ hsuffix => ?_, hrun.rows .attachments,
    fun i organizationId userId request hi hroute c x hcall => ?_⟩
  · rw [buildObjectKey, hsuffix, buildObjectKey]
  · have hsigns := hrun.calls i c x hcall
    rw [hi] at hsigns
    rcases hroute with ⟨args, rfl⟩ | ⟨args, rfl⟩
    · exact hsigns
    · exact hsigns

end Keys

section Sample

attribute [local instance] samplePlatform

/-- A file is uploaded, and fetched. -/
def fileRequests (fetches : Bool) : Request :=
  .organization sampleOrganization.id sampleUser.id
    (if fetches then .getDownload (some ⟨1004⟩)
    else .createUpload
      (some ⟨"../../invoice.PDF", "application/pdf", 1000, some sampleProject.id, none⟩))

def invoiceKey : String :=
  "organizations/00000000-0000-0000-0000-000000000002/00000000-0000-0000-0000-0000000003eb.pdf"

/-- The database after the upload. -/
def uploadedDb : Db Row :=
  ((fileRequests false).handler.run (execStmt sampleOracle) ⟨taskedDb, 0⟩).2.db

/-- The entry records that the key has been signed. -/
def signs (key : String) : Entry Row UUID Answer → Bool
  | .called c _ => c.signedKey = some key
  | .committed _ => false

theorem exists_signed {key : String} {entries : List (Entry Row UUID Answer)}
    (h : entries.any (signs key) = true) :
    ∃ c x, .called c x ∈ entries ∧ c.signedKey = some key := by
  obtain ⟨e, he, hsigns⟩ := List.any_eq_true.mp h
  cases e with
  | called c x => exact ⟨c, x, he, of_decide_eq_true hsigns⟩
  | committed ops => cases hsigns

theorem fileRequests_upload : Prog.endsWith (fun _ => true)
      ((fileRequests false).handler.run (execStmt sampleOracle) ⟨taskedDb, 0⟩) = true ∧
    (callsOf sampleOracle (fileRequests false).handler ⟨taskedDb, 0⟩).any (signs invoiceKey) =
      true := by
  decide +kernel

theorem fileRequests_download : Prog.endsWith (fun _ => true)
      ((fileRequests true).handler.run (execStmt sampleOracle) ⟨uploadedDb, 0⟩) = true ∧
    (callsOf sampleOracle (fileRequests true).handler ⟨uploadedDb, 0⟩).any (signs invoiceKey) =
      true := by
  decide +kernel

/-- In a run of the two both sign the key of the file, which lies under the organization. -/
theorem sample_object_keys : ∃ sys : Sys Row UUID Answer Failure Response Bool,
    Reachable (fun i => (fileRequests i).handler) taskedDb sys ∧
    (∀ i, ∃ c x, (i, .called c x) ∈ sys.trace ∧ c.signedKey = some invoiceKey) ∧
    Under sampleOrganization.id invoiceKey := by
  obtain ⟨_, st, hrun, _⟩ := Prog.exists_of_endsWith fileRequests_upload.1
  obtain ⟨_, _, hrun', _⟩ := Prog.exists_of_endsWith fileRequests_download.1
  have hdb : uploadedDb = st.db := by rw [uploadedDb, hrun]
  have hr₀ : Reachable (fun i => (fileRequests i).handler) taskedDb
    (Sys.init (fun i => (fileRequests i).handler) taskedDb) := .refl
  obtain ⟨sys₁, _, hr₁, hquiet₁, hsys₁, hproc₁, htrace₁⟩ :=
    hr₀.run_next (i := false) sampleOracle (quiet_init _ _) rfl hrun
  rw [hdb, ← hsys₁] at hrun'
  obtain ⟨sys₂, _, hr₂, _, _, _, htrace₂⟩ :=
    hr₁.run_next (i := true) sampleOracle hquiet₁ (by rw [hproc₁]; rfl) hrun'
  have hsigned : ∀ i, ∃ c x, (i, .called c x) ∈ sys₂.trace ∧ c.signedKey = some invoiceKey := by
    intro i
    rw [htrace₂, htrace₁]
    cases i with
    | false =>
      obtain ⟨c, x, hcall, hkey⟩ := exists_signed fileRequests_upload.2
      exact ⟨c, x, by simp [hcall, Sys.init], hkey⟩
    | true =>
      rw [hsys₁, ← hdb]
      obtain ⟨c, x, hcall, hkey⟩ := exists_signed fileRequests_download.2
      exact ⟨c, x, by simp [hcall], hkey⟩
  refine ⟨sys₂, hr₂, hsigned, ?_⟩
  obtain ⟨c, x, hcall, hkey⟩ := hsigned true
  exact (object_keys_stay_inside (by simp [taskedDb, hookedDb, sampleDb]) hr₂).2.2.2.2 true _ _ _ rfl
    (.inr ⟨_, rfl⟩) c x hcall invoiceKey hkey

end Sample

end TenantFlow
