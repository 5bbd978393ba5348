import TenantFlow.Verification.Footprint
import TenantFlow.Verification.Sample

/-!
# Idempotent endpoints execute once

Any number of requests to the three endpoints that take an `Idempotency-Key`, in any
interleaving. The records follow the claiming pattern: the scope text and the key determine
the slot of a request, an executing request inserts the record and completes it before it
commits, and everybody else answers from the committed record.
-/

namespace TenantFlow

open JsonText Transactional

section Endpoints

variable [Platform]

/-! ## Requests, slots and payloads -/

/-- What an idempotency key is unique for. -/
inductive Slot where
  | createOrganization (userId : UUID) (key : String)
  | createInvitation (organizationId userId : UUID) (key : String)
  | checkout (organizationId userId : UUID) (key : String)
  deriving DecidableEq

inductive Payload where
  | organization (p : OrganizationCreate)
  | invitation (p : InviteMemberRequest)
  | checkout (p : CheckoutRequest)
  deriving DecidableEq

inductive Reply where
  | organization (r : OrganizationResponse)
  | invitation (r : InvitationResponse)
  | checkout (r : CheckoutResponse)
  deriving DecidableEq

inductive IdempotentRequest where
  | createOrganization (userId : UUID) (args : Option (OrganizationCreate × String))
  | createInvitation (organizationId userId : UUID) (args : Option (InviteMemberRequest × String))
  | checkout (organizationId userId : UUID) (args : Option (CheckoutRequest × String))

def Slot.scopeKey : Slot → String × String
  | .createOrganization userId key => (organizationScope userId, key)
  | .createInvitation organizationId userId key => (invitationScope organizationId userId, key)
  | .checkout organizationId userId key => (checkoutScope organizationId userId, key)

def Payload.modelDump : Payload → Json
  | .organization p => p.modelDump
  | .invitation p => p.modelDump
  | .checkout p => p.modelDump

def Reply.modelDump : Reply → Json
  | .organization r => r.modelDump
  | .invitation r => r.modelDump
  | .checkout r => r.modelDump

namespace IdempotentRequest

/-- The slot of a request; none if its parameters do not parse. -/
def slot : IdempotentRequest → Option Slot
  | .createOrganization userId args => args.map fun a => .createOrganization userId a.2
  | .createInvitation organizationId userId args =>
    args.map fun a => .createInvitation organizationId userId a.2
  | .checkout organizationId userId args => args.map fun a => .checkout organizationId userId a.2

def payload : IdempotentRequest → Option Payload
  | .createOrganization _ args => args.map fun a => .organization a.1
  | .createInvitation _ _ args => args.map fun a => .invitation a.1
  | .checkout _ _ args => args.map fun a => .checkout a.1

def handler : IdempotentRequest → App (Outcome Reply)
  | .createOrganization userId args => do
    return (← create userId args).map .organization
  | .createInvitation organizationId userId args => do
    return (← TenantFlow.createInvitation organizationId userId args).map .invitation
  | .checkout organizationId userId args => do
    return (← TenantFlow.checkout organizationId userId args).map .checkout

/-- How a stored body is read by the endpoint of the request. -/
def modelValidate : IdempotentRequest → Json → Except Failure Reply
  | .createOrganization _ _, body => (OrganizationResponse.modelValidate body).map .organization
  | .createInvitation _ _ _, body => (InvitationResponse.modelValidate body).map .invitation
  | .checkout _ _ _, body => (CheckoutResponse.modelValidate body).map .checkout

def requestHash (request : IdempotentRequest) : Option String :=
  request.payload.map fun p => canonicalRequestHash p.modelDump

end IdempotentRequest

/-! ## Scope texts determine the slot -/

omit [Platform] in
theorem append_str_inj {p : String} {u v : UUID} (h : p ++ u.str = p ++ v.str) : u = v := by
  have hl := congrArg String.toList h
  simp only [String.toList_append] at hl
  exact UUID.str_injective (String.toList_injective (List.append_cancel_left hl))

omit [Platform] in
/-- Two UUIDs with a separator between them can be told apart. -/
theorem append_str_str_inj {p : String} {o o' u u' : UUID}
    (h : p ++ o.str ++ ":" ++ u.str = p ++ o'.str ++ ":" ++ u'.str) : o = o' ∧ u = u' := by
  have hl := congrArg String.toList h
  simp only [String.toList_append, List.append_assoc] at hl
  obtain ⟨ho, hrest⟩ := List.append_inj (List.append_cancel_left hl) (by simp)
  have ho := UUID.str_injective (String.toList_injective ho)
  exact ⟨ho, UUID.str_injective (String.toList_injective (List.append_cancel_left hrest))⟩

omit [Platform] in
/-- The first character of a scope text tells the endpoint. -/
theorem head_append {p r : String} {c : Char} (hp : p.toList.head? = some c) :
    (p ++ r).toList.head? = some c := by
  simp [List.head?_append, hp]

def Slot.initial : Slot → Char
  | .createOrganization _ _ => 'o'
  | .createInvitation _ _ _ => 'i'
  | .checkout _ _ _ => 'b'

omit [Platform] in
theorem Slot.scopeKey_head (a : Slot) : a.scopeKey.1.toList.head? = some a.initial := by
  have ho : "organization:create:".toList.head? = some 'o' := by decide
  have hi : "invitation:create:".toList.head? = some 'i' := by decide
  have hb : "billing:checkout:".toList.head? = some 'b' := by decide
  cases a with
  | createOrganization u k => exact head_append ho
  | createInvitation o u k => exact head_append (head_append (head_append hi))
  | checkout o u k => exact head_append (head_append (head_append hb))

omit [Platform] in
theorem Slot.scopeKey_injective : Function.Injective Slot.scopeKey := by
  intro a b h
  have hs : a.scopeKey.1 = b.scopeKey.1 := congrArg Prod.fst h
  have hk : a.scopeKey.2 = b.scopeKey.2 := congrArg Prod.snd h
  have hc : a.initial = b.initial := by
    have hhead := a.scopeKey_head
    rw [hs, b.scopeKey_head] at hhead
    exact (Option.some.inj hhead).symm
  cases a <;> cases b <;> simp only [initial, Char.reduceEq] at hc
  · obtain rfl := append_str_inj hs
    exact congrArg _ hk
  · obtain ⟨rfl, rfl⟩ := append_str_str_inj hs
    exact congrArg _ hk
  · obtain ⟨rfl, rfl⟩ := append_str_str_inj hs
    exact congrArg _ hk

/-! ## Canonical texts determine the payload -/

/-- The fields of a payload in the order in which the canonical text prints them. -/
def Payload.fields : Payload → List (String × String)
  | .organization p => [("name", p.name), ("slug", p.slug)]
  | .invitation p => [("email", p.email), ("role", p.role.str)]
  | .checkout p => [("cancel_url", p.cancelUrl), ("plan", p.plan.str), ("success_url", p.successUrl)]

theorem Payload.canonicalJson_eq (p : Payload) :
    canonicalJson p.modelDump =
      String.ofList ('{' :: fieldsText escapeChar p.fields ++ ['}']) := by
  unfold canonicalJson
  congr 1
  cases p with
  | organization p =>
    have h : ("name" : String) ≤ "slug" := by decide
    simp [modelDump, OrganizationCreate.modelDump, fields, dumps, dumpsFields, sortKeys,
      List.insertionSort, join, List.intercalate, h, fieldsText]
  | invitation p =>
    have h : ("email" : String) ≤ "role" := by decide
    simp [modelDump, InviteMemberRequest.modelDump, fields, dumps, dumpsFields, sortKeys,
      List.insertionSort, join, List.intercalate, h, fieldsText]
  | checkout p =>
    have h1 : ¬ ("success_url" : String) ≤ "cancel_url" := by decide
    have h2 : ¬ ("plan" : String) ≤ "cancel_url" := by decide
    have h3 : ("plan" : String) ≤ "success_url" := by decide
    simp [modelDump, CheckoutRequest.modelDump, fields, dumps, dumpsFields, sortKeys,
      List.insertionSort, List.orderedInsert, join, List.intercalate, h1, h2, h3, fieldsText]

omit [Platform] in
theorem Role.str_injective : Function.Injective Role.str := by
  intro a b h
  cases a <;> cases b <;> first | rfl | exact absurd h (by decide)

omit [Platform] in
theorem Plan.str_injective : Function.Injective Plan.str := by
  intro a b h
  cases a <;> cases b <;> first | rfl | exact absurd h (by decide)

def Payload.initial : Payload → Char
  | .organization _ => 'o'
  | .invitation _ => 'i'
  | .checkout _ => 'b'

omit [Platform] in
theorem Payload.eq_of_fields {p q : Payload} (hi : p.initial = q.initial)
    (h : p.fields = q.fields) : p = q := by
  cases p <;> cases q <;> simp only [initial, Char.reduceEq] at hi <;>
    simp only [fields, List.cons.injEq, Prod.mk.injEq, true_and, and_true] at h
  case organization.organization p q =>
    cases p
    cases q
    simp_all
  case invitation.invitation p q =>
    have hrole := Role.str_injective h.2
    cases p
    cases q
    simp_all
  case checkout.checkout p q =>
    have hplan := Plan.str_injective h.2.1
    cases p
    cases q
    simp_all

/-- Payloads of one endpoint with the same canonical text are the same. -/
theorem Payload.eq_of_canonicalJson {p q : Payload} (hi : p.initial = q.initial)
    (h : canonicalJson p.modelDump = canonicalJson q.modelDump) : p = q := by
  have hlen : p.fields.length = q.fields.length := by
    cases p <;> cases q <;> simp only [initial, Char.reduceEq] at hi <;> rfl
  rw [p.canonicalJson_eq, q.canonicalJson_eq] at h
  have hl := (List.cons.inj (String.ofList_injective h)).2
  exact eq_of_fields hi (fieldsText_append_inj escape_escapeChar hlen hl).1

omit [Platform] in
theorem IdempotentRequest.initial_eq {a : IdempotentRequest} {s : Slot} {p : Payload}
    (hs : a.slot = some s) (hp : a.payload = some p) : p.initial = s.initial := by
  cases a <;> simp only [slot, payload, Option.map_eq_some_iff] at hs hp <;>
    obtain ⟨x, _, rfl⟩ := hs <;> obtain ⟨y, _, rfl⟩ := hp <;> rfl

/-! ## Records as markers -/

/-- A completed record: both columns of the stored response are filled. -/
def IdempotencyRecord.Completed (r : IdempotencyRecord) : Prop :=
  r.status = .completed ∧ r.responseStatus.isSome ∧ r.responseBody.isSome

/-- Processes that claim idempotency records; `key` is the scope and key of a process. -/
abbrev recordClaim {ι ρ : Type} (key : ι → String × String)
    (produces replays : ι → IdempotencyRecord → ρ → Prop) (fails : ι → Failure → Prop)
    (passes : ι → ρ → Prop) : Claim Row Failure ρ ι where
  T := .idempotencyRecords
  K := String × String
  key r := (r.scope, r.key)
  procKey := key
  final := IdempotencyRecord.Completed
  produces := produces
  replays := replays
  fails := fails
  passes := passes

section Records

variable {ι ρ : Type} {keyOf : ι → String × String}
  {produces replays : ι → IdempotencyRecord → ρ → Prop} {fails : ι → Failure → Prop}
  {passes : ι → ρ → Prop} {i : ι}

omit [Platform] in
theorem recordClaim_lawful
    (h : ∀ i r r' a, produces i r a → ¬ replays i r' a ∧ ¬ passes i a) :
    (recordClaim keyOf produces replays fails passes).Lawful UUID where
  clash_iff r s := by
    change (decide (r.id = s.id) || decide (r.scope = s.scope ∧ r.key = s.key)) = true ↔
      r.id = s.id ∨ (r.scope, r.key) = (s.scope, s.key)
    simp
  exclusive := h

variable [DecidableEq ι]

abbrev FollowsClaim {α : Type} (C : Claim Row Failure ρ ι) [DecidableEq C.K] (i : ι)
    (post : ClaimPhase (Row C.T) → α → Prop) (φ : ClaimPhase (Row C.T)) (p : App α) : Prop :=
  (C.discipline : Discipline Row UUID Answer Failure ι _).Obeys i post φ p

omit [Platform] [DecidableEq ι] in
theorem FollowsClaim.of_leaves {α : Type} {χ : α → Prop} {p : App α}
    (hfails : ∀ e : Failure, e.Ordinary → fails i e) (h : Leaves .idempotencyRecords χ p)
    (φ : ClaimPhase IdempotencyRecord) :
    FollowsClaim (recordClaim keyOf produces replays fails passes) i (fun φ' a => φ' = φ ∧ χ a) φ
      p :=
  (recordClaim keyOf produces replays fails passes).obeys_of_every φ
    (h.mono (fun _ h => h) (fun e he => hfails e he.ordinary) fun _ h => h)

/-- What `acquire_idempotency` returns in the phase it reaches: a fresh record of its own, or
the completed record of the same payload. -/
def Acquired (requestHash : String) (φ : ClaimPhase IdempotencyRecord)
    (state : IdempotencyState) : Prop :=
  (∃ r, φ = .owner r ∧ state.record = r ∧ state.replayStatus = none ∧
    r.requestHash = requestHash) ∨
  (∃ r body, φ = .beaten r ∧ state.replayStatus.isSome ∧ state.replayBody = some body ∧
    r.responseBody = some body ∧ r.requestHash = requestHash)

omit [Platform] [DecidableEq ι] in
/-- An owner finds its own record by primary key. -/
theorem find_own {r : IdempotencyRecord} {view : Db Row}
    (h : (recordClaim keyOf produces replays fails passes).Sees (.owner r) view) :
    (view .idempotencyRecords).find? (·.id = r.id) = some r := by
  obtain ⟨l, hview, hfree⟩ := h
  have hnone : l.find? (·.id = r.id) = none := by
    rw [List.find?_eq_none]
    intro r' hr'
    have hclash := hfree r' hr'
    simp only [clash, Bool.or_eq_false_iff, decide_eq_false_iff_not] at hclash
    have hne : r.id ≠ r'.id := hclash.1
    simpa using hne.symm
  rw [hview, List.find?_append, hnone]
  simp

omit [Platform] [DecidableEq ι] in
/-- Whoever was beaten finds the record that beat it. -/
theorem find_beaten {r : IdempotencyRecord} {view : Db Row} {scope key : String}
    (h : (recordClaim keyOf produces replays fails passes).Sees (.beaten r) view)
    (hkey : (r.scope, r.key) = (scope, key)) :
    (view .idempotencyRecords).find? (fun r => r.scope = scope ∧ r.key = key) = some r := by
  obtain ⟨hmem, _, hunique⟩ := h
  obtain ⟨hs, hk⟩ := Prod.mk.inj hkey
  cases hfind : (view .idempotencyRecords).find? (fun r => r.scope = scope ∧ r.key = key) with
  | none =>
    rw [List.find?_eq_none] at hfind
    have := hfind r hmem
    simp [hs, hk] at this
  | some r' =>
    have hr' := List.find?_some hfind
    have hmem' := List.mem_of_find?_eq_some hfind
    rw [hunique r' hmem' (by simp_all)]

omit [Platform] [DecidableEq ι] in
theorem follows_acquireIdempotency {userId : UUID} {organizationId : Option UUID}
    {scope key requestHash : String} (hfails : ∀ e : Failure, e.Ordinary → fails i e)
    (hkey : keyOf i = (scope, key)) :
    FollowsClaim (recordClaim keyOf produces replays fails passes) i (Acquired requestHash) .idle
      (acquireIdempotency userId organizationId scope key requestHash) := by
  refine (FollowsClaim.of_leaves hfails (leaves_call _) .idle).bind fun φ at_ h => ?_
  obtain rfl := h.1
  refine (FollowsClaim.of_leaves hfails (leaves_call _) .idle).bind fun φ id h => ?_
  obtain rfl := h.1
  refine Claim.obeys_insert hkey.symm ?_ ?_ ?_
  · -- The record went in: it is read back and handed on.
    refine Claim.obeys_select fun view hsees => ?_
    rw [find_own hsees]
    exact .inl ⟨_, rfl, rfl, rfl, rfl⟩
  · intro r hr
    refine Claim.obeys_selectForUpdate fun view hsees => ?_
    rw [find_beaten hsees (hr.trans hkey)]
    obtain ⟨_, ⟨hstatus, hresponse, hbody⟩, _⟩ := hsees
    obtain ⟨status, hresponse⟩ := Option.isSome_iff_exists.mp hresponse
    obtain ⟨body, hbody⟩ := Option.isSome_iff_exists.mp hbody
    change FollowsClaim (recordClaim keyOf produces replays fails passes) i _ _
      (if r.requestHash ≠ requestHash then _ else _)
    split
    · exact hfails _ (by decide : (conflictError "IDEMPOTENCY_KEY_REUSED"
        "Idempotency-Key was already used with a different request payload").Ordinary)
    · rename_i hhash
      rw [hstatus, hresponse, hbody]
      exact .inr ⟨r, body, rfl, rfl, rfl, hbody, not_not.mp hhash⟩
  · exact fun e => hfails _ (foreign_ofDbError e).ordinary

/-- What an idempotent endpoint returns in the phase it reaches. -/
def Answered {ρ : Type} (requestHash : String) (modelValidate : Json → Except Failure ρ)
    (modelDump : ρ → Json) (good : ρ → Prop) (φ : ClaimPhase IdempotencyRecord) :
    Outcome ρ → Prop
  | .executed reply => ∃ r, φ = .owner r ∧ r.Completed ∧ good reply ∧
      r.responseBody = some (modelDump reply) ∧ r.requestHash = requestHash
  | .replayed reply => ∃ r body, φ = .beaten r ∧ r.responseBody = some body ∧
      modelValidate body = .ok reply ∧ r.requestHash = requestHash

omit [DecidableEq ι] in
theorem follows_idempotently {α : Type} {userId : UUID} {organizationId : Option UUID}
    {scope key missingBody : String} {payload : Json} {modelValidate : Json → Except Failure α}
    {modelDump : α → Json} {good : α → Prop} {execute : App α}
    (hfails : ∀ e : Failure, e.Ordinary → fails i e) (hkey : keyOf i = (scope, key))
    (hvalidate : ∀ body e, modelValidate body = .error e → e.Foreign)
    (hexecute : Leaves .idempotencyRecords good execute) :
    FollowsClaim (recordClaim keyOf produces replays fails passes) i
      (Answered (canonicalRequestHash payload) modelValidate modelDump good) .idle
      (idempotently userId organizationId scope key payload missingBody modelValidate modelDump
        execute) := by
  refine (follows_acquireIdempotency hfails hkey).bind fun φ state h => ?_
  rcases h with ⟨r, rfl, hrecord, hnone, hhash⟩ | ⟨r, body, rfl, hsome, hstate, hbody, hhash⟩
  · simp only [IdempotencyState.isReplay, hnone, Option.isSome_none, Bool.false_eq_true,
      ↓reduceIte]
    refine (FollowsClaim.of_leaves hfails hexecute (.owner r)).bind fun φ reply h => ?_
    obtain ⟨rfl, hgood⟩ := h
    rw [hrecord]
    refine Claim.obeys_revise rfl rfl ?_ ?_
    · exact ⟨_, rfl, ⟨rfl, rfl, rfl⟩, hgood, rfl, hhash⟩
    · exact fun e => hfails _ (foreign_ofDbError e).ordinary
  · simp only [IdempotencyState.isReplay, hsome, ↓reduceIte, hstate]
    refine (FollowsClaim.of_leaves hfails (leaves_ofExcept (hvalidate body)) (.beaten r)).bind
      fun φ reply h => ?_
    obtain ⟨rfl, hreply⟩ := h
    exact ⟨r, body, rfl, hbody, hreply, hhash⟩

end Records

/-! ## The claiming system -/

section Claim

variable {ι : Type} [DecidableEq ι] (requests : ι → IdempotentRequest)

abbrev idempotencyClaim : Claim Row Failure (Outcome Reply) ι :=
  recordClaim (fun i => ((requests i).slot.map Slot.scopeKey).getD ("", ""))
    (fun i r a => ∃ reply, a = .executed reply ∧ r.responseBody = some reply.modelDump ∧
      (requests i).modelValidate reply.modelDump = .ok reply ∧
      (requests i).requestHash = some r.requestHash)
    (fun i r a => ∃ reply body, a = .replayed reply ∧ r.responseBody = some body ∧
      (requests i).modelValidate body = .ok reply ∧ (requests i).requestHash = some r.requestHash)
    (fun _ e => e.Ordinary) (fun _ _ => False)

omit [DecidableEq ι] in
theorem idempotencyClaim_lawful : (idempotencyClaim requests).Lawful UUID := by
  refine recordClaim_lawful ?_
  rintro i r r' a ⟨reply, rfl, _⟩
  refine ⟨?_, id⟩
  rintro ⟨reply', _, ha, _⟩
  cases ha

variable {requests} {i : ι}

abbrev Follows {α : Type} (requests : ι → IdempotentRequest) (i : ι)
    (post : ClaimPhase IdempotencyRecord → α → Prop) (φ : ClaimPhase IdempotencyRecord)
    (p : App α) : Prop :=
  FollowsClaim (idempotencyClaim requests) i post φ p

omit [DecidableEq ι] in
theorem Follows.of_leaves {α : Type} {χ : α → Prop} {p : App α}
    (h : Leaves .idempotencyRecords χ p) (φ : ClaimPhase IdempotencyRecord) :
    Follows requests i (fun φ' a => φ' = φ ∧ χ a) φ p :=
  FollowsClaim.of_leaves (fun _ h => h) h φ

/-! ## The three endpoints -/

omit [Platform] in
theorem foreign_validationError : (Failure.unhandled "ValidationError").Foreign := by decide

theorem InvitationResponse.make_error {id : UUID} {email role status : String} {e : Failure}
    (h : InvitationResponse.make id email role status = .error e) : e.Foreign := by
  unfold InvitationResponse.make at h
  split at h
  · cases h
  · exact Except.error.inj h ▸ foreign_validationError

omit [Platform] in
theorem OrganizationResponse.modelValidate_error {body : Json} {e : Failure}
    (h : modelValidate body = .error e) : e.Foreign := by
  have he : e = .unhandled "ValidationError" := by
    unfold modelValidate at h
    split at h <;> (try split at h) <;> (try split at h) <;> simp_all
  exact he ▸ foreign_validationError

theorem InvitationResponse.modelValidate_error {body : Json} {e : Failure}
    (h : modelValidate body = .error e) : e.Foreign := by
  have he : e = .unhandled "ValidationError" := by
    unfold modelValidate make at h
    split at h <;> (try split at h) <;> (try split at h) <;> (try split at h) <;> simp_all
  exact he ▸ foreign_validationError

omit [Platform] in
theorem CheckoutResponse.modelValidate_error {body : Json} {e : Failure}
    (h : modelValidate body = .error e) : e.Foreign := by
  have he : e = .unhandled "ValidationError" := by
    unfold modelValidate at h
    split at h <;> (try split at h) <;> simp_all
  exact he ▸ foreign_validationError

omit [Platform] in
/-- A stored organization response is read back as it was. -/
theorem OrganizationResponse.modelValidate_modelDump (r : OrganizationResponse) :
    modelValidate r.modelDump = .ok r := by
  simp [modelValidate, modelDump, lookup, UUID.ofString_str]

omit [Platform] in
theorem CheckoutResponse.modelValidate_modelDump (r : CheckoutResponse) :
    modelValidate r.modelDump = .ok r := by
  simp [modelValidate, modelDump, lookup]

/-- Documented behaviour of `EmailStr`: a normalised address is normalised already. -/
def EmailStable : Prop :=
  ∀ email normalized, Platform.validateEmail email = some normalized →
    Platform.validateEmail normalized = some normalized

theorem InvitationResponse.modelValidate_modelDump {r : InvitationResponse}
    (h : Platform.validateEmail r.email = some r.email) : modelValidate r.modelDump = .ok r := by
  simp [modelValidate, modelDump, lookup, UUID.ofString_str, make, h]

omit [DecidableEq ι] in
/-- From what an endpoint returns to what its request may return. -/
theorem post_of_answered {ρ : Type} {requestHash : String}
    {modelValidate : Json → Except Failure ρ} {modelDump : ρ → Json} {good : ρ → Prop}
    {φ : ClaimPhase IdempotencyRecord} {out : Outcome ρ} (wrap : ρ → Reply)
    (h : Answered requestHash modelValidate modelDump good φ out)
    (hvalidate : ∀ body, (requests i).modelValidate body = (modelValidate body).map wrap)
    (hdump : ∀ r, (wrap r).modelDump = modelDump r)
    (hgood : ∀ r, good r → modelValidate (modelDump r) = .ok r)
    (hhash : (requests i).requestHash = some requestHash) :
    (idempotencyClaim requests).Post i φ (out.map wrap) := by
  cases out with
  | executed reply =>
    obtain ⟨r, rfl, hcompleted, hreply, hbody, hr⟩ := h
    refine ⟨hcompleted, wrap reply, rfl, ?_, ?_, hhash.trans (congrArg some hr.symm)⟩
    · rw [hdump, hbody]
    · rw [hvalidate, hdump, hgood reply hreply]
      rfl
  | replayed reply =>
    obtain ⟨r, body, rfl, hbody, hreply, hr⟩ := h
    refine ⟨wrap reply, body, rfl, hbody, ?_, hhash.trans (congrArg some hr.symm)⟩
    rw [hvalidate, hreply]
    rfl

theorem follows_checkout {ι ρ : Type} [DecidableEq ι] {keyOf : ι → String × String}
    {produces replays : ι → IdempotencyRecord → ρ → Prop} {fails : ι → Failure → Prop}
    {passes : ι → ρ → Prop} {i : ι} (hfails : ∀ e : Failure, e.Ordinary → fails i e)
    {organizationId userId : UUID} {args : Option (CheckoutRequest × String)}
    (hkey : ∀ payload key, args = some (payload, key) →
      keyOf i = (checkoutScope organizationId userId, key)) :
    FollowsClaim (recordClaim keyOf produces replays fails passes) i
      (fun φ out => ∃ payload key, args = some (payload, key) ∧
        Answered (canonicalRequestHash payload.modelDump) CheckoutResponse.modelValidate
          CheckoutResponse.modelDump (fun _ => True) φ out) .idle
      (checkout organizationId userId args) := by
  refine (FollowsClaim.of_leaves hfails (leaves_requirePermission _ organizationId userId)
    .idle).bind fun φ context h => ?_
  obtain ⟨rfl, huser⟩ := h
  refine (FollowsClaim.of_leaves hfails (leaves_validated args _) .idle).bind fun φ a h => ?_
  obtain ⟨rfl, hargs, _⟩ := h
  obtain ⟨payload, key⟩ := a
  refine (follows_idempotently hfails ?_ (fun _ _ => CheckoutResponse.modelValidate_error)
    ?_).mono fun φ out h => ⟨payload, key, hargs, h⟩
  · rw [hkey payload key hargs, huser]
  · exact Prog.every_bind (leaves_createBillingCheckout (by decide) _ _ _) fun _ _ => trivial

/-- The handler of every request follows the claiming discipline. -/
theorem follows_handler (hemail : EmailStable) (i : ι) :
    Follows requests i ((idempotencyClaim requests).Post i) .idle (requests i).handler := by
  cases hreq : requests i with
  | createOrganization userId args =>
    have hstart : Follows requests i (fun φ out => ∃ payload key, args = some (payload, key) ∧
        Answered (canonicalRequestHash payload.modelDump) OrganizationResponse.modelValidate
          OrganizationResponse.modelDump (fun _ => True) φ out) .idle (create userId args) := by
      refine (Follows.of_leaves (leaves_getCurrentUser userId) .idle).bind fun φ user h => ?_
      obtain ⟨rfl, huser⟩ := h
      refine (Follows.of_leaves (leaves_validated args _) .idle).bind fun φ a h => ?_
      obtain ⟨rfl, hargs, _⟩ := h
      obtain ⟨payload, key⟩ := a
      refine (follows_idempotently (fun _ h => h) ?_
        (fun _ _ => OrganizationResponse.modelValidate_error) ?_).mono fun φ out h => ⟨payload, key, hargs, h⟩
      · simp [hreq, IdempotentRequest.slot, hargs, Slot.scopeKey, huser]
      · exact Prog.every_bind (leaves_createOrganization (by decide) (by decide) (by decide) _ _)
          fun _ _ => trivial
    refine hstart.bind fun φ out h => ?_
    obtain ⟨payload, key, hargs, h⟩ := h
    change (idempotencyClaim requests).Post i φ _
    refine post_of_answered .organization h (fun body => by rw [hreq]; rfl)
      (fun _ => rfl) (fun r _ => r.modelValidate_modelDump) ?_
    simp [hreq, IdempotentRequest.requestHash, IdempotentRequest.payload, hargs,
      Payload.modelDump]
  | createInvitation organizationId userId args =>
    have hstart : Follows requests i (fun φ out => ∃ payload key, args = some (payload, key) ∧
        Answered (canonicalRequestHash payload.modelDump) InvitationResponse.modelValidate
          InvitationResponse.modelDump
          (fun r => Platform.validateEmail r.email = some r.email) φ out) .idle
          (createInvitation organizationId userId args) := by
      refine (Follows.of_leaves (leaves_requirePermission _ organizationId userId) .idle).bind
        fun φ context h => ?_
      obtain ⟨rfl, huser⟩ := h
      refine (Follows.of_leaves (leaves_validated args _) .idle).bind fun φ a h => ?_
      obtain ⟨rfl, hargs, _⟩ := h
      obtain ⟨payload, key⟩ := a
      refine (follows_idempotently (fun _ h => h) ?_
        (fun _ _ => InvitationResponse.modelValidate_error) ?_).mono fun φ out h => ⟨payload, key, hargs, h⟩
      · simp [hreq, IdempotentRequest.slot, hargs, Slot.scopeKey, huser]
      · refine Prog.every_bind (leaves_inviteMember (by decide) (by decide) _ _ _)
          fun invitation _ => ?_
        refine (leaves_ofExcept ?_).mono (fun _ h => h) (fun _ h => h) ?_
        · exact fun e he => InvitationResponse.make_error he
        · intro r hr
          unfold InvitationResponse.make at hr
          split at hr
          · rename_i email hvalid
            obtain rfl := Except.ok.inj hr
            exact hemail _ _ hvalid
          · cases hr
    refine hstart.bind fun φ out h => ?_
    obtain ⟨payload, key, hargs, h⟩ := h
    change (idempotencyClaim requests).Post i φ _
    refine post_of_answered .invitation h (fun body => by rw [hreq]; rfl)
      (fun _ => rfl) (fun r hr => InvitationResponse.modelValidate_modelDump hr) ?_
    simp [hreq, IdempotentRequest.requestHash, IdempotentRequest.payload, hargs,
      Payload.modelDump]
  | checkout organizationId userId args =>
    have hstart : Follows requests i (fun φ out => ∃ payload key, args = some (payload, key) ∧
        Answered (canonicalRequestHash payload.modelDump) CheckoutResponse.modelValidate
          CheckoutResponse.modelDump (fun _ => True) φ out) .idle
          (checkout organizationId userId args) := by
      refine follows_checkout (fun _ h => h) fun payload key hargs => ?_
      simp [hreq, IdempotentRequest.slot, hargs, Slot.scopeKey]
    refine hstart.bind fun φ out h => ?_
    obtain ⟨payload, key, hargs, h⟩ := h
    change (idempotencyClaim requests).Post i φ _
    refine post_of_answered .checkout h (fun body => by rw [hreq]; rfl)
      (fun _ => rfl) (fun r _ => r.modelValidate_modelDump) ?_
    simp [hreq, IdempotentRequest.requestHash, IdempotentRequest.payload, hargs,
      Payload.modelDump]

/-! ## Exactly once -/

/-- SHA-256 does not collide on the payloads of these requests. -/
def NoCollisions (requests : ι → IdempotentRequest) : Prop :=
  ∀ i j p q, (requests i).payload = some p → (requests j).payload = some q →
    canonicalRequestHash p.modelDump = canonicalRequestHash q.modelDump →
    canonicalJson p.modelDump = canonicalJson q.modelDump

/-- What holds of the requests in a reached state. A request has been answered with 2xx if
its transaction has committed; the database is what the commits in the trace have made. -/
structure ExactlyOnce (requests : ι → IdempotentRequest)
    (sys : Sys Row UUID Answer Failure (Outcome Reply) ι) : Prop where
  /-- At most one request of a slot executes its operation and commits. -/
  executes_once : ∀ i j a b, i ≠ j → (requests i).slot = (requests j).slot →
    sys.proc i = .committed (.executed a) → sys.proc j ≠ .committed (.executed b)
  /-- Every response carries the body of the committed execution of its slot. -/
  replies_agree : ∀ i a, sys.proc i = .committed a →
    ∃ j, (requests j).slot = (requests i).slot ∧ sys.proc j = .committed (.executed a.response)
  /-- A request with another payload is refused and commits nothing. -/
  mismatch_refused : ∀ i j a, (requests i).slot = (requests j).slot →
    (requests i).payload ≠ (requests j).payload → sys.proc i = .committed a →
    (∀ b, sys.proc j ≠ .committed b) ∧ ∀ ops, (j, .committed ops) ∉ sys.trace
  /-- A slot without a committed request has no record, and its key can be claimed. -/
  free_unless_committed : ∀ slot, (∀ i a, (requests i).slot = some slot →
      sys.proc i ≠ .committed a) →
    (∀ r ∈ sys.db .idempotencyRecords, (r.scope, r.key) ≠ slot.scopeKey) ∧
    ∀ (r : IdempotencyRecord) (ext : (c : Call) → Answer c), (r.scope, r.key) = slot.scopeKey →
      ((Stmt.insertOnConflictDoNothing .idempotencyRecords sameScopeKey r :
        Stmt Row UUID Call).eval ext sys.db).1 ≠ .ok false
  /-- Every committed record is completed and has its response. -/
  completed : ∀ r ∈ sys.db .idempotencyRecords, r.Completed
  /-- The branches for unfinished and broken records are never taken. -/
  no_faults : ∀ i e, sys.proc i = .failed (some e) → e.Ordinary

/-- A committed request has parameters that parsed: its key is that of its slot. -/
theorem slot_of_hash {r : IdempotentRequest} {h : String} (hr : r.requestHash = some h) :
    ∃ slot p, r.slot = some slot ∧ r.payload = some p ∧
      canonicalRequestHash p.modelDump = h := by
  obtain ⟨p, hp, hh⟩ := Option.map_eq_some_iff.mp hr
  cases r <;> simp only [IdempotentRequest.payload, Option.map_eq_some_iff] at hp <;>
    obtain ⟨a, rfl, rfl⟩ := hp <;> exact ⟨_, _, rfl, rfl, hh⟩

/-- Requests of one slot read a stored body alike. -/
theorem modelValidate_congr {a b : IdempotentRequest} {slot : Slot} (ha : a.slot = some slot)
    (hb : b.slot = some slot) (body : Json) : a.modelValidate body = b.modelValidate body := by
  cases a <;> cases b <;> simp only [IdempotentRequest.slot, Option.map_eq_some_iff] at ha hb <;>
    obtain ⟨x, _, rfl⟩ := ha <;> obtain ⟨y, _, hy⟩ := hb <;> first | rfl | cases hy

omit [DecidableEq ι] in
/-- Every committed request answers from the one record of its slot, with its own payload. -/
theorem record_of_committed {ph : ι → ClaimPhase IdempotencyRecord}
    {sys : Sys Row UUID Answer Failure (Outcome Reply) ι}
    (hinv : (idempotencyClaim requests).Inv ph sys) {i : ι} {a : Outcome Reply}
    (hi : sys.proc i = .committed a) :
    ∃ r ∈ sys.db .idempotencyRecords, ∃ slot p, (requests i).slot = some slot ∧
      (requests i).payload = some p ∧ (r.scope, r.key) = slot.scopeKey ∧
      canonicalRequestHash p.modelDump = r.requestHash ∧
      ∃ body, r.responseBody = some body ∧ (requests i).modelValidate body = .ok a.response := by
  obtain ⟨r, hmem, hkey, hres⟩ := hinv.results i a hi id
  rcases hres with ⟨reply, rfl, hbody, hvalid, hhash⟩ | ⟨reply, body, rfl, hbody, hvalid, hhash⟩ <;>
    obtain ⟨slot, p, hslot, hp, hh⟩ := slot_of_hash hhash <;>
    refine ⟨r, hmem, slot, p, hslot, hp, ?_, hh, _, hbody, hvalid⟩ <;>
    simpa [hslot] using hkey

omit [DecidableEq ι] in
/-- Every record was left by a request of its slot that executed and committed. -/
theorem executed_of_record {ph : ι → ClaimPhase IdempotencyRecord}
    {sys : Sys Row UUID Answer Failure (Outcome Reply) ι}
    (hinv : (idempotencyClaim requests).Inv ph sys) {r : IdempotencyRecord}
    (hr : r ∈ sys.db .idempotencyRecords) :
    ∃ j reply slot, sys.proc j = .committed (.executed reply) ∧ (requests j).slot = some slot ∧
      (r.scope, r.key) = slot.scopeKey ∧ r.responseBody = some reply.modelDump ∧
      (requests j).modelValidate reply.modelDump = .ok reply := by
  obtain ⟨_, j, b, hj, hkey, reply, rfl, hbody, hvalid, hhash⟩ := hinv.rows r hr
  obtain ⟨slot, p, hslot, _, _⟩ := slot_of_hash hhash
  exact ⟨j, reply, slot, hj, hslot, by simpa [hslot] using hkey, hbody, hvalid⟩

theorem idempotent_endpoints_exactly_once (hemail : EmailStable) (hsha : NoCollisions requests)
    {db : Db Row} (hempty : db .idempotencyRecords = [])
    {sys : Sys Row UUID Answer Failure (Outcome Reply) ι}
    (hr : Reachable (fun i => (requests i).handler) db sys) : ExactlyOnce requests sys := by
  obtain ⟨ph, hinv, htracks⟩ :=
    (idempotencyClaim_lawful requests).reachable hempty (follows_handler hemail) hr
  have hunique : ∀ r ∈ sys.db .idempotencyRecords, ∀ r' ∈ sys.db .idempotencyRecords,
      ∀ slot : Slot, (r.scope, r.key) = slot.scopeKey → (r'.scope, r'.key) = slot.scopeKey →
      r = r' := fun r h r' h' slot hk hk' => hinv.unique r h r' h' (hk.trans hk'.symm)
  constructor
  · intro i j a b hij hslot hi hj
    obtain ⟨r, _, _, hri | ⟨_, _, hri, _⟩⟩ := hinv.results i _ hi id
    · obtain ⟨r', _, _, hrj | ⟨_, _, hrj, _⟩⟩ := hinv.results j _ hj id
      · exact hinv.once i j _ _ r r' hij hi hj hri hrj (by simp only [hslot])
      · cases hrj
    · cases hri
  · intro i a hi
    obtain ⟨r, hmem, slot, p, hslot, _, hkey, _, body, hbody, hvalid⟩ :=
      record_of_committed hinv hi
    obtain ⟨j, reply, slot', hj, hslot', hkey', hbody', hvalid'⟩ := executed_of_record hinv hmem
    obtain rfl : slot = slot' := Slot.scopeKey_injective (hkey.symm.trans hkey')
    obtain rfl : body = reply.modelDump := Option.some.inj (hbody.symm.trans hbody')
    rw [modelValidate_congr hslot hslot', hvalid'] at hvalid
    exact ⟨j, hslot'.trans hslot.symm, by rw [hj, Except.ok.inj hvalid]⟩
  · intro i j a hslot hpayload hi
    have hj : ∀ b, sys.proc j ≠ .committed b := by
      intro b hj
      obtain ⟨r, hmem, slot, p, hs, hp, hkey, hhash, _⟩ := record_of_committed hinv hi
      obtain ⟨r', hmem', slot', q, hs', hq, hkey', hhash', _⟩ := record_of_committed hinv hj
      obtain rfl : slot = slot' := Option.some.inj (hs.symm.trans (hslot.trans hs'))
      obtain rfl := hunique r hmem r' hmem' slot hkey hkey'
      have htext := hsha i j p q hp hq (hhash.trans hhash'.symm)
      have hinitial := (IdempotentRequest.initial_eq hs hp).trans
        (IdempotentRequest.initial_eq hs' hq).symm
      rw [hp, hq, Payload.eq_of_canonicalJson hinitial htext] at hpayload
      exact hpayload rfl
    refine ⟨hj, fun ops hops => ?_⟩
    obtain ⟨b, hb⟩ := (ReachableVia.committed_iff hr j).mp ⟨ops, hops⟩
    exact hj b hb
  · intro slot hnone
    have hfree : ∀ r ∈ sys.db .idempotencyRecords, (r.scope, r.key) ≠ slot.scopeKey := by
      intro r hmem hkey
      obtain ⟨j, reply, slot', hj, hslot', hkey', _⟩ := executed_of_record hinv hmem
      obtain rfl : slot = slot' := Slot.scopeKey_injective (hkey.symm.trans hkey')
      exact hnone j _ hslot' hj
    refine ⟨hfree, fun r ext hkey => ?_⟩
    have hany : (sys.db .idempotencyRecords).any (sameScopeKey r) = false := by
      rw [List.any_eq_false]
      intro r' hr' hsame
      exact hfree r' hr' ((of_decide_eq_true hsame).symm.trans hkey)
    simp only [Stmt.eval, hany, Bool.false_eq_true, ↓reduceIte]
    cases insertable (t := .idempotencyRecords) sys.db r with
    | ok u => exact fun h => Bool.noConfusion (Except.ok.inj h)
    | error e =>
      intro h
      cases h
  · exact fun r hr => (hinv.rows r hr).1
  · intro i e hi
    have ht := htracks i
    rw [hi] at ht
    obtain ⟨_, he⟩ := ht
    exact he

end Claim

end Endpoints

section Sample

attribute [local instance] samplePlatform

/-- Two requests with one key and one payload. -/
def sampleRequests (_ : Bool) : IdempotentRequest :=
  .createOrganization sampleUser.id (some (⟨"Acme", "acme"⟩, "key-1234"))

/-- What the first request leaves. -/
def sampleExecuted : Except Failure (Outcome Reply) × Session Row :=
  (sampleRequests true).handler.run (execStmt sampleOracle) ⟨sampleDb, 0⟩

theorem sampleRequests_outcomes : Prog.endsWith Outcome.isExecuted sampleExecuted = true ∧
    Prog.endsWith (fun outcome => !outcome.isExecuted) ((sampleRequests false).handler.run
      (execStmt (otherOracle 100)) ⟨sampleExecuted.2.db, 0⟩) = true := by
  decide +kernel

/-- One of two equal requests has committed before the other starts, which replays its reply. -/
theorem exactly_once_for_sample_requests :
    ∃ sys, Reachable (fun i => (sampleRequests i).handler) sampleDb sys ∧
      (∃ reply, sys.proc true = .committed (.executed reply) ∧
        sys.proc false = .committed (.replayed reply)) ∧
      ExactlyOnce sampleRequests sys := by
  obtain ⟨hfirst, hsecond⟩ := sampleRequests_outcomes
  obtain ⟨outcome, st, hrun, hexecuted⟩ := Prog.exists_of_endsWith hfirst
  rw [hrun] at hsecond
  obtain ⟨outcome', st', hrun', hreplayed⟩ := Prog.exists_of_endsWith hsecond
  obtain ⟨reply, rfl⟩ : ∃ reply, outcome = .executed reply := by
    cases outcome with
    | executed reply => exact ⟨reply, rfl⟩
    | replayed reply => cases hexecuted
  obtain ⟨reply', rfl⟩ : ∃ reply', outcome' = .replayed reply' := by
    cases outcome' with
    | executed reply' => cases hreplayed
    | replayed reply' => exact ⟨reply', rfl⟩
  obtain ⟨sys, _, hr, hquiet, hdb, hproc, _⟩ := Reachable.run_next (i := true) sampleOracle
    (.refl : Reachable (fun i => (sampleRequests i).handler) sampleDb _) (quiet_init _ _) rfl hrun
  obtain ⟨sys', _, hr', _, _, hproc', _⟩ := hr.run_next (i := false) (otherOracle 100) hquiet
    (by rw [hproc]; rfl) (by rw [hdb]; exact hrun')
  have htrue : sys'.proc true = .committed (.executed reply) := by
    rw [hproc', Function.update_of_ne (by decide), hproc, Function.update_self]
  have hfalse : sys'.proc false = .committed (.replayed reply') := by
    rw [hproc', Function.update_self]
  have honce : ExactlyOnce sampleRequests sys' := by
    refine idempotent_endpoints_exactly_once ?_ ?_ rfl hr'
    · intro email normalized h
      simp only [Platform.validateEmail] at h ⊢
      split at h
      · rename_i hok
        obtain rfl := Option.some.inj h
        rw [if_pos hok]
      · cases h
    · intro i j p q hp hq _
      obtain rfl : p = q := Option.some.inj (hp.symm.trans hq)
      rfl
  obtain ⟨j, _, hj⟩ := honce.replies_agree false _ hfalse
  obtain rfl : reply = reply' := by
    cases j with
    | true => exact Outcome.executed.inj (Proc.committed.inj (htrue.symm.trans hj))
    | false => exact nomatch Proc.committed.inj (hfalse.symm.trans hj)
  exact ⟨sys', hr', ⟨reply, htrue, hfalse⟩, honce⟩

end Sample

end TenantFlow
