import TenantFlow.Core.Request
import TenantFlow.Library.Isolation

/-!
# A sample platform

A platform for examples: the Unicode tables are cut down to ASCII, SHA-256 and HMAC give their
true digests on the texts listed, and an address is accepted in lower case.
-/

namespace TenantFlow

open JsonText Transactional

/-- True digests of the texts that examples hash. -/
def sampleDigests : List (String × String) :=
  [("\x7b\"name\":\"Acme\",\"slug\":\"acme\"\x7d",
    "b65dafa139025a4b7c496403d53fbbf86f84da615a6187f354de9948ee6da0c0"),
    ("\x7b\"cancel_url\":\"https://example.com/no\",\"plan\":\"pro\"," ++
      "\"success_url\":\"https://example.com/ok\"\x7d",
    "1edb268d37b6726b799aeaa835ce44f0aee0c69b00db7b5cecf97e4135fff38c"),
    ("\x7b\"a\":1,\"b\":2\x7d", "43258cff783fe7036d8a43033f830adfc60ec037382473548ac742b888292777"),
    ("\x7b\"plan\":\"pro\"\x7d", "029c40d2e5ce24535086fada67eb3ec85a1f8167d5a99eab7917ec0576126e99"),
    ("\x7b\"plan\":\"business\"\x7d",
    "a032206813303bee171b543e8530466f417854849658e9ae367d8fc7c1c8b016")]

def sampleSettings : Settings where
  stripeSecretKey := "sk_test"
  stripePricePro := "price_pro"
  stripePriceBusiness := "price_business"

/-- Texts without a listed digest are padded to the length of one. -/
def sampleSha256 (text : String) : String :=
  match sampleDigests.find? (·.1 = text) with
  | some d => d.2
  | none => String.ofList (text.toList ++ List.replicate (64 - text.toList.length) '0')

/-- True HMACs of the messages that examples sign, by key and message. -/
def sampleMacs : List ((String × String) × String) :=
  [(("whsec_test", "1700000000.\x7b\"event\":\"task.completed\"\x7d"),
    "72d60e3c2ab752b968d31a79e53de5d105671d4180995b39eaca9508bececd25"),
    (("whsec_token", "1700000000.\x7b\"data\":\x7b\"name\":\"Engine\"," ++
      "\"project_id\":\"00000000-0000-0000-0000-00000000044e\"\x7d," ++
      "\"id\":\"00000000-0000-0000-0000-000000000455\",\"type\":\"project.created\"\x7d"),
    "ce7dd192a3f80e6ad9408f1ad042322e9feb96b16d32390e773c66decfdd72fe")]

/-- A message without a listed digest is its own one, in an odd number of digits. -/
def sampleHmac (key : String) (message : List UInt8) : String :=
  match sampleMacs.find? fun m => m.1.1 = key ∧ utf8 m.1.2 = message with
  | some m => m.2
  | none => String.ofList ('0' :: message.flatMap fun b => hexDigits 2 b.toNat)

@[reducible] def samplePlatform : Platform where
  settings := sampleSettings
  lower s := String.ofList (s.toList.map Char.toLower)
  isalnumWide _ := false
  sha256 := sampleSha256
  verifyPassword _ hash := hash == "argon2"
  hmacSha256 := sampleHmac
  reprValue _ := ""
  validateEmail s := if '@' ∈ s.toList ∧ s.toList.all (fun c => !c.isUpper) then some s else none
  urlsplit _ := ⟨"https", some "example.com", none⟩
  ipIsGlobal _ := none
  jsonLoads _ := .error .value
  getReloads := false
  fromisoformat _ := none
  isoformat _ _ := ""

def sampleUser : User := ⟨⟨1⟩, "ada@example.com", "argon2", "Ada", true⟩

def sampleOrganization : Organization := ⟨⟨2⟩, "Analytical", "analytical", sampleUser.id, 0, 0⟩

def otherOrganization : Organization := ⟨⟨4⟩, "Difference", "difference", sampleUser.id, 0, 0⟩

/-- A database with one active user, who owns one organization. -/
def sampleDb : Db Row
  | .users => [sampleUser]
  | .organizations => [sampleOrganization]
  | .organizationMemberships => [⟨⟨3⟩, sampleOrganization.id, sampleUser.id, .owner, 0, 0⟩]
  | _ => []

/-- An endpoint of the organization, for every event. -/
def sampleEndpoint : WebhookEndpoint :=
  { id := ⟨4⟩, organizationId := sampleOrganization.id, url := "https://example.com/hook",
    signingSecretHash := "", signingSecretEncrypted := "whsec_token",
    events := ["member.invited", "project.created", "project.deleted", "project.updated",
      "task.completed", "task.created", "task.deleted", "task.updated"],
    isActive := true, createdBy := sampleUser.id, createdAt := 0, updatedAt := 0 }

/-- The sample database with an active webhook endpoint. -/
def hookedDb : Db Row
  | .webhookEndpoints => [sampleEndpoint]
  | t => sampleDb t

def sampleProject : Project :=
  { id := ⟨7⟩, organizationId := sampleOrganization.id, name := some "Engine", description := none,
    status := some .active, createdBy := sampleUser.id, createdAt := 0, updatedAt := 0 }

def sampleTask : Task :=
  { id := ⟨8⟩, organizationId := sampleOrganization.id, projectId := sampleProject.id,
    title := some "Mill", description := none, status := some .todo, priority := some .medium,
    assigneeId := none, createdBy := sampleUser.id, dueAt := none, createdAt := 0, updatedAt := 0 }

/-- The hooked database with a project and a task. -/
def taskedDb : Db Row
  | .projects => [sampleProject]
  | .tasks => [sampleTask]
  | t => hookedDb t

theorem unclashing_sampleDb : Unclashing sampleDb :=
  unclashing_of_length fun t => by cases t <;> decide

theorem unclashing_hookedDb : Unclashing hookedDb :=
  unclashing_of_length fun t => by cases t <;> decide

theorem unclashing_taskedDb : Unclashing taskedDb :=
  unclashing_of_length fun t => by cases t <;> decide

/-- Clock and random values count the statements of the run. -/
def sampleOracle : Oracle Answer := fun n c =>
  match c with
  | .now => (n : Int)
  | .uuid4 => ⟨BitVec.ofNat 128 (1000 + n)⟩
  | .tokenUrlsafe _ => "token"
  | .hashPassword _ => "argon2"
  | .createAccessToken userId => userId
  | .checkRateLimit _ _ _ => some ⟨true, 9, 0⟩
  | .fernetEncrypt s => s
  | .fernetDecrypt s => some s
  | .getaddrinfo _ _ => none
  | .checkoutSessionsCreate _ key => some ⟨"cs_" ++ key, some "https://checkout.stripe.com/c"⟩
  | .portalSessionsCreate _ _ => some ⟨"bps", some "https://billing.stripe.com/p"⟩
  | .presignPut key _ => some key
  | .presignGet key => some key
  | .sendInvitationTask _ _ => some ()
  | .deliverWebhookTask _ => some ()
  | .sendInvitationEmail _ _ _ => some ()

/-- External answers with random values of their own. -/
def otherOracle (offset : Nat) : Oracle Answer := fun n c => sampleOracle (n + offset) c

/-- A value of `token_urlsafe(32)`. -/
def sampleToken : String := "wKq3v0c5T8yXh2Zb7NfRd1LmJp9sGa6Ue4Oi_tQ-kYB"

/-- External answers with random values of their own and a token of full length. -/
def tokenOracle (offset : Nat) : Oracle Answer := fun n c =>
  match c with
  | .tokenUrlsafe _ => sampleToken
  | c => sampleOracle (n + offset) c

end TenantFlow
