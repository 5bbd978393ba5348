import TenantFlow.Infra.Idempotency
import TenantFlow.Library.CanonicalJson
import TenantFlow.Modules.Signing
import TenantFlow.Verification.Sample

/-!
# Canonical payloads

The text that a request hash is taken of and the bytes of a webhook body print the same values
alike, and no others. Both are printed with sorted keys, in the two escape modes.
-/

namespace TenantFlow

open JsonText

section Payloads

variable [Platform]

theorem canonicalJson_eq_iff {p q : Json} (hp : p.plain = true) (hq : q.plain = true) :
    canonicalJson p = canonicalJson q ↔ p.Same q := by
  rw [canonicalJson, canonicalJson, String.ofList_inj]
  exact dumps_eq_iff escape_escapeChar hp hq

theorem canonicalPayload_eq_iff {p q : Json} (hp : p.plain = true) (hq : q.plain = true) :
    canonicalPayload p = canonicalPayload q ↔ p.Same q := by
  rw [canonicalPayload, canonicalPayload, utf8_injective.eq_iff, String.ofList_inj]
  exact dumps_eq_iff escape_escapeCharAscii hp hq

/-- The encodings of two payloads are equal exactly if the payloads are the same up to the order
of keys at every level, and so are their hashes unless SHA-256 collides on the two. -/
theorem canonical_encodings_identify {p q : Json} (hp : p.plain = true) (hq : q.plain = true) :
    (utf8 (canonicalJson p) = utf8 (canonicalJson q) ↔ p.Same q) ∧
    (canonicalPayload p = canonicalPayload q ↔ p.Same q) ∧
    ((Platform.sha256 (canonicalJson p) = Platform.sha256 (canonicalJson q) →
        canonicalJson p = canonicalJson q) →
      (canonicalRequestHash p = canonicalRequestHash q ↔ p.Same q)) := by
  have htext := canonicalJson_eq_iff hp hq
  refine ⟨utf8_injective.eq_iff.trans htext, canonicalPayload_eq_iff hp hq, fun hfree => ?_⟩
  constructor
  · intro hhash
    exact htext.mp (hfree hhash)
  · intro hsame
    rw [canonicalRequestHash, canonicalRequestHash, htext.mpr hsame]

end Payloads

section Sample

attribute [local instance] samplePlatform

/-- The hash does not depend on the order of the keys, and changes with the plan. -/
theorem sample_request_hashes :
    canonicalRequestHash (.obj [("a", .int 1), ("b", .int 2)]) =
      canonicalRequestHash (.obj [("b", .int 2), ("a", .int 1)]) ∧
    canonicalRequestHash (.obj [("plan", .str "pro")]) ≠
      canonicalRequestHash (.obj [("plan", .str "business")]) := by
  constructor
  · refine ((canonical_encodings_identify (by decide) (by decide)).2.2 (by decide +kernel)).mpr ?_
    exact .obj (.refl _) (.swap _ _ _) rfl (.cons (.int 1) (.cons (.int 2) .nil))
  · intro hhash
    have hsame := ((canonical_encodings_identify (p := .obj [("plan", .str "pro")])
      (q := .obj [("plan", .str "business")]) (by decide) (by decide)).2.2 (by decide +kernel)).mp hhash
    have htext := (canonicalJson_eq_iff (by decide) (by decide)).mpr hsame
    revert htext
    decide +kernel

end Sample

end TenantFlow
