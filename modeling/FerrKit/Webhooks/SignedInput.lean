/-
What a timestamped signature binds. Both schemes sign the decimal timestamp,
a dot and the body. A decimal has no dot in it, so the first dot ends the
timestamp, whatever the body starts with, and the signed bytes say which
timestamp and which body they are for.
-/
import FerrKit.Billing.StripeSignature
import FerrKit.Webhooks.Signature

namespace FerrKit.Webhooks

open Wire

theorem timestampedInput_eq (t : Int) (b : List UInt8) : timestampedInput t b = bytes (toString t) ++ 0x2e :: b := by
  rw [timestampedInput, bytes_append, List.append_assoc]
  rfl

/-- The two crates sign the same bytes. -/
theorem signedInput_eq (t : Int) (b : List UInt8) : Billing.signedInput t b = timestampedInput t b := by
  rw [timestampedInput, bytes_append]
  simp [Billing.signedInput]

theorem timestampedInput_inj {t t' : Int} {b b' : List UInt8} (h : timestampedInput t b = timestampedInput t' b') :
    t = t' ∧ b = b' := by
  rw [timestampedInput_eq, timestampedInput_eq] at h
  obtain ⟨htext, hbody⟩ := append_cons_inj (dot_notMem_toString t) (dot_notMem_toString t') h
  exact ⟨toString_injective (bytes_injective htext), hbody⟩

/-! ## Signing -/

/-- The header that is sent carries the signature that was computed. -/
theorem signatureOf_signGithub (hmac : Hmac) (secret body : List UInt8) :
    signatureOf (signGithub hmac secret body) = some (hmac secret body) := by
  have hheader : Text.trimWhitespace (signGithub hmac secret body) = signGithub hmac secret body := by
    refine Text.trimWhitespace_eq_self fun c hc => ?_
    rw [signGithub, String.toList_append, List.mem_append] at hc
    obtain hc | hc := hc
    · have hlabel : ("sha256=".toList.all fun c => !Text.isWhitespace c) = true := by decide
      simpa using List.all_eq_true.1 hlabel c hc
    · exact not_isWhitespace_of_mem_hexEncode hc
  have hstrip : (signGithub hmac secret body).toList.dropPrefix? "sha256=".toList =
      some (hexEncode (hmac secret body)).toList := by
    rw [List.dropPrefix?_eq_some_iff]
    exact ⟨_, String.toList_append .., beq_self_eq_true _⟩
  rw [signatureOf, hheader, hstrip, Option.bind_some, String.ofList_toList,
    Text.trimWhitespace_eq_self fun _ => not_isWhitespace_of_mem_hexEncode, hexDecode_hexEncode]

/-- **A signature is for one timestamp and one body.** The signed bytes
determine both, in both schemes, which sign the same bytes. So with an
injective HMAC a header with the signature of `(t, b)`, such as the one
`sign_timestamped` makes, passes `verify_timestamped` only at the timestamp `t` and with the body `b`, and the
`v1` that `verify_signature` accepts is the signature of the timestamp it
returns and of the payload, and of nothing else. -/
theorem signature_binds_timestamp_and_body :
    (∀ t t' b b', timestampedInput t b = timestampedInput t' b' → t = t' ∧ b = b') ∧
      (∀ t t' b b', Billing.signedInput t b = Billing.signedInput t' b' → t = t' ∧ b = b') ∧
      (∀ t b, Billing.signedInput t b = timestampedInput t b) ∧
      (∀ hmac secret t b, signatureOf (signTimestamped hmac secret t b) = some (hmac secret (timestampedInput t b))) ∧
      ∀ (hmac : Hmac) (secret : List UInt8), Function.Injective (hmac secret) →
        (∀ t b body timestampHeader header now skew signature,
          signatureOf header = some (hmac secret (timestampedInput t b)) →
          verifyTimestamped hmac secret body timestampHeader header now skew = .ok signature →
            parseI64 (Text.trimWhitespace timestampHeader) = some t ∧ body = b) ∧
        ∀ payload header now tolerance ts,
          Billing.verifySignature hmac payload header secret now tolerance = .ok ts →
            ∃ parsed v1, Billing.parseSignatureHeader header = .ok parsed ∧ parsed.timestamp = ts ∧
              v1 ∈ parsed.v1Signatures ∧ v1 = Billing.expectedSignature hmac secret ts payload ∧
              ∀ t b, v1 = Billing.expectedSignature hmac secret t b → ts = t ∧ payload = b := by
  refine ⟨fun t t' b b' => timestampedInput_inj, fun t t' b b' h => ?_, signedInput_eq,
    fun hmac secret t b => signatureOf_signGithub hmac secret _, fun hmac secret hinj => ⟨?_, ?_⟩⟩
  · rw [signedInput_eq, signedInput_eq] at h
    exact timestampedInput_inj h
  · intro t b body timestampHeader header now skew signature hissued hok
    obtain ⟨timestamp, hts, -, hcarried⟩ := verifyTimestamped_ok hmac hok
    have hsame : hmac secret (timestampedInput timestamp body) = hmac secret (timestampedInput t b) := by
      rw [hcarried] at hissued
      exact Option.some.inj hissued
    obtain ⟨rfl, rfl⟩ := timestampedInput_inj (hinj hsame)
    exact ⟨hts, rfl⟩
  · intro payload header now tolerance ts hok
    obtain ⟨parsed, hparsed, hts, -, hmem⟩ := Billing.verifySignature_ok hmac hok
    refine ⟨parsed, _, hparsed, hts, hmem, rfl, fun t b hsame => ?_⟩
    have hinput : timestampedInput ts payload = timestampedInput t b := by
      rw [← signedInput_eq, ← signedInput_eq]
      exact hinj hsame
    exact timestampedInput_inj hinput

/-- An injective stand-in for HMAC. -/
def echo : Hmac := fun secret input => secret ++ input

theorem signature_binds_dotted_body :
    verifyTimestamped echo [1] (bytes "5.x") " 17" (signTimestamped echo [1] 17 (bytes "5.x")) 20 300 =
        .ok (echo [1] (timestampedInput 17 (bytes "5.x"))) ∧
      parseI64 (Text.trimWhitespace " 17") = some 17 := by
  have hok : verifyTimestamped echo [1] (bytes "5.x") " 17" (signTimestamped echo [1] 17 (bytes "5.x")) 20 300 =
    .ok (echo [1] (timestampedInput 17 (bytes "5.x"))) := by decide
  obtain ⟨-, -, -, hsigned, hbinds⟩ := signature_binds_timestamp_and_body
  have hinj : Function.Injective (echo [1]) := fun _ _ h => List.append_cancel_left h
  exact ⟨hok, ((hbinds echo [1] hinj).1 _ _ _ _ _ _ _ _ (hsigned echo [1] 17 (bytes "5.x")) hok).1⟩

end FerrKit.Webhooks
