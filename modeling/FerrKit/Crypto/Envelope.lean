/-
Wrapped data keys (`crates/crypto/src/lib.rs`): AES-GCM under a fresh nonce,
and the two backends that wrap a key with it or with Cloud KMS. What a
backend has wrapped is told from its first bytes: Cloud KMS ciphertexts are
given the prefix `gcp-kms:`, local ones start with the nonce as it came from
the random number generator, and a nonce may be those eight bytes.

AES-GCM and the KMS client are parameters. An error is its text. The cache in
front of KMS is in `KmsCache`, its health check in `HealthCheck`. Left out:
`generate_dek` and `parse_kek`, which make keys.
-/
import FerrKit.Lib.Wire

namespace FerrKit.Crypto

abbrev Bytes := List UInt8

def nonceSize : Nat := 12

/-- What `rng().fill_bytes` may leave in `nonce_bytes`. -/
abbrev Nonce := {n : Bytes // n.length = nonceSize}

/-- `Aes256Gcm`, of a key, a nonce and a text. -/
structure Aes256Gcm where
  encrypt : Bytes → Nonce → Bytes → Except String Bytes
  decrypt : Bytes → Nonce → Bytes → Except String Bytes

/-- Decryption inverts encryption under the same key and nonce. -/
def Aes256Gcm.Inverts (aes : Aes256Gcm) : Prop :=
  ∀ {key nonce plaintext ciphertext}, aes.encrypt key nonce plaintext = .ok ciphertext →
    aes.decrypt key nonce ciphertext = .ok plaintext

variable (aes : Aes256Gcm)

def encryptValue (nonce : Nonce) (plaintext dek : Bytes) : Except String Bytes :=
  if dek.length ≠ 32 then .error ("DEK must be 32 bytes, got " ++ toString dek.length)
  else
    match aes.encrypt dek nonce plaintext with
    | .error e => .error ("encryption failed: " ++ e)
    | .ok ciphertext => .ok (nonce.val ++ ciphertext)

def decryptValue (encrypted dek : Bytes) : Except String Bytes :=
  if h : encrypted.length < nonceSize then .error "ciphertext too short"
  else if dek.length ≠ 32 then .error ("DEK must be 32 bytes, got " ++ toString dek.length)
  else
    let nonce : Nonce := ⟨encrypted.take nonceSize, by rw [List.length_take]; omega⟩
    match aes.decrypt dek nonce (encrypted.drop nonceSize) with
    | .error e => .error ("decryption failed: " ++ e)
    | .ok plaintext => .ok plaintext

def gcpKmsPrefix : Bytes := Wire.bytes "gcp-kms:"

def isGcpKmsCiphertext (bytes : Bytes) : Bool := gcpKmsPrefix.isPrefixOf bytes

structure LocalKek where
  kek : Bytes

def LocalKek.wrapDek (self : LocalKek) (nonce : Nonce) (plaintextDek : Bytes) : Except String Bytes :=
  encryptValue aes nonce plaintextDek self.kek

def LocalKek.unwrapDek (self : LocalKek) (encryptedDek : Bytes) : Except String Bytes :=
  if isGcpKmsCiphertext encryptedDek then
    .error ("secret was wrapped by GCP Cloud KMS but the API is running with a local " ++
      "KEK — switch the backend or run the re-wrap migration")
  else decryptValue aes encryptedDek self.kek

/-- `GcpKmsKek::wrap_dek`, by what the client's `encrypt` answers. -/
def gcpWrapDek (answer : Except String String) : Except String Bytes :=
  match answer with
  | .error e => .error ("gcp kms encrypt: " ++ e)
  | .ok ct => .ok (gcpKmsPrefix ++ Wire.bytes ct)

/-! ## The round trip -/

variable {aes}

theorem decryptValue_append {nonce : Nonce} {ciphertext dek : Bytes} (hdek : dek.length = 32) :
    decryptValue aes (nonce.val ++ ciphertext) dek =
      (match aes.decrypt dek nonce ciphertext with
      | .error e => .error ("decryption failed: " ++ e)
      | .ok plaintext => .ok plaintext) := by
  obtain ⟨n, hn⟩ := nonce
  have hlong : ¬ (n ++ ciphertext).length < nonceSize := by rw [List.length_append]; omega
  simp only [decryptValue, dif_neg hlong, hdek, ne_eq, not_true_eq_false, if_false, List.take_left' hn,
    List.drop_left' hn]

/-- What was encrypted, and under which nonce. -/
theorem encryptValue_ok {nonce : Nonce} {plaintext dek encrypted : Bytes}
    (h : encryptValue aes nonce plaintext dek = .ok encrypted) :
    dek.length = 32 ∧ ∃ ciphertext, aes.encrypt dek nonce plaintext = .ok ciphertext ∧
      encrypted = nonce.val ++ ciphertext := by
  unfold encryptValue at h
  split at h
  · cases h
  · next hdek =>
    split at h
    · cases h
    · next ciphertext hct =>
      cases h
      exact ⟨Decidable.not_not.1 hdek, ciphertext, hct, rfl⟩

theorem decryptValue_encryptValue (haes : aes.Inverts) {nonce : Nonce} {plaintext dek encrypted : Bytes}
    (h : encryptValue aes nonce plaintext dek = .ok encrypted) : decryptValue aes encrypted dek = .ok plaintext := by
  obtain ⟨hdek, ciphertext, hct, rfl⟩ := encryptValue_ok h
  rw [decryptValue_append hdek, haes hct]

/-- The marker is within the nonce. -/
theorem isGcpKmsCiphertext_append (nonce : Nonce) (ciphertext : Bytes) :
    isGcpKmsCiphertext (nonce.val ++ ciphertext) = true ↔ gcpKmsPrefix <+: nonce.val := by
  rw [isGcpKmsCiphertext, List.isPrefixOf_iff_prefix]
  refine ⟨fun h => ?_, fun h => h.trans (List.prefix_append ..)⟩
  have hlen : gcpKmsPrefix.length ≤ nonce.val.length := by rw [nonce.property]; decide
  exact List.prefix_of_prefix_length_le h (List.prefix_append ..) hlen

/-- A wrapped key that is not marked is unwrapped, a marked one is refused. -/
theorem unwrapDek_wrapDek (haes : aes.Inverts) {kek : LocalKek} {nonce : Nonce} {dek wrapped : Bytes}
    (h : kek.wrapDek aes nonce dek = .ok wrapped) :
    kek.unwrapDek aes wrapped = .ok dek ↔ isGcpKmsCiphertext wrapped = false := by
  unfold LocalKek.unwrapDek
  cases hmarked : isGcpKmsCiphertext wrapped with
  | true => simp
  | false => simp [decryptValue_encryptValue haes h]

/-- **A locally wrapped key comes back unless its nonce starts with the
marker.** For every key encryption key, data key and nonce: `unwrap_dek` of
what `wrap_dek` returned is the data key exactly when the nonce does not start
with `gcp-kms:`, which is exactly when the stored bytes are not taken for a
Cloud KMS ciphertext; those of Cloud KMS always are. -/
theorem local_round_trip_iff (haes : aes.Inverts) {kek : LocalKek} {nonce : Nonce} {dek wrapped : Bytes}
    (h : kek.wrapDek aes nonce dek = .ok wrapped) :
    (kek.unwrapDek aes wrapped = .ok dek ↔ ¬ gcpKmsPrefix <+: nonce.val) ∧
      (isGcpKmsCiphertext wrapped = true ↔ gcpKmsPrefix <+: nonce.val) ∧
      ∀ answer stored, gcpWrapDek answer = .ok stored → isGcpKmsCiphertext stored = true := by
  have hmarked : isGcpKmsCiphertext wrapped = true ↔ gcpKmsPrefix <+: nonce.val := by
    obtain ⟨-, ciphertext, -, rfl⟩ := encryptValue_ok h
    exact isGcpKmsCiphertext_append nonce ciphertext
  refine ⟨?_, hmarked, fun answer stored hstored => ?_⟩
  · rw [unwrapDek_wrapDek haes h, ← hmarked, Bool.not_eq_true]
  · unfold gcpWrapDek at hstored
    split at hstored
    · cases hstored
    · cases hstored
      exact List.isPrefixOf_iff_prefix.2 (List.prefix_append ..)

/-! ## A nonce with the marker -/

/-- A cipher that leaves the text as it is. -/
def plain : Aes256Gcm where
  encrypt _ _ plaintext := .ok plaintext
  decrypt _ _ ciphertext := .ok ciphertext

theorem plain_inverts : plain.Inverts := by
  intro key nonce plaintext ciphertext h
  cases h
  rfl

theorem local_round_trip_zero_nonce :
    (LocalKek.mk (List.replicate 32 1)).unwrapDek plain (List.replicate 12 0 ++ List.replicate 32 7) =
      .ok (List.replicate 32 7) := by
  have hwrap : (LocalKek.mk (List.replicate 32 1)).wrapDek plain ⟨List.replicate 12 0, by decide⟩ (List.replicate 32 7) =
    .ok (List.replicate 12 0 ++ List.replicate 32 7) := by rfl
  exact (local_round_trip_iff plain_inverts hwrap).1.2 (by decide)

/-- The nonce is `gcp-kms:` and four zeros: the key is wrapped and cannot be
unwrapped. -/
theorem marked_nonce_not_unwrapped :
    ∃ (kek : LocalKek) (nonce : Nonce) (dek wrapped : Bytes), plain.Inverts ∧ kek.kek.length = 32 ∧
      nonce.val = gcpKmsPrefix ++ [0, 0, 0, 0] ∧ kek.wrapDek plain nonce dek = .ok wrapped ∧
      kek.unwrapDek plain wrapped = .error ("secret was wrapped by GCP Cloud KMS but the API is running with a local " ++
        "KEK — switch the backend or run the re-wrap migration") :=
  ⟨⟨List.replicate 32 1⟩, ⟨gcpKmsPrefix ++ [0, 0, 0, 0], by decide⟩, List.replicate 32 7, _, plain_inverts, rfl, rfl,
    rfl, rfl⟩

end FerrKit.Crypto
