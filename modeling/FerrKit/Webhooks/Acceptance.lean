/-
What `verify_timestamped` accepts. The signature header is read twice: by
`verify_github`, which trims what stands behind `sha256=`, and again for the
bytes to return, without that. The two readings agree on every header but
one with white space behind `sha256=`: its signature is found good, and then
the header is refused as malformed.
-/
import FerrKit.Webhooks.Signature

namespace FerrKit.Webhooks

open Wire

/-- The header has white space behind `sha256=`. -/
def Spaced (header : String) : Prop :=
  ∃ c rest, (Text.trimWhitespace header).toList.dropPrefix? "sha256=".toList = some (c :: rest) ∧
    Text.isWhitespace c = true

theorem not_isWhitespace_of_hexVal {c : Char} (h : (hexVal c).isSome) : Text.isWhitespace c = false := by
  have hbounds : (48 ≤ c.toNat ∧ c.toNat ≤ 57) ∨ (97 ≤ c.toNat ∧ c.toNat ≤ 102) ∨ (65 ≤ c.toNat ∧ c.toNat ≤ 70) := by
    unfold hexVal at h
    split at h
    · next hd => exact .inl hd
    · split at h
      · next hd => exact .inr (.inl hd)
      · split at h
        · next hd => exact .inr (.inr hd)
        · cases h
  simp [Text.isWhitespace]
  omega

/-- A second `sha256=` is not hexadecimal. -/
theorem dropPrefix?_of_hexDecodeChars {s : List Char} {bs : List UInt8} (h : hexDecodeChars s = some bs) :
    s.dropPrefix? "sha256=".toList = none := by
  cases hdrop : s.dropPrefix? "sha256=".toList with
  | none => rfl
  | some rest =>
    obtain ⟨p, rfl, hp⟩ := List.dropPrefix?_eq_some_iff.1 hdrop
    rw [eq_of_beq hp] at h
    exact absurd (hexVal_of_hexDecodeChars h) (by decide)

/-- What the second reading decodes. -/
theorem trimStartMatches_header {header : String} {hexPart : List Char}
    (hdrop : (Text.trimWhitespace header).toList.dropPrefix? "sha256=".toList = some hexPart)
    (hrest : hexPart.dropPrefix? "sha256=".toList = none) :
    hexDecode (Text.trimStartMatches "sha256=" (Text.trimWhitespace header)) = hexDecodeChars hexPart := by
  rw [Text.trimStartMatches_once hdrop (by decide) hrest, hexDecode, String.toList_ofList]

theorem second_reading_spaced {header : String} (h : Spaced header) :
    hexDecode (Text.trimStartMatches "sha256=" (Text.trimWhitespace header)) = none := by
  obtain ⟨c, rest, hdrop, hspace⟩ := h
  have hrest : (c :: rest).dropPrefix? "sha256=".toList = none := by
    cases hagain : (c :: rest).dropPrefix? "sha256=".toList with
    | none => rfl
    | some r =>
      obtain ⟨p, hp, hbeq⟩ := List.dropPrefix?_eq_some_iff.1 hagain
      rw [eq_of_beq hbeq] at hp
      obtain ⟨rfl, -⟩ := List.cons.inj hp
      exact absurd hspace (by decide)
  rw [trimStartMatches_header hdrop hrest]
  cases hdec : hexDecodeChars (c :: rest) with
  | none => rfl
  | some bs =>
    rw [not_isWhitespace_of_hexVal (hexVal_of_hexDecodeChars hdec)] at hspace
    cases hspace

theorem second_reading_plain {header : String} {signature : List UInt8} (h : signatureOf header = some signature)
    (hplain : ¬ Spaced header) :
    hexDecode (Text.trimStartMatches "sha256=" (Text.trimWhitespace header)) = some signature := by
  obtain ⟨hexPart, hdrop, hdec⟩ := Option.bind_eq_some_iff.1 h
  -- neither end of the part is white space, so trimming it changes nothing
  have hhead : ∀ c ∈ hexPart.head?, Text.isWhitespace c = false := by
    intro c hc
    obtain ⟨rest, rfl⟩ := List.head?_eq_some_iff.1 hc
    exact Bool.eq_false_iff.2 fun hspace => hplain ⟨c, rest, hdrop, hspace⟩
  have hlast : ∀ c ∈ hexPart.getLast?, Text.isWhitespace c = false := by
    intro c hc
    obtain ⟨p, hp, -⟩ := List.dropPrefix?_eq_some_iff.1 hdrop
    refine Text.getLast?_trimWhitespace header c ?_
    rw [hp, List.getLast?_append, Option.mem_def.1 hc]
    rfl
  have htrim : Text.trimWhitespace (String.ofList hexPart) = String.ofList hexPart :=
    Text.trimWhitespace_of_ends (by simpa using hhead) (by simpa using hlast)
  rw [htrim, hexDecode, String.toList_ofList] at hdec
  rw [trimStartMatches_header hdrop (dropPrefix?_of_hexDecodeChars hdec), hdec]

/-! ## Acceptance -/

/-- The timestamp is a number, near enough to `now`, and the signature is good
for it, a dot and the body. -/
structure Accepts (hmac : Hmac) (secret body : List UInt8) (timestampHeader header : String) (now skew : Int)
    (timestamp : Int) : Prop where
  parsed : parseI64 (Text.trimWhitespace timestampHeader) = some timestamp
  near : (now - timestamp).natAbs ≤ skew.natAbs
  signed : verifyGithub hmac secret (bytes (toString timestamp ++ ".") ++ body) header = .ok ()

variable {hmac : Hmac} {secret body : List UInt8} {timestampHeader header : String} {now skew timestamp : Int}

theorem verifyTimestamped_of_accepts (h : Accepts hmac secret body timestampHeader header now skew timestamp) :
    verifyTimestamped hmac secret body timestampHeader header now skew =
      (hexDecode (Text.trimStartMatches "sha256=" (Text.trimWhitespace header))).elim
        (.error (.signature .malformedHeader)) .ok := by
  unfold verifyTimestamped
  simp only [h.parsed, timestampedInput, h.signed, if_neg (Nat.not_lt.2 h.near)]
  cases hexDecode (Text.trimStartMatches "sha256=" (Text.trimWhitespace header)) <;> rfl

theorem accepts_of_ok {signature : List UInt8}
    (h : verifyTimestamped hmac secret body timestampHeader header now skew = .ok signature) :
    ∃ timestamp, Accepts hmac secret body timestampHeader header now skew timestamp := by
  obtain ⟨timestamp, hparsed, hnear, hsigned⟩ := verifyTimestamped_ok hmac h
  exact ⟨timestamp, hparsed, hnear, (verifyGithub_ok_iff hmac).2 hsigned⟩

/-- **A good signature is accepted, and returned, unless there is white space
behind `sha256=`.** For every secret, body, headers, time and skew:
`verify_timestamped` returns `Ok` exactly when it should, and then the 32
bytes of the HMAC, if and only if it is not given a good signature with such
white space. -/
theorem verifyTimestamped_accepts_iff (hmac : Hmac) (hlen : ∀ secret input, (hmac secret input).length = 32)
    (secret body : List UInt8) (timestampHeader header : String) (now skew : Int) :
    (((∃ signature, verifyTimestamped hmac secret body timestampHeader header now skew = .ok signature) ↔
          ∃ timestamp, Accepts hmac secret body timestampHeader header now skew timestamp) ∧
        ∀ signature, verifyTimestamped hmac secret body timestampHeader header now skew = .ok signature →
          ∃ timestamp, Accepts hmac secret body timestampHeader header now skew timestamp ∧
            signature = hmac secret (bytes (toString timestamp ++ ".") ++ body) ∧ signature.length = 32) ↔
      ¬ ((∃ timestamp, Accepts hmac secret body timestampHeader header now skew timestamp) ∧ Spaced header) := by
  constructor
  · rintro ⟨hiff, -⟩ ⟨haccepts, hspaced⟩
    obtain ⟨signature, hok⟩ := hiff.2 haccepts
    obtain ⟨timestamp, haccept⟩ := haccepts
    rw [verifyTimestamped_of_accepts haccept, second_reading_spaced hspaced] at hok
    cases hok
  · intro hnot
    have hread : ∀ timestamp, Accepts hmac secret body timestampHeader header now skew timestamp →
        verifyTimestamped hmac secret body timestampHeader header now skew =
          .ok (hmac secret (bytes (toString timestamp ++ ".") ++ body)) := by
      intro timestamp haccept
      have hplain : ¬ Spaced header := fun hspaced => hnot ⟨⟨timestamp, haccept⟩, hspaced⟩
      have hsigned := (verifyGithub_ok_iff hmac).1 haccept.signed
      rw [verifyTimestamped_of_accepts haccept, second_reading_plain hsigned hplain]
      rfl
    refine ⟨⟨fun ⟨_, hok⟩ => accepts_of_ok hok, fun ⟨timestamp, haccept⟩ => ⟨_, hread timestamp haccept⟩⟩, ?_⟩
    intro signature hok
    obtain ⟨timestamp, haccept⟩ := accepts_of_ok hok
    rw [hread timestamp haccept] at hok
    cases hok
    exact ⟨timestamp, haccept, rfl, hlen _ _⟩

/-! ## Headers of a signature -/

/-- The header of a signature, with a text behind `sha256=`. -/
def headerOf (space : String) (signature : List UInt8) : String := "sha256=" ++ space ++ hexEncode signature

theorem headerOf_part (space : String) {signature : List UInt8} (hne : hexEncode signature ≠ "") :
    (Text.trimWhitespace (headerOf space signature)).toList.dropPrefix? "sha256=".toList =
      some (space.toList ++ (hexEncode signature).toList) := by
  have hlist : (headerOf space signature).toList =
      "sha256=".toList ++ (space.toList ++ (hexEncode signature).toList) := by
    rw [headerOf, String.toList_append, String.toList_append, List.append_assoc]
  have hlast : ∀ c ∈ (headerOf space signature).toList.getLast?, Text.isWhitespace c = false := by
    intro c hc
    have hdigits : (hexEncode signature).toList ≠ [] := fun h => hne (String.toList_eq_nil_iff.1 h)
    rw [hlist, ← List.append_assoc, List.getLast?_append_of_ne_nil _ hdigits] at hc
    exact not_isWhitespace_of_mem_hexEncode (List.mem_of_mem_getLast? hc)
  have htrim : Text.trimWhitespace (headerOf space signature) = headerOf space signature := by
    refine Text.trimWhitespace_of_ends ?_ hlast
    rw [hlist]
    simp [Text.isWhitespace]
  rw [htrim, hlist]
  exact List.dropPrefix?_eq_some_iff.2 ⟨_, rfl, beq_self_eq_true _⟩

/-- `verify_github` trims the white space away. -/
theorem signatureOf_headerOf {space : String} {signature : List UInt8} (hne : hexEncode signature ≠ "")
    (hspace : ∀ c ∈ space.toList, Text.isWhitespace c = true) :
    signatureOf (headerOf space signature) = some signature := by
  have hself := Text.trimWhitespace_eq_self fun c (hc : c ∈ (hexEncode signature).toList) =>
    not_isWhitespace_of_mem_hexEncode hc
  rw [Text.trimWhitespace] at hself
  rw [signatureOf, headerOf_part space hne, Option.bind_some, Text.trimWhitespace, String.toList_ofList,
    List.dropWhile_append_of_pos hspace, hself, hexDecode_hexEncode]

/-- A stand-in for HMAC that shows what it is given: the first 32 bytes of it,
with zeros if there are fewer. -/
def padded : Hmac := fun secret input => (secret ++ input ++ List.replicate 32 0).take 32

theorem padded_length (secret input : List UInt8) : (padded secret input).length = 32 := by
  simp only [padded, List.length_take, List.length_append, List.length_replicate]
  omega

/-- Secret `k`, time 17 and body `ok`, with a text behind `sha256=`. -/
def okHeader (space : String) : String := headerOf space (padded (bytes "k") (bytes "17.ok"))

theorem okHeader_accepts {space : String} (hspace : ∀ c ∈ space.toList, Text.isWhitespace c = true) :
    Accepts padded (bytes "k") (bytes "ok") " 17 " (okHeader space) 16 1 17 where
  parsed := by decide
  near := by decide
  signed := (verifyGithub_ok_iff padded).2 (signatureOf_headerOf (by decide) hspace)

theorem verifyTimestamped_accepts_iff_ok :
    verifyTimestamped padded (bytes "k") (bytes "ok") " 17 " (okHeader "") 16 1 =
      .ok (padded (bytes "k") (bytes "17.ok")) := by
  have haccept : Accepts padded (bytes "k") (bytes "ok") " 17 " (okHeader "") 16 1 17 := okHeader_accepts (by simp)
  have hplain : ¬ Spaced (okHeader "") := by
    rintro ⟨c, rest, hdrop, hspace⟩
    rw [okHeader, headerOf_part "" (by decide), Option.some.injEq] at hdrop
    have hc : c ∈ (hexEncode (padded (bytes "k") (bytes "17.ok"))).toList := by
      rw [show (hexEncode _).toList = c :: rest from hdrop]
      exact List.mem_cons_self
    rw [not_isWhitespace_of_mem_hexEncode hc] at hspace
    cases hspace
  have h := (verifyTimestamped_accepts_iff padded padded_length (bytes "k") (bytes "ok") " 17 " (okHeader "") 16 1).2
    fun h => hplain h.2
  obtain ⟨signature, hok⟩ := h.1.2 ⟨17, haccept⟩
  obtain ⟨timestamp, haccept', rfl, -⟩ := h.2 signature hok
  obtain rfl : 17 = timestamp := Option.some.inj (haccept.parsed.symm.trans haccept'.parsed)
  exact hok

/-- A blank behind `sha256=`: `verify_github` accepts the header and
`verify_timestamped` calls it malformed. -/
theorem spaced_signature_refused :
    Accepts padded (bytes "k") (bytes "ok") " 17 " (okHeader " ") 16 1 17 ∧
      verifyTimestamped padded (bytes "k") (bytes "ok") " 17 " (okHeader " ") 16 1 =
        .error (.signature .malformedHeader) := by
  have haccept : Accepts padded (bytes "k") (bytes "ok") " 17 " (okHeader " ") 16 1 17 :=
    okHeader_accepts (by simp; decide)
  have hspaced : Spaced (okHeader " ") := ⟨' ', _, headerOf_part " " (by decide), by decide⟩
  refine ⟨haccept, ?_⟩
  rw [verifyTimestamped_of_accepts haccept, second_reading_spaced hspaced]
  rfl

end FerrKit.Webhooks
