/-
The metrics endpoint (`crates/telemetry/src/metrics.rs`): its bearer token
and the comparison written for it. `ct_eq` gathers the differences of all
bytes in one and looks at that at the end (`accumulate_eq_zero_iff`);
`scraped_iff` says what a scraper has to send. Left out: what is gathered.
-/
import FerrKit.Lib.Text
import FerrKit.Lib.Wire

namespace FerrKit.Telemetry

/-! ## The comparison -/

/-- The loop of `ct_eq`. -/
def accumulate (a b : List UInt8) : UInt8 := (a.zip b).foldl (fun diff p => diff ||| (p.1 ^^^ p.2)) 0

def ctEq (a b : List UInt8) : Bool := if a.length ≠ b.length then false else accumulate a b == 0

variable {a b : List UInt8}

/-- A turn of the loop keeps what was gathered before. -/
theorem foldl_diff_eq_zero {pairs : List (UInt8 × UInt8)} {diff : UInt8} :
    pairs.foldl (fun diff p => diff ||| (p.1 ^^^ p.2)) diff = 0 ↔ diff = 0 ∧ ∀ p ∈ pairs, p.1 = p.2 := by
  induction pairs generalizing diff with
  | nil => simp
  | cons p pairs ih =>
    rw [List.foldl_cons, ih, UInt8.or_eq_zero_iff, UInt8.xor_eq_zero_iff, List.forall_mem_cons, and_assoc]

theorem accumulate_eq_zero_iff : accumulate a b = 0 ↔ ∀ p ∈ a.zip b, p.1 = p.2 := by
  rw [accumulate, foldl_diff_eq_zero]
  simp

/-- Nothing is lost by the `zip` of two texts of one length. -/
theorem zip_lossless (h : a.length = b.length) : (a.zip b).map Prod.fst = a ∧ (a.zip b).map Prod.snd = b :=
  ⟨List.map_fst_zip h.le, List.map_snd_zip h.ge⟩

theorem eq_of_zip (hlen : a.length = b.length) (h : ∀ p ∈ a.zip b, p.1 = p.2) : a = b := by
  obtain ⟨hfst, hsnd⟩ := zip_lossless hlen
  calc a = (a.zip b).map Prod.fst := hfst.symm
    _ = (a.zip b).map Prod.snd := List.map_congr_left h
    _ = b := hsnd

theorem ctEq_true_iff : ctEq a b = true ↔ a = b := by
  unfold ctEq
  split
  · next hlen => exact iff_of_false (by simp) fun h => hlen (congrArg List.length h)
  · next hlen =>
    rw [not_not] at hlen
    rw [beq_iff_eq, accumulate_eq_zero_iff]
    refine ⟨eq_of_zip hlen, ?_⟩
    rintro rfl p hp
    rw [List.zip_eq_zipWith, List.zipWith_self, List.mem_map] at hp
    obtain ⟨x, -, rfl⟩ := hp
    rfl

/-- **The comparison is equality**, of texts of any lengths: what the loop
gathers is zero exactly when each two bytes agree, and of texts of one length
no byte is left out. -/
theorem ct_eq_exact (a b : List UInt8) :
    (ctEq a b = true ↔ a = b) ∧ (accumulate a b = 0 ↔ ∀ p ∈ a.zip b, p.1 = p.2) ∧
      (a.length = b.length → (a.zip b).map Prod.fst = a ∧ (a.zip b).map Prod.snd = b) :=
  ⟨ctEq_true_iff, accumulate_eq_zero_iff, zip_lossless⟩

/-! ## The endpoint -/

def isVisibleAscii (b : UInt8) : Bool := (32 ≤ b && b < 127) || b == 9

/-- `HeaderValue::to_str`. -/
def headerToStr (value : List UInt8) : Option String :=
  if value.all isVisibleAscii then some (String.ofList (value.map Char.ofUInt8)) else none

def authorized (authorization : Option (List UInt8)) (expected : String) : Bool :=
  ((authorization.bind headerToStr).bind fun s => s.toList.dropPrefix? "Bearer ".toList).any fun got =>
    ctEq (Wire.bytes (String.ofList got)) (Wire.bytes expected)

structure Response where
  status : Nat
  contentType : Option String
  body : String
  deriving DecidableEq

def prometheusContentType : String := "text/plain; version=0.0.4; charset=utf-8"

/-- The configured token, unless it is blank. -/
def expectedToken (token : Option String) : Option String := (token.map Text.trimWhitespace).filter (!·.isEmpty)

/-- `GET /metrics` of `metrics_router`, with what is gathered and the
`authorization` header of the request. -/
def metricsRouter (token : Option String) (gathered : String) (authorization : Option (List UInt8)) : Response :=
  match expectedToken token with
  | some expected =>
    if authorized authorization expected then ⟨200, some prometheusContentType, gathered⟩
    else ⟨401, some "text/plain; charset=utf-8", "unauthorized"⟩
  | none => ⟨200, some prometheusContentType, gathered⟩

theorem bytes_of_visible {value : List UInt8} (h : value.all isVisibleAscii = true) :
    Wire.bytes (String.ofList (value.map Char.ofUInt8)) = value := by
  have hascii : ∀ c ∈ value.map Char.ofUInt8, c.val.toNat < 128 := by
    intro c hc
    obtain ⟨b, hb, rfl⟩ := List.mem_map.1 hc
    have hvisible := List.all_eq_true.1 h b hb
    simp only [isVisibleAscii, Bool.or_eq_true, Bool.and_eq_true, decide_eq_true_eq, beq_iff_eq,
      UInt8.lt_iff_toNat_lt] at hvisible
    rw [Wire.toNat_ofUInt8]
    rcases hvisible with ⟨-, hlt⟩ | rfl
    · exact hlt.trans (by decide)
    · decide
  rw [Wire.bytes_of_ascii hascii, List.map_map]
  simp [Function.comp_def, Wire.toUInt8_ofUInt8]

theorem bearer_iff {s expected : String} :
    ((s.toList.dropPrefix? "Bearer ".toList).any fun got =>
      ctEq (Wire.bytes (String.ofList got)) (Wire.bytes expected)) = true ↔ s = "Bearer " ++ expected := by
  rw [Option.any_eq_true]
  constructor
  · rintro ⟨got, hgot, heq⟩
    obtain rfl : String.ofList got = expected := Wire.bytes_injective (ctEq_true_iff.1 heq)
    obtain ⟨scheme, hs, hscheme⟩ := List.dropPrefix?_eq_some_iff.1 hgot
    rw [← String.toList_inj, hs, eq_of_beq hscheme, String.toList_append]
    exact congrArg ("Bearer ".toList ++ ·) String.toList_ofList.symm
  · rintro rfl
    refine ⟨expected.toList, ?_, ?_⟩
    · exact List.dropPrefix?_eq_some_iff.2 ⟨"Bearer ".toList, String.toList_append, beq_self_eq_true _⟩
    · rw [ctEq_true_iff, String.ofList_toList]

theorem authorized_iff {authorization : Option (List UInt8)} {expected : String} :
    authorized authorization expected = true ↔
      ∃ value, authorization = some value ∧ value.all isVisibleAscii = true ∧
        value = Wire.bytes ("Bearer " ++ expected) := by
  cases authorization with
  | none => exact iff_of_false nofun fun ⟨_, hnone, _⟩ => nomatch hnone
  | some value =>
    simp only [Option.some.injEq, exists_eq_left']
    by_cases hvisible : value.all isVisibleAscii = true
    · have hbytes : Wire.bytes (String.ofList (value.map Char.ofUInt8)) = value := bytes_of_visible hvisible
      rw [authorized, Option.bind_some, headerToStr, if_pos hvisible, Option.bind_some, bearer_iff]
      constructor
      · intro h
        exact ⟨hvisible, by rw [← h, hbytes]⟩
      · rintro ⟨-, h⟩
        exact Wire.bytes_injective (hbytes.trans h)
    · rw [authorized, Option.bind_some, headerToStr, if_neg hvisible]
      exact iff_of_false nofun fun h => hvisible h.1

/-- **Who gets the metrics**: everyone when no token is set, and else whoever
sends the token, all of it and nothing else. -/
theorem scraped_iff {token : Option String} {gathered : String} {authorization : Option (List UInt8)} :
    (metricsRouter token gathered authorization).status = 200 ↔
      ∀ expected, expectedToken token = some expected →
        ∃ value, authorization = some value ∧ value.all isVisibleAscii = true ∧
          value = Wire.bytes ("Bearer " ++ expected) := by
  unfold metricsRouter
  cases expectedToken token with
  | none => simp
  | some expected =>
    simp only [Option.some.injEq, forall_eq', ← authorized_iff]
    cases authorized authorization expected <;> simp

end FerrKit.Telemetry
