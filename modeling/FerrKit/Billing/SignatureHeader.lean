/-
What a `Stripe-Signature` header says, apart from the order it says it in.
The loop over the pairs stops at the first bad one, and all that are bad end
in the same error; the good ones add up to the timestamps and the signatures
of the header (`foldlM_parsePair`). So with one `t` the verdict depends on
which pairs there are, and pairs with other keys do not count.
-/
import FerrKit.Billing.StripeSignature

namespace FerrKit.Billing

open Wire

/-! ## Pairs -/

/-- The pairs of a header. -/
def pairsOf (header : String) : List (List Char) := header.toList.splitOn ','

/-- Key and value, without the white space around them. -/
def readPair (pair : List Char) : Option (String × String) :=
  (Text.splitOnce '=' pair).map fun kv =>
    (Text.trimWhitespace (String.ofList kv.1), Text.trimWhitespace (String.ofList kv.2))

/-- The values of a key. -/
def valuesOf (key : String) (pairs : List (List Char)) : List String :=
  pairs.filterMap fun pair => (readPair pair).bind fun kv => if kv.1 = key then some kv.2 else none

/-- A pair with a value that goes with its key. -/
def PairOk (pair : List Char) : Prop :=
  ∃ kv, readPair pair = some kv ∧ (kv.1 = "t" → (parseI64 kv.2).isSome) ∧ (kv.1 = "v1" → (hexDecode kv.2).isSome)

/-- A pair of another key. -/
def Ignored (pair : List Char) : Prop := ∃ kv, readPair pair = some kv ∧ kv.1 ≠ "t" ∧ kv.1 ≠ "v1"

/-- The timestamps. -/
def stampsOf (pairs : List (List Char)) : List Int := (valuesOf "t" pairs).filterMap parseI64

/-- The signatures. -/
def signaturesOf (pairs : List (List Char)) : List (List UInt8) := (valuesOf "v1" pairs).filterMap hexDecode

variable {pair : List Char} {pairs : List (List Char)} {acc : Option Int × List (List UInt8)}

theorem valuesOf_append (key : String) (pairs pairs' : List (List Char)) :
    valuesOf key (pairs ++ pairs') = valuesOf key pairs ++ valuesOf key pairs' :=
  List.filterMap_append ..

theorem stampsOf_append (pairs pairs' : List (List Char)) :
    stampsOf (pairs ++ pairs') = stampsOf pairs ++ stampsOf pairs' := by
  rw [stampsOf, valuesOf_append, List.filterMap_append, stampsOf, stampsOf]

theorem signaturesOf_append (pairs pairs' : List (List Char)) :
    signaturesOf (pairs ++ pairs') = signaturesOf pairs ++ signaturesOf pairs' := by
  rw [signaturesOf, valuesOf_append, List.filterMap_append, signaturesOf, signaturesOf]

theorem valuesOf_pair {kv : String × String} (h : readPair pair = some kv) (key : String) :
    valuesOf key [pair] = if kv.1 = key then [kv.2] else [] := by
  simp only [valuesOf, List.filterMap_cons, h, Option.bind_some, List.filterMap_nil]
  split <;> simp_all

/-! ## The loop -/

/-- A turn of the loop, on the pair as it is read. -/
theorem parsePair_eq (acc : Option Int × List (List UInt8)) (pair : List Char) : parsePair acc pair =
    (readPair pair).elim (.error .malformedHeader) fun kv =>
      if kv.1 = "t" then (parseI64 kv.2).elim (.error .malformedHeader) fun ts => .ok (some ts, acc.2)
      else if kv.1 = "v1" then (hexDecode kv.2).elim (.error .malformedHeader) fun s => .ok (acc.1, acc.2 ++ [s])
      else .ok acc := by
  unfold parsePair readPair
  cases Text.splitOnce '=' pair with
  | none => rfl
  | some kv =>
    simp only [Option.map_some, Option.elim_some]
    split
    · next hkey =>
      rw [if_pos hkey]
      cases parseI64 (Text.trimWhitespace (String.ofList kv.2)) <;> rfl
    · next hkey =>
      rw [if_neg (by rw [hkey]; decide), if_pos hkey]
      cases hexDecode (Text.trimWhitespace (String.ofList kv.2)) <;> rfl
    · next hnt hnv => rw [if_neg hnt, if_neg hnv]

theorem parsePair_ok (h : PairOk pair) :
    parsePair acc pair = .ok ((stampsOf [pair]).getLast?.or acc.1, acc.2 ++ signaturesOf [pair]) := by
  obtain ⟨⟨key, value⟩, hread, ht, hv1⟩ := h
  rw [parsePair_eq, stampsOf, signaturesOf, valuesOf_pair hread, valuesOf_pair hread, hread]
  simp only [Option.elim_some]
  by_cases hkt : key = "t"
  · obtain ⟨ts, hts⟩ := Option.isSome_iff_exists.1 (ht hkt)
    simp only at hts
    simp [hkt, hts]
  · by_cases hkv : key = "v1"
    · obtain ⟨bs, hbs⟩ := Option.isSome_iff_exists.1 (hv1 hkv)
      simp only at hbs
      simp [hkv, hbs]
    · simp [hkt, hkv]

theorem parsePair_error (h : ¬ PairOk pair) : parsePair acc pair = .error .malformedHeader := by
  rw [parsePair_eq]
  cases hread : readPair pair with
  | none => rfl
  | some kv =>
    simp only [Option.elim_some]
    split
    · next hkt =>
      cases hts : parseI64 kv.2 with
      | none => rfl
      | some ts => exact absurd ⟨kv, hread, fun _ => by simp [hts], fun hkv => by simp [hkt] at hkv⟩ h
    · next hkt =>
      split
      · next hkv =>
        cases hbs : hexDecode kv.2 with
        | none => rfl
        | some bs => exact absurd ⟨kv, hread, fun hkt' => absurd hkt' hkt, fun _ => by simp [hbs]⟩ h
      · next hkv => exact absurd ⟨kv, hread, fun hkt' => absurd hkt' hkt, fun hkv' => absurd hkv' hkv⟩ h

/-- The loop adds up the timestamps and the signatures. -/
theorem foldlM_parsePair (h : ∀ pair ∈ pairs, PairOk pair) :
    pairs.foldlM parsePair acc = .ok ((stampsOf pairs).getLast?.or acc.1, acc.2 ++ signaturesOf pairs) := by
  induction pairs generalizing acc with
  | nil => simp [stampsOf, signaturesOf, valuesOf, pure, Except.pure]
  | cons pair pairs ih =>
    have hfirst : PairOk pair := h pair (List.mem_cons_self ..)
    have hrest : ∀ pair ∈ pairs, PairOk pair := fun pair hp => h pair (List.mem_cons_of_mem _ hp)
    have hstamps : stampsOf (pair :: pairs) = stampsOf [pair] ++ stampsOf pairs := stampsOf_append [pair] pairs
    have hsignatures : signaturesOf (pair :: pairs) = signaturesOf [pair] ++ signaturesOf pairs :=
      signaturesOf_append [pair] pairs
    rw [List.foldlM_cons, parsePair_ok hfirst, hstamps, hsignatures]
    show pairs.foldlM parsePair _ = _
    rw [ih hrest, List.getLast?_append, Option.or_assoc, List.append_assoc]

/-- It stops at a bad pair. -/
theorem foldlM_parsePair_error (h : ∃ pair ∈ pairs, ¬ PairOk pair) :
    pairs.foldlM parsePair acc = .error .malformedHeader := by
  induction pairs generalizing acc with
  | nil => simp at h
  | cons pair pairs ih =>
    rw [List.foldlM_cons]
    by_cases hfirst : PairOk pair
    · rw [parsePair_ok hfirst]
      refine ih ?_
      obtain ⟨bad, hmem, hbad⟩ := h
      obtain rfl | hmem := List.mem_cons.1 hmem
      · exact absurd hfirst hbad
      · exact ⟨bad, hmem, hbad⟩
    · rw [parsePair_error hfirst]
      rfl

/-! ## The header -/

/-- Every pair is one, every `t` is a number and every `v1` hexadecimal, and
there is a `v1`. -/
structure WellFormed (pairs : List (List Char)) : Prop where
  pairs_ok : ∀ pair ∈ pairs, PairOk pair
  signed : valuesOf "v1" pairs ≠ []

theorem isSome_of_mem_valuesOf (h : ∀ pair ∈ pairs, PairOk pair) {key value : String}
    (hmem : value ∈ valuesOf key pairs) :
    (key = "t" → (parseI64 value).isSome) ∧ (key = "v1" → (hexDecode value).isSome) := by
  obtain ⟨pair, hp, hbind⟩ := List.mem_filterMap.1 hmem
  obtain ⟨⟨k, v⟩, hread, hif⟩ := Option.bind_eq_some_iff.1 hbind
  split at hif
  · next hkey =>
    cases hif
    obtain ⟨kv, hkv, hchecked⟩ := h pair hp
    obtain rfl : (k, v) = kv := Option.some.inj (hread.symm.trans hkv)
    rwa [hkey] at hchecked
  · cases hif

/-- A well formed header with one `t`, parsed. -/
theorem parse_wellFormed {header value : String} (hwf : WellFormed (pairsOf header))
    (ht : valuesOf "t" (pairsOf header) = [value]) :
    ∃ ts, parseI64 value = some ts ∧ parseSignatureHeader header = .ok ⟨ts, signaturesOf (pairsOf header)⟩ := by
  have hvalue : value ∈ valuesOf "t" (pairsOf header) := by simp [ht]
  obtain ⟨ts, hts⟩ := Option.isSome_iff_exists.1 ((isSome_of_mem_valuesOf hwf.pairs_ok hvalue).1 rfl)
  have hstamps : stampsOf (pairsOf header) = [ts] := by simp [stampsOf, ht, hts]
  have hsignatures : (signaturesOf (pairsOf header)).isEmpty = false := by
    obtain ⟨v, vs, hv⟩ := List.exists_cons_of_ne_nil hwf.signed
    have hv1 : v ∈ valuesOf "v1" (pairsOf header) := by simp [hv]
    obtain ⟨bs, hbs⟩ := Option.isSome_iff_exists.1 ((isSome_of_mem_valuesOf hwf.pairs_ok hv1).2 rfl)
    simp [signaturesOf, hv, hbs]
  refine ⟨ts, hts, ?_⟩
  unfold parseSignatureHeader
  rw [show header.toList.splitOn ',' = pairsOf header from rfl, foldlM_parsePair hwf.pairs_ok, hstamps]
  simp [hsignatures]

theorem parse_malformed {header : String} (hwf : ¬ WellFormed (pairsOf header)) :
    parseSignatureHeader header = .error .malformedHeader := by
  unfold parseSignatureHeader
  rw [show header.toList.splitOn ',' = pairsOf header from rfl]
  by_cases hall : ∀ pair ∈ pairsOf header, PairOk pair
  · have hnone : valuesOf "v1" (pairsOf header) = [] := Classical.byContradiction fun h => hwf ⟨hall, h⟩
    rw [foldlM_parsePair hall]
    simp only [signaturesOf, hnone, List.filterMap_nil, List.append_nil]
    cases (stampsOf (pairsOf header)).getLast?.or none <;> rfl
  · rw [foldlM_parsePair_error (by simpa using hall)]

/-! ## Order -/

/-- The same pairs in any order, and pairs of other keys among them. -/
def Reordered (pairs pairs' : List (List Char)) : Prop :=
  ∃ extra, pairs'.Perm (pairs ++ extra) ∧ ∀ pair ∈ extra, Ignored pair

variable {pairs' : List (List Char)}

theorem Ignored.pairOk (h : Ignored pair) : PairOk pair := by
  obtain ⟨kv, hread, ht, hv1⟩ := h
  exact ⟨kv, hread, fun hkey => absurd hkey ht, fun hkey => absurd hkey hv1⟩

theorem valuesOf_ignored {key : String} (hkey : key = "t" ∨ key = "v1") (h : ∀ pair ∈ pairs, Ignored pair) :
    valuesOf key pairs = [] := by
  refine List.filterMap_eq_nil_iff.2 fun pair hp => ?_
  obtain ⟨kv, hread, ht, hv1⟩ := h pair hp
  have hne : kv.1 ≠ key := by
    obtain rfl | rfl := hkey
    · exact ht
    · exact hv1
  rw [hread, Option.bind_some, if_neg hne]

theorem Reordered.values (h : Reordered pairs pairs') {key : String} (hkey : key = "t" ∨ key = "v1") :
    (valuesOf key pairs').Perm (valuesOf key pairs) := by
  obtain ⟨extra, hperm, hextra⟩ := h
  have hvalues : (valuesOf key pairs').Perm (valuesOf key (pairs ++ extra)) := hperm.filterMap _
  rwa [valuesOf_append, valuesOf_ignored hkey hextra, List.append_nil] at hvalues

theorem Reordered.wellFormed (h : Reordered pairs pairs') : WellFormed pairs' ↔ WellFormed pairs := by
  have hv1 := h.values (.inr rfl : "v1" = "t" ∨ "v1" = "v1")
  obtain ⟨extra, hperm, hextra⟩ := h
  constructor
  · intro hwf
    refine ⟨fun pair hp => hwf.pairs_ok pair (hperm.mem_iff.2 (List.mem_append_left _ hp)), fun hnil => hwf.signed ?_⟩
    exact (hnil ▸ hv1).eq_nil
  · intro hwf
    refine ⟨fun pair hp => ?_, fun hnil => hwf.signed ?_⟩
    · obtain hp | hp := List.mem_append.1 (hperm.mem_iff.1 hp)
      · exact hwf.pairs_ok pair hp
      · exact (hextra pair hp).pairOk
    · exact (hnil ▸ hv1.symm).eq_nil

/-! ## The verdict -/

section Verdict

variable (hmac : List UInt8 → List UInt8 → List UInt8) (payload secret : List UInt8) (now tolerance : Int)

theorem verifySignature_parsed {header : String} {ts : Int} {signatures : List (List UInt8)}
    (h : parseSignatureHeader header = .ok ⟨ts, signatures⟩) :
    verifySignature hmac payload header secret now tolerance =
      if (now - ts).natAbs > (max tolerance 0).toNat then .error .timestampOutOfTolerance
      else if expectedSignature hmac secret ts payload ∈ signatures then .ok ts else .error .noMatch := by
  simp only [verifySignature, h, bind, Except.bind]
  split
  · rfl
  · simp only [pure, Except.pure, List.any_eq_true, beq_iff_eq, exists_eq_right]
    rfl

theorem verifySignature_malformed {header : String} (h : ¬ WellFormed (pairsOf header)) :
    verifySignature hmac payload header secret now tolerance = .error .malformedHeader := by
  simp only [verifySignature, parse_malformed h, bind, Except.bind]

theorem verifySignature_reordered {header header' value : String} (ht : valuesOf "t" (pairsOf header) = [value])
    (h : Reordered (pairsOf header) (pairsOf header')) :
    verifySignature hmac payload header' secret now tolerance =
      verifySignature hmac payload header secret now tolerance := by
  by_cases hwf : WellFormed (pairsOf header)
  · have ht' : valuesOf "t" (pairsOf header') = [value] := List.perm_singleton.1 (ht ▸ h.values (.inl rfl))
    obtain ⟨ts, hts, hparse⟩ := parse_wellFormed hwf ht
    obtain ⟨ts', hts', hparse'⟩ := parse_wellFormed (h.wellFormed.2 hwf) ht'
    obtain rfl : ts' = ts := Option.some.inj (hts'.symm.trans hts)
    have hmem : expectedSignature hmac secret ts' payload ∈ signaturesOf (pairsOf header') ↔
        expectedSignature hmac secret ts' payload ∈ signaturesOf (pairsOf header) :=
      ((h.values (.inr rfl)).filterMap hexDecode).mem_iff
    rw [verifySignature_parsed hmac payload secret now tolerance hparse,
      verifySignature_parsed hmac payload secret now tolerance hparse']
    simp only [hmem]
  · rw [verifySignature_malformed hmac payload secret now tolerance hwf,
      verifySignature_malformed hmac payload secret now tolerance (mt h.wellFormed.1 hwf)]

theorem signedInput_eq (ts : Int) : signedInput ts payload = bytes (toString ts) ++ bytes "." ++ payload := by
  simp [signedInput]

theorem verifySignature_ok_iff {header value : String} {ts : Int} (ht : valuesOf "t" (pairsOf header) = [value]) :
    verifySignature hmac payload header secret now tolerance = .ok ts ↔
      WellFormed (pairsOf header) ∧ parseI64 value = some ts ∧ (now - ts).natAbs ≤ (max tolerance 0).toNat ∧
        ∃ v1 ∈ valuesOf "v1" (pairsOf header), hexDecode v1 = some (expectedSignature hmac secret ts payload) := by
  by_cases hwf : WellFormed (pairsOf header)
  · obtain ⟨stamp, hstamp, hparse⟩ := parse_wellFormed hwf ht
    rw [verifySignature_parsed hmac payload secret now tolerance hparse, hstamp, signaturesOf]
    simp only [hwf, true_and, List.mem_filterMap, Option.some.injEq]
    constructor
    · intro h
      split at h
      · cases h
      · next htol =>
        split at h
        · next hmatch =>
          cases h
          exact ⟨rfl, Nat.le_of_not_gt htol, hmatch⟩
        · cases h
    · rintro ⟨rfl, htol, hmatch⟩
      rw [if_neg (Nat.not_lt.2 htol), if_pos hmatch]
  · rw [verifySignature_malformed hmac payload secret now tolerance hwf]
    simp [hwf]

/-- **The verdict over a header with one `t`.** It does not change when the
pairs are reordered or pairs with other keys are put among them, and it is
`Ok` exactly for a well formed header with a timestamp inside the tolerance
and the MAC of the timestamp, a dot and the payload among its signatures. -/
theorem verifySignature_order_free {header value : String} (ht : valuesOf "t" (pairsOf header) = [value]) :
    (∀ header', Reordered (pairsOf header) (pairsOf header') →
      verifySignature hmac payload header' secret now tolerance =
        verifySignature hmac payload header secret now tolerance) ∧
    ∀ ts, verifySignature hmac payload header secret now tolerance = .ok ts ↔
      WellFormed (pairsOf header) ∧ parseI64 value = some ts ∧ (now - ts).natAbs ≤ (max tolerance 0).toNat ∧
        ∃ v1 ∈ valuesOf "v1" (pairsOf header),
          hexDecode v1 = some (hmac secret (bytes (toString ts) ++ bytes "." ++ payload)) := by
  refine ⟨fun _ h => verifySignature_reordered hmac payload secret now tolerance ht h, fun ts => ?_⟩
  rw [verifySignature_ok_iff hmac payload secret now tolerance ht, expectedSignature, signedInput_eq]

end Verdict

/-- A stand-in for HMAC that keeps all it is given. -/
def openHmac (secret input : List UInt8) : List UInt8 := secret ++ input

/-- Secret `k`, body `ok`, time 9: the MAC is of `9.ok`. -/
theorem verifySignature_order_free_scheme_added :
    verifySignature openHmac (bytes "ok") "v0=00, v1=6b392e6f6b ,v1=08,t=9" (bytes "k") 7 5 = .ok 9 ∧
      ∃ v1 ∈ ["08", "6b392e6f6b"], hexDecode v1 = some (bytes "k9.ok") := by
  have ht : valuesOf "t" (pairsOf "t=9,v1=08, v1=6b392e6f6b ") = ["9"] := by decide +kernel
  have hok : verifySignature openHmac (bytes "ok") "t=9,v1=08, v1=6b392e6f6b " (bytes "k") 7 5 = .ok 9 := by
    decide +kernel
  obtain ⟨hreordered, hiff⟩ := verifySignature_order_free openHmac (bytes "ok") (bytes "k") 7 5 ht
  have hmore : Reordered (pairsOf "t=9,v1=08, v1=6b392e6f6b ") (pairsOf "v0=00, v1=6b392e6f6b ,v1=08,t=9") := by
    refine ⟨["v0=00".toList], by decide +kernel, ?_⟩
    simp only [List.mem_singleton, forall_eq]
    exact ⟨("v0", "00"), by decide +kernel, by decide, by decide⟩
  obtain ⟨-, -, -, v1, hv1, hmac⟩ := (hiff 9).1 hok
  refine ⟨(hreordered _ hmore).trans hok, v1, ?_, ?_⟩
  · have hvalues : valuesOf "v1" (pairsOf "t=9,v1=08, v1=6b392e6f6b ") = ["08", "6b392e6f6b"] := by decide +kernel
    rwa [← hvalues]
  · rw [hmac]
    decide +kernel

end FerrKit.Billing
