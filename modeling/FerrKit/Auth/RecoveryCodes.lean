/-
Recovery codes (`crates/auth/src/totp.rs`): single-use codes of which only
the hashes are stored. `verify_and_consume` names the position of the hash a
presented code has, and its caller takes that hash out.

The loop goes on after a match, so it names the last position there is; with
distinct hashes that is the only one. What is stored after any presentations
is what was issued without the hashes that were presented (`after_eq`), and
everything else follows from that. SHA-256 and base64 are parameters.
-/
import FerrKit.Lib.Wire

namespace FerrKit.Auth

variable (sha256 : List UInt8 → List UInt8)

def hashRecoveryCode (code : String) : List UInt8 := sha256 (Wire.bytes code)

structure RecoveryCode where
  plaintext : String
  hash : List UInt8

/-- `random` gives the ten bytes of each draw. -/
def generateRecoveryCodes (urlSafeNoPad : List UInt8 → String) (random : Nat → Vector UInt8 10) (count : Nat) :
    List RecoveryCode :=
  (List.range count).map fun i =>
    let plaintext := urlSafeNoPad (random i).toList
    ⟨plaintext, hashRecoveryCode sha256 plaintext⟩

/-- The loop of `verify_and_consume`, from a position on. -/
def scan (presented : List UInt8) : Nat → Option Nat → List (List UInt8) → Option Nat
  | _, matched, [] => matched
  | idx, matched, stored :: hashes =>
    -- `ct_eq`, which is equality; the loop does not stop at a match
    scan presented (idx + 1) (if presented = stored then some idx else matched) hashes

def verifyAndConsume (code : String) (hashes : List (List UInt8)) : Option Nat :=
  scan (hashRecoveryCode sha256 code) 0 none hashes

/-- What the caller has stored after a code was presented. -/
def present (hashes : List (List UInt8)) (code : String) : List (List UInt8) :=
  match verifyAndConsume sha256 code hashes with
  | some idx => hashes.eraseIdx idx
  | none => hashes

/-- What is stored after codes were presented one after the other. -/
def after (hashes : List (List UInt8)) (presented : List String) : List (List UInt8) :=
  presented.foldl (present sha256) hashes

/-! ## The loop -/

section Scan

variable {presented : List UInt8} {hashes : List (List UInt8)} (idx : Nat) (matched : Option Nat)

theorem scan_of_notMem (h : presented ∉ hashes) : scan presented idx matched hashes = matched := by
  induction hashes generalizing idx with
  | nil => rfl
  | cons stored hashes ih =>
    rw [List.mem_cons, not_or] at h
    rw [scan, if_neg h.1]
    exact ih (idx + 1) h.2

/-- The last match is the one that is kept. -/
theorem scan_of_mem (h : presented ∈ hashes) :
    ∃ i, scan presented idx matched hashes = some (idx + i) ∧ hashes[i]? = some presented := by
  induction hashes generalizing idx matched with
  | nil => cases h
  | cons stored hashes ih =>
    rw [scan]
    by_cases hrest : presented ∈ hashes
    · obtain ⟨i, hscan, hi⟩ := ih (idx + 1) (if presented = stored then some idx else matched) hrest
      exact ⟨i + 1, by rw [hscan]; congr 1; omega, hi⟩
    · obtain rfl : presented = stored := (List.mem_cons.1 h).resolve_right hrest
      exact ⟨0, by rw [scan_of_notMem _ _ hrest, if_pos rfl]; rfl, rfl⟩

end Scan

variable {sha256} {hashes : List (List UInt8)} {code : String}

theorem isSome_verifyAndConsume_iff :
    (verifyAndConsume sha256 code hashes).isSome ↔ hashRecoveryCode sha256 code ∈ hashes := by
  by_cases h : hashRecoveryCode sha256 code ∈ hashes
  · obtain ⟨i, hscan, -⟩ := scan_of_mem 0 none h
    simp [verifyAndConsume, hscan, h]
  · simp [verifyAndConsume, scan_of_notMem 0 none h, h]

theorem getElem?_of_verifyAndConsume {i : Nat} (h : verifyAndConsume sha256 code hashes = some i) :
    hashes[i]? = some (hashRecoveryCode sha256 code) := by
  have hmem : hashRecoveryCode sha256 code ∈ hashes := isSome_verifyAndConsume_iff.1 (by simp [h])
  obtain ⟨j, hscan, hj⟩ := scan_of_mem 0 none hmem
  rw [verifyAndConsume, hscan, Nat.zero_add, Option.some.injEq] at h
  rwa [← h]

/-! ## Presentations -/

/-- With distinct hashes, the caller takes out the one of the code. -/
theorem present_eq_erase (hdistinct : hashes.Nodup) :
    present sha256 hashes code = hashes.erase (hashRecoveryCode sha256 code) := by
  unfold present
  cases h : verifyAndConsume sha256 code hashes with
  | some i =>
    obtain ⟨hlt, hat⟩ := List.getElem?_eq_some_iff.1 (getElem?_of_verifyAndConsume h)
    rw [← hat]
    exact (hdistinct.erase_getElem i hlt).symm
  | none =>
    have hnot : hashRecoveryCode sha256 code ∉ hashes := by
      rw [← isSome_verifyAndConsume_iff, h]
      simp
    exact (List.erase_of_not_mem hnot).symm

/-- What is left: the hashes nobody has presented a code of. -/
theorem after_eq (hdistinct : hashes.Nodup) (presented : List String) :
    after sha256 hashes presented = hashes.filter fun h => h ∉ presented.map (hashRecoveryCode sha256) := by
  induction presented generalizing hashes with
  | nil => simp [after]
  | cons code presented ih =>
    have hstep : after sha256 hashes (code :: presented) = after sha256 (present sha256 hashes code) presented := rfl
    rw [hstep, present_eq_erase hdistinct, ih (hdistinct.erase _), hdistinct.erase_eq_filter, List.filter_filter]
    refine List.filter_congr fun h _ => ?_
    rw [Bool.eq_iff_iff]
    simp [and_comm]

theorem after_nodup (hdistinct : hashes.Nodup) (presented : List String) : (after sha256 hashes presented).Nodup := by
  rw [after_eq hdistinct]
  exact hdistinct.filter _

/-- What `generate_recovery_codes` makes. -/
def Issued (sha256 : List UInt8 → List UInt8) (codes : List RecoveryCode) : Prop :=
  ∀ c ∈ codes, c.hash = hashRecoveryCode sha256 c.plaintext

theorem issued_generateRecoveryCodes (urlSafeNoPad : List UInt8 → String) (random : Nat → Vector UInt8 10)
    (count : Nat) : Issued sha256 (generateRecoveryCodes sha256 urlSafeNoPad random count) := by
  intro c hc
  obtain ⟨i, -, rfl⟩ := List.mem_map.1 hc
  rfl

/-- A presented code's hash is stored exactly when the code was issued. -/
theorem hash_mem_iff {codes : List RecoveryCode} {texts : Set String} (hissued : Issued sha256 codes)
    (hinj : Set.InjOn (hashRecoveryCode sha256) texts) (hcodes : ∀ c ∈ codes, c.plaintext ∈ texts) (hcode : code ∈ texts) :
    hashRecoveryCode sha256 code ∈ codes.map (·.hash) ↔ code ∈ codes.map (·.plaintext) := by
  simp only [List.mem_map]
  constructor
  · rintro ⟨c, hc, heq⟩
    exact ⟨c, hc, hinj (hcodes c hc) hcode ((hissued c hc).symm.trans heq)⟩
  · rintro ⟨c, hc, rfl⟩
    exact ⟨c, hc, hissued c hc⟩

/-- **A recovery code is good once.** In any sequence of presentations, what
is accepted is an issued code that was not presented before, and accepting it
takes out its hash and nothing else. -/
theorem recovery_codes_once {codes : List RecoveryCode} {presented : List String} (hissued : Issued sha256 codes)
    (hdistinct : (codes.map (·.hash)).Nodup)
    (hinj : Set.InjOn (hashRecoveryCode sha256) {s | s ∈ presented ∨ s ∈ codes.map (·.plaintext)})
    (pre : List String) (code : String) (post : List String) (hsplit : presented = pre ++ code :: post) :
    ((verifyAndConsume sha256 code (after sha256 (codes.map (·.hash)) pre)).isSome ↔
        code ∈ codes.map (·.plaintext) ∧ code ∉ pre) ∧
      ∀ i, verifyAndConsume sha256 code (after sha256 (codes.map (·.hash)) pre) = some i →
        (after sha256 (codes.map (·.hash)) pre)[i]? = some (hashRecoveryCode sha256 code) ∧
          after sha256 (codes.map (·.hash)) (pre ++ [code]) =
            (after sha256 (codes.map (·.hash)) pre).erase (hashRecoveryCode sha256 code) := by
  have htexts : ∀ s ∈ pre ++ code :: post, s ∈ {s | s ∈ presented ∨ s ∈ codes.map (·.plaintext)} :=
    fun s hs => .inl (hsplit ▸ hs)
  have hcode := htexts code (by simp)
  have hpre : hashRecoveryCode sha256 code ∈ pre.map (hashRecoveryCode sha256) ↔ code ∈ pre := by
    rw [List.mem_map]
    refine ⟨?_, fun h => ⟨code, h, rfl⟩⟩
    rintro ⟨s, hs, heq⟩
    rwa [← hinj (htexts s (by simp [hs])) hcode heq]
  constructor
  · rw [isSome_verifyAndConsume_iff, after_eq hdistinct, List.mem_filter, decide_eq_true_iff, hpre,
      hash_mem_iff hissued hinj (fun c hc => .inr (List.mem_map_of_mem hc)) hcode]
  · intro i hi
    refine ⟨getElem?_of_verifyAndConsume hi, ?_⟩
    have hstep : after sha256 (codes.map (·.hash)) (pre ++ [code]) =
        present sha256 (after sha256 (codes.map (·.hash)) pre) code := by simp [after]
    rw [hstep, present_eq_erase (after_nodup hdistinct pre)]

/-- Two codes with the text itself for a hash, one of them presented twice. -/
theorem recovery_codes_once_twice :
    (verifyAndConsume id "b" (after id ([⟨"a", [97]⟩, ⟨"b", [98]⟩].map RecoveryCode.hash) ["a"])).isSome ∧
      ¬ (verifyAndConsume id "a" (after id ([⟨"a", [97]⟩, ⟨"b", [98]⟩].map RecoveryCode.hash) ["a", "b"])).isSome := by
  have hissued : Issued id [⟨"a", [97]⟩, ⟨"b", [98]⟩] := by
    intro c hc
    simp only [List.mem_cons, List.not_mem_nil, or_false] at hc
    rcases hc with rfl | rfl <;> decide
  have hinj : ∀ texts, Set.InjOn (hashRecoveryCode id) texts := fun _ _ _ _ _ h => Wire.bytes_injective h
  exact ⟨(recovery_codes_once hissued (by decide) (hinj _) ["a"] "b" ["a"] rfl).1.2 (by decide),
    (recovery_codes_once hissued (by decide) (hinj _) ["a", "b"] "a" [] rfl).1.not.2 (by decide)⟩

end FerrKit.Auth
