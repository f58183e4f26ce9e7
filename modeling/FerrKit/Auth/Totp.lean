/-
Two-factor codes (`TotpEnrollment` in `crates/auth/src/totp.rs`), from the
sealed seed in the database to the step that a login has used. The code asks
`totp-rs` for the step a presented code belongs to and lets it through if it
is later than the last step used; its caller stores that step together with
the login.

`totp-rs`, AES-GCM and the clock are parameters, and so is what the key
provider answers at each login. The clock may go backwards. Left out: the
provisioning URI, which is all `totp-rs`, and `current_code_at`, which is
`TotpRs.codeOf` at a time's step.
-/
import FerrKit.Crypto.Envelope

namespace FerrKit.Auth.TwoFactor

open FerrKit.Crypto (Bytes)

def totpDigits : Nat := 6

def totpStepSecs : Nat := 30

def totpSkew : Nat := 1

def issuer : String := "FerrLabs"

inductive TotpError
  | invalidConfig (reason : String)
  | crypto (reason : String)
  | clockError
  deriving DecidableEq

/-- `totp_rs::Algorithm`. -/
inductive Algorithm
  | SHA1 | SHA256 | SHA512

/-- What `Builder` is given. -/
structure Totp where
  algorithm : Algorithm
  digits : Nat
  skew : Nat
  stepDuration : Nat
  secret : Bytes
  issuer : Option String
  accountName : String

structure TotpRs where
  /-- what `Builder::build` refuses -/
  build : Totp → Except String Unit
  /-- the code of a step -/
  codeOf : Totp → Nat → String
  /-- `Totp::check`, at a time in seconds since 1970 -/
  check : Totp → String → Nat → Option Nat

/-- `step` is one of those that `Totp::check` tries at `time`. -/
def Totp.InWindow (totp : Totp) (time step : Nat) : Prop :=
  time / totp.stepDuration ≤ step + totp.skew ∧ step ≤ time / totp.stepDuration + totp.skew

/-- `Totp::check` names a step around the time's own that has the code, if
there is one. -/
structure TotpRs.ChecksWindow (rs : TotpRs) : Prop where
  sound : ∀ {totp code time step}, rs.check totp code time = some step →
    rs.codeOf totp step = code ∧ totp.InWindow time step
  complete : ∀ {totp code time step}, rs.codeOf totp step = code → totp.InWindow time step →
    ∃ found, rs.check totp code time = some found

structure TotpEnrollment where
  seed : Bytes
  account : String

/-- What `TotpEnrollment::totp` sets. -/
def TotpEnrollment.config (self : TotpEnrollment) : Totp where
  algorithm := .SHA1
  digits := totpDigits
  skew := totpSkew
  stepDuration := totpStepSecs
  secret := self.seed
  issuer := some issuer
  accountName := self.account

variable (rs : TotpRs)

def TotpEnrollment.totp (self : TotpEnrollment) : Except TotpError Totp :=
  match rs.build self.config with
  | .error e => .error (.invalidConfig e)
  | .ok () => .ok self.config

def TotpEnrollment.verifyStepAt (self : TotpEnrollment) (code : String) (unixTime : Nat) (lastUsedStep : Option Nat) :
    Except TotpError (Option Nat) :=
  match self.totp rs with
  | .error e => .error e
  | .ok totp => .ok ((rs.check totp code unixTime).filter fun step => lastUsedStep.all fun last => decide (step > last))

def TotpEnrollment.verifyAt (self : TotpEnrollment) (code : String) (unixTime : Nat) : Except TotpError Bool :=
  (self.verifyStepAt rs code unixTime none).map Option.isSome

/-- `now` is `none` before 1970. -/
def unixNow (now : Option Nat) : Except TotpError Nat :=
  match now with
  | none => .error .clockError
  | some secs => .ok secs

def TotpEnrollment.verifyStepNow (self : TotpEnrollment) (now : Option Nat) (code : String)
    (lastUsedStep : Option Nat) : Except TotpError (Option Nat) := do
  self.verifyStepAt rs code (← unixNow now) lastUsedStep

def TotpEnrollment.sealSeed (self : TotpEnrollment) (wrapDek : Bytes → Except String Bytes) : Except TotpError Bytes :=
  (wrapDek self.seed).mapError .crypto

def unsealSeed (unwrapDek : Bytes → Except String Bytes) (sealed : Bytes) : Except TotpError Bytes :=
  (unwrapDek sealed).mapError .crypto

/-! ## Logins -/

/-- A factor as it is stored. -/
structure Factor where
  account : String
  sealed : Bytes
  lastUsedStep : Option Nat

/-- A code is presented; what the key provider and the clock say then. -/
structure Attempt where
  unwrapDek : Bytes → Except String Bytes
  now : Option Nat
  code : String

/-- A login with the second factor. -/
def Factor.verify (f : Factor) (a : Attempt) : Except TotpError (Option Nat) := do
  let seed ← unsealSeed a.unwrapDek f.sealed
  TotpEnrollment.verifyStepNow rs ⟨seed, f.account⟩ a.now a.code f.lastUsedStep

/-- The factor after it: the step is stored with the login. -/
def Factor.after (f : Factor) (a : Attempt) : Factor :=
  match f.verify rs a with
  | .ok (some step) => { f with lastUsedStep := some step }
  | _ => f

/-- A login that went through. -/
structure Accepted where
  attempt : Attempt
  step : Nat

/-- The factor after any attempts, one after the other. -/
def Factor.afterAll (f : Factor) (as : List Attempt) : Factor := as.foldl (Factor.after rs) f

/-- Of any attempts, one after the other, those that went through. -/
def logins : Factor → List Attempt → List Accepted
  | _, [] => []
  | f, a :: as =>
    match f.verify rs a with
    | .ok (some step) => ⟨a, step⟩ :: logins (f.after rs a) as
    | _ => logins (f.after rs a) as

/-- The key provider gives nothing but the seed for what is stored. -/
def Opens (seed sealed : Bytes) (a : Attempt) : Prop := ∀ bytes, a.unwrapDek sealed = .ok bytes → bytes = seed

/-- The login is by the code of its step, next to the time it was made. -/
def Genuine (enrollment : TotpEnrollment) (x : Accepted) : Prop :=
  rs.codeOf enrollment.config x.step = x.attempt.code ∧ ∃ time, x.attempt.now = some time ∧
    time / totpStepSecs ≤ x.step + totpSkew ∧ x.step ≤ time / totpStepSecs + totpSkew

/-- The code belongs to a step next to `time`, and to none there that is used
up. -/
structure Unused (enrollment : TotpEnrollment) (lastUsedStep : Option Nat) (time : Nat) (code : String) : Prop where
  known : ∃ step, rs.codeOf enrollment.config step = code ∧ enrollment.config.InWindow time step
  unused : ∀ last ∈ lastUsedStep, ∀ step ≤ last, enrollment.config.InWindow time step →
    rs.codeOf enrollment.config step ≠ code

variable {rs} {f : Factor} {a : Attempt} {as : List Attempt} {seed : Bytes} {step : Nat}

/-- What a local key has sealed it opens to the seed, or not at all. -/
theorem opens_localKek {aes : Crypto.Aes256Gcm} (haes : aes.Inverts) {kek : Crypto.LocalKek} {nonce : Crypto.Nonce}
    {enrollment : TotpEnrollment} {sealed : Bytes} (h : enrollment.sealSeed (kek.wrapDek aes nonce) = .ok sealed)
    (ha : a.unwrapDek = kek.unwrapDek aes) : Opens enrollment.seed sealed a := by
  intro bytes hopen
  unfold TotpEnrollment.sealSeed at h
  cases hwrap : kek.wrapDek aes nonce enrollment.seed with
  | error e => rw [hwrap] at h; cases h
  | ok wrapped =>
    rw [hwrap] at h
    cases h
    rw [ha, Crypto.LocalKek.unwrapDek] at hopen
    split at hopen
    · cases hopen
    · rw [Crypto.decryptValue_encryptValue haes hwrap] at hopen
      cases hopen
      rfl

/-! ## One login -/

theorem totp_eq_ok {e : TotpEnrollment} {totp : Totp} (h : e.totp rs = .ok totp) : totp = e.config := by
  unfold TotpEnrollment.totp at h
  split at h
  · cases h
  · cases h
    rfl

theorem verifyStepAt_eq_some {e : TotpEnrollment} {code : String} {time : Nat} {last : Option Nat}
    (h : e.verifyStepAt rs code time last = .ok (some step)) :
    rs.check e.config code time = some step ∧ ∀ l ∈ last, l < step := by
  unfold TotpEnrollment.verifyStepAt at h
  split at h
  · cases h
  · next totp htotp =>
    cases totp_eq_ok htotp
    rw [Except.ok.injEq, Option.filter_eq_some_iff] at h
    refine ⟨h.1, fun l hl => ?_⟩
    rw [Option.mem_def] at hl
    subst hl
    simpa using h.2

/-- What a login that went through has seen. -/
theorem verify_eq_some (h : f.verify rs a = .ok (some step)) :
    ∃ seed time, a.unwrapDek f.sealed = .ok seed ∧ a.now = some time ∧
      rs.check (TotpEnrollment.config ⟨seed, f.account⟩) a.code time = some step ∧ ∀ l ∈ f.lastUsedStep, l < step := by
  unfold Factor.verify unsealSeed TotpEnrollment.verifyStepNow at h
  cases hseed : a.unwrapDek f.sealed with
  | error e => rw [hseed] at h; cases h
  | ok seed =>
    cases hnow : a.now with
    | none => rw [hseed, hnow] at h; cases h
    | some time =>
      rw [hseed, hnow] at h
      exact ⟨seed, time, rfl, rfl, verifyStepAt_eq_some h⟩

/-- Without a last step, a code is good for its whole window, any number of
times. -/
theorem verifyAt_eq_true_iff (hrs : rs.ChecksWindow) {e : TotpEnrollment} (hbuild : rs.build e.config = .ok ())
    {code : String} {time : Nat} :
    e.verifyAt rs code time = .ok true ↔ ∃ step, rs.codeOf e.config step = code ∧ e.config.InWindow time step := by
  have hcheck : e.verifyAt rs code time = .ok (rs.check e.config code time).isSome := by
    cases h : rs.check e.config code time <;>
      simp [TotpEnrollment.verifyAt, TotpEnrollment.verifyStepAt, TotpEnrollment.totp, hbuild, h, Except.map]
  rw [hcheck, Except.ok.injEq, Option.isSome_iff_exists]
  constructor
  · intro ⟨step, hstep⟩
    exact ⟨step, hrs.sound hstep⟩
  · intro ⟨step, hcode, hwindow⟩
    exact hrs.complete hcode hwindow

theorem after_of_verify (h : f.verify rs a = .ok (some step)) : f.after rs a = { f with lastUsedStep := some step } := by
  rw [Factor.after, h]

theorem after_of_refused (h : ∀ step, f.verify rs a ≠ .ok (some step)) : f.after rs a = f := by
  unfold Factor.after
  split
  · next step hstep => exact absurd hstep (h step)
  · rfl

theorem logins_of_verify (h : f.verify rs a = .ok (some step)) :
    logins rs f (a :: as) = ⟨a, step⟩ :: logins rs { f with lastUsedStep := some step } as := by
  rw [logins, h, after_of_verify h]

theorem logins_of_refused (h : ∀ step, f.verify rs a ≠ .ok (some step)) : logins rs f (a :: as) = logins rs f as := by
  rw [logins, after_of_refused h]
  split
  · next step hstep => exact absurd hstep (h step)
  · rfl

theorem genuine_of_verify (hrs : rs.ChecksWindow) (hopens : Opens seed f.sealed a)
    (h : f.verify rs a = .ok (some step)) : Genuine rs ⟨seed, f.account⟩ ⟨a, step⟩ := by
  obtain ⟨bytes, time, hbytes, hnow, hcheck, -⟩ := verify_eq_some h
  cases hopens _ hbytes
  obtain ⟨hcode, hlow, hhigh⟩ := hrs.sound hcheck
  exact ⟨hcode, time, hnow, hlow, hhigh⟩

/-! ## All of them -/

/-- Every step is later than the one before and the one stored at first. -/
theorem logins_increasing (rs : TotpRs) (f : Factor) (as : List Attempt) :
    (∀ x ∈ logins rs f as, ∀ l ∈ f.lastUsedStep, l < x.step) ∧
      (logins rs f as).Pairwise fun x y => x.step < y.step := by
  induction as generalizing f with
  | nil => exact ⟨by simp [logins], .nil⟩
  | cons a as ih =>
    by_cases h : ∃ step, f.verify rs a = .ok (some step)
    · obtain ⟨step, hstep⟩ := h
      obtain ⟨-, -, -, -, -, hlast⟩ := verify_eq_some hstep
      obtain ⟨hafter, hpairs⟩ := ih { f with lastUsedStep := some step }
      rw [logins_of_verify hstep]
      refine ⟨fun x hx l hl => ?_, List.pairwise_cons.2 ⟨fun x hx => hafter x hx step rfl, hpairs⟩⟩
      obtain rfl | hx := List.mem_cons.1 hx
      · exact hlast l hl
      · exact (hlast l hl).trans (hafter x hx step rfl)
    · rw [logins_of_refused (not_exists.1 h)]
      exact ih f

theorem logins_genuine (hrs : rs.ChecksWindow) (hopens : ∀ a ∈ as, Opens seed f.sealed a) :
    ∀ x ∈ logins rs f as, x.attempt ∈ as ∧ Genuine rs ⟨seed, f.account⟩ x := by
  induction as generalizing f with
  | nil => simp [logins]
  | cons a as ih =>
    rw [List.forall_mem_cons] at hopens
    intro x hx
    by_cases h : ∃ step, f.verify rs a = .ok (some step)
    · obtain ⟨step, hstep⟩ := h
      rw [logins_of_verify hstep, List.mem_cons] at hx
      obtain rfl | hx := hx
      · exact ⟨List.mem_cons_self, genuine_of_verify hrs hopens.1 hstep⟩
      · obtain ⟨hmem, hgenuine⟩ := ih (f := { f with lastUsedStep := some step }) hopens.2 x hx
        exact ⟨List.mem_cons_of_mem _ hmem, hgenuine⟩
    · rw [logins_of_refused (not_exists.1 h)] at hx
      obtain ⟨hmem, hgenuine⟩ := ih hopens.2 x hx
      exact ⟨List.mem_cons_of_mem _ hmem, hgenuine⟩

/-- Numbers that increase within bounds are few. -/
theorem length_le_of_increasing {steps : List Nat} (low high : Nat) (hinc : steps.Pairwise (· < ·))
    (hlow : ∀ s ∈ steps, low ≤ s) (hhigh : ∀ s ∈ steps, s ≤ high) : steps.length ≤ high + 1 - low := by
  have hsub : steps ⊆ List.range' low (high + 1 - low) := fun s hs => by
    have hl := hlow s hs
    have hh := hhigh s hs
    rw [List.mem_range'_1]
    omega
  simpa using (List.subperm_of_subset (hinc.imp Nat.ne_of_lt) hsub).length_le

theorem length_logins_le (hrs : rs.ChecksWindow) (hopens : ∀ a ∈ as, Opens seed f.sealed a) {low high : Nat}
    (hclock : ∀ a ∈ as, ∀ time ∈ a.now, low ≤ time ∧ time ≤ high) :
    (logins rs f as).length ≤ high / totpStepSecs - low / totpStepSecs + 3 := by
  have hstep : ∀ x ∈ logins rs f as,
      low / totpStepSecs ≤ x.step + totpSkew ∧ x.step ≤ high / totpStepSecs + totpSkew := by
    intro x hx
    obtain ⟨hmem, -, time, htime, hlow, hhigh⟩ := logins_genuine hrs hopens x hx
    obtain ⟨hlo, hhi⟩ := hclock x.attempt hmem time htime
    exact ⟨(Nat.div_le_div_right hlo).trans hlow, hhigh.trans (Nat.add_le_add_right (Nat.div_le_div_right hhi) _)⟩
  have hcount := length_le_of_increasing (low / totpStepSecs - totpSkew) (high / totpStepSecs + totpSkew)
    (List.pairwise_map.2 (logins_increasing rs f as).2) ?_ ?_
  · rw [List.length_map] at hcount
    simp only [totpSkew] at hcount
    omega
  · intro s hs
    obtain ⟨x, hx, rfl⟩ := List.mem_map.1 hs
    exact Nat.sub_le_of_le_add (hstep x hx).1
  · intro s hs
    obtain ⟨x, hx, rfl⟩ := List.mem_map.1 hs
    exact (hstep x hx).2

/-- `check` may name a step that is used up only if that step has the code. -/
theorem verify_of_unused (hrs : rs.ChecksWindow) {time : Nat} (hseed : a.unwrapDek f.sealed = .ok seed)
    (hnow : a.now = some time) (hbuild : rs.build (TotpEnrollment.config ⟨seed, f.account⟩) = .ok ())
    (h : Unused rs ⟨seed, f.account⟩ f.lastUsedStep time a.code) : ∃ step, f.verify rs a = .ok (some step) := by
  obtain ⟨step, hcode, hwindow⟩ := h.known
  obtain ⟨found, hfound⟩ := hrs.complete hcode hwindow
  obtain ⟨hsame, hnear⟩ := hrs.sound hfound
  have hlater : (f.lastUsedStep.all fun last => decide (found > last)) = true := by
    rw [Option.all_eq_true]
    intro last hlast
    rw [decide_eq_true_eq]
    by_contra hle
    exact h.unused last hlast found (Nat.not_lt.1 hle) hnear hsame
  refine ⟨found, ?_⟩
  simp [Factor.verify, unsealSeed, hseed, Except.mapError, TotpEnrollment.verifyStepNow, hnow, unixNow,
    TotpEnrollment.verifyStepAt, TotpEnrollment.totp, hbuild, hfound, Option.filter_some, hlater, bind, Except.bind]

theorem after_sealed_account (rs : TotpRs) (f : Factor) (a : Attempt) :
    (f.after rs a).sealed = f.sealed ∧ (f.after rs a).account = f.account := by
  unfold Factor.after
  split <;> exact ⟨rfl, rfl⟩

theorem afterAll_sealed_account (rs : TotpRs) (f : Factor) (as : List Attempt) :
    (f.afterAll rs as).sealed = f.sealed ∧ (f.afterAll rs as).account = f.account := by
  induction as generalizing f with
  | nil => exact ⟨rfl, rfl⟩
  | cons a as ih =>
    obtain ⟨hsealed, haccount⟩ := after_sealed_account rs f a
    obtain ⟨hsealed', haccount'⟩ := ih (f.after rs a)
    exact ⟨hsealed'.trans hsealed, haccount'.trans haccount⟩

/-- **A step lets one login through.** Whatever codes are presented, whenever,
and whatever the key provider and the clock do: the steps of the logins that
go through increase, each by the code of its step and within one step of its
time. So the logins within `low` and `high` are no more than the steps
between them and three, and no code of a step goes through twice. What is
left of the window is not lost by that: after any attempts, a code that none
of the steps used up has is let through. -/
theorem totp_single_use (hrs : rs.ChecksWindow) (hopens : ∀ a ∈ as, Opens seed f.sealed a) :
    (logins rs f as).Pairwise (fun x y => x.step < y.step) ∧
      (∀ x ∈ logins rs f as, Genuine rs ⟨seed, f.account⟩ x) ∧
      (∀ low high, (∀ a ∈ as, ∀ time ∈ a.now, low ≤ time ∧ time ≤ high) →
        (logins rs f as).length ≤ high / totpStepSecs - low / totpStepSecs + 3) ∧
      ∀ a time, a.unwrapDek f.sealed = .ok seed → a.now = some time →
        rs.build (TotpEnrollment.config ⟨seed, f.account⟩) = .ok () →
        Unused rs ⟨seed, f.account⟩ (f.afterAll rs as).lastUsedStep time a.code →
        ∃ step, (f.afterAll rs as).verify rs a = .ok (some step) := by
  refine ⟨(logins_increasing rs f as).2, fun x hx => (logins_genuine hrs hopens x hx).2,
    fun low high hclock => length_logins_le hrs hopens hclock, fun a time hseed hnow hbuild hunused => ?_⟩
  obtain ⟨hsealed, haccount⟩ := afterAll_sealed_account rs f as
  rw [← hsealed] at hseed
  rw [← haccount] at hbuild hunused
  exact verify_of_unused hrs hseed hnow hbuild hunused

/-! ## A replay -/

/-- The code of a step is that many marks. -/
def marks : TotpRs where
  build _ := .ok ()
  codeOf _ step := String.ofList (List.replicate step 'x')
  check totp code time :=
    (List.range (time / totp.stepDuration + totp.skew + 1)).find? fun step =>
      decide (time / totp.stepDuration ≤ step + totp.skew) && String.ofList (List.replicate step 'x') == code

theorem marks_checksWindow : marks.ChecksWindow where
  sound {totp code time step} h := by
    obtain ⟨hlow, hcode⟩ := by simpa using List.find?_some h
    have hhigh := List.mem_range.1 (List.mem_of_find?_eq_some h)
    exact ⟨hcode, hlow, by omega⟩
  complete {totp code time step} hcode hwindow := by
    obtain ⟨hlow, hhigh⟩ := hwindow
    rw [← Option.isSome_iff_exists, marks, List.find?_isSome]
    refine ⟨step, List.mem_range.2 (by omega), ?_⟩
    simpa [hlow] using (show String.ofList (List.replicate step 'x') = code from hcode)

def wrapped : Bytes := List.replicate 12 0 ++ List.replicate 20 7

def sealedFactor : Factor := ⟨"ada@example.com", wrapped, none⟩

def presented (time : Nat) (code : String) : Attempt :=
  ⟨(Crypto.LocalKek.mk (List.replicate 32 1)).unwrapDek Crypto.plain, some time, code⟩

/-- The code of step 2 at 60 s and once more at 61 s, then that of step 3. -/
def replay : List Attempt := [presented 60 "xx", presented 61 "xx", presented 75 "xxx"]

theorem replay_opens : ∀ a ∈ replay, Opens (List.replicate 20 7) sealedFactor.sealed a := by
  intro a ha
  have hsealed : TotpEnrollment.sealSeed ⟨List.replicate 20 7, "ada@example.com"⟩ (Crypto.LocalKek.wrapDek Crypto.plain
    ⟨List.replicate 32 1⟩ ⟨List.replicate 12 0, by decide⟩) = .ok wrapped := rfl
  refine opens_localKek Crypto.plain_inverts hsealed ?_
  simp only [replay, List.mem_cons, List.not_mem_nil, or_false] at ha
  obtain rfl | rfl | rfl := ha <;> rfl

theorem replay_lastUsedStep : (sealedFactor.afterAll marks replay).lastUsedStep = some 3 := by decide +kernel

theorem totp_single_use_replay :
    (logins marks sealedFactor replay).map (·.step) = [2, 3] ∧
      (logins marks sealedFactor replay).Pairwise (fun x y => x.step < y.step) ∧
      ∃ step, (sealedFactor.afterAll marks replay).verify marks (presented 100 "xxxx") = .ok (some step) := by
  obtain ⟨hinc, -, -, hfresh⟩ := totp_single_use marks_checksWindow replay_opens
  refine ⟨by decide +kernel, hinc, hfresh (presented 100 "xxxx") 100 rfl rfl rfl ⟨⟨4, rfl, by decide, by decide⟩, ?_⟩⟩
  intro last hlast step hstep _ hcode
  rw [replay_lastUsedStep, Option.mem_def, Option.some.injEq] at hlast
  have hlen : step = 4 := by simpa [marks] using (congrArg String.length hcode).trans (show "xxxx".length = 4 from rfl)
  omega

end FerrKit.Auth.TwoFactor
