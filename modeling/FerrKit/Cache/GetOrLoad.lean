/-
One call of `get_or_load` (`crates/cache/src/swr.rs`), by all its exits. What
Valkey answers to each command is anything at all: an error, nothing, a text
that does not decode, a value somebody else has put there. So other callers
need no model of their own here; what they do to Valkey is in the answers.
The lock they take from each other is in `FerrKit.Cache.SwrLock`.

Decoding (`serde_json::from_str`) is a parameter. Left out: the key, the
expiry of what is stored, the sleep between two polls, and what the
background refresh does once it is spawned.
-/
import FerrKit.Lib.Duration
import FerrKit.Lib.Runs

namespace FerrKit.Cache.GetOrLoad

open Runs

structure Envelope (T : Type) where
  tsMs : Nat
  payload : T

structure Swr where
  freshTtl : Duration
  lockTtl : Duration
  bypass : Bool

def pollIntervalMillis : Nat := 25

/-- `max_polls`. -/
def Swr.maxPolls (swr : Swr) : Nat := max (swr.lockTtl.asMillis / max pollIntervalMillis 1) 1

/-- `Duration::from_millis(now_ms().saturating_sub(ts_ms)) < fresh_ttl`. -/
def Swr.fresh {T : Type} (swr : Swr) (nowMs : Nat) (env : Envelope T) : Bool :=
  (nowMs - env.tsMs) * nanosPerMilli < swr.freshTtl.asNanos

variable {T E : Type}

/-- What the loader is run for in the foreground. -/
inductive Reason
  | bypass
  /-- The first `GET` has failed. -/
  | direct
  | lockWon
  | lastResort
  deriving DecidableEq

/-- What the call is waiting for. -/
inductive Phase (T E : Type)
  /-- The first `GET`. -/
  | reading
  /-- `SET NX`. -/
  | locking
  /-- The `GET` of a poll, after this many polls. -/
  | polling (polls : Nat)
  | loading (reason : Reason)
  /-- The `SET` of the value it has loaded. -/
  | storing (value : T) (locked : Bool)
  /-- `DEL`. -/
  | releasing (result : Except E T)
  | returned (result : Except E T)

/-- The call, and what has happened in it: how often the loader was started
and what it returned, the texts that came out of the cache, the turns of the
polling loop and the refreshes spawned. -/
structure St (T E : Type) where
  phase : Phase T E
  started : Nat := 0
  loads : List (Except E T) := []
  texts : List String := []
  polls : Nat := 0
  refreshes : Nat := 0

/-- An answer. Where it is an `Except`, the error is the command's. -/
inductive Action (T E : Type)
  | got (answer : Except Unit (Option String)) (nowMs : Nat)
  | locked (answer : Except Unit Bool)
  | loaded (result : Except E T)
  | stored (answer : Except Unit Unit)
  | deleted (answer : Except Unit Unit)

def St.goto (s : St T E) (phase : Phase T E) : St T E := { s with phase }

def St.load (s : St T E) (reason : Reason) : St T E := { s with phase := .loading reason, started := s.started + 1 }

def init (swr : Swr) : St T E :=
  if swr.bypass then { phase := .loading .bypass, started := 1 } else { phase := .reading }

section Step

variable (swr : Swr) (decode : String → Option (Envelope T))

/-- The text in an answer to `GET`. -/
def textOf : Except Unit (Option String) → Option String
  | .ok raw => raw
  | .error _ => none

def St.saw (s : St T E) (answer : Except Unit (Option String)) : St T E :=
  { s with texts := s.texts ++ (textOf answer).toList }

/-- After the first `GET`. -/
def St.read (s : St T E) (answer : Except Unit (Option String)) (nowMs : Nat) : St T E :=
  match answer with
  | .error _ => s.load .direct
  | .ok raw =>
    match raw.bind decode with
    | some env =>
      if swr.fresh nowMs env then (s.saw answer).goto (.returned (.ok env.payload))
      else { s.saw answer with refreshes := s.refreshes + 1 }.goto (.returned (.ok env.payload))
    | none => (s.saw answer).goto .locking

/-- The next turn of the polling loop, or the end of it. -/
def St.pollAgain (s : St T E) (n : Nat) : St T E :=
  if n < swr.maxPolls then s.goto (.polling n) else s.load .lastResort

/-- After a poll. An error, nothing, a text that does not decode and a stale
value are all one. -/
def St.poll (s : St T E) (n : Nat) (answer : Except Unit (Option String)) (nowMs : Nat) : St T E :=
  let s := { s.saw answer with polls := s.polls + 1 }
  match (textOf answer).bind decode with
  | some env => if swr.fresh nowMs env then s.goto (.returned (.ok env.payload)) else s.pollAgain swr (n + 1)
  | none => s.pollAgain swr (n + 1)

/-- After the loader. -/
def St.finish (s : St T E) (reason : Reason) (result : Except E T) : St T E :=
  let s := { s with loads := s.loads ++ [result] }
  match reason, result with
  | .direct, result => s.goto (.returned result)
  | .lockWon, .ok value => s.goto (.storing value true)
  | .lockWon, .error e => s.goto (.releasing (.error e))
  | _, .ok value => s.goto (.storing value false)
  | _, .error e => s.goto (.returned (.error e))

def step (s : St T E) (a : Action T E) : Option (St T E) :=
  match s.phase, a with
  | .reading, .got answer nowMs => some (s.read swr decode answer nowMs)
  | .locking, .locked (.ok true) => some (s.load .lockWon)
  | .locking, .locked _ => some (s.goto (.polling 0))
  | .polling n, .got answer nowMs => some (s.poll swr decode n answer nowMs)
  | .loading reason, .loaded result => some (s.finish reason result)
  | .storing value locked, .stored _ =>
    -- what became of the `SET` is not looked at, nor of the `DEL`
    some (s.goto (if locked then .releasing (.ok value) else .returned (.ok value)))
  | .releasing result, .deleted _ => some (s.goto (.returned result))
  | _, _ => none

end Step

/-! ## What a step can do -/

/-- Every step, with where it was taken. -/
inductive StepR (swr : Swr) (decode : String → Option (Envelope T)) (s : St T E) : St T E → Prop
  | read {answer nowMs} : s.phase = .reading → StepR swr decode s (s.read swr decode answer nowMs)
  | won : s.phase = .locking → StepR swr decode s (s.load .lockWon)
  | lost : s.phase = .locking → StepR swr decode s (s.goto (.polling 0))
  | polled {n answer nowMs} : s.phase = .polling n → StepR swr decode s (s.poll swr decode n answer nowMs)
  | loaded {reason result} : s.phase = .loading reason → StepR swr decode s (s.finish reason result)
  | storedLocked {value} : s.phase = .storing value true → StepR swr decode s (s.goto (.releasing (.ok value)))
  | stored {value} : s.phase = .storing value false → StepR swr decode s (s.goto (.returned (.ok value)))
  | released {result} : s.phase = .releasing result → StepR swr decode s (s.goto (.returned result))

variable {swr : Swr} {decode : String → Option (Envelope T)} {s t : St T E} {a : Action T E}

theorem step_inv (h : step swr decode s a = some t) : StepR swr decode s t := by
  unfold step at h
  split at h
  · next hphase => cases h; exact .read hphase
  · next hphase => cases h; exact .won hphase
  · next hphase => cases h; exact .lost hphase
  · next hphase => cases h; exact .polled hphase
  · next hphase => cases h; exact .loaded hphase
  · next locked _ hphase =>
    cases h
    cases locked
    · exact .stored hphase
    · exact .storedLocked hphase
  · next hphase => cases h; exact .released hphase
  · cases h

/-! ## Every call -/

/-- The payload of an envelope that was decoded from the cache. -/
def St.Cached (decode : String → Option (Envelope T)) (s : St T E) (value : T) : Prop :=
  ∃ raw ∈ s.texts, ∃ env, decode raw = some env ∧ env.payload = value

/-- The loader has not been run. -/
def St.Unloaded (s : St T E) : Prop := s.loads = [] ∧ s.started = 0

/-- What is behind a result: this call's one run of the loader, or the cache,
and then the loader has not been run. -/
def St.Backed (decode : String → Option (Envelope T)) (s : St T E) (result : Except E T) : Prop :=
  (s.loads = [result] ∧ s.started = 1) ∨ (s.Unloaded ∧ ∃ value, result = .ok value ∧ s.Cached decode value)

/-- What holds while the call waits. -/
def St.Waits (swr : Swr) (decode : String → Option (Envelope T)) (s : St T E) : Phase T E → Prop
  | .reading | .locking => s.Unloaded ∧ s.polls = 0
  | .polling n => s.Unloaded ∧ s.polls = n ∧ n < swr.maxPolls
  | .loading _ => s.loads = [] ∧ s.started = 1 ∧ s.polls ≤ swr.maxPolls
  | .storing value _ => s.loads = [.ok value] ∧ s.started = 1 ∧ s.polls ≤ swr.maxPolls
  | .releasing result => s.loads = [result] ∧ s.started = 1 ∧ s.polls ≤ swr.maxPolls
  | .returned result => s.Backed decode result ∧ s.polls ≤ swr.maxPolls

def Inv (swr : Swr) (decode : String → Option (Envelope T)) (s : St T E) : Prop := s.Waits swr decode s.phase

theorem Inv.waits {phase : Phase T E} (hi : Inv swr decode s) (hphase : s.phase = phase) : s.Waits swr decode phase :=
  hphase ▸ hi

theorem maxPolls_pos (swr : Swr) : 0 < swr.maxPolls := Nat.lt_of_lt_of_le Nat.one_pos (Nat.le_max_right ..)

theorem inv_init (swr : Swr) : Inv swr decode (init swr : St T E) := by
  unfold init
  split
  · exact ⟨rfl, rfl, Nat.zero_le _⟩
  · exact ⟨⟨rfl, rfl⟩, rfl⟩

theorem cached_saw {answer : Except Unit (Option String)} {env : Envelope T}
    (h : (textOf answer).bind decode = some env) : (s.saw answer).Cached decode env.payload := by
  obtain ⟨raw, hraw, henv⟩ := Option.bind_eq_some_iff.1 h
  exact ⟨raw, by simp [St.saw, hraw], env, henv, rfl⟩

theorem inv_read {answer : Except Unit (Option String)} {nowMs : Nat} (hu : s.Unloaded) (hp : s.polls = 0) :
    Inv swr decode (s.read swr decode answer nowMs) := by
  have hpolls : s.polls ≤ swr.maxPolls := by omega
  unfold St.read
  split
  · exact ⟨hu.1, congrArg Nat.succ hu.2, hpolls⟩
  · next raw =>
    split
    · next env henv =>
      have hcached : (s.saw (.ok raw)).Cached decode env.payload := cached_saw henv
      split <;> exact ⟨.inr ⟨hu, env.payload, rfl, hcached⟩, hpolls⟩
    · exact ⟨hu, hp⟩

theorem inv_pollAgain {n : Nat} (hu : s.Unloaded) (hp : s.polls = n) (hn : n ≤ swr.maxPolls) :
    Inv swr decode (s.pollAgain swr n) := by
  unfold St.pollAgain
  split
  · next hlt => exact ⟨hu, hp, hlt⟩
  · exact ⟨hu.1, congrArg Nat.succ hu.2, hp ▸ hn⟩

theorem inv_poll {n : Nat} {answer : Except Unit (Option String)} {nowMs : Nat} (hu : s.Unloaded) (hp : s.polls = n)
    (hn : n < swr.maxPolls) : Inv swr decode (s.poll swr decode n answer nowMs) := by
  have hcount : s.polls + 1 = n + 1 := by rw [hp]
  unfold St.poll
  simp only
  split
  · next env henv =>
    split
    · exact ⟨.inr ⟨hu, env.payload, rfl, cached_saw henv⟩, Nat.le_trans (Nat.le_of_eq hcount) hn⟩
    · exact inv_pollAgain hu hcount hn
  · exact inv_pollAgain hu hcount hn

theorem inv_finish {reason : Reason} {result : Except E T} (hl : s.loads = []) (hs : s.started = 1)
    (hp : s.polls ≤ swr.maxPolls) : Inv swr decode (s.finish reason result) := by
  have hloads : s.loads ++ [result] = [result] := by rw [hl]; rfl
  unfold St.finish
  simp only [hloads]
  split
  · exact ⟨.inl ⟨rfl, hs⟩, hp⟩
  · exact ⟨rfl, hs, hp⟩
  · exact ⟨rfl, hs, hp⟩
  · exact ⟨rfl, hs, hp⟩
  · exact ⟨.inl ⟨rfl, hs⟩, hp⟩

theorem step_keeps_inv (hi : Inv swr decode s) (h : step swr decode s a = some t) : Inv swr decode t := by
  cases step_inv h with
  | read hphase =>
    obtain ⟨hu, hp⟩ := hi.waits hphase
    exact inv_read hu hp
  | won hphase =>
    obtain ⟨hu, hp⟩ := hi.waits hphase
    exact ⟨hu.1, congrArg Nat.succ hu.2, Nat.le_trans (Nat.le_of_eq hp) (Nat.zero_le _)⟩
  | lost hphase =>
    obtain ⟨hu, hp⟩ := hi.waits hphase
    exact ⟨hu, hp, maxPolls_pos swr⟩
  | polled hphase =>
    obtain ⟨hu, hp, hn⟩ := hi.waits hphase
    exact inv_poll hu hp hn
  | loaded hphase =>
    obtain ⟨hl, hs, hp⟩ := hi.waits hphase
    exact inv_finish hl hs hp
  | storedLocked hphase => exact hi.waits hphase
  | stored hphase | released hphase =>
    obtain ⟨hl, hs, hp⟩ := hi.waits hphase
    exact ⟨.inl ⟨hl, hs⟩, hp⟩

/-- The loader is started at most once, and the polls are counted. -/
theorem Inv.started_le (hi : Inv swr decode s) : s.started ≤ 1 ∧ s.polls ≤ swr.maxPolls := by
  cases hphase : s.phase with
  | reading | locking =>
    obtain ⟨⟨-, hs⟩, hp⟩ := hi.waits hphase
    omega
  | polling n =>
    obtain ⟨⟨-, hs⟩, hp, hn⟩ := hi.waits hphase
    omega
  | loading | storing | releasing =>
    obtain ⟨-, hs, hp⟩ := hi.waits hphase
    omega
  | returned result =>
    obtain ⟨⟨-, hs⟩ | ⟨⟨-, hs⟩, -⟩, hp⟩ := hi.waits hphase
    all_goals omega

/-! ## A call ends -/

/-- How many answers a call can still take. -/
def Phase.remaining (swr : Swr) : Phase T E → Nat
  | .reading => swr.maxPolls + 5
  | .locking => swr.maxPolls + 4
  | .polling n => swr.maxPolls - n + 3
  | .loading _ => 3
  | .storing _ _ => 2
  | .releasing _ => 1
  | .returned _ => 0

theorem read_lowers {answer : Except Unit (Option String)} {nowMs : Nat} :
    (s.read swr decode answer nowMs).phase.remaining swr < swr.maxPolls + 5 := by
  unfold St.read
  split
  · show 3 < _
    omega
  · split
    · split <;> exact Nat.succ_pos _
    · exact Nat.lt_succ_self _

theorem pollAgain_lowers {n : Nat} (hn : n < swr.maxPolls) :
    (s.pollAgain swr (n + 1)).phase.remaining swr < swr.maxPolls - n + 3 := by
  unfold St.pollAgain
  split
  · show swr.maxPolls - (n + 1) + 3 < _
    omega
  · show 3 < _
    omega

theorem poll_lowers {n : Nat} {answer : Except Unit (Option String)} {nowMs : Nat} (hn : n < swr.maxPolls) :
    (s.poll swr decode n answer nowMs).phase.remaining swr < swr.maxPolls - n + 3 := by
  unfold St.poll
  simp only
  split
  · split
    · exact Nat.succ_pos _
    · exact pollAgain_lowers hn
  · exact pollAgain_lowers hn

theorem finish_lowers {reason : Reason} {result : Except E T} :
    (s.finish reason result).phase.remaining swr < 3 := by
  unfold St.finish
  simp only
  split <;> simp [St.goto, Phase.remaining]

theorem step_lowers (hi : Inv swr decode s) (h : step swr decode s a = some t) :
    t.phase.remaining swr < s.phase.remaining swr := by
  cases step_inv h with
  | read hphase =>
    rw [hphase]
    exact read_lowers
  | won hphase =>
    rw [hphase]
    show 3 < swr.maxPolls + 4
    omega
  | polled hphase =>
    have hn := (hi.waits hphase).2.2
    rw [hphase]
    exact poll_lowers hn
  | loaded hphase =>
    rw [hphase]
    exact finish_lowers
  | stored hphase =>
    rw [hphase]
    exact Nat.succ_pos _
  | lost hphase | storedLocked hphase | released hphase =>
    rw [hphase]
    exact Nat.lt_succ_self _

/-- **A call takes at most `max_polls` and five answers.** -/
theorem run_length_le {as : List (Action T E)} (h : run (step swr decode) (init swr) as = some s) :
    as.length ≤ swr.maxPolls + 5 := by
  have hrun := length_add_measure_le (fun hi hs => step_keeps_inv hi hs) (fun hi hs => step_lowers hi hs) h
    (inv_init swr)
  have hinit : (init swr : St T E).phase.remaining swr ≤ swr.maxPolls + 5 := by
    unfold init
    split
    · exact Nat.le_add_left 3 (swr.maxPolls + 2)
    · exact Nat.le_refl _
  omega

/-- Until it has returned there is an answer it waits for. -/
theorem answer_taken (s : St T E) (value : T) (h : ∀ result, s.phase ≠ .returned result) :
    ∃ a, (step swr decode s a).isSome := by
  unfold step
  cases hphase : s.phase with
  | reading | polling n => exact ⟨.got (.ok none) 0, rfl⟩
  | locking => exact ⟨.locked (.ok true), rfl⟩
  | loading reason => exact ⟨.loaded (.ok value), rfl⟩
  | storing value locked => exact ⟨.stored (.ok ()), rfl⟩
  | releasing result => exact ⟨.deleted (.ok ()), rfl⟩
  | returned result => exact absurd hphase (h result)

/-! ## What a call returns -/

/-- **What a call returns, whatever Valkey answers.** An error is the error
of its loader. A value is the value of its one run of the loader, or the
payload of an envelope decoded from the cache. The loader is started at most
once, and the loop polls at most `lock_ttl / 25 ms` times, or once. -/
theorem getOrLoad_exits {as : List (Action T E)} (h : run (step swr decode) (init swr) as = some s) :
    (∀ e, s.phase = .returned (.error e) → s.loads = [.error e]) ∧
      (∀ value, s.phase = .returned (.ok value) → s.loads = [.ok value] ∨ s.Cached decode value) ∧
      s.started ≤ 1 ∧ s.polls ≤ max (swr.lockTtl.asMillis / 25) 1 := by
  have hi : Inv swr decode s := invariant_run (fun hi hs => step_keeps_inv hi hs) h (inv_init swr)
  refine ⟨?_, ?_, hi.started_le⟩
  · intro e hr
    obtain ⟨hloads, -⟩ | ⟨-, _, hok, -⟩ := (hi.waits hr).1
    · exact hloads
    · cases hok
  · intro value hr
    obtain ⟨hloads, -⟩ | ⟨-, _, hok, hcached⟩ := (hi.waits hr).1
    · exact .inl hloads
    · cases hok
      exact .inr hcached

/-- A lock of 50 ms, and so two polls. -/
def twoPolls : Swr := ⟨.fromSecs 60, ⟨0, 50 * nanosPerMilli, by decide, by decide⟩, false⟩

/-- Every command goes wrong in its own way, and then the loader does. -/
def nothingWorks : List (Action Nat String) :=
  [.got (.ok (some "junk")) 0, .locked (.error ()), .got (.error ()) 25, .got (.ok none) 50, .loaded (.error "down")]

theorem getOrLoad_exits_nothingWorks : ∃ s : St Nat String,
    run (step twoPolls fun _ => none) (init twoPolls) nothingWorks = some s ∧
      s.phase = .returned (.error "down") ∧ s.loads = [.error "down"] ∧ s.started ≤ 1 ∧ s.polls ≤ 2 := by
  have hrun : ∃ s, run (step twoPolls fun _ => none) (init twoPolls) nothingWorks = some s ∧
      s.phase = .returned (.error "down") := ⟨_, rfl, rfl⟩
  obtain ⟨s, hs, hphase⟩ := hrun
  have hmax : max (twoPolls.lockTtl.asMillis / 25) 1 = 2 := by decide
  obtain ⟨herr, -, hstarted, hpolls⟩ := getOrLoad_exits hs
  exact ⟨s, hs, hphase, herr "down" hphase, hstarted, hmax ▸ hpolls⟩

end FerrKit.Cache.GetOrLoad
