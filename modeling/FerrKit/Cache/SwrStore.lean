/-
Many calls of `get_or_load` and the refreshes they spawn, on one key
(`crates/cache/src/swr.rs`). Each call is a call of `FerrKit.Cache.GetOrLoad`,
and here one Valkey answers all of them: it holds the value, the lock and
their expiry, and a command is one step.

A command may be lost on the way there (`ran`) or its answer on the way back
(`acked`, `heard`), the key may be evicted, loaders take as long as they
take, and every host has its own wall clock. `loads` and `stores` are not in
the program: they record what loaders have returned and which `SET`s Valkey
has run.

What comes out of the cache is then a value some loader has returned, stored
less than its `hard_ttl` ago (`SwrServes`); a value that is served as fresh
is as young as `fresh_ttl` says when the clocks are right; and while a stored
value lasts no call loads.
-/
import FerrKit.Cache.GetOrLoad
import FerrKit.Cache.SwrLock

namespace FerrKit.Cache.SwrStore

open Runs GetOrLoad

/-- `serde_json::to_string` and `from_str` on envelopes. -/
structure Codec (T : Type) where
  toString : Envelope T → Option String
  fromStr : String → Option (Envelope T)

/-- What is written is read back as it was. The bound on `T` does not say so:
a field that is skipped, or a float that is not finite, is lost on the way. -/
def Codec.RoundTrips {T : Type} (c : Codec T) : Prop :=
  ∀ env raw, c.toString env = some raw → c.fromStr raw = some env

/-- `hard_ttl.as_millis() as i64`. -/
def hardPx (hardTtl : Duration) : Int := (hardTtl.asMillis : Int).bmod (2 ^ 64)

/-- A value a loader has returned: the wall clock then (`ts_ms`), and the
time. -/
structure Load (T : Type) where
  payload : T
  tsMs : Nat
  loadedAt : Int

/-- A `SET` of the key that Valkey has run. -/
structure Store (T : Type) where
  load : Load T
  hardTtl : Duration
  storedAt : Int

/-- What is under the key. -/
structure Entry where
  raw : String
  expiresAt : Int

/-- `tsMs` and `loadedAt` are of the value the call has loaded. -/
structure Call (T E : Type) where
  swr : Swr
  hardTtl : Duration
  tsMs : Nat := 0
  loadedAt : Int := 0
  st : GetOrLoad.St T E

inductive RefreshPhase (T : Type)
  | locking
  | loading
  | storing (load : Load T)
  | releasing
  | ended

/-- A task of `spawn_refresh`. -/
structure Refresh (T : Type) where
  hardTtl : Duration
  lockTtl : Duration
  phase : RefreshPhase T

/-- Time in nanoseconds. `lock` is when the lock expires. -/
structure Sys (T E : Type) where
  now : Int
  entry : Option Entry := none
  lock : Option Int := none
  calls : List (Call T E) := []
  refreshes : List (Refresh T) := []
  loads : List (Load T) := []
  stores : List (Store T) := []

inductive Action (T E : Type)
  | tick (d : Nat)
  | evict
  | call (swr : Swr) (hardTtl : Duration)
  | get (i : Nat) (heard : Bool) (nowMs : Nat)
  | setNx (i : Nat) (ran acked : Bool)
  | load (i : Nat) (result : Except E T) (nowMs : Nat)
  | set (i : Nat) (ran : Bool)
  | del (i : Nat) (ran : Bool)
  | refreshSetNx (j : Nat) (ran acked : Bool)
  | refreshLoad (j : Nat) (result : Except E T) (nowMs : Nat)
  | refreshSet (j : Nat) (ran : Bool)
  | refreshDel (j : Nat) (ran : Bool)

variable {T E : Type}

def Load.envelope (l : Load T) : Envelope T := ⟨l.tsMs, l.payload⟩

def Store.expiresAt (st : Store T) : Int := st.storedAt + hardPx st.hardTtl * nanosPerMilli

/-! ## Valkey -/

/-- `GET key`. -/
def Sys.get (s : Sys T E) : Option String :=
  s.entry.bind fun e => if s.now < e.expiresAt then some e.raw else none

/-- `SET lock "1" NX PX ..`, and whether it has set the lock. -/
def Sys.setNx (s : Sys T E) (lockTtl : Duration) (ran : Bool) : Sys T E × Bool :=
  if ran && decide (0 < lockPx lockTtl) && !s.lock.any fun expiresAt => decide (s.now < expiresAt) then
    ({ s with lock := some (s.now + lockPx lockTtl * nanosPerMilli) }, true)
  else (s, false)

/-- `SET key json PX ..`. An envelope that does not serialise is not sent, and
Valkey refuses an expiry that is not positive. -/
def Sys.set (c : Codec T) (s : Sys T E) (l : Load T) (hardTtl : Duration) (ran : Bool) : Sys T E :=
  match c.toString l.envelope with
  | none => s
  | some raw =>
    if ran && decide (0 < hardPx hardTtl) then
      { s with
        entry := some ⟨raw, s.now + hardPx hardTtl * nanosPerMilli⟩
        stores := s.stores ++ [⟨l, hardTtl, s.now⟩] }
    else s

/-- `DEL lock`. -/
def Sys.del (s : Sys T E) (ran : Bool) : Sys T E := { s with lock := if ran then none else s.lock }

/-- A loader returns. -/
def Sys.logLoad (s : Sys T E) (result : Except E T) (nowMs : Nat) : Sys T E :=
  match result with
  | .ok value => { s with loads := s.loads ++ [⟨value, nowMs, s.now⟩] }
  | .error _ => s

/-! ## Calls and refreshes -/

/-- A call goes on to `st`; when it has found a stale value, it spawns a
refresh. -/
def Sys.advance (s : Sys T E) (i : Nat) (call : Call T E) (st : GetOrLoad.St T E) : Sys T E :=
  { s with
    calls := s.calls.set i { call with st }
    refreshes :=
      if call.st.refreshes < st.refreshes then s.refreshes ++ [⟨call.hardTtl, call.swr.lockTtl, .locking⟩]
      else s.refreshes }

/-- A call takes an answer. -/
def Sys.answer (c : Codec T) (s : Sys T E) (i : Nat) (call : Call T E) (a : GetOrLoad.Action T E) :
    Option (Sys T E) :=
  (GetOrLoad.step call.swr c.fromStr call.st a).map (s.advance i call)

def Sys.goto (s : Sys T E) (j : Nat) (r : Refresh T) (phase : RefreshPhase T) : Sys T E :=
  { s with refreshes := s.refreshes.set j { r with phase } }

/-- After the refresh's loader. The error is only logged. -/
def refreshLoaded (s : Sys T E) (result : Except E T) (nowMs : Nat) : RefreshPhase T :=
  match result with
  | .ok value => .storing ⟨value, nowMs, s.now⟩
  | .error _ => .releasing

def step (c : Codec T) (s : Sys T E) : Action T E → Option (Sys T E)
  | .tick d => some { s with now := s.now + d }
  | .evict => some { s with entry := none }
  | .call swr hardTtl =>
    some { s with calls := s.calls ++ [{ swr := swr, hardTtl := hardTtl, st := GetOrLoad.init swr }] }
  | .get i heard nowMs => do
    let call ← s.calls[i]?
    s.answer c i call (.got (if heard then .ok s.get else .error ()) nowMs)
  | .setNx i ran acked => do
    let call ← s.calls[i]?
    let (s, won) := s.setNx call.swr.lockTtl ran
    s.answer c i call (.locked (if acked then .ok won else .error ()))
  | .load i result nowMs => do
    let call ← s.calls[i]?
    (s.logLoad result nowMs).answer c i { call with tsMs := nowMs, loadedAt := s.now } (.loaded result)
  | .set i ran => do
    let call ← s.calls[i]?
    match call.st.phase with
    | .storing value _ =>
      (s.set c ⟨value, call.tsMs, call.loadedAt⟩ call.hardTtl ran).answer c i call (.stored (.ok ()))
    | _ => none
  | .del i ran => do
    let call ← s.calls[i]?
    (s.del ran).answer c i call (.deleted (.ok ()))
  | .refreshSetNx j ran acked => do
    let r ← s.refreshes[j]?
    match r.phase with
    | .locking =>
      let (s, won) := s.setNx r.lockTtl ran
      some (s.goto j r (if acked && won then .loading else .ended))
    | _ => none
  | .refreshLoad j result nowMs => do
    let r ← s.refreshes[j]?
    match r.phase with
    | .loading => some ((s.logLoad result nowMs).goto j r (refreshLoaded s result nowMs))
    | _ => none
  | .refreshSet j ran => do
    let r ← s.refreshes[j]?
    match r.phase with
    | .storing l => some ((s.set c l r.hardTtl ran).goto j r .releasing)
    | _ => none
  | .refreshDel j ran => do
    let r ← s.refreshes[j]?
    match r.phase with
    | .releasing => some ((s.del ran).goto j r .ended)
    | _ => none

/-- Nothing under the key, and nobody there. -/
def init (now : Int) : Sys T E := { now := now }

/-! ## What a step can do -/

/-- What Valkey answers to a `GET`, as the caller sees it. -/
def Sys.reply (s : Sys T E) (heard : Bool) : Except Unit (Option String) := if heard then .ok s.get else .error ()

/-- Every step, with what it needs. -/
inductive StepR (c : Codec T) (s : Sys T E) : Action T E → Sys T E → Prop
  | tick {d} : StepR c s (.tick d) { s with now := s.now + d }
  | evict : StepR c s .evict { s with entry := none }
  | call {swr hardTtl} : StepR c s (.call swr hardTtl)
      { s with calls := s.calls ++ [{ swr := swr, hardTtl := hardTtl, st := GetOrLoad.init swr }] }
  | get {i heard nowMs call st} (hc : s.calls[i]? = some call)
      (hst : GetOrLoad.step call.swr c.fromStr call.st (.got (s.reply heard) nowMs) = some st) :
      StepR c s (.get i heard nowMs) (s.advance i call st)
  | setNx {i ran acked call answer st} (hc : s.calls[i]? = some call)
      (hst : GetOrLoad.step call.swr c.fromStr call.st (.locked answer) = some st) :
      StepR c s (.setNx i ran acked) ((s.setNx call.swr.lockTtl ran).1.advance i call st)
  | load {i result nowMs call st} (hc : s.calls[i]? = some call)
      (hst : GetOrLoad.step call.swr c.fromStr call.st (.loaded result) = some st) :
      StepR c s (.load i result nowMs)
        ((s.logLoad result nowMs).advance i { call with tsMs := nowMs, loadedAt := s.now } st)
  | set {i ran call value locked st} (hc : s.calls[i]? = some call) (hphase : call.st.phase = .storing value locked)
      (hst : GetOrLoad.step call.swr c.fromStr call.st (.stored (.ok ())) = some st) :
      StepR c s (.set i ran)
        ((s.set c ⟨value, call.tsMs, call.loadedAt⟩ call.hardTtl ran).advance i call st)
  | del {i ran call st} (hc : s.calls[i]? = some call)
      (hst : GetOrLoad.step call.swr c.fromStr call.st (.deleted (.ok ())) = some st) :
      StepR c s (.del i ran) ((s.del ran).advance i call st)
  | refreshSetNx {j ran acked r phase} (hr : s.refreshes[j]? = some r) (hphase : ∀ l, phase ≠ .storing l) :
      StepR c s (.refreshSetNx j ran acked) ((s.setNx r.lockTtl ran).1.goto j r phase)
  | refreshLoad {j result nowMs r} (hr : s.refreshes[j]? = some r) :
      StepR c s (.refreshLoad j result nowMs) ((s.logLoad result nowMs).goto j r (refreshLoaded s result nowMs))
  | refreshSet {j ran r l} (hr : s.refreshes[j]? = some r) (hphase : r.phase = .storing l) :
      StepR c s (.refreshSet j ran) ((s.set c l r.hardTtl ran).goto j r .releasing)
  | refreshDel {j ran r} (hr : s.refreshes[j]? = some r) :
      StepR c s (.refreshDel j ran) ((s.del ran).goto j r .ended)

variable {c : Codec T} {s t : Sys T E} {a : Action T E}

theorem answer_some {i : Nat} {call : Call T E} {b : GetOrLoad.Action T E} (h : s.answer c i call b = some t) :
    ∃ st, GetOrLoad.step call.swr c.fromStr call.st b = some st ∧ t = s.advance i call st := by
  obtain ⟨st, hst, rfl⟩ := Option.map_eq_some_iff.1 h
  exact ⟨st, hst, rfl⟩

theorem step_inv (h : step c s a = some t) : StepR c s a t := by
  cases a with
  | tick d => cases h; exact .tick
  | evict => cases h; exact .evict
  | call swr hardTtl => cases h; exact .call
  | get i heard nowMs =>
    obtain ⟨call, hc, h⟩ := Option.bind_eq_some_iff.1 h
    obtain ⟨st, hst, rfl⟩ := answer_some h
    exact .get hc hst
  | setNx i ran acked =>
    obtain ⟨call, hc, h⟩ := Option.bind_eq_some_iff.1 h
    obtain ⟨st, hst, rfl⟩ := answer_some h
    exact .setNx hc hst
  | load i result nowMs =>
    obtain ⟨call, hc, h⟩ := Option.bind_eq_some_iff.1 h
    obtain ⟨st, hst, rfl⟩ := answer_some h
    exact .load hc hst
  | set i ran =>
    obtain ⟨call, hc, h⟩ := Option.bind_eq_some_iff.1 h
    split at h
    · next value locked hphase =>
      obtain ⟨st, hst, rfl⟩ := answer_some h
      exact .set hc hphase hst
    · cases h
  | del i ran =>
    obtain ⟨call, hc, h⟩ := Option.bind_eq_some_iff.1 h
    obtain ⟨st, hst, rfl⟩ := answer_some h
    exact .del hc hst
  | refreshSetNx j ran acked =>
    obtain ⟨r, hr, h⟩ := Option.bind_eq_some_iff.1 h
    split at h
    · cases h
      exact .refreshSetNx hr (by intro l; split <;> simp)
    · cases h
  | refreshLoad j result nowMs =>
    obtain ⟨r, hr, h⟩ := Option.bind_eq_some_iff.1 h
    split at h
    · cases h; exact .refreshLoad hr
    · cases h
  | refreshSet j ran =>
    obtain ⟨r, hr, h⟩ := Option.bind_eq_some_iff.1 h
    split at h
    · next l hphase => cases h; exact .refreshSet hr hphase
    · cases h
  | refreshDel j ran =>
    obtain ⟨r, hr, h⟩ := Option.bind_eq_some_iff.1 h
    split at h
    · cases h; exact .refreshDel hr
    · cases h

/-! ## What a command leaves alone -/

/-- The two states agree on the key, the logs and the time. -/
structure SameStore (s t : Sys T E) : Prop where
  now : t.now = s.now
  entry : t.entry = s.entry
  loads : t.loads = s.loads
  stores : t.stores = s.stores

theorem sameStore_setNx (lockTtl : Duration) (ran : Bool) : SameStore s (s.setNx lockTtl ran).1 := by
  unfold Sys.setNx
  split <;> exact ⟨rfl, rfl, rfl, rfl⟩

theorem setNx_calls (lockTtl : Duration) (ran : Bool) : (s.setNx lockTtl ran).1.calls = s.calls := by
  unfold Sys.setNx
  split <;> rfl

theorem setNx_refreshes (lockTtl : Duration) (ran : Bool) : (s.setNx lockTtl ran).1.refreshes = s.refreshes := by
  unfold Sys.setNx
  split <;> rfl

/-- A `SET` of the key does nothing, or what it is sent for. -/
theorem set_cases (l : Load T) (hardTtl : Duration) (ran : Bool) :
    s.set c l hardTtl ran = s ∨ ∃ raw, c.toString l.envelope = some raw ∧ 0 < hardPx hardTtl ∧
      s.set c l hardTtl ran = { s with
        entry := some ⟨raw, s.now + hardPx hardTtl * nanosPerMilli⟩
        stores := s.stores ++ [⟨l, hardTtl, s.now⟩] } := by
  unfold Sys.set
  split
  · exact .inl rfl
  · next raw hraw =>
    split
    · next h =>
      simp only [Bool.and_eq_true, decide_eq_true_eq] at h
      exact .inr ⟨raw, hraw, h.2, rfl⟩
    · exact .inl rfl

@[simp] theorem set_now {l : Load T} {hardTtl : Duration} {ran : Bool} : (s.set c l hardTtl ran).now = s.now := by
  rcases set_cases (c := c) (s := s) l hardTtl ran with h | ⟨raw, -, -, h⟩ <;> rw [h]

@[simp] theorem set_loads {l : Load T} {hardTtl : Duration} {ran : Bool} :
    (s.set c l hardTtl ran).loads = s.loads := by
  rcases set_cases (c := c) (s := s) l hardTtl ran with h | ⟨raw, -, -, h⟩ <;> rw [h]

@[simp] theorem set_calls {l : Load T} {hardTtl : Duration} {ran : Bool} :
    (s.set c l hardTtl ran).calls = s.calls := by
  rcases set_cases (c := c) (s := s) l hardTtl ran with h | ⟨raw, -, -, h⟩ <;> rw [h]

@[simp] theorem set_refreshes {l : Load T} {hardTtl : Duration} {ran : Bool} :
    (s.set c l hardTtl ran).refreshes = s.refreshes := by
  rcases set_cases (c := c) (s := s) l hardTtl ran with h | ⟨raw, -, -, h⟩ <;> rw [h]

theorem stores_subset_set (l : Load T) (hardTtl : Duration) (ran : Bool) :
    s.stores ⊆ (s.set c l hardTtl ran).stores := by
  rcases set_cases (c := c) (s := s) l hardTtl ran with h | ⟨raw, -, -, h⟩
  · rw [h]
    exact List.Subset.refl _
  · rw [h]
    exact List.subset_append_left ..

@[simp] theorem logLoad_now {result : Except E T} {nowMs : Nat} : (s.logLoad result nowMs).now = s.now := by
  cases result <;> rfl

@[simp] theorem logLoad_entry {result : Except E T} {nowMs : Nat} : (s.logLoad result nowMs).entry = s.entry := by
  cases result <;> rfl

@[simp] theorem logLoad_stores {result : Except E T} {nowMs : Nat} :
    (s.logLoad result nowMs).stores = s.stores := by
  cases result <;> rfl

@[simp] theorem logLoad_calls {result : Except E T} {nowMs : Nat} : (s.logLoad result nowMs).calls = s.calls := by
  cases result <;> rfl

@[simp] theorem logLoad_refreshes {result : Except E T} {nowMs : Nat} :
    (s.logLoad result nowMs).refreshes = s.refreshes := by
  cases result <;> rfl

theorem mem_logLoad {result : Except E T} {nowMs : Nat} {l : Load T} :
    l ∈ (s.logLoad result nowMs).loads ↔ l ∈ s.loads ∨ (result = .ok l.payload ∧ l = ⟨l.payload, nowMs, s.now⟩) := by
  cases result with
  | error e => simp [Sys.logLoad]
  | ok value =>
    simp only [Sys.logLoad, List.mem_append, List.mem_singleton, Except.ok.injEq]
    refine or_congr_right ⟨?_, ?_⟩
    · rintro rfl
      exact ⟨rfl, rfl⟩
    · rintro ⟨rfl, hl⟩
      exact hl

/-! ## What one answer adds to a call's own record -/

section Answers

variable {swr : Swr} {decode : String → Option (Envelope T)} {st st' : GetOrLoad.St T E}

/-- What a `GET` can add: the text in its answer. -/
def Saw (st : GetOrLoad.St T E) (answer : Except Unit (Option String)) (st' : GetOrLoad.St T E) : Prop :=
  st'.loads = st.loads ∧ ∀ raw ∈ st'.texts, raw ∈ st.texts ∨ textOf answer = some raw

theorem mem_saw {answer : Except Unit (Option String)} {raw : String} (h : raw ∈ (st.saw answer).texts) :
    raw ∈ st.texts ∨ textOf answer = some raw := by
  simpa [GetOrLoad.St.saw] using h

theorem saw_read (answer : Except Unit (Option String)) (nowMs : Nat) :
    Saw st answer (st.read swr decode answer nowMs) := by
  unfold GetOrLoad.St.read
  split
  · exact ⟨rfl, fun raw h => .inl h⟩
  · split
    · split <;> exact ⟨rfl, fun raw h => mem_saw h⟩
    · exact ⟨rfl, fun raw h => mem_saw h⟩

theorem saw_poll (n : Nat) (answer : Except Unit (Option String)) (nowMs : Nat) :
    Saw st answer (st.poll swr decode n answer nowMs) := by
  have hagain : ∀ {st₁ : GetOrLoad.St T E}, Saw st answer st₁ → Saw st answer (st₁.pollAgain swr (n + 1)) := by
    intro st₁ h
    unfold GetOrLoad.St.pollAgain
    split <;> exact h
  have hsaw : Saw st answer { st.saw answer with polls := st.polls + 1 } := ⟨rfl, fun raw h => mem_saw h⟩
  unfold GetOrLoad.St.poll
  simp only
  split
  · split
    · exact hsaw
    · exact hagain hsaw
  · exact hagain hsaw

theorem got_saw {answer : Except Unit (Option String)} {nowMs : Nat}
    (h : GetOrLoad.step swr decode st (.got answer nowMs) = some st') : Saw st answer st' := by
  unfold GetOrLoad.step at h
  cases hphase : st.phase with
  | reading =>
    simp only [hphase, Option.some.injEq] at h
    exact h ▸ saw_read answer nowMs
  | polling n =>
    simp only [hphase, Option.some.injEq] at h
    exact h ▸ saw_poll n answer nowMs
  | locking | loading _ | storing _ _ | releasing _ | returned _ => simp [hphase] at h

theorem loaded_log {result : Except E T} (h : GetOrLoad.step swr decode st (.loaded result) = some st') :
    st'.loads = st.loads ++ [result] ∧ st'.texts = st.texts ∧ ∃ reason, st.phase = .loading reason := by
  unfold GetOrLoad.step at h
  cases hphase : st.phase with
  | loading reason =>
    simp only [hphase, Option.some.injEq] at h
    subst h
    refine ⟨?_, ?_, reason, rfl⟩
    all_goals
      unfold GetOrLoad.St.finish
      simp only
      split <;> rfl
  | reading | locking | polling _ | storing _ _ | releasing _ | returned _ => simp [hphase] at h

/-- The answer to a command other than `GET`. -/
def quiet : GetOrLoad.Action T E → Bool
  | .got .. | .loaded _ => false
  | .locked _ | .stored _ | .deleted _ => true

theorem quiet_log {b : GetOrLoad.Action T E} (hb : quiet b = true)
    (h : GetOrLoad.step swr decode st b = some st') : st'.loads = st.loads ∧ st'.texts = st.texts := by
  unfold GetOrLoad.step at h
  split at h
  · cases hb
  · cases h; exact ⟨rfl, rfl⟩
  · cases h; exact ⟨rfl, rfl⟩
  · cases hb
  · cases hb
  · cases h; exact ⟨rfl, rfl⟩
  · cases h; exact ⟨rfl, rfl⟩
  · cases h

end Answers

/-! ## The invariant -/

/-- What is under the key was stored, what was stored was loaded, and in that
order. -/
structure ServerOk (c : Codec T) (s : Sys T E) : Prop where
  entry : ∀ e, s.entry = some e →
    ∃ st ∈ s.stores, c.toString st.load.envelope = some e.raw ∧ e.expiresAt = st.expiresAt
  stores : ∀ st ∈ s.stores, st.load ∈ s.loads ∧ st.load.loadedAt ≤ st.storedAt ∧ st.storedAt ≤ s.now
  loads : ∀ l ∈ s.loads, l.loadedAt ≤ s.now

/-- What a call has loaded is in the log, and what it has read was stored. -/
structure CallOk (c : Codec T) (s : Sys T E) (call : Call T E) : Prop where
  inv : GetOrLoad.Inv call.swr c.fromStr call.st
  loaded : ∀ value, .ok value ∈ call.st.loads → ⟨value, call.tsMs, call.loadedAt⟩ ∈ s.loads
  read : ∀ raw ∈ call.st.texts, ∃ st ∈ s.stores, c.toString st.load.envelope = some raw

structure Coherent (c : Codec T) (s : Sys T E) : Prop where
  server : ServerOk c s
  calls : ∀ call ∈ s.calls, CallOk c s call
  refreshes : ∀ r ∈ s.refreshes, ∀ l, r.phase = .storing l → l ∈ s.loads

theorem coherent_init (now : Int) : Coherent c (init now : Sys T E) where
  server := ⟨by simp [init], by simp [init], by simp [init]⟩
  calls := by simp [init]
  refreshes := by simp [init]

theorem callOk_init (swr : Swr) (hardTtl : Duration) :
    CallOk c s { swr := swr, hardTtl := hardTtl, st := GetOrLoad.init swr } where
  inv := GetOrLoad.inv_init swr
  loaded value h := by
    have hloads : (GetOrLoad.init swr : GetOrLoad.St T E).loads = [] := by
      unfold GetOrLoad.init
      split <;> rfl
    rw [hloads] at h
    cases h
  read raw h := by
    have htexts : (GetOrLoad.init swr : GetOrLoad.St T E).texts = [] := by
      unfold GetOrLoad.init
      split <;> rfl
    rw [htexts] at h
    cases h

theorem ServerOk.same (h : ServerOk c s) (hst : SameStore s t) : ServerOk c t where
  entry := by rw [hst.entry, hst.stores]; exact h.entry
  stores := by rw [hst.stores, hst.loads, hst.now]; exact h.stores
  loads := by rw [hst.loads, hst.now]; exact h.loads

theorem ServerOk.tick (h : ServerOk c s) (d : Nat) : ServerOk c { s with now := s.now + d } where
  entry := h.entry
  stores st hst := by
    obtain ⟨hl, hle, hnow⟩ := h.stores st hst
    exact ⟨hl, hle, by show st.storedAt ≤ s.now + d; omega⟩
  loads l hl := by
    have := h.loads l hl
    show l.loadedAt ≤ s.now + d
    omega

theorem ServerOk.set (h : ServerOk c s) {l : Load T} (hl : l ∈ s.loads) (hardTtl : Duration) (ran : Bool) :
    ServerOk c (s.set c l hardTtl ran) := by
  rcases set_cases (c := c) (s := s) l hardTtl ran with he | ⟨raw, hraw, -, he⟩
  · rw [he]
    exact h
  · rw [he]
    refine ⟨fun e hentry => ?_, fun st hst => ?_, h.loads⟩
    · cases hentry
      exact ⟨⟨l, hardTtl, s.now⟩, by simp, hraw, rfl⟩
    · rcases List.mem_append.1 hst with hold | hnew
      · exact h.stores st hold
      · rw [List.mem_singleton.1 hnew]
        exact ⟨hl, h.loads l hl, Int.le_refl _⟩

theorem ServerOk.logLoad (h : ServerOk c s) (result : Except E T) (nowMs : Nat) :
    ServerOk c (s.logLoad result nowMs) := by
  refine ⟨by rw [logLoad_entry, logLoad_stores]; exact h.entry, fun st hst => ?_, fun l hl => ?_⟩
  · rw [logLoad_stores] at hst
    obtain ⟨hl, hle, hle'⟩ := h.stores st hst
    exact ⟨mem_logLoad.2 (.inl hl), hle, by rw [logLoad_now]; exact hle'⟩
  · rw [logLoad_now]
    rcases mem_logLoad.1 hl with hold | ⟨-, he⟩
    · exact h.loads l hold
    · rw [he]

/-- The logs only grow. -/
structure Grows (s t : Sys T E) : Prop where
  loads : s.loads ⊆ t.loads
  stores : s.stores ⊆ t.stores

theorem CallOk.grows {call : Call T E} (h : CallOk c s call) (hg : Grows s t) : CallOk c t call where
  inv := h.inv
  loaded value hv := hg.loads (h.loaded value hv)
  read raw hraw := by
    obtain ⟨st, hst, he⟩ := h.read raw hraw
    exact ⟨st, hg.stores hst, he⟩

/-- Valkey or the logs change, the clients do not. -/
theorem Coherent.server_step (h : Coherent c s) (ht : ServerOk c t) (hg : Grows s t) (hcalls : t.calls = s.calls)
    (hrefreshes : t.refreshes = s.refreshes) : Coherent c t where
  server := ht
  calls call hcall := (h.calls call (hcalls ▸ hcall)).grows hg
  refreshes r hr l hl := hg.loads (h.refreshes r (hrefreshes ▸ hr) l hl)

theorem Coherent.setNx (h : Coherent c s) (lockTtl : Duration) (ran : Bool) :
    Coherent c (s.setNx lockTtl ran).1 := by
  have hst : SameStore s (s.setNx lockTtl ran).1 := sameStore_setNx lockTtl ran
  refine h.server_step (h.server.same hst) ⟨?_, ?_⟩ (setNx_calls lockTtl ran) (setNx_refreshes lockTtl ran)
  · rw [hst.loads]
    exact List.Subset.refl _
  · rw [hst.stores]
    exact List.Subset.refl _

theorem Coherent.set (h : Coherent c s) {l : Load T} (hl : l ∈ s.loads) (hardTtl : Duration) (ran : Bool) :
    Coherent c (s.set c l hardTtl ran) := by
  refine h.server_step (h.server.set hl hardTtl ran) ⟨?_, stores_subset_set l hardTtl ran⟩ set_calls set_refreshes
  rw [set_loads]
  exact List.Subset.refl _

theorem Coherent.del (h : Coherent c s) (ran : Bool) : Coherent c (s.del ran) :=
  h.server_step (h.server.same ⟨rfl, rfl, rfl, rfl⟩) ⟨List.Subset.refl _, List.Subset.refl _⟩ rfl rfl

theorem Coherent.logLoad (h : Coherent c s) (result : Except E T) (nowMs : Nat) :
    Coherent c (s.logLoad result nowMs) := by
  refine h.server_step (h.server.logLoad result nowMs) ⟨fun l hl => mem_logLoad.2 (.inl hl), ?_⟩ logLoad_calls
    logLoad_refreshes
  rw [logLoad_stores]
  exact List.Subset.refl _

/-- A call goes on. -/
theorem Coherent.advance (h : Coherent c s) {i : Nat} {call : Call T E} {st : GetOrLoad.St T E}
    (hcall : CallOk c s { call with st }) : Coherent c (s.advance i call st) where
  server := h.server.same ⟨rfl, rfl, rfl, rfl⟩
  calls call' hcall' := by
    have hmem : CallOk c s call' := by
      rcases List.mem_or_eq_of_mem_set hcall' with hold | rfl
      · exact h.calls call' hold
      · exact hcall
    exact hmem.grows ⟨List.Subset.refl _, List.Subset.refl _⟩
  refreshes r hr l hl := by
    simp only [Sys.advance] at hr
    split at hr
    · rcases List.mem_append.1 hr with hold | hnew
      · exact h.refreshes r hold l hl
      · rw [List.mem_singleton.1 hnew] at hl
        cases hl
    · exact h.refreshes r hr l hl

theorem Coherent.goto (h : Coherent c s) {j : Nat} {r : Refresh T} {phase : RefreshPhase T}
    (hphase : ∀ l, phase = .storing l → l ∈ s.loads) : Coherent c (s.goto j r phase) where
  server := h.server.same ⟨rfl, rfl, rfl, rfl⟩
  calls call hcall := (h.calls call hcall).grows ⟨List.Subset.refl _, List.Subset.refl _⟩
  refreshes r' hr' l hl := by
    rcases List.mem_or_eq_of_mem_set hr' with hold | rfl
    · exact h.refreshes r' hold l hl
    · exact hphase l hl

theorem CallOk.quiet {call : Call T E} {st : GetOrLoad.St T E} {b : GetOrLoad.Action T E} (h : CallOk c s call)
    (hb : quiet b = true) (hst : GetOrLoad.step call.swr c.fromStr call.st b = some st) :
    CallOk c s { call with st } := by
  obtain ⟨hl, ht⟩ := quiet_log hb hst
  exact ⟨GetOrLoad.step_keeps_inv h.inv hst, by rw [hl]; exact h.loaded, by rw [ht]; exact h.read⟩

theorem textOf_reply {heard : Bool} {raw : String} (h : textOf (s.reply heard) = some raw) :
    ∃ e, s.entry = some e ∧ e.raw = raw ∧ s.now < e.expiresAt := by
  cases heard with
  | false => cases h
  | true =>
    obtain ⟨e, he, hraw⟩ := Option.bind_eq_some_iff.1 (show s.get = some raw from h)
    split at hraw
    · next hlive => exact ⟨e, he, by simpa using hraw, hlive⟩
    · cases hraw

theorem CallOk.got {call : Call T E} {st : GetOrLoad.St T E} {heard : Bool} {nowMs : Nat} (h : CallOk c s call)
    (hs : ServerOk c s)
    (hst : GetOrLoad.step call.swr c.fromStr call.st (.got (s.reply heard) nowMs) = some st) :
    CallOk c s { call with st } := by
  obtain ⟨hl, ht⟩ := got_saw hst
  refine ⟨GetOrLoad.step_keeps_inv h.inv hst, by rw [hl]; exact h.loaded, fun raw hraw => ?_⟩
  rcases ht raw hraw with hold | hnew
  · exact h.read raw hold
  · obtain ⟨e, he, rfl, -⟩ := textOf_reply hnew
    obtain ⟨st', hst', hraw', -⟩ := hs.entry e he
    exact ⟨st', hst', hraw'⟩

/-- The loader returns: it is the call's only one, and nothing was recorded
before. -/
theorem CallOk.load {call : Call T E} {st : GetOrLoad.St T E} {result : Except E T} {nowMs : Nat}
    (h : CallOk c s call) (hst : GetOrLoad.step call.swr c.fromStr call.st (.loaded result) = some st) :
    CallOk c (s.logLoad result nowMs) { call with tsMs := nowMs, loadedAt := s.now, st := st } := by
  obtain ⟨hl, ht, reason, hphase⟩ := loaded_log hst
  have hnone : call.st.loads = [] := (h.inv.waits hphase).1
  refine ⟨GetOrLoad.step_keeps_inv h.inv hst, fun value hv => ?_, ?_⟩
  · simp only [hl, hnone, List.nil_append, List.mem_singleton] at hv
    exact mem_logLoad.2 (.inr ⟨hv.symm, rfl⟩)
  · rw [ht, logLoad_stores]
    exact h.read

theorem step_coherent (h : Coherent c s) (hs : step c s a = some t) : Coherent c t := by
  have hsame : Grows s s := ⟨List.Subset.refl _, List.Subset.refl _⟩
  cases step_inv hs with
  | tick => exact h.server_step (h.server.tick _) ⟨hsame.1, hsame.2⟩ rfl rfl
  | evict => exact h.server_step ⟨nofun, h.server.stores, h.server.loads⟩ ⟨hsame.1, hsame.2⟩ rfl rfl
  | call =>
    refine ⟨h.server.same ⟨rfl, rfl, rfl, rfl⟩, fun call hcall => ?_, h.refreshes⟩
    rcases List.mem_append.1 hcall with hold | hnew
    · exact (h.calls call hold).grows ⟨hsame.1, hsame.2⟩
    · rw [List.mem_singleton.1 hnew]
      exact callOk_init _ _
  | get hc hst => exact h.advance ((h.calls _ (List.mem_of_getElem? hc)).got h.server hst)
  | @setNx i ran acked call answer st hc hst =>
    have hs' := h.setNx call.swr.lockTtl ran
    have hmem : call ∈ (s.setNx call.swr.lockTtl ran).1.calls := by
      rw [setNx_calls]
      exact List.mem_of_getElem? hc
    exact hs'.advance ((hs'.calls call hmem).quiet rfl hst)
  | load hc hst => exact (h.logLoad _ _).advance ((h.calls _ (List.mem_of_getElem? hc)).load hst)
  | @set i ran call value locked st hc hphase hst =>
    have hcall := h.calls _ (List.mem_of_getElem? hc)
    have hloads := (hcall.inv.waits hphase).1
    have hs' := h.set (hcall.loaded value (by simp [hloads])) call.hardTtl ran
    have hmem : call ∈ (s.set c ⟨value, call.tsMs, call.loadedAt⟩ call.hardTtl ran).calls := by
      rw [set_calls]
      exact List.mem_of_getElem? hc
    exact hs'.advance ((hs'.calls call hmem).quiet rfl hst)
  | @del i ran call st hc hst =>
    have hs' := h.del ran
    exact hs'.advance ((hs'.calls call (List.mem_of_getElem? hc)).quiet rfl hst)
  | refreshSetNx hr hphase => exact (h.setNx _ _).goto fun l hl => absurd hl (hphase l)
  | @refreshLoad j result nowMs r hr =>
    refine (h.logLoad result nowMs).goto fun l hl => ?_
    cases result with
    | error e => cases hl
    | ok value =>
      cases hl
      exact mem_logLoad.2 (.inr ⟨rfl, rfl⟩)
  | refreshSet hr hphase =>
    exact (h.set (h.refreshes _ (List.mem_of_getElem? hr) _ hphase) _ _).goto nofun
  | refreshDel hr => exact (h.del _).goto nofun

/-! ## Values out of the cache -/

section Answers

variable {swr : Swr} {decode : String → Option (Envelope T)} {st st' : GetOrLoad.St T E}

/-- A call that returns a value on a `GET` has decoded it, and found it fresh
or asked for a refresh. -/
theorem got_returned {answer : Except Unit (Option String)} {nowMs : Nat} {value : T}
    (h : GetOrLoad.step swr decode st (.got answer nowMs) = some st') (hr : st'.phase = .returned (.ok value)) :
    ∃ raw env, textOf answer = some raw ∧ decode raw = some env ∧ env.payload = value ∧
      (swr.fresh nowMs env = true ∨ st.refreshes < st'.refreshes) := by
  unfold GetOrLoad.step at h
  cases hphase : st.phase with
  | reading =>
    simp only [hphase, Option.some.injEq] at h
    subst h
    unfold GetOrLoad.St.read at hr ⊢
    split at hr
    · cases hr
    · next raw =>
      split at hr
      · next env henv =>
        obtain ⟨text, rfl, hdecode⟩ := Option.bind_eq_some_iff.1 henv
        split at hr
        · next hfresh =>
          cases hr
          exact ⟨text, env, rfl, hdecode, rfl, .inl hfresh⟩
        · next hstale =>
          cases hr
          refine ⟨text, env, rfl, hdecode, rfl, .inr ?_⟩
          simp only [hstale]
          exact Nat.lt_succ_self _
      · cases hr
  | polling n =>
    simp only [hphase, Option.some.injEq] at h
    subst h
    unfold GetOrLoad.St.poll at hr
    simp only at hr
    have hagain : ∀ {st₁ : GetOrLoad.St T E}, (st₁.pollAgain swr (n + 1)).phase ≠ .returned (.ok value) := by
      intro st₁
      unfold GetOrLoad.St.pollAgain
      split <;> nofun
    split at hr
    · next env henv =>
      obtain ⟨text, htext, hdecode⟩ := Option.bind_eq_some_iff.1 henv
      split at hr
      · next hfresh =>
        cases hr
        exact ⟨text, env, htext, hdecode, rfl, .inl hfresh⟩
      · exact absurd hr hagain
    · exact absurd hr hagain
  | locking | loading _ | storing _ _ | releasing _ | returned _ => simp [hphase] at h

end Answers

/-- `PX` never asks for more than the `hard_ttl`. -/
theorem hardPx_le (d : Duration) : hardPx d * nanosPerMilli ≤ d.asNanos := by
  have hpx : hardPx d ≤ d.asMillis := by
    unfold hardPx Int.bmod
    simp only
    split <;> omega
  have hms : d.asMillis * nanosPerMilli ≤ d.asNanos := by
    simp only [Duration.asMillis, Duration.asNanos, nanosPerMilli, nanosPerSec]
    omega
  simp only [nanosPerMilli] at hms ⊢
  omega

theorem Codec.RoundTrips.eq {c : Codec T} (hcodec : c.RoundTrips) {env env' : Envelope T} {raw : String}
    (h : c.toString env = some raw) (h' : c.fromStr raw = some env') : env' = env := by
  rw [hcodec env raw h, Option.some.injEq] at h'
  exact h'.symm

/-- `call` takes the answer to a `GET`, and `value` out of it. -/
structure Served (s t : Sys T E) (call : Call T E) (nowMs : Nat) (value : T) (st : Store T) : Prop where
  stored : st ∈ s.stores
  payload : st.load.payload = value
  loaded : st.load ∈ s.loads
  inOrder : st.load.loadedAt ≤ st.storedAt ∧ st.storedAt ≤ s.now
  live : s.now < st.storedAt + st.hardTtl.asNanos
  fresh : call.swr.fresh nowMs st.load.envelope = true ∨
    t.refreshes = s.refreshes ++ [⟨call.hardTtl, call.swr.lockTtl, .locking⟩]

/-- A call that returns a value on the answer to a `GET` serves a stored one. -/
def SwrServes (s : Sys T E) (a : Action T E) (t : Sys T E) : Prop :=
  ∀ i heard nowMs call call' value, a = .get i heard nowMs → s.calls[i]? = some call → t.calls[i]? = some call' →
    call'.st.phase = .returned (.ok value) → ∃ st, Served s t call nowMs value st

theorem step_serves (hcodec : c.RoundTrips) (h : Coherent c s) (hs : step c s a = some t) : SwrServes s a t := by
  intro i heard nowMs call call' value ha hcall hcall' hr
  subst ha
  cases step_inv hs with
  | @get _ _ _ call₀ st hc hst =>
    rw [hc, Option.some.injEq] at hcall
    subst hcall
    have hlt : i < s.calls.length := (List.getElem?_eq_some_iff.1 hc).1
    simp only [Sys.advance, List.getElem?_set_self hlt, Option.some.injEq] at hcall'
    subst hcall'
    obtain ⟨raw, env, htext, hdecode, rfl, hfresh⟩ := got_returned hst hr
    obtain ⟨e, he, rfl, hlive⟩ := textOf_reply htext
    obtain ⟨store, hstore, hraw, hexp⟩ := h.server.entry e he
    obtain ⟨hload, hle, hnow⟩ := h.server.stores store hstore
    have henv : env = store.load.envelope := hcodec.eq hraw hdecode
    subst henv
    have hpx := hardPx_le store.hardTtl
    refine ⟨store, hstore, rfl, hload, ⟨hle, hnow⟩, ?_, ?_⟩
    · rw [hexp, Store.expiresAt] at hlive
      omega
    · rcases hfresh with hfresh | hspawned
      · exact .inl hfresh
      · exact .inr (if_pos hspawned)

theorem Coherent.returned_loaded (hcodec : c.RoundTrips) (h : Coherent c s) {call : Call T E} {value : T} (hc : call ∈ s.calls)
    (hr : call.st.phase = .returned (.ok value)) : ∃ l ∈ s.loads, l.payload = value := by
  have hcall := h.calls call hc
  obtain ⟨hloads, -⟩ | ⟨-, v, hv, raw, hraw, env, henv, hpay⟩ := (hcall.inv.waits hr).1
  · exact ⟨_, hcall.loaded value (by simp [hloads]), rfl⟩
  · cases hv
    obtain ⟨st, hst, hstored⟩ := hcall.read raw hraw
    rw [hcodec.eq hstored henv] at hpay
    exact ⟨st.load, (h.server.stores st hst).1, hpay⟩

/-- An envelope as a text: the payload, and `ts_ms` in unary. -/
def unaryCodec : Codec Char where
  toString env := some (String.ofList (env.payload :: List.replicate env.tsMs '1'))
  fromStr raw :=
    match raw.toList with
    | [] => none
    | payload :: ones => some ⟨ones.length, payload⟩

theorem unaryCodec_roundTrips : unaryCodec.RoundTrips := by
  intro env raw h
  cases h
  simp [unaryCodec]

/-- Fresh for a second, kept for a minute. -/
def second : Swr := ⟨.fromSecs 1, .fromSecs 1, false⟩

/-- A miss, a load and a store; a second call reads the value two seconds
later, and refreshes it. -/
def missThenStale : List (Action Char Unit) :=
  [.call second (.fromSecs 60), .get 0 true 0, .setNx 0 true true, .load 0 (.ok 'a') 0,
    .set 0 true, .del 0 true, .tick (2 * nanosPerSec), .call second (.fromSecs 60),
    .get 1 true 2000, .refreshSetNx 0 true true, .refreshLoad 0 (.ok 'b') 2000, .refreshSet 0 true,
    .refreshDel 0 true]

theorem missThenStale_runs : (run (step unaryCodec) (init 0) missThenStale).isSome = true := by decide +kernel

/-- Every `now_ms()` is the time in milliseconds since the epoch. -/
def Clocked (s : Sys T E) : Action T E → Prop
  | .get _ _ nowMs | .load _ _ nowMs | .refreshLoad _ _ nowMs => (nowMs : Int) = s.now / nanosPerMilli
  | _ => True

/-- Every stamp is the time the loader returned. -/
def Stamped (s : Sys T E) : Prop := ∀ l ∈ s.loads, (l.tsMs : Int) = l.loadedAt / nanosPerMilli

theorem stamped_logLoad {result : Except E T} {nowMs : Nat} (h : Stamped s)
    (hclock : (nowMs : Int) = s.now / nanosPerMilli) : Stamped (s.logLoad result nowMs) := by
  intro l hl
  rcases mem_logLoad.1 hl with hold | ⟨-, he⟩
  · exact h l hold
  · rw [he]
    exact hclock

theorem step_stamped (h : Stamped s) (hp : Clocked s a) (hs : step c s a = some t) : Stamped t := by
  cases step_inv hs with
  | tick | evict | call | get _ _ | del _ _ | refreshDel _ => exact h
  | setNx _ _ | refreshSetNx _ _ =>
    intro l hl
    exact h l ((sameStore_setNx _ _).loads ▸ hl)
  | set _ _ _ | refreshSet _ _ =>
    intro l hl
    exact h l (set_loads ▸ hl)
  | load _ _ | refreshLoad _ => exact stamped_logLoad h hp

/-- A call that returns a value on the answer to a `GET` and spawns nothing
returns a value that was loaded less than `fresh_ttl` and a millisecond ago. -/
def ServesFresh (s : Sys T E) (a : Action T E) (t : Sys T E) : Prop :=
  ∀ i heard nowMs call call' value, a = .get i heard nowMs → s.calls[i]? = some call → t.calls[i]? = some call' →
    call'.st.phase = .returned (.ok value) → t.refreshes = s.refreshes →
    ∃ l ∈ s.loads, l.payload = value ∧ l.loadedAt ≤ s.now ∧
      s.now < l.loadedAt + call.swr.freshTtl.asNanos + nanosPerMilli

theorem step_servesFresh (hcodec : c.RoundTrips) (h : Coherent c s) (hst : Stamped s) (hp : Clocked s a) (hs : step c s a = some t) :
    ServesFresh s a t := by
  intro i heard nowMs call call' value ha hcall hcall' hr hnone
  obtain ⟨st, hserved⟩ := step_serves hcodec h hs i heard nowMs call call' value ha hcall hcall' hr
  subst ha
  refine ⟨st.load, hserved.loaded, hserved.payload, Int.le_trans hserved.inOrder.1 hserved.inOrder.2, ?_⟩
  rcases hserved.fresh with hfresh | hspawned
  · have hstamp := hst st.load hserved.loaded
    have hclock : (nowMs : Int) = s.now / nanosPerMilli := hp
    have hage : (nowMs - st.load.tsMs) * nanosPerMilli < call.swr.freshTtl.asNanos := of_decide_eq_true hfresh
    simp only [nanosPerMilli] at hage hstamp hclock ⊢
    omega
  · rw [hspawned] at hnone
    simp at hnone

/-- **A value served without a refresh is young**, in every run whose hosts
have the right time, as long as serialising loses nothing: its loader returned
less than the reader's `fresh_ttl` and a millisecond before. -/
theorem swr_fresh_is_young (hcodec : c.RoundTrips) {now : Int} {as : List (Action T E)}
    (hc : Along (step c) Clocked (init now) as) :
    EachStep (step c) ServesFresh (init now) as :=
  eachStep_of_along (I := fun s => Coherent c s ∧ Stamped s)
    (fun h hp hs => ⟨step_coherent h.1 hs, step_stamped h.2 hp hs⟩)
    (fun h hp hs => step_servesFresh hcodec h.1 h.2 hp hs) ⟨coherent_init now, by simp [Stamped, init]⟩ hc

instance (s : Sys T E) (a : Action T E) : Decidable (Clocked s a) :=
  match a with
  | .get _ _ nowMs | .load _ _ nowMs | .refreshLoad _ _ nowMs =>
    inferInstanceAs (Decidable ((nowMs : Int) = s.now / nanosPerMilli))
  | .tick _ | .evict | .call .. | .setNx .. | .set .. | .del .. | .refreshSetNx .. | .refreshSet .. | .refreshDel .. =>
    isTrue trivial

theorem swr_fresh_is_young_missThenStale : (run (step unaryCodec) (init 0) missThenStale).isSome = true ∧
    EachStep (step unaryCodec) ServesFresh (init 0) missThenStale := by
  have hc : Along (step unaryCodec) Clocked (init 0) missThenStale := by decide +kernel
  exact ⟨missThenStale_runs, swr_fresh_is_young unaryCodec_roundTrips hc⟩

/-! ## While a value lasts -/

def Kept (_ : Sys T E) : Action T E → Prop
  | .evict => False
  | _ => True

/-- The last `SET` is under the key. -/
def LastStored (c : Codec T) (s : Sys T E) : Prop :=
  ∀ st, s.stores.getLast? = some st → ∃ raw, c.toString st.load.envelope = some raw ∧
    s.entry = some ⟨raw, st.expiresAt⟩

theorem lastStored_set {l : Load T} {hardTtl : Duration} {ran : Bool} (h : LastStored c s) :
    LastStored c (s.set c l hardTtl ran) := by
  rcases set_cases (c := c) (s := s) l hardTtl ran with he | ⟨raw, hraw, -, he⟩
  · rw [he]
    exact h
  · rw [he]
    intro st hst
    rw [List.getLast?_concat, Option.some.injEq] at hst
    subst hst
    exact ⟨raw, hraw, rfl⟩

theorem LastStored.same (h : LastStored c s) (hst : SameStore s t) : LastStored c t := by
  unfold LastStored
  rw [hst.stores, hst.entry]
  exact h

theorem step_lastStored (h : LastStored c s) (hp : Kept s a) (hs : step c s a = some t) : LastStored c t := by
  cases step_inv hs with
  | evict => exact hp.elim
  | tick | call | get _ _ | del _ _ | refreshDel _ => exact h
  | setNx _ _ | refreshSetNx _ _ => exact fun st hst => h.same (sameStore_setNx _ _) st hst
  | set _ _ _ | refreshSet _ _ => exact fun st hst => lastStored_set h st hst
  | load _ _ | refreshLoad _ =>
    intro st hst
    simp only [Sys.advance, Sys.goto, logLoad_stores, logLoad_entry] at hst ⊢
    exact h st hst

/-- A call whose first `GET` is answered while the last stored value lasts
returns that value, and never starts its loader. Valkey is asked to keep it
for the whole milliseconds of the `hard_ttl`, as an `i64`. -/
def Hits (s : Sys T E) (a : Action T E) (t : Sys T E) : Prop :=
  ∀ i nowMs call st, a = .get i true nowMs → s.calls[i]? = some call → call.st.phase = .reading →
    s.stores.getLast? = some st → st.hardTtl.asMillis < 2 ^ 63 →
    s.now < st.storedAt + st.hardTtl.asMillis * nanosPerMilli →
    ∃ call', t.calls[i]? = some call' ∧ call'.st.phase = .returned (.ok st.load.payload) ∧ call'.st.started = 0

theorem hardPx_eq {d : Duration} (h : d.asMillis < 2 ^ 63) : hardPx d = d.asMillis := by
  unfold hardPx
  rw [Int.bmod_eq_of_le] <;> omega

theorem read_hit (swr : Swr) {decode : String → Option (Envelope T)} (st : GetOrLoad.St T E) {raw : String}
    {env : Envelope T} (nowMs : Nat) (h : decode raw = some env) :
    (st.read swr decode (.ok (some raw)) nowMs).phase = .returned (.ok env.payload) ∧
      (st.read swr decode (.ok (some raw)) nowMs).started = st.started := by
  simp only [GetOrLoad.St.read, Option.bind_some, h]
  split <;> exact ⟨rfl, rfl⟩

theorem step_hits (hcodec : c.RoundTrips) (h : Coherent c s) (hlast : LastStored c s) (hs : step c s a = some t) : Hits s a t := by
  intro i nowMs call st ha hcall hphase hst hms hlive
  subst ha
  obtain ⟨raw, hraw, hentry⟩ := hlast st hst
  have hget : s.get = some raw := by
    simp only [Sys.get, hentry, Option.bind_some, Store.expiresAt, hardPx_eq hms]
    exact if_pos hlive
  cases step_inv hs with
  | @get _ _ _ call₀ st' hc hst' =>
    rw [hc, Option.some.injEq] at hcall
    subst hcall
    have hlt : i < s.calls.length := (List.getElem?_eq_some_iff.1 hc).1
    have hunloaded := ((h.calls _ (List.mem_of_getElem? hc)).inv.waits hphase).1
    simp only [GetOrLoad.step, hphase, Sys.reply, if_true, hget, Option.some.injEq] at hst'
    subst hst'
    obtain ⟨hret, hstarted⟩ := read_hit call₀.swr call₀.st nowMs (hcodec _ _ hraw)
    exact ⟨_, List.getElem?_set_self hlt, hret, hstarted.trans hunloaded.2⟩

/-- **While a stored value lasts, nobody loads in the foreground**: in every
run without evictions, as long as serialising loses nothing, a call whose
first `GET` is answered within the whole milliseconds of the `hard_ttl` of the
last `SET`, where they fit an `i64`, returns the value of that `SET`, fresh or
stale, and has not started its loader. -/
theorem swr_hit (hcodec : c.RoundTrips) {now : Int} {as : List (Action T E)}
    (hk : Along (step c) Kept (init now) as) :
    EachStep (step c) Hits (init now) as :=
  eachStep_of_along (I := fun s => Coherent c s ∧ LastStored c s)
    (fun h hp hs => ⟨step_coherent h.1 hs, step_lastStored h.2 hp hs⟩)
    (fun h _ hs => step_hits hcodec h.1 h.2 hs) ⟨coherent_init now, by simp [LastStored, init]⟩ hk

instance (s : Sys T E) (a : Action T E) : Decidable (Kept s a) :=
  match a with
  | .evict => isFalse id
  | .tick _ | .call .. | .get .. | .setNx .. | .load .. | .set .. | .del .. | .refreshSetNx .. | .refreshLoad ..
  | .refreshSet .. | .refreshDel .. => isTrue trivial

theorem swr_hit_missThenStale : (run (step unaryCodec) (init 0) missThenStale).isSome = true ∧
    EachStep (step unaryCodec) Hits (init 0) missThenStale := by
  have hk : Along (step unaryCodec) Kept (init 0) missThenStale := by decide +kernel
  exact ⟨missThenStale_runs, swr_hit unaryCodec_roundTrips hk⟩

end FerrKit.Cache.SwrStore
