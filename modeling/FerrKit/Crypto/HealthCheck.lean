/-
The health check of Cloud KMS (`GcpKmsKek::health_check` in
`crates/crypto/src/lib.rs`), with any number of calls going on at a time. A
call looks at the last success, asks KMS if that is old, and stores the time
of its own success: three steps with anything in between.

The time is read before the lock is taken, since the right side of an
assignment comes first. So a call that waits for the lock may put an older
time over a newer one. A call may be dropped while it waits for KMS; one that
is dropped while it waits for the lock is one that takes no further step.
Left out: the probe's key name and plaintext.
-/
import FerrKit.Lib.Calls
import FerrKit.Lib.Duration
import FerrKit.Lib.Runs

namespace FerrKit.Crypto.Health

open Runs

/-- How long a success is believed. -/
def believed : Duration := .fromSecs 10

/-- Where a call is between two steps. -/
inductive Phase
  | probing
  /-- has read the time of its success, and waits for the lock -/
  | storing (time : Nat)
  deriving DecidableEq

inductive Event
  | probe (call time : Nat)
  /-- KMS has answered the call's probe. -/
  | confirmed (call time : Nat)
  | refused (call : Nat) (e : String)
  | returned (call : Nat) (result : Except String Unit) (time : Nat)

structure St extends Calls Phase Event where
  now : Nat := 0
  lastHealthOk : Option Nat := none

inductive Action
  | tick (nanos : Nat)
  /-- A new call, until it returns or waits for KMS. -/
  | check
  | answer (call : Nat) (result : Except String Unit)
  /-- The lock is taken, and the call returns. -/
  | store (call : Nat)
  /-- The caller goes away before KMS has answered. -/
  | drop (call : Nat)

/-- The last success is not old. -/
def St.healthy (s : St) : Bool := s.lastHealthOk.any fun t => s.now - t < believed.asNanos

def step (s : St) : Action → Option St
  | .tick nanos => some { s with now := s.now + nanos }
  | .check =>
    if s.healthy then some { s with toCalls := s.begun.record [.returned s.next (.ok ()) s.now] }
    else some { s with toCalls := (s.begun.goto s.next (some .probing)).record [.probe s.next s.now] }
  | .answer call result =>
    match s.calls call with
    | some .probing =>
      match result with
      | .ok () =>
        some { s with toCalls := (s.goto call (some (.storing s.now))).record [.confirmed call s.now] }
      | .error e =>
        some { s with
          toCalls := (s.goto call none).record
            [.refused call e, .returned call (.error ("gcp kms health probe: " ++ e)) s.now] }
    | _ => none
  | .store call =>
    match s.calls call with
    | some (.storing time) =>
      some { s with lastHealthOk := some time, toCalls := (s.goto call none).record [.returned call (.ok ()) s.now] }
    | _ => none
  | .drop call =>
    match s.calls call with
    | some .probing => some { s with toCalls := s.goto call none }
    | _ => none

/-! ## What a step can do -/

inductive StepR (s : St) : Action → St → Prop
  | tick {nanos} : StepR s (.tick nanos) { s with now := s.now + nanos }
  | cached {t} : s.lastHealthOk = some t → s.now - t < believed.asNanos →
      StepR s .check { s with toCalls := s.begun.record [.returned s.next (.ok ()) s.now] }
  | probe : (∀ t, s.lastHealthOk = some t → believed.asNanos ≤ s.now - t) →
      StepR s .check { s with toCalls := (s.begun.goto s.next (some .probing)).record [.probe s.next s.now] }
  | confirmed {call} : s.calls call = some .probing →
      StepR s (.answer call (.ok ()))
        { s with toCalls := (s.goto call (some (.storing s.now))).record [.confirmed call s.now] }
  | refused {call e} : s.calls call = some .probing →
      StepR s (.answer call (.error e))
        { s with
          toCalls := (s.goto call none).record
            [.refused call e, .returned call (.error ("gcp kms health probe: " ++ e)) s.now] }
  | stored {call time} : s.calls call = some (.storing time) →
      StepR s (.store call)
        { s with lastHealthOk := some time, toCalls := (s.goto call none).record [.returned call (.ok ()) s.now] }
  | dropped {call} : s.calls call = some .probing → StepR s (.drop call) { s with toCalls := s.goto call none }

variable {s t : St} {a : Action}

theorem step_inv (h : step s a = some t) : StepR s a t := by
  cases a with
  | tick nanos =>
    cases h
    exact .tick
  | check =>
    simp only [step] at h
    split at h
    · next hhealthy =>
      cases h
      obtain ⟨time, htime, hyoung⟩ := Option.any_eq_true _ _ |>.1 hhealthy
      exact .cached htime (of_decide_eq_true hyoung)
    · next hhealthy =>
      cases h
      refine .probe fun time htime => Nat.le_of_not_lt fun hyoung => hhealthy ?_
      simp only [St.healthy, htime, Option.any_some, hyoung, decide_true]
  | answer call result =>
    simp only [step] at h
    split at h
    · next hcall =>
      split at h
      · cases h
        exact .confirmed hcall
      · cases h
        exact .refused hcall
    · cases h
  | store call =>
    simp only [step] at h
    split at h
    · next hcall =>
      cases h
      exact .stored hcall
    · cases h
  | drop call =>
    simp only [step] at h
    split at h
    · next hcall =>
      cases h
      exact .dropped hcall
    · cases h

/-! ## Every answer -/

/-- A success is the call's own or a recent one of another; a failure is the
call's own. -/
def Grounded (past : List Event) : Event → Prop
  | .returned call (.ok ()) time =>
    ∃ c t, .confirmed c t ∈ past ∧ t ≤ time ∧ (c = call ∨ time < t + believed.asNanos)
  | .returned call (.error e) _ => ∃ e', .refused call e' ∈ past ∧ e = "gcp kms health probe: " ++ e'
  | .probe _ _ | .confirmed _ _ | .refused _ _ => True

structure Inv (s : St) : Prop where
  grounded : Guarded Grounded s.log
  last : ∀ time, s.lastHealthOk = some time → time ≤ s.now ∧ ∃ c, .confirmed c time ∈ s.log
  storing : ∀ call time, s.calls call = some (.storing time) → time ≤ s.now ∧ .confirmed call time ∈ s.log

theorem step_keeps_inv (hi : Inv s) (h : step s a = some t) : Inv t := by
  have hlog : ∀ new time, (time ≤ s.now ∧ ∃ c, Event.confirmed c time ∈ s.log) →
      time ≤ s.now ∧ ∃ c, Event.confirmed c time ∈ s.log ++ new :=
    fun new time ⟨hle, c, hc⟩ => ⟨hle, c, List.mem_append_left _ hc⟩
  have hcall : ∀ new call time, s.calls call = some (.storing time) →
      time ≤ s.now ∧ Event.confirmed call time ∈ s.log ++ new :=
    fun new call time hs => ⟨(hi.storing call time hs).1, List.mem_append_left _ (hi.storing call time hs).2⟩
  cases step_inv h with
  | @tick nanos =>
    refine ⟨hi.grounded, fun time ht => ?_, fun call time ht => ?_⟩
    · exact ⟨Nat.le_add_right_of_le (hi.last time ht).1, (hi.last time ht).2⟩
    · exact ⟨Nat.le_add_right_of_le (hi.storing call time ht).1, (hi.storing call time ht).2⟩
  | @cached time htime hyoung =>
    obtain ⟨hle, c, hc⟩ := hi.last time htime
    refine ⟨hi.grounded.concat ⟨c, time, hc, hle, .inr (by omega)⟩, fun u hu => hlog _ u (hi.last u hu), hcall _⟩
  | probe hold =>
    refine ⟨hi.grounded.concat trivial, fun u hu => hlog _ u (hi.last u hu), fun call time hs => ?_⟩
    exact hcall _ call time (Calls.before_goto (s := s.begun) (by simp) hs)
  | @confirmed c hc =>
    refine ⟨hi.grounded.concat trivial, fun u hu => hlog _ u (hi.last u hu), fun call time hs => ?_⟩
    obtain ⟨rfl, hs'⟩ | hs' := Calls.goto_some hs
    · cases hs'
      exact ⟨Nat.le_refl _, List.mem_append_right _ (List.mem_singleton_self _)⟩
    · exact hcall _ call time hs'
  | @refused c e hc =>
    refine ⟨?_, fun u hu => hlog _ u (hi.last u hu), fun call time hs => ?_⟩
    · have hrefused : Guarded Grounded (s.log ++ [.refused c e]) := hi.grounded.concat trivial
      have hown : Grounded (s.log ++ [.refused c e]) (.returned c (.error ("gcp kms health probe: " ++ e)) s.now) :=
        ⟨e, List.mem_append_right _ (List.mem_singleton_self _), rfl⟩
      have hboth := hrefused.concat hown
      rwa [List.append_assoc] at hboth
    · exact hcall _ call time (Calls.before_goto (by simp) hs)
  | @stored c time hc =>
    obtain ⟨hle, hmem⟩ := hi.storing c time hc
    refine ⟨hi.grounded.concat ⟨c, time, hmem, hle, .inl rfl⟩, fun u hu => ?_, fun call u hs => ?_⟩
    · cases hu
      exact ⟨hle, c, List.mem_append_left _ hmem⟩
    · exact hcall _ call u (Calls.before_goto (by simp) hs)
  | dropped _ =>
    refine ⟨hi.grounded, hi.last, fun call time hs => ?_⟩
    exact hi.storing call time (Calls.before_goto (by simp) hs)

/-- **No health without a recent success.** However the calls interleave:
before a call returns `Ok`, KMS has confirmed that call's own probe, or that
of another less than ten seconds ago. A call returns an error only when KMS
has refused its own probe: failures are not kept. -/
theorem health_grounded {as : List Action} (hr : run step {} as = some s) :
    (∀ pre call time post, s.log = pre ++ .returned call (.ok ()) time :: post →
      ∃ c t, .confirmed c t ∈ pre ∧ t ≤ time ∧ (c = call ∨ time < t + believed.asNanos)) ∧
    ∀ pre call e time post, s.log = pre ++ .returned call (.error e) time :: post →
      ∃ e', .refused call e' ∈ pre ∧ e = "gcp kms health probe: " ++ e' := by
  have hi : Inv s := invariant_run step_keeps_inv hr ⟨guarded_nil, nofun, nofun⟩
  exact ⟨fun pre call time post he => hi.grounded pre _ post he,
    fun pre call e time post he => hi.grounded pre _ post he⟩

/-! ## One call at a time -/

/-- A call begins when no other is going on. One that was dropped while it
waited for the lock still is. -/
def Alone (s : St) : Action → Prop
  | .check => ∀ c < s.next, s.calls c = none
  | .tick _ | .answer _ _ | .store _ | .drop _ => True

instance : ∀ (s : St) (a : Action), Decidable (Alone s a)
  | s, .check => inferInstanceAs (Decidable (∀ c < s.next, s.calls c = none))
  | _, .tick _ | _, .answer _ _ | _, .store _ | _, .drop _ => isTrue trivial

/-- A probe comes ten seconds after every success before it. -/
def Spaced (past : List Event) : Event → Prop
  | .probe _ time => ∀ c t, .confirmed c t ∈ past → t + believed.asNanos ≤ time
  | .confirmed _ _ | .refused _ _ | .returned _ _ _ => True

structure SeqInv (s : St) : Prop where
  spaced : Guarded Spaced s.log
  issued : ∀ c, s.next ≤ c → s.calls c = none
  one : ∀ {c d p q}, s.calls c = some p → s.calls d = some q → c = d
  past : ∀ {c t}, .confirmed c t ∈ s.log → t ≤ s.now
  /-- What is about to be kept is the newest success. -/
  newest : ∀ {d l c t}, s.calls d = some (.storing l) → .confirmed c t ∈ s.log → t ≤ l
  /-- Otherwise the one that is kept is. -/
  kept : ∀ {c t}, .confirmed c t ∈ s.log →
    (∃ l, s.lastHealthOk = some l ∧ t ≤ l) ∨ ∃ d l, s.calls d = some (.storing l)

theorem SeqInv.idle (hi : SeqInv s) (ha : Alone s .check) (c : Nat) : s.calls c = none := by
  obtain hc | hc := Nat.lt_or_ge c s.next
  · exact ha c hc
  · exact hi.issued c hc

/-- The one call there is waits for KMS. -/
theorem SeqInv.not_storing (hi : SeqInv s) {call : Nat} (hcall : s.calls call = some .probing) (d l : Nat) :
    s.calls d ≠ some (.storing l) := by
  intro hd
  cases hi.one hd hcall
  rw [hcall] at hd
  cases hd

/-- The success that is kept is the newest, when none is about to be. -/
theorem SeqInv.covered (hi : SeqInv s) (hnone : ∀ d l, s.calls d ≠ some (.storing l)) {c t : Nat}
    (hc : .confirmed c t ∈ s.log) : ∃ l, s.lastHealthOk = some l ∧ t ≤ l :=
  (hi.kept hc).resolve_right fun ⟨d, l, hd⟩ => hnone d l hd

/-- No event but a success is one. -/
theorem confirmed_mem_append {log new : List Event} {c t : Nat} (hnew : ∀ c t, Event.confirmed c t ∉ new)
    (h : .confirmed c t ∈ log ++ new) : .confirmed c t ∈ log :=
  (List.mem_append.1 h).resolve_right (hnew c t)

theorem issued_goto {call c : Nat} {p : Phase} (hi : SeqInv s) (hcall : s.calls call = some p) (phase : Option Phase)
    (hc : s.next ≤ c) : (s.goto call phase).calls c = none := by
  have hne : c ≠ call := by
    intro he
    rw [← he, hi.issued c hc] at hcall
    cases hcall
  rw [Calls.goto_of_ne hne, hi.issued c hc]

/-- The phase of the one call there is changes. -/
theorem one_goto {call c d : Nat} {p q r : Phase} (hi : SeqInv s) (hcall : s.calls call = some r) {phase : Option Phase}
    (hc : (s.goto call phase).calls c = some p) (hd : (s.goto call phase).calls d = some q) : c = d := by
  have hcall' : ∀ {e p}, (s.goto call phase).calls e = some p → e = call := fun he =>
    (Calls.goto_some he).elim And.left fun he => hi.one he hcall
  rw [hcall' hc, hcall' hd]

theorem SeqInv.tick (hi : SeqInv s) (nanos : Nat) : SeqInv { s with now := s.now + nanos } :=
  ⟨hi.spaced, hi.issued, hi.one, fun hc => Nat.le_add_right_of_le (hi.past hc), hi.newest, hi.kept⟩

theorem SeqInv.cached (hi : SeqInv s) :
    SeqInv { s with toCalls := s.begun.record [.returned s.next (.ok ()) s.now] } where
  spaced := hi.spaced.concat trivial
  issued c hc := hi.issued c (Nat.le_of_succ_le hc)
  one := hi.one
  past hc := hi.past (confirmed_mem_append (by simp) hc)
  newest hd hc := hi.newest hd (confirmed_mem_append (by simp) hc)
  kept hc := hi.kept (confirmed_mem_append (by simp) hc)

theorem SeqInv.probe (hi : SeqInv s) (ha : Alone s .check)
    (hold : ∀ t, s.lastHealthOk = some t → believed.asNanos ≤ s.now - t) :
    SeqInv { s with toCalls := (s.begun.goto s.next (some .probing)).record [.probe s.next s.now] } := by
  have hidle := hi.idle ha
  have hcover : ∀ {c t}, .confirmed c t ∈ s.log → ∃ l, s.lastHealthOk = some l ∧ t ≤ l :=
    hi.covered fun d l => by simp [hidle d]
  have hnew : ∀ {c p}, (s.begun.goto s.next (some .probing)).calls c = some p →
      c = s.next ∧ some .probing = some p := fun {c p} hc =>
    (Calls.goto_some hc).resolve_right (by simp [show s.begun.calls c = none from hidle c])
  refine ⟨hi.spaced.concat fun c u hc => ?_, fun c hc => ?_, fun hc hd => (hnew hc).1.trans (hnew hd).1.symm,
    fun hc => hi.past (confirmed_mem_append (by simp) hc), fun hd _ => ?_,
    fun hc => .inl (hcover (confirmed_mem_append (by simp) hc))⟩
  · -- the kept success covers all of them, and it is old
    obtain ⟨l, hl, hle⟩ := hcover hc
    have hfar := hold l hl
    have hpos : 0 < believed.asNanos := by decide
    omega
  · have hlt : s.next < c := hc
    exact (Calls.goto_of_ne hlt.ne' _).trans (hidle c)
  · cases (hnew hd).2

theorem SeqInv.confirmed (hi : SeqInv s) {call : Nat} (hcall : s.calls call = some .probing) :
    SeqInv { s with toCalls := (s.goto call (some (.storing s.now))).record [.confirmed call s.now] } := by
  have hpast : ∀ {c u}, Event.confirmed c u ∈ s.log ++ [.confirmed call s.now] → u ≤ s.now := by
    intro c u hc
    obtain hc | hc := List.mem_append.1 hc
    · exact hi.past hc
    · cases List.mem_singleton.1 hc
      exact Nat.le_refl _
  refine ⟨hi.spaced.concat trivial, fun c hc => issued_goto hi hcall _ hc, fun hc hd => one_goto hi hcall hc hd, hpast,
    fun hd hc => ?_, fun hc => .inr ⟨call, s.now, Calls.goto_self ..⟩⟩
  obtain ⟨-, hd'⟩ | hd' := Calls.goto_some hd
  · cases hd'
    exact hpast hc
  · exact absurd hd' (hi.not_storing hcall _ _)

theorem SeqInv.refused (hi : SeqInv s) {call : Nat} {e : String} (hcall : s.calls call = some .probing) :
    SeqInv { s with
      toCalls := (s.goto call none).record
        [.refused call e, .returned call (.error ("gcp kms health probe: " ++ e)) s.now] } where
  spaced := hi.spaced.append fun e' he' pre => by
    simp only [List.mem_cons, List.not_mem_nil, or_false] at he'
    obtain rfl | rfl := he' <;> trivial
  issued c hc := issued_goto hi hcall none hc
  one hc hd := one_goto hi hcall hc hd
  past hc := hi.past (confirmed_mem_append (by simp) hc)
  newest hd hc := hi.newest (Calls.before_goto (by simp) hd) (confirmed_mem_append (by simp) hc)
  kept hc := .inl (hi.covered (hi.not_storing hcall) (confirmed_mem_append (by simp) hc))

theorem SeqInv.stored (hi : SeqInv s) {call time : Nat} (hcall : s.calls call = some (.storing time)) :
    SeqInv { s with
      lastHealthOk := some time, toCalls := (s.goto call none).record [.returned call (.ok ()) s.now] } where
  spaced := hi.spaced.concat trivial
  issued c hc := issued_goto hi hcall none hc
  one hc hd := one_goto hi hcall hc hd
  past hc := hi.past (confirmed_mem_append (by simp) hc)
  newest hd hc := hi.newest (Calls.before_goto (by simp) hd) (confirmed_mem_append (by simp) hc)
  kept hc := .inl ⟨time, rfl, hi.newest hcall (confirmed_mem_append (by simp) hc)⟩

/-- A call that is dropped had nothing to keep yet. -/
theorem SeqInv.dropped (hi : SeqInv s) {call : Nat} (hcall : s.calls call = some .probing) :
    SeqInv { s with toCalls := s.goto call none } where
  spaced := hi.spaced
  issued c hc := issued_goto hi hcall none hc
  one hc hd := one_goto hi hcall hc hd
  past := hi.past
  newest hd hc := hi.newest (Calls.before_goto (by simp) hd) hc
  kept hc := .inl (hi.covered (hi.not_storing hcall) hc)

theorem step_keeps_seqInv (hi : SeqInv s) (ha : Alone s a) (h : step s a = some t) : SeqInv t := by
  cases step_inv h with
  | tick => exact hi.tick _
  | cached _ _ => exact hi.cached
  | probe hold => exact hi.probe ha hold
  | confirmed hcall => exact hi.confirmed hcall
  | refused hcall => exact hi.refused hcall
  | stored hcall => exact hi.stored hcall
  | dropped hcall => exact hi.dropped hcall

/-- **KMS is left alone for ten seconds after a success**, if no two calls
overlap: between a probe that KMS has confirmed and the next one there are ten
seconds, in every run. After a refusal there need not be. -/
theorem probes_spaced {as : List Action} (ha : Along step Alone {} as) (hr : run step {} as = some s) :
    ∀ pre call time post, s.log = pre ++ .probe call time :: post →
      ∀ c t, .confirmed c t ∈ pre → t + believed.asNanos ≤ time := by
  have hi : SeqInv s := invariant_along step_keeps_seqInv ha hr
    ⟨guarded_nil, fun _ _ => rfl, nofun, nofun, nofun, nofun⟩
  exact fun pre call time post he => hi.spaced pre _ post he

/-- Two probes that succeed, ten seconds apart, with a refusal, a caller that
goes away and an answer from what is kept around them. -/
def scrapes : List Action :=
  [.check, .answer 0 (.error "UNAVAILABLE"), .check, .drop 1, .check, .answer 2 (.ok ()), .store 2, .tick 9999999999,
    .check, .tick 1, .check, .answer 4 (.ok ()), .store 4]

theorem probes_spaced_scrapes :
    ∃ s, run step {} scrapes = some s ∧ s.log.length = 11 ∧
      ∀ pre call time post, s.log = pre ++ .probe call time :: post →
        ∀ c t, .confirmed c t ∈ pre → t + believed.asNanos ≤ time := by
  have hlength : (run step {} scrapes).map (fun s => s.log.length) = some 11 := by decide
  obtain ⟨s, hr, hlog⟩ := Option.map_eq_some_iff.1 hlength
  exact ⟨s, hr, hlog, probes_spaced (by decide) hr⟩

/-- Two calls overlap: both are confirmed, and the one that gets the lock last
puts the older time over the newer. -/
def overlapping : List Action :=
  [.check, .check, .answer 0 (.ok ()), .tick 5, .answer 1 (.ok ()), .store 1, .store 0]

example : (run step {} overlapping).map St.lastHealthOk = some (some 0) := rfl

theorem health_grounded_overlapping :
    ∃ s, run step {} overlapping = some s ∧
      ∀ pre call time post, s.log = pre ++ .returned call (.ok ()) time :: post →
        ∃ c t, .confirmed c t ∈ pre ∧ t ≤ time ∧ (c = call ∨ time < t + believed.asNanos) := by
  have hr : run step {} overlapping = some _ := rfl
  exact ⟨_, hr, (health_grounded hr).1⟩

end FerrKit.Crypto.Health
