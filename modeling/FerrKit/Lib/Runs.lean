/-
Runs of a step function that may refuse a step.

A system is a state type, an action type and `step : σ → α → Option σ`:
the action carries every choice the environment makes, `none` says the
action is not enabled. A run is a list of actions. A condition on steps
speaks of the state before the step and the action (`Along`), so a result
"in every run whose steps all meet the condition" is `Along P s as → ...`.
-/
import Mathlib.Data.Option.Basic
import Mathlib.Data.Set.Subsingleton

namespace Runs

variable {σ α : Type*}

/-- The state after the actions, when every one of them is enabled. -/
def run (step : σ → α → Option σ) (s : σ) : List α → Option σ
  | [] => some s
  | a :: as => (step s a).bind fun t => run step t as

/-- Every step of the run from `s` meets `P`. -/
def Along (step : σ → α → Option σ) (P : σ → α → Prop) : σ → List α → Prop
  | _, [] => True
  | s, a :: as => P s a ∧ ∀ t, step s a = some t → Along step P t as

/-- Some run ends in `t`. -/
def Reachable (step : σ → α → Option σ) (s t : σ) : Prop := ∃ as, run step s as = some t

variable {step : σ → α → Option σ} {P Q : σ → α → Prop} {s t u : σ} {a : α} {as bs : List α}

@[simp] theorem run_nil : run step s [] = some s := rfl

theorem run_cons_some : run step s (a :: as) = some u ↔ ∃ t, step s a = some t ∧ run step t as = some u := by
  simp only [run, Option.bind_eq_some_iff]

theorem run_append : run step s (as ++ bs) = (run step s as).bind fun t => run step t bs := by
  induction as generalizing s with
  | nil => rfl
  | cons a as ih =>
    simp only [List.cons_append, run]
    cases step s a with
    | none => rfl
    | some t => simp only [Option.bind_some, ih]

theorem run_append_some :
    run step s (as ++ bs) = some u ↔ ∃ t, run step s as = some t ∧ run step t bs = some u := by
  rw [run_append, Option.bind_eq_some_iff]

theorem run_one : run step s [a] = step s a := by
  cases h : step s a <;> simp [run, h]

/-- Each action of a run was taken, in the state those before it lead to. -/
theorem step_within {pre post : List α} (hr : Runs.run step s as = some u) (he : as = pre ++ a :: post)
    (hpre : Runs.run step s pre = some t) : ∃ v, step t a = some v := by
  rw [he] at hr
  obtain ⟨t', ht', hr⟩ := run_append_some.1 hr
  rw [hpre] at ht'
  cases ht'
  obtain ⟨v, hv, -⟩ := run_cons_some.1 hr
  exact ⟨v, hv⟩

theorem Reachable.refl : Reachable step s s := ⟨[], rfl⟩

/-! ## Conditions on every step -/

theorem Along.append (h : Along step P s (as ++ bs)) (hr : Runs.run step s as = some t) :
    Along step P s as ∧ Along step P t bs := by
  induction as generalizing s with
  | nil =>
    simp only [run_nil, Option.some.injEq] at hr
    subst hr
    exact ⟨trivial, h⟩
  | cons a as ih =>
    obtain ⟨s', hs, hr⟩ := run_cons_some.1 hr
    obtain ⟨hp, hk⟩ := h
    obtain ⟨-, hb⟩ := ih (hk s' hs) hr
    refine ⟨⟨hp, fun s₁ hs₁ => ?_⟩, hb⟩
    exact (ih (hk s₁ hs₁) (by rw [hs] at hs₁; cases hs₁; exact hr)).1

theorem Along.join (h : Along step P s as) (hr : Runs.run step s as = some t) (h' : Along step P t bs) :
    Along step P s (as ++ bs) := by
  induction as generalizing s with
  | nil =>
    simp only [run_nil, Option.some.injEq] at hr
    exact hr ▸ h'
  | cons a as ih =>
    obtain ⟨s', hs, hr⟩ := run_cons_some.1 hr
    refine ⟨h.1, fun s₁ hs₁ => ?_⟩
    rw [hs, Option.some.injEq] at hs₁
    exact hs₁ ▸ ih (h.2 s' hs) hr

/-- `Along` read off a run: the condition holds of each action in the state
the actions before it lead to. -/
theorem Along.at {pre post : List α} (h : Along step P s (pre ++ a :: post))
    (hr : Runs.run step s pre = some t) : P t a :=
  (h.append hr).2.1

theorem Along.of_at : ∀ {as : List α} {s : σ},
    (∀ pre a post t, as = pre ++ a :: post → Runs.run step s pre = some t → P t a) → Along step P s as
  | [], _, _ => trivial
  | a :: as, s, h =>
    ⟨h [] a as s rfl rfl, fun t ht => Along.of_at fun pre b post u he hr =>
      h (a :: pre) b post u (by rw [he]; rfl) (run_cons_some.2 ⟨t, ht, hr⟩)⟩

theorem Along.cons (hp : P s a) (hs : step s a = some t) (h : Along step P t as) : Along step P s (a :: as) :=
  ⟨hp, fun t' ht' => by rw [hs, Option.some.injEq] at ht'; exact ht' ▸ h⟩

theorem Along.and (h : Along step P s as) (h' : Along step Q s as) :
    Along step (fun s a => P s a ∧ Q s a) s as := by
  induction as generalizing s with
  | nil => trivial
  | cons a as ih => exact ⟨⟨h.1, h'.1⟩, fun t ht => ih (h.2 t ht) (h'.2 t ht)⟩

/-- A condition on steps that can be computed can be computed along a run. -/
instance Along.decidable [∀ s a, Decidable (P s a)] : ∀ s as, Decidable (Along step P s as)
  | _, [] => isTrue trivial
  | s, a :: as =>
    match hs : step s a with
    | none => decidable_of_iff (P s a) ⟨fun hp => ⟨hp, fun t ht => by rw [hs] at ht; cases ht⟩, And.left⟩
    | some t =>
      haveI : Decidable (Along step P t as) := Along.decidable t as
      decidable_of_iff (P s a ∧ Along step P t as) ⟨fun h => .cons h.1 hs h.2, fun h => ⟨h.1, h.2 t hs⟩⟩

/-! ## Invariants -/

/-- An invariant that every step meeting `P` keeps holds at the end of every
run whose steps all meet `P`. -/
theorem invariant_along {I : σ → Prop} (hstep : ∀ {s a t}, I s → P s a → step s a = some t → I t)
    (h : Along step P s as) (hr : Runs.run step s as = some t) (hs : I s) : I t := by
  induction as generalizing s with
  | nil =>
    simp only [run_nil, Option.some.injEq] at hr
    exact hr ▸ hs
  | cons a as ih =>
    obtain ⟨s', hs', hr⟩ := run_cons_some.1 hr
    exact ih (h.2 s' hs') hr (hstep hs h.1 hs')

theorem along_true : ∀ {as : List α} {s : σ}, Along step (fun _ _ => True) s as
  | [], _ => trivial
  | _ :: _, _ => ⟨trivial, fun _ _ => along_true⟩

/-- The same without a condition on the steps. -/
theorem invariant_run {I : σ → Prop} (hstep : ∀ {s a t}, I s → step s a = some t → I t)
    (hr : Runs.run step s as = some t) (hs : I s) : I t :=
  invariant_along (P := fun _ _ => True) (fun hi _ h => hstep hi h) along_true hr hs

/-- Where every step lowers a measure, a run is no longer than what the
measure was at its start. -/
theorem length_add_measure_le {I : σ → Prop} {measure : σ → Nat}
    (hstep : ∀ {s a t}, I s → step s a = some t → I t)
    (hlower : ∀ {s a t}, I s → step s a = some t → measure t < measure s)
    (hr : Runs.run step s as = some t) (hs : I s) : as.length + measure t ≤ measure s := by
  induction as generalizing s with
  | nil =>
    simp only [run_nil, Option.some.injEq] at hr
    simp [hr]
  | cons a as ih =>
    obtain ⟨s', hs', hr⟩ := run_cons_some.1 hr
    have hrest : as.length + measure t ≤ measure s' := ih hr (hstep hs hs')
    have hfirst : measure s' < measure s := hlower hs hs'
    rw [List.length_cons]
    omega

theorem Reachable.invariant {I : σ → Prop} (hstep : ∀ {s a t}, I s → step s a = some t → I t)
    (h : Reachable step s t) (hs : I s) : I t := by
  obtain ⟨as, hr⟩ := h
  exact invariant_run hstep hr hs

/-- `Q` holds of every step the run takes. -/
def EachStep (step : σ → α → Option σ) (Q : σ → α → σ → Prop) (s : σ) (as : List α) : Prop :=
  ∀ pre a post t u, as = pre ++ a :: post → Runs.run step s pre = some t → step t a = some u → Q t a u

/-- A step lemma under an invariant, for every step of a run. -/
theorem eachStep_of_along {I : σ → Prop} {T : σ → α → σ → Prop}
    (hI : ∀ {s a t}, I s → P s a → step s a = some t → I t)
    (hstep : ∀ {s a t}, I s → P s a → step s a = some t → T s a t) (hs : I s) (h : Along step P s as) :
    EachStep step T s as := by
  intro pre a post t u he hpre hu
  rw [he] at h
  exact hstep (invariant_along hI (h.append hpre).1 hpre hs) (h.at hpre) hu

/-! ## Relations between a state and every later one -/

/-- A preorder that each step meeting `P` respects, in states where the
invariant `I` holds, relates the two ends of every run whose steps all meet
`P`. -/
theorem rel_along {I : σ → Prop} {R : σ → σ → Prop} (hI : ∀ {s a t}, I s → step s a = some t → I t)
    (hrefl : ∀ s, R s s) (htrans : ∀ {s t u}, R s t → R t u → R s u)
    (hstep : ∀ {s a t}, I s → P s a → step s a = some t → R s t) (hs : I s)
    (h : Along step P s as) (hr : Runs.run step s as = some t) : R s t := by
  induction as generalizing s with
  | nil =>
    simp only [run_nil, Option.some.injEq] at hr
    exact hr ▸ hrefl s
  | cons a as ih =>
    obtain ⟨s', hs', hr⟩ := run_cons_some.1 hr
    exact htrans (hstep hs h.1 hs') (ih (hI hs hs') (h.2 s' hs') hr)

/-- `R` holds between each two states of the run, the earlier first. -/
def Throughout (step : σ → α → Option σ) (R : σ → σ → Prop) (s : σ) (as : List α) : Prop :=
  ∀ pre mid post t u, as = pre ++ mid ++ post → Runs.run step s pre = some t →
    Runs.run step t mid = some u → R t u

/-- When `P` is exactly what a single step needs to respect the preorder
`R`, a run respects `R` throughout exactly when all its steps meet `P`. -/
theorem throughout_iff_along {I : σ → Prop} {R : σ → σ → Prop} (hI : ∀ {s a t}, I s → step s a = some t → I t)
    (hrefl : ∀ s, R s s) (htrans : ∀ {s t u}, R s t → R t u → R s u)
    (hstep : ∀ {s a t}, I s → step s a = some t → (R s t ↔ P s a)) (hs : I s)
    (hr : Runs.run step s as = some u) : Throughout step R s as ↔ Along step P s as := by
  constructor
  · intro h
    refine Along.of_at fun pre a post t he hpre => ?_
    obtain ⟨v, hv⟩ := step_within hr he hpre
    exact (hstep (invariant_run hI hpre hs) hv).1 (h pre [a] post t v (by simp [he]) hpre (run_one.trans hv))
  · intro h pre mid post t v he hpre hmid
    rw [he, List.append_assoc] at h
    have hm := ((h.append hpre).2.append hmid).1
    exact rel_along hI hrefl htrans (fun hi hp hs => (hstep hi hs).2 hp) (invariant_run hI hpre hs) hm hmid

/-- `Q` holds in every state of the run. -/
def Always (step : σ → α → Option σ) (Q : σ → Prop) (s : σ) (as : List α) : Prop :=
  ∀ pre post t, as = pre ++ post → Runs.run step s pre = some t → Q t

/-- When `P` is exactly what a single step needs to keep `Q`, a run keeps `Q`
exactly when all its steps meet `P`. -/
theorem always_iff_along {I Q : σ → Prop} (hI : ∀ {s a t}, I s → step s a = some t → I t)
    (hstep : ∀ {s a t}, I s → Q s → step s a = some t → (Q t ↔ P s a)) (hs : I s) (hq : Q s)
    (hr : Runs.run step s as = some u) : Always step Q s as ↔ Along step P s as := by
  constructor
  · intro h
    refine Along.of_at fun pre a post t he hpre => ?_
    obtain ⟨v, hv⟩ := step_within hr he hpre
    have hqt : Q t := h pre (a :: post) t he hpre
    have hqv : Q v := h (pre ++ [a]) post v (by simp [he]) (run_append_some.2 ⟨t, hpre, run_one.trans hv⟩)
    exact (hstep (invariant_run hI hpre hs) hqt hv).1 hqv
  · intro h pre post t he hpre
    rw [he] at h
    have hboth : I t ∧ Q t := invariant_along (I := fun s => I s ∧ Q s)
      (fun hi hp hs => ⟨hI hi.1 hs, (hstep hi.1 hi.2 hs).2 hp⟩) (h.append hpre).1 hpre ⟨hs, hq⟩
    exact hboth.2

/-! ## Mutual exclusion -/

/-- What a step may do to the set of holders: let some go, or admit one when
there is none. -/
def Admits {κ : Type*} (held held' : Set κ) : Prop :=
  held' ⊆ held ∨ (held = ∅ ∧ held'.Subsingleton)

theorem Admits.subsingleton {κ : Type*} {held held' : Set κ} (h : Admits held held') (hs : held.Subsingleton) :
    held'.Subsingleton := by
  rcases h with hsub | ⟨-, hone⟩
  · exact hs.anti hsub
  · exact hone

/-! ## Event logs -/

/-- Every event of the log meets `G` over the events before it. -/
def Guarded {ε : Type*} (G : List ε → ε → Prop) (log : List ε) : Prop :=
  ∀ pre e post, log = pre ++ e :: post → G pre e

section Guarded

variable {ε : Type*} {G : List ε → ε → Prop} {log : List ε} {e : ε}

theorem guarded_nil : Guarded G [] := fun pre e post h => by simp at h

theorem Guarded.concat (h : Guarded G log) (he : G log e) : Guarded G (log ++ [e]) := by
  intro pre e' post heq
  rcases List.eq_nil_or_concat post with rfl | ⟨post, l, rfl⟩
  · obtain ⟨rfl, hl⟩ := List.append_inj' heq rfl
    cases hl
    exact he
  · rw [List.concat_eq_append, ← List.cons_append, ← List.append_assoc] at heq
    obtain ⟨hl, -⟩ := List.append_inj' heq rfl
    exact h pre e' post hl

/-- Events that need nothing of the past. -/
theorem Guarded.append {new : List ε} (h : Guarded G log) (hn : ∀ e ∈ new, ∀ pre, G pre e) :
    Guarded G (log ++ new) := by
  induction new generalizing log with
  | nil => simpa using h
  | cons e new ih =>
    rw [List.append_cons]
    exact ih (h.concat (hn e List.mem_cons_self log)) fun e' he' => hn e' (List.mem_cons_of_mem _ he')

end Guarded

end Runs
