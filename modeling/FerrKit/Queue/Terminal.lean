/-
Terminal statuses. `job.rs` says `cancelled` and `dead` are terminal and
`is_terminal` adds `done`; `cancel` checks for them, but the three
completion writes check nothing but the id. So a job leaves a terminal
status exactly when a completion write lands on it late and writes another
status (`LandsOpen` fails): every other statement leaves terminal rows
alone, whatever the order of the steps.
-/
import FerrKit.Queue.Facts

namespace FerrKit.Queue

open Runs

/-- No claim of job `j` was handed out between `s` and `t`. -/
def NoNewClaim (s t : St) (j : Uuid) : Prop :=
  ∀ (k : Nat) (c : Claim), t.claims[k]? = some c → c.claimed.id = j →
    ∃ c₀, s.claims[k]? = some c₀ ∧ c₀.claimed = c.claimed

/-- Between `s` and `t`, each job that is terminal in `s` keeps its status
and is not claimed again. -/
def Absorbs (s t : St) : Prop :=
  ∀ j r, s.row j = some r → r.status.isTerminal = true →
    (∃ r', t.row j = some r' ∧ r'.status = r.status) ∧ NoNewClaim s t j

/-- A run from `s` in which terminal statuses are absorbing: between any two
states of it, and for a job whose `cancel` returned `Ok`, from then on. -/
structure TerminalFinal (s : St) (as : List Action) : Prop where
  absorbing : Throughout step Absorbs s as
  cancelled : ∀ pre queue id post t t' u, as = pre ++ .cancel queue id :: post → run step s pre = some t →
    cancelOk queue id t.jobs = true → step t (.cancel queue id) = some t' → run step t' post = some u →
    (∃ r, u.row id = some r ∧ r.status = .cancelled) ∧ NoNewClaim t' u id

/-- A completion write that finds its row terminal writes the status that is
already there. -/
def LandsOpen (s : St) : Action → Prop
  | .complete k h => ∀ c r, s.handling k = some c → s.row c.claimed.id = some r → r.status.isTerminal = true →
      (processClaimed s.now c.claimed h).status = r.status
  | _ => True

theorem NoNewClaim.refl (s : St) (j : Uuid) : NoNewClaim s s j := fun _ c h _ => ⟨c, h, rfl⟩

theorem NoNewClaim.trans {s t u : St} {j : Uuid} (h₁ : NoNewClaim s t j) (h₂ : NoNewClaim t u j) :
    NoNewClaim s u j := by
  intro k c hc hj
  obtain ⟨c₁, hc₁, he₁⟩ := h₂ k c hc hj
  obtain ⟨c₀, hc₀, he₀⟩ := h₁ k c₁ hc₁ (by rw [he₁]; exact hj)
  exact ⟨c₀, hc₀, he₀.trans he₁⟩

theorem Absorbs.refl (s : St) : Absorbs s s := fun j r hr _ => ⟨⟨r, hr, rfl⟩, .refl s j⟩

theorem Absorbs.trans {s t u : St} (h₁ : Absorbs s t) (h₂ : Absorbs t u) : Absorbs s u := by
  intro j r hr ht
  obtain ⟨⟨r₁, hr₁, hs₁⟩, hn₁⟩ := h₁ j r hr ht
  obtain ⟨⟨r₂, hr₂, hs₂⟩, hn₂⟩ := h₂ j r₁ hr₁ (by rw [hs₁]; exact ht)
  exact ⟨⟨r₂, hr₂, hs₂.trans hs₁⟩, hn₁.trans hn₂⟩

/-- `claim_one` takes no terminal job. -/
theorem step_noNewClaim {s t : St} {a : Action} {j : Uuid} {r : JobRow} (hu : UniqueIds s)
    (h : step s a = some t) (hr : s.row j = some r) (ht : r.status.isTerminal = true) : NoNewClaim s t j := by
  intro k c hc hj
  rcases claims_inv h hc with ⟨c₀, hc₀, he, -⟩ | ⟨-, w, locked, r₀, -, -, hr₀, hcl, -, rfl⟩
  · exact ⟨c₀, hc₀, he.symm⟩
  · have hrow : s.row j = some r₀ := (row_iff_mem hu).2 ⟨hr₀, hj⟩
    rw [hr, Option.some.injEq] at hrow
    subst hrow
    obtain ⟨-, hq | hf, -⟩ := claimable_iff.1 hcl
    · rw [hq] at ht; cases ht
    · rw [hf] at ht; cases ht

/-- What a step does to a terminal row: nothing, unless it is a completion
write. -/
theorem RowR.of_terminal {s s' : St} {a : Action} {r r' : JobRow} (h : RowR s s' r a r')
    (ht : r.status.isTerminal = true) :
    r' = r ∨ ∃ k hd c, a = .complete k hd ∧ s.handling k = some c ∧ c.claimed.id = r.id ∧
      r' = (processClaimed s.now c.claimed hd).set s.now r := by
  cases h with
  | kept _ => exact .inl rfl
  | cancelled hc => rw [(cancellable_iff.1 hc).2.2] at ht; cases ht
  | claimed _ hc _ =>
    obtain ⟨-, hq | hf, -⟩ := claimable_iff.1 hc
    · rw [hq] at ht; cases ht
    · rw [hf] at ht; cases ht
  | completed hc hid => exact .inr ⟨_, _, _, rfl, hc, hid, rfl⟩
  | swept _ _ ha => rw [(abandoned_iff.1 ha).1] at ht; cases ht

theorem step_absorbs_iff {s t : St} {a : Action} (hu : UniqueIds s) (h : step s a = some t) :
    Absorbs s t ↔ LandsOpen s a := by
  constructor
  · intro hk
    cases a with
    | complete k hd =>
      intro c r hc hr ht
      obtain ⟨⟨r', hr', hs⟩, -⟩ := hk _ r hr ht
      rw [row_completed h hc hr hu, Option.some.injEq] at hr'
      rw [← hs, ← hr', Completion.set_status]
    | _ => trivial
  · intro ho j r hr ht
    obtain ⟨r', hr', hR⟩ := row_next h hr hu
    refine ⟨⟨r', hr', ?_⟩, step_noNewClaim hu h hr ht⟩
    rcases hR.of_terminal ht with rfl | ⟨k, hd, c, rfl, hc, hid, rfl⟩
    · rfl
    · rw [Completion.set_status]
      exact ho c r hc (by rw [hid, Table.get_key hr]; exact hr) ht

theorem cancel_cancels {s t : St} {queue : String} {id : Uuid} (hu : UniqueIds s)
    (hok : cancelOk queue id s.jobs = true) (h : step s (.cancel queue id) = some t) :
    ∃ r, t.row id = some r ∧ r.status = .cancelled := by
  simp only [cancelOk, List.any_eq_true] at hok
  obtain ⟨r, hr, hc⟩ := hok
  have hrow : s.row id = some r := (row_iff_mem hu).2 ⟨hr, (cancellable_iff.1 hc).1⟩
  simp only [step, Option.some.injEq] at h
  subst h
  refine ⟨_, Table.get_update_some (fun _ => rfl) hrow, ?_⟩
  rw [if_pos hc]

/-- **Terminal statuses are absorbing exactly when completion writes land on
open rows.** From any reachable state, in any order of steps: the run keeps
every terminal status and never claims a terminal job again (a cancelled one
from its `cancel` on), if and only if each completion write that finds its
row terminal writes the status already there. -/
theorem terminalFinal_iff {now : Int} {s u : St} {as : List Action} (hs : Reachable step (init now) s)
    (hr : run step s as = some u) : TerminalFinal s as ↔ Along step LandsOpen s as := by
  have hu := (reachable_invariants hs).1
  have hiff : Throughout step Absorbs s as ↔ Along step LandsOpen s as :=
    throughout_iff_along step_uniqueIds Absorbs.refl Absorbs.trans step_absorbs_iff hu hr
  refine ⟨fun h => hiff.1 h.absorbing, fun h => ⟨hiff.2 h, ?_⟩⟩
  intro pre queue id post t t' v he hpre hok hc hpost
  have hut := invariant_run step_uniqueIds hpre hu
  obtain ⟨r, hrow, hst⟩ := cancel_cancels hut hok hc
  have hto := hiff.2 h (pre ++ [.cancel queue id]) post [] t' v (by simp [he])
    (run_append_some.2 ⟨t, hpre, run_one.trans hc⟩) hpost
  obtain ⟨⟨r', hr', hs'⟩, hn⟩ := hto id r hrow (by rw [hst]; rfl)
  exact ⟨⟨r', hr', hs'.trans hst⟩, hn⟩

/-! ## The race -/

/-- A job is cancelled while its handler runs, and the handler then ends
well: `mark_done` overwrites `cancelled`. -/
def cancelRace : List Action :=
  [.enqueue 1 "mail" "{}" { }, .spawn (mailWorker "a"), .claim (mailWorker "a") [], .cancel "mail" 1, .complete 0 .ok]

theorem cancelRace_not_final : ¬ ∀ now s as u, Reachable step (init now) s → run step s as = some u →
    TerminalFinal s as := by
  intro h
  have hf := (h 0 (init 0) cancelRace _ .refl rfl).cancelled (cancelRace.take 3) "mail" 1 [.complete 0 .ok]
    _ _ _ rfl rfl rfl rfl rfl
  obtain ⟨⟨r, hr, hs⟩, -⟩ := hf
  cases hr
  cases hs

/-- The handler ends first, and the `cancel` after it finds nothing to do. -/
def cancelTooLate : List Action :=
  [.enqueue 1 "mail" "{}" { }, .spawn (mailWorker "a"), .claim (mailWorker "a") [], .complete 0 .ok, .cancel "mail" 1]

theorem terminalFinal_cancelTooLate : TerminalFinal (init 0) cancelTooLate := by
  refine (terminalFinal_iff .refl (rfl : run step (init 0) cancelTooLate = some _)).2 ?_
  refine .cons trivial rfl (.cons trivial rfl (.cons trivial rfl (.cons ?_ rfl (.cons trivial rfl trivial))))
  -- the row is `running` when the write lands
  intro c r hc hr ht
  cases hc
  cases hr
  cases ht

end FerrKit.Queue
