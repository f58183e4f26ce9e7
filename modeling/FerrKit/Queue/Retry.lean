/-
The pause before a retry. Claims are numbered: the `attempts` a claim
returns is its place among the claims of its job, and `retry_or_bury` puts
the next `run_at` two to that power of seconds after now, an hour at most.
Until another completion write of the job, nobody is handed it before then,
whatever sweeps, cancels and other workers do.
-/
import FerrKit.Queue.Attempts

namespace FerrKit.Queue

open Runs

/-! ## Claims are numbered -/

/-- The claims of the job up to the one under number `k`. -/
def St.claimsUpTo (s : St) (k : Nat) (j : Uuid) : Nat := ((s.claims.map (·.claimed.id)).take (k + 1)).count j

def Numbered (s : St) : Prop :=
  ∀ (k : Nat) (c : Claim), s.claims[k]? = some c → c.claimed.attempts = s.claimsUpTo k c.claimed.id

/-- The ledger of claims only gets longer. -/
theorem claimIds_next {s t : St} {a : Action} (h : step s a = some t) :
    t.claims.map (·.claimed.id) = s.claims.map (·.claimed.id) ∨
      ∃ id, t.claims.map (·.claimed.id) = s.claims.map (·.claimed.id) ++ [id] := by
  cases step_inv h with
  | tick | spawn | enqueue _ | duplicate | cancel | noJob | noSweep | sweep _ _ => exact .inl rfl
  | claim _ _ _ => exact .inr ⟨_, List.map_append⟩
  | complete _ _ | lose _ _ => exact .inl (settle_ids _ _ _)

theorem claimsUpTo_next {s t : St} {a : Action} {k : Nat} {c : Claim} (h : step s a = some t)
    (hc : s.claims[k]? = some c) (j : Uuid) : t.claimsUpTo k j = s.claimsUpTo k j := by
  have hlt : k + 1 ≤ (s.claims.map (·.claimed.id)).length := by
    rw [List.length_map]
    exact (List.getElem?_eq_some_iff.1 hc).1
  unfold St.claimsUpTo
  rcases claimIds_next h with heq | ⟨id, heq⟩
  · rw [heq]
  · rw [heq, List.take_append_of_le_length hlt]

theorem step_numbered {s t : St} {a : Action} (hi : Tallied s) (hn : Numbered s) (h : step s a = some t) :
    Numbered t := by
  intro k c' hc'
  rcases claims_inv h hc' with ⟨c, hc, hcl, -, -, -⟩ | ⟨rfl, w, locked, r, -, -, hr, -, hjobs, rfl⟩
  · rw [hcl, claimsUpTo_next h hc]
    exact hn k c hc
  · -- a new claim is the last of the ledger, and the counter counts them all
    have hlast : t.claimsUpTo s.claims.length r.id = t.timesClaimed r.id := by
      have hlen : t.claims.length ≤ s.claims.length + 1 := by
        rcases claimIds_next h with heq | ⟨id, heq⟩
        · have := congrArg List.length heq
          simp only [List.length_map] at this
          omega
        · have := congrArg List.length heq
          simp only [List.length_map, List.length_append, List.length_singleton] at this
          omega
      rw [St.claimsUpTo, List.take_of_length_le (by simpa using hlen), St.timesClaimed]
    have hrow : s.row r.id = some r := (row_iff_mem hi.unique).2 ⟨hr, rfl⟩
    have hrow' : t.row r.id = some (claimSet s.now w.workerId r) := by
      have hget := Table.get_update_some (p := (·.id == r.id)) (f := claimSet s.now w.workerId) (fun _ => rfl) hrow
      rw [if_pos (beq_self_eq_true r.id)] at hget
      rw [St.row, hjobs]
      exact hget
    have hcounted := ((step_tallied hi h).counted r.id _ hrow').1
    show (claimSet s.now w.workerId r).attempts = _
    rw [hcounted]
    exact congrArg Nat.cast hlast.symm

/-! ## Until then nobody is handed the job -/

/-- No completion write of the job. -/
def Unwritten (j : Uuid) (s : St) (a : Action) : Prop :=
  ∀ k h c, a = .complete k h → s.handling k = some c → c.claimed.id ≠ j

/-- The job is due at `due`, and was not handed out before, counting from the
claim with number `n`. -/
structure HeldBack (n : Nat) (j : Uuid) (due : Int) (s : St) : Prop where
  row : ∃ r, s.row j = some r ∧ r.runAt = due
  claims : ∀ (k : Nat) (c : Claim), n ≤ k → s.claims[k]? = some c → c.claimed.id = j → due ≤ c.claimedAt

theorem step_heldBack {s t : St} {a : Action} {n : Nat} {j : Uuid} {due : Int} (hu : UniqueIds s)
    (hi : HeldBack n j due s) (hw : Unwritten j s a) (h : step s a = some t) : HeldBack n j due t := by
  obtain ⟨r, hr, hdue⟩ := hi.row
  obtain ⟨r', hr', hR⟩ := row_next h hr hu
  refine ⟨⟨r', hr', ?_⟩, fun k c' hk hc' hid => ?_⟩
  · cases hR with
    | kept _ | cancelled _ | claimed _ _ _ | swept _ _ _ => exact hdue
    | completed hc hid => exact absurd (hid.trans (Table.get_key hr)) (hw _ _ _ rfl hc)
  · rcases claims_inv h hc' with ⟨c, hc, hcl, -, hat, -⟩ | ⟨-, w, locked, r₀, -, -, hr₀, hcl, -, rfl⟩
    · rw [hat]
      exact hi.claims k c hk hc (hcl ▸ hid)
    · have hrow : s.row j = some r₀ := (row_iff_mem hu).2 ⟨hr₀, hid⟩
      rw [hr, Option.some.injEq] at hrow
      subst hrow
      rw [← hdue]
      exact (claimable_iff.1 hcl).2.2.1

/-- A retry is written: the job is due after its pause. -/
theorem heldBack_retry {s t : St} {k : Nat} {h : Handled} {c : Claim} (hi : Tallied s) (hc : s.handling k = some c)
    (hre : Reschedules c.claimed h) (hs : step s (.complete k h) = some t) :
    HeldBack t.claims.length c.claimed.id (s.now + backoffSeconds c.claimed.attempts.toNat * nanosPerSec) t := by
  obtain ⟨r, hr, -⟩ := hi.owned k c (handling_eq_some.1 hc).1
  have hrow := row_completed hs hc hr hi.unique
  refine ⟨⟨_, hrow, ?_⟩, fun k' c' hk hc' => ?_⟩
  · cases h with
    | badPayload _ | ok | permanent _ => cases hre
    | retriable err =>
      have hlt : ¬ c.claimed.attempts ≥ c.claimed.maxAttempts := Int.not_le.2 hre
      simp only [processClaimed, retryOrBury, if_neg hlt, Completion.set]
  · exact absurd (List.getElem?_eq_some_iff.1 hc').1 (Nat.not_lt.2 hk)

/-- A job that is at work for the first time. -/
def firstTry : List Action := [.enqueue 1 "mail" "{}" { }, .spawn (mailWorker "a"), .claim (mailWorker "a") []]

end FerrKit.Queue
