/-
The order of claims. `claim_one` takes the claimable row with the highest
priority and, among equals, the earliest `run_at`; a retry goes to a
`run_at` after now. So a job that could be claimed is passed over only for
rows that stand before it, each of these is handed out no more often than
its budget allows, and no row moves in front of it. A waiting job is
overtaken at most `St.ahead` times.
-/
import FerrKit.Queue.Facts

namespace FerrKit.Queue

open Runs

/-- The attempts a row has left. -/
def JobRow.attemptsLeft (r : JobRow) : Nat := (r.maxAttempts - r.attempts).toNat

/-- How often a row may still be claimed before `j`: not at all when it is in
another queue or stands after `j`. -/
def JobRow.share (j r : JobRow) : Nat :=
  if r.queue = j.queue ∧ r.id ≠ j.id ∧ claimOrder r j = true then r.attemptsLeft else 0

def St.ahead (s : St) (j : JobRow) : Nat := (s.jobs.map j.share).sum

/-- The claims of other jobs of the queue of `j`. -/
def St.othersClaimed (s : St) (j : JobRow) : Nat :=
  (s.claims.map fun c => (c.worker.queue, c.claimed.id)).countP fun c => c.1 == j.queue && c.2 != j.id

/-- `j` can be claimed, no other statement has its row locked, and what is
enqueued is enqueued behind it. -/
def Waits (j : JobRow) (s : St) (a : Action) : Prop :=
  s.row j.id = some j ∧ claimable s.now j.queue j = true ∧
    match a with
    | .claim _ locked => j.id ∉ locked
    | .enqueue id queue payload opts => queue = j.queue → claimOrder (newRow s.now id queue payload opts) j = false
    | _ => True

/-! ## The order -/

theorem claimOrder_iff {a b : JobRow} :
    claimOrder a b = true ↔ b.priority < a.priority ∨ (a.priority = b.priority ∧ a.runAt ≤ b.runAt) := by
  simp [claimOrder]

theorem claimOrder_total (a b : JobRow) (h : claimOrder a b = false) : claimOrder b a = true := by
  have hne : ¬ claimOrder a b = true := by simp [h]
  rw [claimOrder_iff] at hne ⊢
  omega

theorem claimOrder_trans (a b c : JobRow) (hab : claimOrder a b = true) (hbc : claimOrder b c = true) :
    claimOrder a c = true := by
  rw [claimOrder_iff] at *
  omega

/-- `claim_one` passes over a row it could have taken only for one that
stands before it. -/
theorem selectNext_before {now : Int} {queue : String} {locked : List Uuid} {jobs : List JobRow} {r j : JobRow}
    (h : selectNext now queue locked jobs = some r) (hj : j ∈ jobs) (hc : claimable now queue j = true)
    (hl : j.id ∉ locked) : claimOrder r j = true := by
  refine Table.first_before claimOrder_total claimOrder_trans h j (List.mem_filter.2 ⟨hj, ?_⟩)
  simp [hc, hl]

/-! ## What a statement does to a share -/

section Shares

variable {j r : JobRow} {now : Int}

theorem share_le_attemptsLeft : j.share r ≤ r.attemptsLeft := by
  unfold JobRow.share
  split
  · exact Nat.le_refl _
  · exact Nat.zero_le _

/-- A row that keeps its place or falls back, and gets no attempts. -/
theorem share_le {r' : JobRow} (hq : r'.queue = r.queue) (hid : r'.id = r.id)
    (ho : claimOrder r' j = true → claimOrder r j = true) (hleft : r'.attemptsLeft ≤ r.attemptsLeft) :
    j.share r' ≤ j.share r := by
  by_cases h : r'.queue = j.queue ∧ r'.id ≠ j.id ∧ claimOrder r' j = true
  · have hr : j.share r = r.attemptsLeft := if_pos ⟨hq ▸ h.1, hid ▸ h.2.1, ho h.2.2⟩
    rw [hr]
    exact Nat.le_trans share_le_attemptsLeft hleft
  · rw [JobRow.share, if_neg h]
    exact Nat.zero_le _

theorem attemptsLeft_claimSet_le {w : String} : (claimSet now w r).attemptsLeft ≤ r.attemptsLeft := by
  simp only [JobRow.attemptsLeft, claimSet]
  omega

/-- A claim uses one of the attempts. -/
theorem share_claimSet_lt {w : String} (hq : r.queue = j.queue) (hid : r.id ≠ j.id) (ho : claimOrder r j = true)
    (hleft : r.attempts < r.maxAttempts) : j.share (claimSet now w r) < j.share r := by
  have hold : j.share r = r.attemptsLeft := if_pos ⟨hq, hid, ho⟩
  have hnew : (claimSet now w r).attemptsLeft < r.attemptsLeft := by
    simp only [JobRow.attemptsLeft, claimSet]
    omega
  exact hold ▸ Nat.lt_of_le_of_lt share_le_attemptsLeft hnew

theorem backoffSeconds_pos (attempt : Nat) : 0 < backoffSeconds attempt := by
  have hpow : 0 < 2 ^ attempt := Nat.two_pow_pos attempt
  simp only [backoffSeconds]
  omega

/-- A retry is due after now, and so never before a job that is due; the
other two writes leave the order alone. -/
theorem claimOrder_completed {c : Claimed} {h : Handled} (hdue : j.runAt ≤ now)
    (ho : claimOrder ((processClaimed now c h).set now r) j = true) : claimOrder r j = true := by
  cases hw : processClaimed now c h with
  | markDone | markDead _ => simpa [hw, Completion.set, claimOrder] using ho
  | markFailedForRetry errMsg nextRun =>
    have hnext : now < nextRun := by
      cases h with
      | badPayload _ | ok | permanent _ => cases hw
      | retriable err =>
        simp only [processClaimed, retryOrBury] at hw
        split at hw
        · cases hw
        · have hpos := backoffSeconds_pos c.attempts.toNat
          cases hw
          simp only [nanosPerSec]
          omega
    rw [hw, claimOrder_iff] at ho
    rw [claimOrder_iff]
    simp only [Completion.set] at ho
    omega

theorem attemptsLeft_set {w : Completion} : (w.set now r).attemptsLeft = r.attemptsLeft := by
  simp [JobRow.attemptsLeft]

end Shares

/-! ## Nobody moves in front -/

/-- What stands before `j` in the second state stood there in the first. -/
def StaysBehind (j : JobRow) (s t : St) : Prop :=
  ∀ r ∈ t.jobs, r.queue = j.queue → claimOrder r j = true →
    ∃ r₀ ∈ s.jobs, r₀.id = r.id ∧ r₀.queue = j.queue ∧ claimOrder r₀ j = true

theorem StaysBehind.trans {j : JobRow} {s t u : St} (h : StaysBehind j s t) (h' : StaysBehind j t u) :
    StaysBehind j s u := by
  intro r hr hq ho
  obtain ⟨r₁, hr₁, hid₁, hq₁, ho₁⟩ := h' r hr hq ho
  obtain ⟨r₀, hr₀, hid₀, hq₀, ho₀⟩ := h r₁ hr₁ hq₁ ho₁
  exact ⟨r₀, hr₀, hid₀.trans hid₁, hq₀, ho₀⟩

theorem staysBehind_update {j : JobRow} {s t : St} {p : JobRow → Bool} {f : JobRow → JobRow}
    (ht : t.jobs = Table.update p f s.jobs) (hqueue : ∀ r, (f r).queue = r.queue) (hid : ∀ r, (f r).id = r.id)
    (horder : ∀ r, claimOrder (f r) j = true → claimOrder r j = true) : StaysBehind j s t := by
  intro r hr hq ho
  rw [ht] at hr
  obtain ⟨r₀, hr₀, he⟩ := List.mem_map.1 hr
  split at he
  · subst he
    exact ⟨r₀, hr₀, (hid r₀).symm, (hqueue r₀).symm.trans hq, horder r₀ ho⟩
  · subst he
    exact ⟨r₀, hr₀, rfl, hq, ho⟩

/-! ## Steps and runs -/

theorem countP_settle (s : St) (j : JobRow) (k : Nat) (p : Phase) :
    ({ s with claims := s.claims.modify k (Claim.settle p) } : St).othersClaimed j = s.othersClaimed j := by
  have hmap : (s.claims.modify k (Claim.settle p)).map (fun c => (c.worker.queue, c.claimed.id)) =
      s.claims.map fun c => (c.worker.queue, c.claimed.id) :=
    Table.map_modify (f := Claim.settle p) (fun _ => rfl) s.claims k
  rw [St.othersClaimed, hmap, St.othersClaimed]

/-- What `claim_one` hands out, with the row it was chosen from. -/
theorem claim_inv {s t : St} {w : Worker} {locked : List Uuid} (h : step s (.claim w locked) = some t) :
    t = s ∨ ∃ r, selectNext s.now w.queue locked s.jobs = some r ∧
      t = { s with
        jobs := Table.update (·.id == r.id) (claimSet s.now w.workerId) s.jobs
        claims := s.claims ++ [⟨w, (claimSet s.now w.workerId r).toClaimed, s.now, .handling⟩] } := by
  simp only [step] at h
  split at h
  · cases hn : selectNext s.now w.queue locked s.jobs with
    | none =>
      simp only [claimOne, hn, Option.some.injEq] at h
      exact .inl h.symm
    | some r =>
      simp only [claimOne, hn, Option.some.injEq] at h
      exact .inr ⟨r, rfl, h.symm⟩
  · cases h

theorem othersClaimed_claim {s : St} {j : JobRow} {jobs : List JobRow} (c : Claim) :
    ({ s with jobs := jobs, claims := s.claims ++ [c] } : St).othersClaimed j =
      s.othersClaimed j + if c.worker.queue = j.queue ∧ c.claimed.id ≠ j.id then 1 else 0 := by
  simp only [St.othersClaimed, List.map_append, List.map_cons, List.map_nil, List.countP_append, List.countP_singleton,
    Bool.and_eq_true, beq_iff_eq, bne_iff_ne]

/-- A claim while `j` waits is of `j` itself or of a row that stands before
it, and that row has one attempt less. -/
theorem claim_ahead {s : St} {w : Worker} {locked : List Uuid} {j r : JobRow} (hu : UniqueIds s)
    (hrow : s.row j.id = some j) (hclaimable : claimable s.now j.queue j = true) (hl : j.id ∉ locked)
    (hsel : selectNext s.now w.queue locked s.jobs = some r) :
    (s.othersClaimed j + if w.queue = j.queue ∧ r.id ≠ j.id then 1 else 0) +
        ((Table.update (·.id == r.id) (claimSet s.now w.workerId) s.jobs).map j.share).sum ≤
      s.othersClaimed j + s.ahead j := by
  obtain ⟨hr, hc⟩ := selectNext_some hsel
  obtain ⟨hq, -, -, hleft⟩ := claimable_iff.1 hc
  have hle : ∀ r' ∈ s.jobs, (r'.id == r.id) = true → j.share (claimSet s.now w.workerId r') ≤ j.share r' :=
    fun r' _ _ => share_le rfl rfl id attemptsLeft_claimSet_le
  split
  · next hother =>
    -- the same queue, so `j` was there to be taken
    have hj : j ∈ s.jobs := ((row_iff_mem hu).1 hrow).1
    have hbefore : claimOrder r j = true := selectNext_before hsel hj (hother.1 ▸ hclaimable) hl
    have hlt : j.share (claimSet s.now w.workerId r) < j.share r :=
      share_claimSet_lt (hq.trans hother.1) hother.2 hbefore hleft
    have hsum := Table.sum_update_lt hle hr (by simp) hlt
    simp only [St.ahead]
    omega
  · have hsum := Table.sum_update_le hle
    simp only [St.ahead]
    omega

/-- Every step while `j` waits: what is claimed in front of it is paid for. -/
theorem step_ahead {s t : St} {a : Action} {j : JobRow} (hu : UniqueIds s) (hw : Waits j s a)
    (h : step s a = some t) : t.othersClaimed j + t.ahead j ≤ s.othersClaimed j + s.ahead j := by
  obtain ⟨hrow, hclaimable, ha⟩ := hw
  have hdue : j.runAt ≤ s.now := (claimable_iff.1 hclaimable).2.2.1
  by_cases hclaim : ∃ w locked, a = .claim w locked
  · obtain ⟨w, locked, rfl⟩ := hclaim
    rcases claim_inv h with rfl | ⟨r, hsel, rfl⟩
    · exact Nat.le_refl _
    · have hpaid := claim_ahead hu hrow hclaimable ha hsel
      rw [othersClaimed_claim]
      exact hpaid
  · cases step_inv h with
    | tick | spawn | duplicate | noSweep => exact Nat.le_refl _
    | noJob | claim _ _ _ => exact absurd ⟨_, _, rfl⟩ hclaim
    | @enqueue id queue payload opts hid =>
      have hzero : j.share (newRow s.now id queue payload opts) = 0 :=
        if_neg fun hnew => by simp [ha hnew.1] at hnew
      simp only [St.ahead, List.map_append, List.map_cons, List.map_nil, List.sum_append, List.sum_cons,
        List.sum_nil, hzero]
      exact Nat.le_refl _
    | cancel | sweep _ _ =>
      refine Nat.add_le_add_left (Table.sum_update_le fun r _ _ => ?_) _
      exact share_le rfl rfl id (Nat.le_refl _)
    | lose _ _ =>
      rw [countP_settle]
      exact Nat.le_refl _
    | complete _ _ =>
      rw [countP_settle { s with jobs := _ }]
      refine Nat.add_le_add_left (Table.sum_update_le fun r _ _ => ?_) _
      exact share_le (Completion.set_queue _ _ _) (Completion.set_id _ _ _) (claimOrder_completed hdue)
        (Nat.le_of_eq attemptsLeft_set)

/-- Whatever stands before `j` has stood there: no retry moves in front. -/
theorem step_stays {s t : St} {a : Action} {j : JobRow} (hw : Waits j s a) (h : step s a = some t) :
    StaysBehind j s t := by
  obtain ⟨-, hclaimable, ha⟩ := hw
  have hdue : j.runAt ≤ s.now := (claimable_iff.1 hclaimable).2.2.1
  cases step_inv h with
  | tick | spawn | duplicate | noSweep | noJob | lose _ _ => exact fun r hr hq ho => ⟨r, hr, rfl, hq, ho⟩
  | @enqueue id queue payload opts hid =>
    intro r hr hq ho
    obtain hr | hr := List.mem_append.1 hr
    · exact ⟨r, hr, rfl, hq, ho⟩
    · obtain rfl := List.mem_singleton.1 hr
      rw [ha hq] at ho
      cases ho
  | claim _ _ _ | cancel | sweep _ _ => exact staysBehind_update rfl (fun _ => rfl) (fun _ => rfl) fun _ ho => ho
  | complete _ _ =>
    exact staysBehind_update rfl (Completion.set_queue _ _) (Completion.set_id _ _) fun _ => claimOrder_completed hdue

/-- A job, and two more urgent ones. -/
def urgentFirst : List Action :=
  [.enqueue 1 "mail" "{}" { }, .enqueue 2 "mail" "{}" { priority := 1 }, .enqueue 3 "mail" "{}" { priority := 1 },
    .spawn (mailWorker "a")]

/-- The worker takes the urgent ones, one of them twice. -/
def urgentTaken : List Action :=
  [.claim (mailWorker "a") [], .complete 0 (.retriable "busy"), .claim (mailWorker "a") [], .complete 1 .ok,
    .tick (2 * nanosPerSec), .claim (mailWorker "a") [], .complete 2 .ok]

instance (j : JobRow) (s : St) (a : Action) : Decidable (Waits j s a) :=
  match a with
  | .claim _ locked =>
    inferInstanceAs (Decidable (s.row j.id = some j ∧ claimable s.now j.queue j = true ∧ j.id ∉ locked))
  | .enqueue id queue payload opts =>
    inferInstanceAs (Decidable (s.row j.id = some j ∧ claimable s.now j.queue j = true ∧
      (queue = j.queue → claimOrder (newRow s.now id queue payload opts) j = false)))
  | .tick _ | .spawn _ | .cancel .. | .complete .. | .lose _ | .sweep _ =>
    inferInstanceAs (Decidable (s.row j.id = some j ∧ claimable s.now j.queue j = true ∧ True))

end FerrKit.Queue
