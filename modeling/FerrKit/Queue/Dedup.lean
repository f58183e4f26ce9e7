/-
One row a key. The rows of the table are the inserts that won, in order
(`Paired`), each holding what its insert was given; a key is won once
because a won insert found no row with it, and a row never loses its key.
-/
import FerrKit.Queue.Enqueue

namespace FerrKit.Queue

open Runs

/-! ## What is written once -/

/-- The columns a row has from its `INSERT` on. -/
theorem RowR.written_once {s s' : St} {a : Action} {r r' : JobRow} (h : RowR s s' r a r') :
    r'.payload = r.payload ∧ r'.priority = r.priority ∧ r'.idempotencyKey = r.idempotencyKey ∧
      r'.orgId = r.orgId ∧ r'.actorId = r.actorId ∧ r'.createdAt = r.createdAt := by
  cases h with
  | kept _ | cancelled _ | claimed _ _ _ | swept _ _ _ => exact ⟨rfl, rfl, rfl, rfl, rfl, rfl⟩
  | @completed k h c _ _ => cases processClaimed s.now c.claimed h <;> exact ⟨rfl, rfl, rfl, rfl, rfl, rfl⟩

/-- The row holds what the insert was given; `run_at` until the job has been
claimed. -/
structure Stored (i : Insert) (r : JobRow) : Prop where
  id : r.id = i.id
  queue : r.queue = i.queue
  payload : r.payload = i.payload
  priority : r.priority = i.opts.priority
  maxAttempts : r.maxAttempts = i.opts.storedMaxAttempts
  idempotencyKey : r.idempotencyKey = i.opts.idempotencyKey
  orgId : r.orgId = i.opts.orgId
  actorId : r.actorId = i.opts.actorId
  createdAt : r.createdAt = i.insertedAt
  runAt : r.runAt = i.opts.runAt.getD i.insertedAt ∨ 0 < r.attempts

theorem attempts_pos {s : St} {j : Uuid} {r : JobRow} {k : Nat} {c : Claim} (hi : Tallied s) (hr : s.row j = some r)
    (hc : s.handling k = some c) (hid : c.claimed.id = r.id) : 0 < r.attempts := by
  have hm : c ∈ s.claims := List.mem_of_getElem? (handling_eq_some.1 hc).1
  have hpos : 0 < s.timesClaimed r.id := List.count_pos_iff.2 (List.mem_map.2 ⟨c, hm, hid⟩)
  have := (hi.counted j r hr).1
  omega

theorem Stored.next {s s' : St} {a : Action} {r r' : JobRow} {i : Insert} (h : Stored i r) (hi : Tallied s)
    (hr : s.row r.id = some r) (hR : RowR s s' r a r') : Stored i r' := by
  obtain ⟨hid, hqueue, hmax, hat⟩ := hR.frame
  obtain ⟨hpay, hprio, hkey, horg, hactor, hcreated⟩ := hR.written_once
  refine ⟨hid.trans h.id, hqueue.trans h.queue, hpay.trans h.payload, hprio.trans h.priority, hmax.trans h.maxAttempts,
    hkey.trans h.idempotencyKey, horg.trans h.orgId, hactor.trans h.actorId, hcreated.trans h.createdAt, ?_⟩
  rcases h.runAt with hrun | hpos
  · cases hR with
    | kept _ | cancelled _ | claimed _ _ _ | swept _ _ _ => exact .inl hrun
    | completed hc hjob => exact .inr (by rw [Completion.set_attempts]; exact attempts_pos hi hr hc hjob)
  · exact .inr (Int.lt_of_lt_of_le hpos hat)

theorem newRow_stored (now : Int) (id : Uuid) (queue payload : String) (opts : EnqueueOptions) (won : Bool) :
    Stored ⟨queue, payload, opts, id, now, won⟩ (newRow now id queue payload opts) :=
  ⟨rfl, rfl, rfl, rfl, rfl, rfl, rfl, rfl, rfl, .inl rfl⟩

/-- Every statement but an `INSERT` keeps the rows where they are. -/
theorem step_ids {s s' : St} {a : Action} (h : step s a = some s') (ha : a.isEnqueue = false) :
    s'.jobs.map JobRow.id = s.jobs.map JobRow.id := by
  rcases ids_next h with hids | ⟨_, _, _, _, rfl, -, -⟩
  · exact hids
  · cases ha

/-- So the row at a place is the one that was there, changed as `RowR` says. -/
theorem rows_inv {s s' : St} {a : Action} {k : Nat} {r' : JobRow} (h : step s a = some s') (ha : a.isEnqueue = false)
    (hu : UniqueIds s) (hk : s'.jobs[k]? = some r') :
    ∃ r, s.jobs[k]? = some r ∧ s.row r.id = some r ∧ RowR s s' r a r' := by
  have hids := congrArg (·[k]?) (step_ids h ha)
  simp only [List.getElem?_map, hk, Option.map_some] at hids
  obtain ⟨r, hr, hid⟩ := Option.map_eq_some_iff.1 hids.symm
  have hrow : s.row r.id = some r := (row_iff_mem hu).2 ⟨List.mem_of_getElem? hr, rfl⟩
  obtain ⟨r₁, hr₁, hR⟩ := row_next h hrow hu
  have hrow' : s'.row r.id = some r' :=
    (row_iff_mem (step_uniqueIds hu h)).2 ⟨List.mem_of_getElem? hk, hid.symm⟩
  rw [hrow', Option.some.injEq] at hr₁
  exact ⟨r, hr, hrow, hr₁ ▸ hR⟩

/-! ## The invariant -/

/-- The inserts that won, in order. -/
def CallsSt.wins (s : CallsSt) : List Insert := (s.calls.map Call.toInsert).filter (·.won)

structure Paired (wins : List Insert) (jobs : List JobRow) : Prop where
  length : wins.length = jobs.length
  stored : ∀ (k : Nat) (i : Insert) (r : JobRow), wins[k]? = some i → jobs[k]? = some r → Stored i r

def KeysUnique (jobs : List JobRow) : Prop :=
  ∀ r₁ ∈ jobs, ∀ r₂ ∈ jobs, r₁.queue = r₂.queue → r₁.idempotencyKey = r₂.idempotencyKey →
    r₁.idempotencyKey ≠ none → r₁ = r₂

/-- A row with this id, queue and key. -/
def Has (jobs : List JobRow) (id : Uuid) (queue : String) (key : Option String) : Prop :=
  ∃ r ∈ jobs, r.id = id ∧ r.queue = queue ∧ r.idempotencyKey = key

/-- What a call has in hand is in the table. -/
def CallOk (jobs : List JobRow) (c : Call) : Prop :=
  match c.phase with
  | .notifying id | .returned (.ok id) => Has jobs id c.queue c.opts.idempotencyKey
  | .selecting key => c.opts.idempotencyKey = some key ∧ ∃ id, Has jobs id c.queue (some key)
  | .returned (.error .rowNotFound) => False
  | .returned (.error (.other _)) => True

structure CallsInv (s : CallsSt) : Prop where
  tallied : Tallied s.db
  paired : Paired s.wins s.db.jobs
  keys : KeysUnique s.db.jobs
  calls : ∀ (k : Nat) (c : Call), s.calls[k]? = some c → CallOk s.db.jobs c

/-- The rows that were there are there, with their keys. -/
def Carried (jobs jobs' : List JobRow) : Prop :=
  ∀ r ∈ jobs, ∃ r' ∈ jobs', r'.id = r.id ∧ r'.queue = r.queue ∧ r'.idempotencyKey = r.idempotencyKey

theorem Has.carried {jobs jobs' : List JobRow} {id : Uuid} {queue : String} {key : Option String}
    (h : Has jobs id queue key) (hc : Carried jobs jobs') : Has jobs' id queue key := by
  obtain ⟨r, hr, hid, hq, hk⟩ := h
  obtain ⟨r', hr', hid', hq', hk'⟩ := hc r hr
  exact ⟨r', hr', hid'.trans hid, hq'.trans hq, hk'.trans hk⟩

theorem CallOk.carried {jobs jobs' : List JobRow} {c : Call} (h : CallOk jobs c) (hc : Carried jobs jobs') :
    CallOk jobs' c := by
  unfold CallOk at h ⊢
  split
  · next hp => rw [hp] at h; exact Has.carried h hc
  · next hp => rw [hp] at h; exact Has.carried h hc
  · next hp =>
    rw [hp] at h
    obtain ⟨hk, id, hhas⟩ := h
    exact ⟨hk, id, hhas.carried hc⟩
  · next hp => rw [hp] at h; exact h
  · trivial

theorem carried_step {s s' : St} {a : Action} (h : step s a = some s') (hu : UniqueIds s) :
    Carried s.jobs s'.jobs := by
  intro r hr
  obtain ⟨r', hr', hR⟩ := row_next h ((row_iff_mem hu).2 ⟨hr, rfl⟩) hu
  exact ⟨r', Table.get_mem hr', hR.frame.1, hR.frame.2.1, hR.written_once.2.2.1⟩

/-- Moving a call on leaves the inserts as they are. -/
theorem move_wins {s : CallsSt} {k : Nat} {c : Call} (hk : s.calls[k]? = some c) (phase : CallPhase) :
    (s.move k c phase).wins = s.wins := by
  have hmap : (s.move k c phase).calls.map Call.toInsert = s.calls.map Call.toInsert := by
    have hk' : (s.calls.map Call.toInsert)[k]? = some c.toInsert := by rw [List.getElem?_map, hk]; rfl
    obtain ⟨hlt, he⟩ := List.getElem?_eq_some_iff.1 hk'
    rw [CallsSt.move, List.map_set]
    show (s.calls.map Call.toInsert).set k c.toInsert = s.calls.map Call.toInsert
    rw [← he, List.set_getElem_self]
  rw [CallsSt.wins, CallsSt.wins, hmap]

theorem CallsInv.move {s : CallsSt} {k : Nat} {c : Call} {phase : CallPhase} (hi : CallsInv s)
    (hk : s.calls[k]? = some c) (hok : CallOk s.db.jobs { c with phase }) : CallsInv (s.move k c phase) where
  tallied := hi.tallied
  paired := by rw [move_wins hk]; exact hi.paired
  keys := hi.keys
  calls j d hd := by
    rcases Table.getElem?_set_inv hk hd with ⟨-, rfl⟩ | ⟨-, hd⟩
    · exact hok
    · exact hi.calls j d hd

theorem conflicts_iff {jobs : List JobRow} {queue : String} {key : Option String} :
    conflicts jobs queue key = true ↔ ∃ k, key = some k ∧ ∃ r ∈ jobs, r.queue = queue ∧ r.idempotencyKey = some k := by
  cases key with
  | none => simp [conflicts]
  | some k => simp [conflicts]

/-- The `SELECT` finds a row of the key when there is one. -/
theorem selectExisting_some {jobs : List JobRow} {queue key : String} {id : Uuid}
    (h : Has jobs id queue (some key)) :
    ∃ id', selectExisting jobs queue key = some id' ∧ Has jobs id' queue (some key) := by
  obtain ⟨r, hr, -, hq, hk⟩ := h
  cases hf : jobs.find? fun r => r.queue == queue && r.idempotencyKey == some key with
  | none =>
    have := List.find?_eq_none.1 hf r hr
    simp [hq, hk] at this
  | some r' =>
    have hp := List.find?_some hf
    simp only [Bool.and_eq_true, beq_iff_eq] at hp
    exact ⟨r'.id, by rw [selectExisting, hf]; rfl, r', List.mem_of_find?_eq_some hf, rfl, hp.1, hp.2⟩

theorem Paired.other {s s' : St} {a : Action} {wins : List Insert} (h : Paired wins s.jobs)
    (hs : step s a = some s') (ha : a.isEnqueue = false) (hi : Tallied s) : Paired wins s'.jobs where
  length := by
    have := congrArg List.length (step_ids hs ha)
    simp only [List.length_map] at this
    rw [this]
    exact h.length
  stored k i r' hw hk := by
    obtain ⟨r, hr, hrow, hR⟩ := rows_inv hs ha hi.unique hk
    exact (h.stored k i r hw hr).next hi hrow hR

theorem Paired.concat {wins : List Insert} {jobs : List JobRow} {i : Insert} {r : JobRow} (h : Paired wins jobs)
    (hs : Stored i r) : Paired (wins ++ [i]) (jobs ++ [r]) where
  length := by simp [h.length]
  stored k j r' hj hr' := by
    rcases Table.getElem?_append_inv hj with hj | ⟨hk, rfl⟩
    · rcases Table.getElem?_append_inv hr' with hr' | ⟨hk, -⟩
      · exact h.stored k j r' hj hr'
      · -- `k` is the place of the new row, where the old inserts have none
        rw [hk, ← h.length] at hj
        simp at hj
    · rcases Table.getElem?_append_inv hr' with hr' | ⟨-, rfl⟩
      · rw [hk, h.length] at hr'
        simp at hr'
      · exact hs

theorem KeysUnique.other {s s' : St} {a : Action} (h : KeysUnique s.jobs) (hs : step s a = some s')
    (ha : a.isEnqueue = false) (hu : UniqueIds s) : KeysUnique s'.jobs := by
  intro r₁ hr₁ r₂ hr₂ hq hk hne
  obtain ⟨k₁, hk₁⟩ := List.getElem?_of_mem hr₁
  obtain ⟨k₂, hk₂⟩ := List.getElem?_of_mem hr₂
  obtain ⟨b₁, hb₁, -, hR₁⟩ := rows_inv hs ha hu hk₁
  obtain ⟨b₂, hb₂, -, hR₂⟩ := rows_inv hs ha hu hk₂
  have hkey₁ := hR₁.written_once.2.2.1
  have hkey₂ := hR₂.written_once.2.2.1
  have hb : b₁ = b₂ := h b₁ (List.mem_of_getElem? hb₁) b₂ (List.mem_of_getElem? hb₂)
    (by rw [← hR₁.frame.2.1, ← hR₂.frame.2.1, hq]) (by rw [← hkey₁, ← hkey₂, hk]) (by rw [← hkey₁]; exact hne)
  -- the rows came from one row, so they have one id
  have hid : r₁.id = r₂.id := by rw [hR₁.frame.1, hR₂.frame.1, hb]
  exact List.inj_on_of_nodup_map (step_uniqueIds hu hs) hr₁ hr₂ hid

theorem KeysUnique.concat {jobs : List JobRow} {r : JobRow} (h : KeysUnique jobs)
    (hc : conflicts jobs r.queue r.idempotencyKey = false) : KeysUnique (jobs ++ [r]) := by
  have fresh : ∀ b ∈ jobs, b.queue = r.queue → b.idempotencyKey = r.idempotencyKey → b.idempotencyKey ≠ none → False := by
    intro b hb hq hk hne
    obtain ⟨key, hkey⟩ := Option.ne_none_iff_exists'.1 hne
    have : conflicts jobs r.queue r.idempotencyKey = true :=
      conflicts_iff.2 ⟨key, hk ▸ hkey, b, hb, hq, hkey⟩
    rw [hc] at this
    cases this
  intro r₁ hr₁ r₂ hr₂ hq hk hne
  rcases List.mem_append.1 hr₁ with hr₁ | hr₁ <;> rcases List.mem_append.1 hr₂ with hr₂ | hr₂
  · exact h r₁ hr₁ r₂ hr₂ hq hk hne
  · rw [List.mem_singleton.1 hr₂] at hq hk
    exact (fresh r₁ hr₁ hq hk hne).elim
  · rw [List.mem_singleton.1 hr₁] at hq hk hne
    exact (fresh r₂ hr₂ hq.symm hk.symm (by rw [← hk]; exact hne)).elim
  · rw [List.mem_singleton.1 hr₁, List.mem_singleton.1 hr₂]

theorem wins_append (s : CallsSt) (db : St) (i : Insert) (phase : CallPhase) :
    (CallsSt.mk db (s.calls ++ [⟨i, phase⟩])).wins = s.wins ++ if i.won then [i] else [] := by
  cases hw : i.won <;> simp [CallsSt.wins, hw]

theorem callsStep_keeps_inv {s t : CallsSt} {a : CallsAction} (hi : CallsInv s) (h : callsStep s a = some t) :
    CallsInv t := by
  cases callsStep_inv h with
  | @other a db hs ha =>
    exact ⟨step_tallied hi.tallied hs, hi.paired.other hs ha hi.tallied, hi.keys.other hs ha hi.tallied.unique,
      fun k c hc => (hi.calls k c hc).carried (carried_step hs hi.tallied.unique)⟩
  | @won id queue payload opts hid hcon hs =>
    refine ⟨step_tallied hi.tallied hs, ?_, hi.keys.concat hcon, fun k c hc => ?_⟩
    · rw [wins_append]
      exact hi.paired.concat (newRow_stored _ _ _ _ _ _)
    · rcases Table.getElem?_append_inv hc with hc | ⟨-, rfl⟩
      · exact (hi.calls k c hc).carried (carried_step hs hi.tallied.unique)
      · exact ⟨newRow s.db.now id queue payload opts, List.mem_append_right _ (List.mem_singleton_self _), rfl, rfl, rfl⟩
  | @lost id queue payload opts hcon =>
    refine ⟨hi.tallied, ?_, hi.keys, fun k c hc => ?_⟩
    · rw [wins_append]
      simpa using hi.paired
    · rcases Table.getElem?_append_inv hc with hc | ⟨-, rfl⟩
      · exact hi.calls k c hc
      · obtain ⟨key, hkey, r, hr, hq, hk⟩ := conflicts_iff.1 hcon
        simp only [CallOk, afterInsert, hkey]
        exact ⟨trivial, r.id, r, hr, rfl, hq, hk⟩
  | @selected k c key hk hp =>
    have hok := hi.calls k c hk
    simp only [CallOk, hp] at hok
    obtain ⟨hkey, id, hhas⟩ := hok
    obtain ⟨id', hsel, hhas'⟩ := selectExisting_some hhas
    refine hi.move hk ?_
    rw [hsel]
    show Has s.db.jobs id' c.queue c.opts.idempotencyKey
    rw [hkey]
    exact hhas'
  | finished hk hp =>
    have hok := hi.calls _ _ hk
    simp only [CallOk, hp] at hok
    exact hi.move hk hok
  | failed hk => exact hi.move hk trivial

theorem callsInv_init (now : Int) : CallsInv (callsInit now) where
  tallied := tallied_init now
  paired := ⟨rfl, fun k i r hi => by simp [CallsSt.wins, callsInit] at hi⟩
  keys r₁ hr₁ := by simp [callsInit, init] at hr₁
  calls k c hc := by simp [callsInit] at hc

/-! ## The result -/

theorem Paired.row_at {wins : List Insert} {jobs : List JobRow} {k : Nat} {i : Insert} (h : Paired wins jobs)
    (hw : wins[k]? = some i) : ∃ r, jobs[k]? = some r ∧ Stored i r := by
  have hlt : k < jobs.length := by rw [← h.length]; exact (List.getElem?_eq_some_iff.1 hw).1
  have hr := List.getElem?_eq_getElem hlt
  exact ⟨_, hr, h.stored k i _ hw hr⟩

theorem Paired.insert_at {wins : List Insert} {jobs : List JobRow} {k : Nat} {r : JobRow} (h : Paired wins jobs)
    (hr : jobs[k]? = some r) : ∃ i, wins[k]? = some i ∧ Stored i r := by
  have hlt : k < wins.length := by rw [h.length]; exact (List.getElem?_eq_some_iff.1 hr).1
  have hw := List.getElem?_eq_getElem hlt
  exact ⟨_, hw, h.stored k _ r hw hr⟩

theorem mem_wins {s : CallsSt} {i : Insert} :
    i ∈ s.wins ↔ ∃ (k : Nat) (c : Call), s.calls[k]? = some c ∧ c.won = true ∧ c.toInsert = i := by
  simp only [CallsSt.wins, List.mem_filter, List.mem_map]
  constructor
  · rintro ⟨⟨c, hc, rfl⟩, hw⟩
    obtain ⟨k, hk⟩ := List.getElem?_of_mem hc
    exact ⟨k, c, hk, hw, rfl⟩
  · rintro ⟨k, c, hk, hw, rfl⟩
    exact ⟨⟨c, List.mem_of_getElem? hk, rfl⟩, hw⟩

/-- A row comes from an insert that won. -/
theorem CallsInv.won_of_row {s : CallsSt} (hi : CallsInv s) {r : JobRow} (hr : r ∈ s.db.jobs) :
    ∃ (k : Nat) (c : Call), s.calls[k]? = some c ∧ c.won = true ∧ Stored c.toInsert r := by
  obtain ⟨n, hn⟩ := List.getElem?_of_mem hr
  obtain ⟨i, hw, hs⟩ := hi.paired.insert_at hn
  obtain ⟨k, c, hk, hwon, rfl⟩ := mem_wins.1 (List.mem_of_getElem? hw)
  exact ⟨k, c, hk, hwon, hs⟩

/-- An insert that won has its row. -/
theorem CallsInv.row_of_won {s : CallsSt} (hi : CallsInv s) {k : Nat} {c : Call} (hk : s.calls[k]? = some c)
    (hw : c.won = true) : ∃ r ∈ s.db.jobs, Stored c.toInsert r := by
  obtain ⟨n, hn⟩ := List.getElem?_of_mem (mem_wins.2 ⟨k, c, hk, hw, rfl⟩)
  obtain ⟨r, hr, hs⟩ := hi.paired.row_at hn
  exact ⟨r, List.mem_of_getElem? hr, hs⟩

theorem CallsInv.wins_ids {s : CallsSt} (hi : CallsInv s) : s.wins.map (·.id) = s.db.jobs.map JobRow.id := by
  refine List.ext_getElem? fun k => ?_
  rw [List.getElem?_map, List.getElem?_map]
  cases hw : s.wins[k]? with
  | none =>
    rw [List.getElem?_eq_none_iff, hi.paired.length, ← List.getElem?_eq_none_iff] at hw
    rw [hw]
    rfl
  | some i =>
    obtain ⟨r, hr, hs⟩ := hi.paired.row_at hw
    rw [hr]
    simp [hs.id]

/-- No two inserts that won drew one id. -/
theorem CallsInv.won_once {s : CallsSt} (hi : CallsInv s) {k k' : Nat} {c c' : Call} (hk : s.calls[k]? = some c)
    (hk' : s.calls[k']? = some c') (hw : c.won = true) (hw' : c'.won = true) (hid : c.id = c'.id) : k = k' := by
  have hn : (s.wins.map (·.id)).Nodup := by rw [hi.wins_ids]; exact hi.tallied.unique
  rw [CallsSt.wins, List.Nodup, List.pairwise_map, List.pairwise_filter, List.pairwise_map,
    List.pairwise_iff_getElem] at hn
  obtain ⟨hlt, rfl⟩ := List.getElem?_eq_some_iff.1 hk
  obtain ⟨hlt', rfl⟩ := List.getElem?_eq_some_iff.1 hk'
  rcases Nat.lt_trichotomy k k' with h | h | h
  · exact absurd hid (hn k k' hlt hlt' h hw hw')
  · exact h
  · exact absurd hid.symm (hn k' k hlt' hlt h hw' hw)

/-- What idempotency keys promise of a state. -/
structure Deduplicated (s : CallsSt) : Prop where
  /-- At most one row has a given queue and key. -/
  unique : KeysUnique s.db.jobs
  /-- A call that returned `Ok` returned the id of the row of its key. -/
  returned : ∀ (k : Nat) (c : Call) (id : Uuid) (key : String), s.calls[k]? = some c →
    c.opts.idempotencyKey = some key → c.phase = .returned (.ok id) → Has s.db.jobs id c.queue (some key)
  /-- The `SELECT` has found a row whenever it ran. -/
  found : ∀ (k : Nat) (c : Call), s.calls[k]? = some c → c.phase ≠ .returned (.error .rowNotFound)
  /-- A row holds what the call that inserted it was given. -/
  stored : ∀ r ∈ s.db.jobs, ∃ (k : Nat) (c : Call), s.calls[k]? = some c ∧ c.won = true ∧ Stored c.toInsert r
  /-- One call inserted for a key. -/
  winner : ∀ (k k' : Nat) (c c' : Call), s.calls[k]? = some c → s.calls[k']? = some c' → c.won = true →
    c'.won = true → c.queue = c'.queue → c.opts.idempotencyKey = c'.opts.idempotencyKey →
    c.opts.idempotencyKey ≠ none → k = k'

theorem CallsInv.deduplicated {s : CallsSt} (hi : CallsInv s) : Deduplicated s where
  unique := hi.keys
  returned k c id key hk hkey hp := by
    have hok := hi.calls k c hk
    simp only [CallOk, hp, hkey] at hok
    exact hok
  found k c hk hp := by
    have hok := hi.calls k c hk
    simp only [CallOk, hp] at hok
  stored r hr := hi.won_of_row hr
  winner k k' c c' hk hk' hw hw' hq hkey hne := by
    obtain ⟨r, hr, hs⟩ := hi.row_of_won hk hw
    obtain ⟨r', hr', hs'⟩ := hi.row_of_won hk' hw'
    have he : r = r' := hi.keys r hr r' hr' (by rw [hs.queue, hs'.queue, hq])
      (by rw [hs.idempotencyKey, hs'.idempotencyKey, hkey]) (by rw [hs.idempotencyKey]; exact hne)
    exact hi.won_once hk hk' hw hw' (by rw [← hs.id, ← hs'.id, he])

theorem callsStep_carried {s t : CallsSt} {a : CallsAction} (hi : CallsInv s) (h : callsStep s a = some t) :
    Carried s.db.jobs t.db.jobs := by
  have same : Carried s.db.jobs s.db.jobs := fun r hr => ⟨r, hr, rfl, rfl, rfl⟩
  cases callsStep_inv h with
  | other hs _ => exact carried_step hs hi.tallied.unique
  | won _ _ hs => exact carried_step hs hi.tallied.unique
  | lost _ | selected _ _ | finished _ _ | failed _ => exact same

/-- **Enqueues with one key share one row.** However the statements of any
number of calls, workers, sweepers and cancels interleave: a queue and key
have at most one row, which stays; every call that returns `Ok` returns its
id, the follow-up `SELECT` always finds it, and it holds the payload and
options of the one insert that won. -/
theorem enqueue_deduplicates {now : Int} {s t : CallsSt} {as : List CallsAction}
    (hs : Reachable callsStep (callsInit now) s) (hr : run callsStep s as = some t) :
    Deduplicated t ∧ Carried s.db.jobs t.db.jobs := by
  have hi : CallsInv s := hs.invariant callsStep_keeps_inv (callsInv_init now)
  have ht : CallsInv t := invariant_run callsStep_keeps_inv hr hi
  refine ⟨ht.deduplicated, ?_⟩
  exact rel_along (R := fun s t => Carried s.db.jobs t.db.jobs) callsStep_keeps_inv
    (fun s r hr => ⟨r, hr, rfl, rfl, rfl⟩)
    (fun h₁ h₂ r hr => by
      obtain ⟨r₁, hr₁, hid₁, hq₁, hk₁⟩ := h₁ r hr
      obtain ⟨r₂, hr₂, hid₂, hq₂, hk₂⟩ := h₂ r₁ hr₁
      exact ⟨r₂, hr₂, hid₂.trans hid₁, hq₂.trans hq₁, hk₂.trans hk₁⟩)
    (fun hi _ h => callsStep_carried hi h) hi along_true hr

/-- Two calls with one key: the second finds the key taken, and by the time
it reads the row the job has been claimed and cancelled. -/
def twoCalls : List CallsAction :=
  [.insert 1 "mail" "first" { idempotencyKey := some "k" }, .insert 2 "mail" "second" { idempotencyKey := some "k" },
    .other (.spawn (mailWorker "a")), .other (.claim (mailWorker "a") []), .other (.cancel "mail" 1), .select 1,
    .finish 0, .finish 1]

theorem enqueue_deduplicates_twoCalls : ∃ t, run callsStep (callsInit 0) twoCalls = some t ∧
    t.calls.map (·.phase) = [.returned (.ok 1), .returned (.ok 1)] ∧ Deduplicated t := by
  have hr : run callsStep (callsInit 0) twoCalls = some _ := rfl
  exact ⟨_, hr, rfl, (enqueue_deduplicates .refl hr).1⟩

end FerrKit.Queue
