/-
Transactions on one table under READ COMMITTED, as far as row locks and
visibility go.

The table holds the committed version of each row. An open transaction
holds row locks, its new versions of rows it has locked, and its new rows;
nobody else sees the last two before `commit`, and a rollback just drops the
transaction. A statement that wants a row locked by another transaction
waits (`lockFree`), then goes on with the version committed by then.
-/
import FerrKit.Lib.Table

namespace ReadCommitted

variable {ρ κ : Type*}

/-- What an open transaction holds. -/
structure Tx (ρ κ : Type*) where
  locks : List κ := []
  writes : List ρ := []
  inserts : List ρ := []

variable [DecidableEq κ] {key : ρ → κ} {rows : List ρ} {txs : List (Tx ρ κ)} {t u : Tx ρ κ} {i j : Nat} {k : κ}

/-- `COMMIT`: the new versions replace the old ones, the new rows appear. -/
def Tx.commit (key : ρ → κ) (t : Tx ρ κ) (rows : List ρ) : List ρ :=
  rows.map (fun r => (Table.get key t.writes (key r)).getD r) ++ t.inserts

/-- No transaction but the `i`-th holds the row `k`. -/
def lockFree (txs : List (Tx ρ κ)) (i : Nat) (k : κ) : Bool :=
  txs.zipIdx.all fun p => p.2 == i || !p.1.locks.contains k

theorem lockFree_iff : lockFree txs i k = true ↔ ∀ j t, txs[j]? = some t → k ∈ t.locks → j = i := by
  simp only [lockFree, List.all_eq_true, Bool.or_eq_true, beq_iff_eq, Bool.not_eq_true', List.contains_eq_mem,
    decide_eq_false_iff_not]
  constructor
  · intro h j t ht hk
    rcases h (t, j) (List.mem_zipIdx_iff_getElem?.2 ht) with hj | hn
    · exact hj
    · exact absurd hk hn
  · rintro h ⟨t, j⟩ hm
    by_cases hk : k ∈ t.locks
    · exact .inl (h j t (List.mem_zipIdx_iff_getElem?.1 hm) hk)
    · exact .inr hk

/-! ## Locks exclude each other -/

def Exclusive (txs : List (Tx ρ κ)) : Prop :=
  ∀ (i j : Nat) (t u : Tx ρ κ) (k : κ), txs[i]? = some t → txs[j]? = some u → k ∈ t.locks → k ∈ u.locks → i = j

/-- A transaction may drop locks, and take those that are free. -/
theorem Exclusive.set (h : Exclusive txs) (ht : txs[i]? = some t)
    (hl : ∀ k ∈ u.locks, k ∈ t.locks ∨ lockFree txs i k = true) : Exclusive (txs.set i u) := by
  -- against any other transaction, `u` is as good as a holder of its locks
  have hother : ∀ {j : Nat} {v : Tx ρ κ} {k : κ}, j ≠ i → txs[j]? = some v → k ∈ u.locks → k ∉ v.locks := by
    intro j v k hne hv hk hkv
    rcases hl k hk with hold | hfree
    · exact hne (h j i v t k hv ht hkv hold)
    · exact hne (lockFree_iff.1 hfree j v hv hkv)
  intro j j' v v' k hv hv' hk hk'
  rcases Table.getElem?_set_inv ht hv with ⟨rfl, rfl⟩ | ⟨hj, hold⟩
  · rcases Table.getElem?_set_inv ht hv' with ⟨rfl, rfl⟩ | ⟨hj', hold'⟩
    · rfl
    · exact absurd hk' (hother hj' hold' hk)
  · rcases Table.getElem?_set_inv ht hv' with ⟨rfl, rfl⟩ | ⟨hj', hold'⟩
    · exact absurd hk (hother hj hold hk')
    · exact h j j' v v' k hold hold' hk hk'

omit [DecidableEq κ] in
/-- A transaction begins without locks. -/
theorem Exclusive.append (h : Exclusive txs) (hu : u.locks = []) : Exclusive (txs ++ [u]) := by
  have holds : ∀ {j : Nat} {v : Tx ρ κ} {k : κ}, (txs ++ [u])[j]? = some v → k ∈ v.locks → txs[j]? = some v := by
    intro j v k hv hk
    rcases Table.getElem?_append_inv hv with hold | ⟨-, rfl⟩
    · exact hold
    · rw [hu] at hk
      cases hk
  intro j j' v v' k hv hv' hk hk'
  exact h j j' v v' k (holds hv hk) (holds hv' hk') hk hk'

/-! ## Commit -/

theorem mem_commit {r' : ρ} : r' ∈ t.commit key rows ↔
    (∃ r ∈ rows, (Table.get key t.writes (key r)).getD r = r') ∨ r' ∈ t.inserts := by
  simp [Tx.commit]

/-- A column that no new version changes is the old column, then that of the
new rows. -/
theorem commit_map {β : Type*} {f : ρ → β}
    (hf : ∀ r ∈ rows, ∀ w, Table.get key t.writes (key r) = some w → f w = f r) :
    (t.commit key rows).map f = rows.map f ++ t.inserts.map f := by
  simp only [Tx.commit, List.map_append, List.map_map, List.append_cancel_right_eq]
  refine List.map_congr_left fun r hr => ?_
  cases hw : Table.get key t.writes (key r) with
  | none => simp [hw]
  | some w => simpa [hw] using hf r hr w hw

/-- A row locked by another transaction comes through a commit as it was. -/
theorem mem_commit_of_locked {r : ρ} (h : Exclusive txs) (ht : txs[i]? = some t)
    (hw : ∀ w ∈ t.writes, key w ∈ t.locks) (hu : txs[j]? = some u) (hne : j ≠ i) (hk : key r ∈ u.locks)
    (hr : r ∈ rows) : r ∈ t.commit key rows := by
  refine mem_commit.2 (.inl ⟨r, hr, ?_⟩)
  have hnone : Table.get key t.writes (key r) = none := by
    refine Table.get_eq_none_iff.2 fun w hwm he => ?_
    exact hne (h j i u t (key r) hu ht hk (he ▸ hw w hwm))
  rw [hnone, Option.getD_none]

end ReadCommitted
