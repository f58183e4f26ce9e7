/-
Keyed tables as lists of rows, and the statements a program runs on them.

`update p f` is `UPDATE .. SET f WHERE p`: one pass over the table, each row
rewritten on its own. `first` is `ORDER BY .. LIMIT 1`. A row is named by
its key (`get`); with distinct keys that is the same as being in the table
(`get_eq_some_iff`).
-/
import Mathlib.Algebra.Order.BigOperators.Group.List
import Mathlib.Algebra.Order.Ring.Nat
import Mathlib.Data.List.Nodup
import Mathlib.Data.List.Perm.Basic

namespace Table

variable {ρ κ : Type*} [DecidableEq κ] {key : ρ → κ} {rows : List ρ} {k : κ} {r r' : ρ}

/-- The row with key `k`. -/
def get (key : ρ → κ) (rows : List ρ) (k : κ) : Option ρ := rows.find? fun r => key r = k

/-- `UPDATE .. SET f WHERE p`. -/
def update (p : ρ → Bool) (f : ρ → ρ) (rows : List ρ) : List ρ := rows.map fun r => if p r then f r else r

theorem get_mem (h : get key rows k = some r) : r ∈ rows := List.mem_of_find?_eq_some h

theorem get_key (h : get key rows k = some r) : key r = k := by
  simpa using List.find?_some h

theorem get_eq_some_iff (hn : (rows.map key).Nodup) : get key rows k = some r ↔ r ∈ rows ∧ key r = k := by
  refine ⟨fun h => ⟨get_mem h, get_key h⟩, fun ⟨hr, hk⟩ => ?_⟩
  cases hg : get key rows k with
  | none =>
    have := List.find?_eq_none.1 hg r hr
    simp [hk] at this
  | some r' =>
    have he : key r' = key r := (get_key hg).trans hk.symm
    rw [List.inj_on_of_nodup_map hn (get_mem hg) hr he]

theorem get_eq_none_iff : get key rows k = none ↔ ∀ r ∈ rows, key r ≠ k := by
  simp [get, List.find?_eq_none]

/-! ## Updates -/

variable {p : ρ → Bool} {f : ρ → ρ}

omit [DecidableEq κ] in
theorem update_keys (hf : ∀ r, key (f r) = key r) : (update p f rows).map key = rows.map key := by
  simp only [update, List.map_map]
  refine List.map_congr_left fun r _ => ?_
  simp only [Function.comp_apply]
  split
  · exact hf r
  · rfl

/-- An update that keeps keys rewrites the row under each key on its own. -/
theorem get_update (hf : ∀ r, key (f r) = key r) :
    get key (update p f rows) k = (get key rows k).map fun r => if p r then f r else r := by
  simp only [get, update, List.find?_map]
  congr 2
  funext r
  simp only [Function.comp_apply]
  split
  · rw [hf]
  · rfl

theorem get_update_some (hf : ∀ r, key (f r) = key r) (h : get key rows k = some r) :
    get key (update p f rows) k = some (if p r then f r else r) := by
  rw [get_update hf, h]; rfl

theorem of_get_update (hf : ∀ r, key (f r) = key r) (h : get key (update p f rows) k = some r') :
    ∃ r, get key rows k = some r ∧ r' = if p r then f r else r := by
  rw [get_update hf, Option.map_eq_some_iff] at h
  obtain ⟨r, hr, he⟩ := h
  exact ⟨r, hr, he.symm⟩

/-! ## A weight summed over the rows -/

section Sums

variable {weight : ρ → Nat}

omit [DecidableEq κ] in
theorem weight_update_le (h : ∀ r ∈ rows, p r = true → weight (f r) ≤ weight r) :
    ∀ r ∈ rows, weight (if p r then f r else r) ≤ weight r := by
  intro r hr
  split
  · next hp => exact h r hr hp
  · exact Nat.le_refl _

omit [DecidableEq κ] in
theorem sum_update_le (h : ∀ r ∈ rows, p r = true → weight (f r) ≤ weight r) :
    ((update p f rows).map weight).sum ≤ (rows.map weight).sum := by
  rw [update, List.map_map]
  exact List.sum_le_sum (weight_update_le h)

omit [DecidableEq κ] in
theorem sum_update_lt (h : ∀ r ∈ rows, p r = true → weight (f r) ≤ weight r) (hr : r ∈ rows) (hp : p r = true)
    (hlt : weight (f r) < weight r) : ((update p f rows).map weight).sum < (rows.map weight).sum := by
  rw [update, List.map_map]
  refine List.sum_lt_sum _ _ (weight_update_le h) ⟨r, hr, ?_⟩
  simp only [Function.comp_apply, hp, if_true]
  exact hlt

end Sums

/-! ## Inserts -/

theorem get_append_some (h : get key rows k = some r) (new : ρ) : get key (rows ++ [new]) k = some r := by
  simp only [get] at h ⊢
  simp [List.find?_append, h]

theorem of_get_append {new : ρ} (h : get key (rows ++ [new]) k = some r) :
    get key rows k = some r ∨ (get key rows k = none ∧ key new = k ∧ r = new) := by
  simp only [get, List.find?_append, Option.or_eq_some_iff] at h
  rcases h with h | ⟨hn, h⟩
  · exact .inl h
  · have hk := List.find?_some h
    have hm := List.mem_of_find?_eq_some h
    simp only [List.mem_singleton] at hm
    subst hm
    exact .inr ⟨hn, by simpa using hk, rfl⟩

theorem append_keys_nodup {new : ρ} (hn : (rows.map key).Nodup) (h : get key rows (key new) = none) :
    ((rows ++ [new]).map key).Nodup := by
  rw [List.map_append, List.nodup_append]
  refine ⟨hn, by simp, fun a ha b hb => ?_⟩
  simp only [List.map_cons, List.map_nil, List.mem_singleton] at hb
  obtain ⟨r, hr, rfl⟩ := List.mem_map.1 ha
  rw [hb]
  exact get_eq_none_iff.1 h r hr

/-! ## Entries by position -/

omit [DecidableEq κ] in
/-- After one entry is replaced, an entry is the new one or an old one in
another place. -/
theorem getElem?_set_inv {new : ρ} {i j : Nat} (hi : rows[i]? = some r) (h : (rows.set i new)[j]? = some r') :
    (j = i ∧ r' = new) ∨ (j ≠ i ∧ rows[j]? = some r') := by
  have hlt : i < rows.length := (List.getElem?_eq_some_iff.1 hi).1
  by_cases hj : j = i
  · subst hj
    rw [List.getElem?_set_self hlt, Option.some.injEq] at h
    exact .inl ⟨rfl, h.symm⟩
  · rw [List.getElem?_set_ne (Ne.symm hj)] at h
    exact .inr ⟨hj, h⟩

omit [DecidableEq κ] in
theorem getElem?_append_inv {new : ρ} {j : Nat} (h : (rows ++ [new])[j]? = some r') :
    rows[j]? = some r' ∨ (j = rows.length ∧ r' = new) := by
  rw [List.getElem?_append] at h
  split at h
  · exact .inl h
  · obtain ⟨hlt, he⟩ := List.getElem?_eq_some_iff.1 h
    simp only [List.length_singleton] at hlt
    exact .inr ⟨by omega, by simpa using he.symm⟩

omit [DecidableEq κ] in
/-- A change to one row that a column does not see. -/
theorem map_modify {f : ρ → ρ} {col : ρ → κ} (hf : ∀ r, col (f r) = col r) (rows : List ρ) (i : Nat) :
    (rows.modify i f).map col = rows.map col := by
  refine List.ext_getElem? fun j => ?_
  rw [List.getElem?_map, List.getElem?_map, List.getElem?_modify]
  cases rows[j]? with
  | none => rfl
  | some r => by_cases hij : i = j <;> simp [hij, hf]

/-! ## `ORDER BY .. LIMIT 1` -/

/-- The row that comes first, the earlier in the table among equals. -/
def first (before : ρ → ρ → Bool) : List ρ → Option ρ
  | [] => none
  | r :: rows =>
    match first before rows with
    | none => some r
    | some b => some (if before r b then r else b)

theorem first_mem {before : ρ → ρ → Bool} : ∀ {rows : List ρ} {r : ρ}, first before rows = some r → r ∈ rows
  | [], _, h => by simp [first] at h
  | x :: rows, r, h => by
    simp only [first] at h
    split at h
    · simp only [Option.some.injEq] at h
      exact h ▸ List.mem_cons_self
    · next b hb =>
      simp only [Option.some.injEq] at h
      split at h
      · exact h ▸ List.mem_cons_self
      · exact h ▸ List.mem_cons_of_mem _ (first_mem hb)

theorem first_ne_none {before : ρ → ρ → Bool} (h : r ∈ rows) : first before rows ≠ none := by
  cases rows with
  | nil => cases h
  | cons x rows =>
    simp only [first]
    split <;> exact Option.some_ne_none _

/-- Nothing comes before the first row. -/
theorem first_before {before : ρ → ρ → Bool} (htotal : ∀ a b, before a b = false → before b a = true)
    (htrans : ∀ a b c, before a b = true → before b c = true → before a c = true) :
    ∀ {rows : List ρ} {b : ρ}, first before rows = some b → ∀ r ∈ rows, before b r = true
  | [], _, h, _, _ => by cases h
  | x :: rows, b, h, r, hr => by
    have hrefl : ∀ a, before a a = true := fun a => by
      cases ha : before a a with
      | true => rfl
      | false => exact ha.symm.trans (htotal a a ha)
    simp only [first] at h
    split at h
    · next hnone =>
      cases h
      rcases List.mem_cons.1 hr with rfl | hr
      · exact hrefl r
      · exact absurd hnone (first_ne_none hr)
    · next b₀ hb₀ =>
      have hrest := first_before htotal htrans hb₀
      simp only [Option.some.injEq] at h
      split at h
      · next hx =>
        subst h
        rcases List.mem_cons.1 hr with rfl | hr
        · exact hrefl r
        · exact htrans _ _ _ hx (hrest r hr)
      · next hx =>
        subst h
        rcases List.mem_cons.1 hr with rfl | hr
        · exact htotal _ _ (Bool.eq_false_iff.2 hx)
        · exact hrest r hr

end Table
