/-
`HashMap` as an association list with distinct keys (`AList`): what an
insertion and a removal leave, and a map that is drained, in some order, and
filled again.
-/
import Mathlib.Data.List.AList

namespace KeyMap

variable {κ ν : Type} [DecidableEq κ]

abbrev Map (κ ν : Type) := AList fun _ : κ => ν

abbrev Entry (κ ν : Type) := Sigma fun _ : κ => ν

variable {m : Map κ ν} {e : Entry κ ν} {k : κ} {v : ν}

theorem mem_of_mem_erase (h : e ∈ (m.erase k).entries) : e ∈ m.entries :=
  (List.kerase_sublist k m.entries).subset h

theorem mem_of_mem_insert (h : e ∈ (m.insert k v).entries) : e = ⟨k, v⟩ ∨ e ∈ m.entries := by
  rw [AList.entries_insert, List.mem_cons] at h
  exact h.imp id mem_of_mem_erase

theorem length_erase_le (m : Map κ ν) (k : κ) : (m.erase k).entries.length ≤ m.entries.length :=
  (List.kerase_sublist k m.entries).length_le

theorem length_insert_le (m : Map κ ν) (k : κ) (v : ν) : (m.insert k v).entries.length ≤ m.entries.length + 1 := by
  rw [AList.entries_insert, List.length_cons]
  exact Nat.succ_le_succ (length_erase_le m k)

/-- `for (k, v) in entries { map.insert(k, v); }`, into an empty map. -/
def refill (entries : List (Entry κ ν)) : Map κ ν := entries.foldl (fun m e => m.insert e.1 e.2) ∅

theorem foldl_insert_perm {l : List (Entry κ ν)} : ∀ {m : Map κ ν}, l.NodupKeys → (∀ e ∈ l, e.1 ∉ m) →
    (l.foldl (fun m e => m.insert e.1 e.2) m).entries.Perm (l ++ m.entries) := by
  induction l with
  | nil => intro m _ _; exact .refl _
  | cons e l ih =>
    intro m hnd hnew
    obtain ⟨hfresh, hnd⟩ := List.nodupKeys_cons.1 hnd
    have hinsert : (m.insert e.1 e.2).entries = e :: m.entries :=
      AList.entries_insert_of_notMem (hnew e (List.mem_cons_self ..))
    refine (ih hnd fun e' he' => ?_).trans (hinsert ▸ List.perm_middle)
    rw [AList.mem_insert, not_or]
    exact ⟨fun heq => hfresh (heq ▸ List.mem_keys_of_mem he'), hnew e' (List.mem_cons_of_mem _ he')⟩

/-- What is put back is there, and nothing else. -/
theorem refill_perm {l : List (Entry κ ν)} (h : l.NodupKeys) : (refill l).entries.Perm l := by
  have hperm := foldl_insert_perm h fun e _ => AList.notMem_empty e.1
  rwa [AList.empty_entries, List.append_nil] at hperm

end KeyMap
