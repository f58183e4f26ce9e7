/-
Histories of calls, and when they are linearizable.

A call begins with an operation and may return an outcome; other calls begin
and return in between. `Explains` says that an order of operations accounts
for a history: a sequential object that is given them one after the other
returns what the callers saw, and a call that was over before another began
comes before it. A call that failed, and one that has not returned, may be in
the order or not, anywhere after the calls that were over when it began.

An order goes on explaining a history when a call begins, when an operation
takes effect (it is put at the end) and when a call returns.
-/
import Mathlib.Data.List.Basic

namespace Histories

variable {σ α ω : Type}

/-- What an operation does to the state of an object and what it returns.
`failed` are the outcomes that say nothing. -/
structure Object (σ α ω : Type) where
  apply : α → σ → σ
  result : α → σ → ω
  failed : ω → Bool

inductive Event (α ω : Type)
  | begun (call : Nat) (op : α)
  | returned (call : Nat) (outcome : ω)
  deriving DecidableEq

/-- The state after the operations. -/
def Object.replay (obj : Object σ α ω) (s : σ) (order : List (Nat × α)) : σ :=
  order.foldl (fun s e => obj.apply e.2 s) s

/-- The calls in an order. -/
def calls (order : List (Nat × α)) : List Nat := order.map Prod.fst

/-- Of two events, the second one later: what was over stays in front. -/
def Object.RealTime (obj : Object σ α ω) (order : List (Nat × α)) : Event α ω → Event α ω → Prop
  | .returned a outcome, .begun b _ => obj.failed outcome = false → b ∈ calls order → [a, b].Sublist (calls order)
  | _, _ => True

structure Object.Explains (obj : Object σ α ω) (s : σ) (history : List (Event α ω)) (order : List (Nat × α)) :
    Prop where
  once : (calls order).Nodup
  begun : ∀ call op, (call, op) ∈ order → .begun call op ∈ history
  answers : ∀ call outcome, .returned call outcome ∈ history → obj.failed outcome = false →
    ∃ pre op post, order = pre ++ (call, op) :: post ∧ outcome = obj.result op (obj.replay s pre)
  realTime : history.Pairwise (obj.RealTime order)

variable {obj : Object σ α ω} {s : σ} {history : List (Event α ω)} {order : List (Nat × α)} {call : Nat} {op : α}
  {outcome : ω}

@[simp] theorem calls_concat : calls (order ++ [(call, op)]) = calls order ++ [call] := by simp [calls]

theorem replay_concat : obj.replay s (order ++ [(call, op)]) = obj.apply op (obj.replay s order) := by
  simp [Object.replay]

theorem mem_calls {pre post : List (Nat × α)} (h : order = pre ++ (call, op) :: post) : call ∈ calls order := by
  simp [h, calls]

theorem explains_nil : obj.Explains s [] [] where
  once := List.nodup_nil
  begun := nofun
  answers := nofun
  realTime := .nil

theorem Object.Explains.begun_of_mem (h : obj.Explains s history order) (hc : call ∈ calls order) :
    ∃ op, .begun call op ∈ history := by
  obtain ⟨⟨_, op⟩, he, rfl⟩ := List.mem_map.1 hc
  exact ⟨op, h.begun _ _ he⟩

/-- A call begins. -/
theorem Object.Explains.begins (h : obj.Explains s history order) (hnew : ∀ op', .begun call op' ∉ history) :
    obj.Explains s (history ++ [.begun call op]) order where
  once := h.once
  begun call op he := List.mem_append_left _ (h.begun call op he)
  answers call outcome hr := h.answers call outcome (by simpa using hr)
  realTime := by
    refine List.pairwise_append.2 ⟨h.realTime, List.pairwise_singleton _ _, fun e _ e' he' => ?_⟩
    obtain rfl := List.mem_singleton.1 he'
    cases e with
    | begun => trivial
    | returned a outcome =>
      -- what is in the order has begun before
      intro _ hc
      obtain ⟨op', hop'⟩ := h.begun_of_mem hc
      exact absurd hop' (hnew op')

/-- The operation of a call takes effect. -/
theorem Object.Explains.effect (h : obj.Explains s history order) (hbegun : .begun call op ∈ history)
    (hnot : call ∉ calls order) : obj.Explains s history (order ++ [(call, op)]) where
  once := by
    rw [calls_concat, List.nodup_append]
    refine ⟨h.once, List.pairwise_singleton _ _, fun a ha b hb => ?_⟩
    rintro rfl
    exact hnot (List.mem_singleton.1 hb ▸ ha)
  begun call' op' he := by
    obtain he | he := List.mem_append.1 he
    · exact h.begun call' op' he
    · cases List.mem_singleton.1 he
      exact hbegun
  answers call' outcome hr hok := by
    obtain ⟨pre, op', post, he, hout⟩ := h.answers call' outcome hr hok
    exact ⟨pre, op', post ++ [(call, op)], by simp [he], hout⟩
  realTime := by
    refine h.realTime.imp_of_mem fun {e e'} he _ hold => ?_
    match e, e' with
    | .begun _ _, _ => trivial
    | .returned _ _, .returned _ _ => trivial
    | .returned a outcome, .begun b op' =>
      intro hok hb
      rw [calls_concat] at hb ⊢
      obtain hb | hb := List.mem_append.1 hb
      · exact (hold hok hb).trans (List.sublist_append_left _ _)
      · -- whatever is over is in the order already
        obtain ⟨pre, op'', post, hsplit, -⟩ := h.answers a outcome he hok
        obtain rfl := List.mem_singleton.1 hb
        exact (List.singleton_sublist.2 (mem_calls hsplit)).append (List.Sublist.refl [b])

/-- A call returns: it has failed, or says what its place in the order says. -/
theorem Object.Explains.returns (h : obj.Explains s history order)
    (hout : obj.failed outcome = false →
      ∃ pre op post, order = pre ++ (call, op) :: post ∧ outcome = obj.result op (obj.replay s pre)) :
    obj.Explains s (history ++ [.returned call outcome]) order where
  once := h.once
  begun call op he := List.mem_append_left _ (h.begun call op he)
  answers call' outcome' hr hok := by
    obtain hr | hr := List.mem_append.1 hr
    · exact h.answers call' outcome' hr hok
    · cases List.mem_singleton.1 hr
      exact hout hok
  realTime := by
    refine List.pairwise_append.2 ⟨h.realTime, List.pairwise_singleton _ _, fun e _ e' he' => ?_⟩
    obtain rfl := List.mem_singleton.1 he'
    cases e <;> trivial

end Histories
