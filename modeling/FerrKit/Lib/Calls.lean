/-
Calls that go on at a time. Each is known by its number and is at some point
between two steps, or not going on; all write to one log.
-/
import Mathlib.Logic.Function.Basic

structure Calls (φ ε : Type) where
  /-- the number of the next call -/
  next : Nat := 0
  calls : Nat → Option φ := fun _ => none
  log : List ε := []

namespace Calls

variable {φ ε : Type}

/-- One more call has its number. -/
def begun (s : Calls φ ε) : Calls φ ε := { s with next := s.next + 1 }

def goto (s : Calls φ ε) (call : Nat) (phase : Option φ) : Calls φ ε :=
  { s with calls := Function.update s.calls call phase }

def record (s : Calls φ ε) (events : List ε) : Calls φ ε := { s with log := s.log ++ events }

variable {s : Calls φ ε} {call c : Nat} {phase : Option φ} {p : φ}

theorem goto_self (s : Calls φ ε) (call : Nat) (phase : Option φ) :
    (s.goto call phase).calls call = phase :=
  Function.update_self ..

theorem goto_of_ne (h : c ≠ call) (phase : Option φ) : (s.goto call phase).calls c = s.calls c :=
  Function.update_of_ne h ..

/-- Where a call is after another has moved, or it has itself. -/
theorem goto_some (h : (s.goto call phase).calls c = some p) : c = call ∧ phase = some p ∨ s.calls c = some p := by
  by_cases hc : c = call
  · rw [hc, goto_self] at h
    exact .inl ⟨hc, h⟩
  · rw [goto_of_ne hc] at h
    exact .inr h

/-- A move to another point brings nobody here. -/
theorem before_goto (hphase : phase ≠ some p) (h : (s.goto call phase).calls c = some p) : s.calls c = some p :=
  (goto_some h).resolve_left fun ⟨_, hp⟩ => hphase hp

end Calls
