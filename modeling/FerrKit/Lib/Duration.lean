/-
Durations and instants as the standard library and chrono have them:
`Duration` is whole seconds and nanoseconds below a second, an instant
is an `Int` of nanoseconds since the epoch, and the conversions round down or
refuse.
-/
import Mathlib.Algebra.Group.Int.Defs
import Mathlib.Algebra.Group.Nat.Defs
import Mathlib.Data.Int.Basic

/-- Nanoseconds in a second. -/
def nanosPerSec : Nat := 1000000000

/-- Nanoseconds in a millisecond. -/
def nanosPerMilli : Nat := 1000000

/-- `std::time::Duration`. -/
structure Duration where
  secs : Nat
  nanos : Nat
  secs_lt : secs < 2 ^ 64
  nanos_lt : nanos < nanosPerSec
  deriving DecidableEq

namespace Duration

/-- A whole number of seconds. -/
def fromSecs (n : UInt64) : Duration := ⟨n.toNat, 0, n.toNat_lt, by decide⟩

def asSecs (d : Duration) : Nat := d.secs

def asNanos (d : Duration) : Nat := d.secs * nanosPerSec + d.nanos

def asMillis (d : Duration) : Nat := d.secs * 1000 + d.nanos / nanosPerMilli

/-- Nothing is rounded away from a whole number of seconds. -/
theorem asNanos_of_whole {d : Duration} (h : d.nanos = 0) : d.asNanos = d.asSecs * nanosPerSec := by
  simp [asSecs, asNanos, h]

/-- Nor from a whole number of milliseconds. -/
theorem asNanos_of_whole_millis {d : Duration} (h : d.nanos % nanosPerMilli = 0) :
    d.asNanos = d.asMillis * nanosPerMilli := by
  simp only [asMillis, asNanos, nanosPerSec, nanosPerMilli] at h ⊢
  omega

end Duration

/-! ## chrono -/

/-- The last second `chrono::Duration::seconds` accepts (`i64::MAX / 1000`). -/
def chronoMaxSecs : Int := 9223372036854775

/-- `DateTime::<Utc>::MIN_UTC`, the start of the year -262143, in seconds. -/
def chronoMinUtc : Int := -8334601228800

/-- `now - chrono::Duration::seconds(secs)`; `none` where chrono panics. -/
def chronoSubSeconds (now : Int) (secs : Int) : Option Int :=
  if secs ≤ chronoMaxSecs ∧ chronoMinUtc * nanosPerSec ≤ now - secs * nanosPerSec then
    some (now - secs * nanosPerSec)
  else none

theorem chronoSubSeconds_some {now secs t} (h : chronoSubSeconds now secs = some t) :
    t = now - secs * nanosPerSec := by
  unfold chronoSubSeconds at h
  split at h
  · simpa using h.symm
  · cases h

/-- `DateTime::<Utc>::MAX_UTC`, the end of the year 262142, in whole seconds. -/
def chronoMaxUtc : Int := 8210266876799

/-- `chrono::Duration::from_std`, in nanoseconds: at most `i64::MAX`
milliseconds. -/
def chronoFromStd (d : Duration) : Option Int :=
  if d.asNanos ≤ (2 ^ 63 - 1) * nanosPerMilli then some d.asNanos else none

/-- `chrono::Duration::days`, in nanoseconds. -/
def chronoDays (n : Nat) : Int := n * 86400 * nanosPerSec

/-- `now + delta`; `none` where chrono panics. -/
def chronoAdd (now delta : Int) : Option Int :=
  if chronoMinUtc * nanosPerSec ≤ now + delta ∧ now + delta < (chronoMaxUtc + 1) * nanosPerSec then
    some (now + delta)
  else none

/-- An instant a `DateTime<Utc>` can hold. -/
def IsChronoInstant (t : Int) : Prop := chronoMinUtc * nanosPerSec ≤ t ∧ t < (chronoMaxUtc + 1) * nanosPerSec

/-- A delta forward can only pass the end. -/
theorem chronoAdd_forward {now delta t : Int} (hnow : IsChronoInstant now) (hdelta : 0 ≤ delta) :
    chronoAdd now delta = some t ↔ t = now + delta ∧ now + delta < (chronoMaxUtc + 1) * nanosPerSec := by
  have hlow : chronoMinUtc * nanosPerSec ≤ now + delta := by
    have := hnow.1
    omega
  unfold chronoAdd
  split
  · next h =>
    simp only [Option.some.injEq, h.2, and_true]
    exact eq_comm
  · next h =>
    have hhigh : ¬ now + delta < (chronoMaxUtc + 1) * nanosPerSec := fun hlt => h ⟨hlow, hlt⟩
    simp [hhigh]
