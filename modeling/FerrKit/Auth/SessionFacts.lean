/-
What a step of the session store can do, said once: `PcR` for a call inside
its transaction, `StepR` for the whole store.
-/
import FerrKit.Auth.SessionModel

namespace FerrKit.Auth

open ReadCommitted Runs

variable {hashRefreshToken : String → List UInt8}

@[simp] theorem Session.revoke_id (now : Int) (r : Session) : (r.revoke now).id = r.id := rfl

@[simp] theorem Session.revoke_revokedAt (now : Int) (r : Session) : (r.revoke now).revokedAt = some now := rfl

theorem unrevokedOf_iff {f : Uuid} {r : Session} : unrevokedOf f r = true ↔ r.familyId = f ∧ r.revokedAt = none := by
  simp [unrevokedOf]

/-! ## Inversion -/

/-- A call inside its transaction, with the ids and the hashes it draws. -/
inductive PcR (hashRefreshToken : String → List UInt8) (s : St) (k : Nat) (c : Call) :
    Pc → List Uuid → List (List UInt8) → Prop
  | notFound : (∀ o, c.pc ≠ .returned o) → PcR hashRefreshToken s k c (.returned (.error .notFound)) [] []
  | found {id} : c.pc = .begun → PcR hashRefreshToken s k c (.waiting id) [] []
  | live {r} : c.pc = .waiting r.id → c.request.hash hashRefreshToken = some r.refreshTokenHash → r ∈ s.rows →
      lockFree s.txs k r.id = true → r.revokedAt = none → PcR hashRefreshToken s k c (.live r) [] []
  | replay {r} : c.pc = .waiting r.id → c.request.hash hashRefreshToken = some r.refreshTokenHash → r ∈ s.rows →
      lockFree s.txs k r.id = true → PcR hashRefreshToken s k c (.revoking r.familyId [r.id]) [] []
  | expired {old} : c.pc = .live old → PcR hashRefreshToken s k c (.returned (.error .expired)) [] []
  | mark {old now} : c.pc = .live old → PcR hashRefreshToken s k c (.marked old now) [] []
  | insert {old now id token expiresAt} : c.pc = .marked old now → id ∉ s.drawn → hashRefreshToken token ∉ s.hashes →
      PcR hashRefreshToken s k c
        (.inserted old now
          ⟨newSession id old.userId old.familyId (hashRefreshToken token) none none now expiresAt, token⟩)
        [id] [hashRefreshToken token]
  | burn {f held now} : c.pc = .revoking f held → PcR hashRefreshToken s k c
      (.burning f held ((s.rows.filter (unrevokedOf f)).map Session.id) [] now) [] []
  | hit {f held todo done now r} : c.pc = .burning f held todo done now → lockFree s.txs k r.id = true → r ∈ s.rows →
      unrevokedOf f r = true → PcR hashRefreshToken s k c (.burning f held (todo.erase r.id) (done ++ [r]) now) [] []
  | miss {f held todo done now id} : c.pc = .burning f held todo done now →
      (∀ r, Table.get Session.id s.rows id = some r → unrevokedOf f r = false) →
      PcR hashRefreshToken s k c (.burning f held (todo.erase id) done now) [] []
  | abort : (∀ o, c.pc ≠ .returned o) → PcR hashRefreshToken s k c (.returned (.error .db)) [] []

theorem Call.next_inv {s : St} {k : Nat} {c : Call} {a : Action} {pc ids hashes}
    (h : c.next hashRefreshToken s k a = some (pc, ids, hashes)) : PcR hashRefreshToken s k c pc ids hashes := by
  cases a with
  | create _ _ _ _ _ _ _ _ | rotate _ _ | revokeFamily _ | commit _ _ => simp [Call.next] at h
  | select _ =>
    simp only [Call.next] at h
    split at h
    · next hpc _ =>
      split at h
      · cases h; exact .notFound (by simp [hpc])
      · cases h; exact .found hpc
    · cases h
  | lockRow _ =>
    simp only [Call.next] at h
    split at h
    · next id hash hpc hh =>
      split at h
      · next hfree =>
        simp only [Option.some.injEq, Prod.mk.injEq] at h
        obtain ⟨rfl, rfl, rfl⟩ := h
        cases hg : Table.get Session.id s.rows id with
        | none => exact .notFound (by simp [hpc])
        | some r =>
          have hid := Table.get_key hg
          subst hid
          simp only [lockedPc]
          split
          · exact .notFound (by simp [hpc])
          next heq =>
          rw [← not_not.1 heq] at hh
          split
          · exact .replay hpc hh (Table.get_mem hg) hfree
          · next hrev => exact .live hpc hh (Table.get_mem hg) hfree (by simpa using hrev)
      · cases h
    · cases h
  | mark _ now =>
    simp only [Call.next] at h
    split at h
    · next old hpc =>
      simp only [Option.some.injEq, Prod.mk.injEq] at h
      obtain ⟨rfl, rfl, rfl⟩ := h
      split
      · exact .expired hpc
      · exact .mark hpc
    · cases h
  | insert _ id token =>
    simp only [Call.next] at h
    split at h
    · next old now _ _ hpc _ =>
      split at h
      · cases h
      next hfresh =>
      simp only [not_or] at hfresh
      obtain ⟨e, -, he⟩ := Option.map_eq_some_iff.1 h
      cases he
      exact .insert hpc hfresh.1 hfresh.2
    · cases h
  | burn _ now =>
    simp only [Call.next] at h
    split at h
    · next hpc => cases h; exact .burn hpc
    · cases h
  | visit _ id =>
    simp only [Call.next] at h
    split at h
    · next f held todo done now hpc =>
      split at h
      · next hv =>
        simp only [Option.some.injEq, Prod.mk.injEq] at h
        obtain ⟨rfl, rfl, rfl⟩ := h
        cases hg : Table.get Session.id s.rows id with
        | none => exact .miss hpc (by simp [hg])
        | some r =>
          have hid := Table.get_key hg
          subst hid
          simp only [visited]
          split
          · next hu => exact .hit hpc hv.2 (Table.get_mem hg) hu
          · next hu => exact .miss hpc (by simpa [hg] using hu)
      · cases h
    · cases h
  | abort _ =>
    simp only [Call.next] at h
    split at h
    · cases h
    · next hpc => cases h; exact .abort hpc

/-- A call commits a rotation, or a family `UPDATE` with nothing left to
visit. -/
theorem Call.committed_inv {c : Call} {o : Outcome} (h : c.committed = some o) :
    (∃ old now new, c.pc = .inserted old now new ∧ o = .issued new) ∨
      (∃ f held done now, c.pc = .burning f held [] done now ∧ (o = .ok ∨ o = .error .reuseDetected)) := by
  obtain ⟨req, pc⟩ := c
  simp only [Call.committed] at h
  split at h
  · cases h
    exact .inl ⟨_, _, _, rfl, rfl⟩
  · cases h
    exact .inr ⟨_, _, _, _, rfl, .inr rfl⟩
  · cases h
    exact .inr ⟨_, _, _, _, rfl, .inl rfl⟩
  · cases h

/-- Everything a step can do. -/
inductive StepR (hashRefreshToken : String → List UInt8) (s : St) : Action → St → Prop
  | create {id familyId userId token userAgent ip refreshTtl now expiresAt} :
      id ∉ s.drawn → familyId ∉ s.drawn → hashRefreshToken token ∉ s.hashes →
      StepR hashRefreshToken s (.create id familyId userId token userAgent ip refreshTtl now)
        { s with
          rows := s.rows ++ [newSession id userId familyId (hashRefreshToken token) userAgent ip now expiresAt]
          drawn := id :: familyId :: s.drawn
          hashes := hashRefreshToken token :: s.hashes }
  | rotate {token refreshTtl} : StepR hashRefreshToken s (.rotate token refreshTtl)
      { s with calls := s.calls ++ [⟨.rotate token refreshTtl, .begun⟩] }
  | revokeFamily {f} : StepR hashRefreshToken s (.revokeFamily f)
      { s with calls := s.calls ++ [⟨.revokeFamily f, .revoking f []⟩], drawn := f :: s.drawn }
  | call {k a c pc ids hashes} : a.call = some k → s.calls[k]? = some c → PcR hashRefreshToken s k c pc ids hashes →
      StepR hashRefreshToken s a { s.goto k c pc with drawn := ids ++ s.drawn, hashes := hashes ++ s.hashes }
  | commit {k acked c o} : s.calls[k]? = some c → c.committed = some o →
      StepR hashRefreshToken s (.commit k acked)
        { s.goto k c (.returned (if acked then o else .error .db)) with rows := c.pc.tx.commit Session.id s.rows }

theorem stepCall_inv {s s' : St} {k : Nat} {a : Action} (ha : a.call = some k)
    (h : stepCall hashRefreshToken s k a = some s') : StepR hashRefreshToken s a s' := by
  simp only [stepCall, Option.bind_eq_bind, Option.bind_eq_some_iff] at h
  obtain ⟨c, hc, ⟨pc, ids, hashes⟩, hn, hs⟩ := h
  cases hs
  exact .call ha hc (Call.next_inv hn)

theorem step_inv {s s' : St} {a : Action} (h : step hashRefreshToken s a = some s') :
    StepR hashRefreshToken s a s' := by
  cases a with
  | create id familyId userId token userAgent ip refreshTtl now =>
    simp only [step] at h
    split at h
    · cases h
    next hfresh =>
    simp only [not_or] at hfresh
    obtain ⟨e, -, rfl⟩ := Option.map_eq_some_iff.1 h
    exact .create hfresh.1 hfresh.2.1 hfresh.2.2
  | rotate token refreshTtl => cases h; exact .rotate
  | revokeFamily f => cases h; exact .revokeFamily
  | commit k acked =>
    simp only [step, Option.bind_eq_bind, Option.bind_eq_some_iff] at h
    obtain ⟨c, hc, o, ho, hs⟩ := h
    cases hs
    exact .commit hc ho
  | select k | lockRow k | mark k _ | insert k _ _ | burn k _ | visit k _ | abort k =>
    exact stepCall_inv rfl h

/-! ## A call through a step -/

/-- A call is where it was, has taken a step of its own, has just committed,
or has just begun. -/
theorem calls_inv {s s' : St} {a : Action} {j : Nat} {c' : Call} (h : step hashRefreshToken s a = some s')
    (hj : s'.calls[j]? = some c') :
    s.calls[j]? = some c' ∨
      (∃ c pc ids hashes, s.calls[j]? = some c ∧ c' = { c with pc } ∧ PcR hashRefreshToken s j c pc ids hashes) ∨
      (∃ c o acked, a = .commit j acked ∧ s.calls[j]? = some c ∧ c.committed = some o ∧
        c' = { c with pc := .returned (if acked then o else .error .db) } ∧
        s'.rows = c.pc.tx.commit Session.id s.rows) ∨
      (∀ o, c'.pc ≠ .returned o) := by
  cases step_inv h with
  | create _ _ _ => exact .inl hj
  | rotate | revokeFamily =>
    rcases Table.getElem?_append_inv hj with hold | ⟨-, rfl⟩
    · exact .inl hold
    · exact .inr (.inr (.inr (by simp)))
  | call _ hk hpc =>
    rcases Table.getElem?_set_inv hk hj with ⟨rfl, rfl⟩ | ⟨-, hold⟩
    · exact .inr (.inl ⟨_, _, _, _, hk, rfl, hpc⟩)
    · exact .inl hold
  | commit hk ho =>
    rcases Table.getElem?_set_inv hk hj with ⟨rfl, rfl⟩ | ⟨-, hold⟩
    · exact .inr (.inr (.inl ⟨_, _, _, rfl, hk, ho, rfl, rfl⟩))
    · exact .inl hold

/-- A call that has returned takes no further step. -/
theorem returned_final {s s' : St} {a : Action} {j : Nat} {c : Call} {o : Outcome}
    (h : step hashRefreshToken s a = some s') (hj : s.calls[j]? = some c) (hc : c.pc = .returned o) :
    s'.calls[j]? = some c := by
  have hlt : j < s.calls.length := (List.getElem?_eq_some_iff.1 hj).1
  -- the call that moves is another one
  have stays : ∀ {k : Nat} {c₀ : Call} {pc : Pc}, k ≠ j → (s.goto k c₀ pc).calls[j]? = some c := by
    intro k c₀ pc hne
    rw [St.goto, List.getElem?_set_ne hne]
    exact hj
  cases step_inv h with
  | create _ _ _ => exact hj
  | rotate | revokeFamily => exact (List.getElem?_append_left hlt).trans hj
  | @call k _ c₀ _ _ _ _ hk hpc =>
    refine stays fun he => ?_
    rw [he, hj, Option.some.injEq] at hk
    subst hk
    cases hpc with
    | notFound hne | abort hne => exact hne o hc
    | found hp | live hp _ _ _ _ | replay hp _ _ _ | expired hp | mark hp | insert hp _ _ | burn hp | hit hp _ _ _
    | miss hp _ =>
      rw [hc] at hp
      cases hp
  | @commit k _ c₀ _ hk ho =>
    refine stays fun he => ?_
    rw [he, hj, Option.some.injEq] at hk
    subst hk
    simp [Call.committed, hc] at ho

/-- A stand-in for SHA-256 in the runs that show a race. -/
def plainHash (token : String) : List UInt8 := token.toList.map fun c => c.toNat.toUInt8

end FerrKit.Auth
