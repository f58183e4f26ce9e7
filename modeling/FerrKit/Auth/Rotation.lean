/-
Rotation under concurrency: a refresh token is rotated once, a family has one
unrevoked session and one user, and a rotation that finds nothing, or finds
the token expired, writes nothing.

No condition on the interleaving is needed. Two rotations of one token are
ordered by the row lock that `SELECT .. FOR UPDATE` takes: the second reads
`revoked_at` again under it.
-/
import FerrKit.Auth.SessionInvariant

namespace FerrKit.Auth

open ReadCommitted Runs

variable {hashRefreshToken : String → List UInt8} {s s' : St} {a : Action} {as : List Action}

/-- Two calls that have both issued a session presented different tokens. -/
def RotatedOnce (hashRefreshToken : String → List UInt8) (s : St) : Prop :=
  ∀ (i j : Nat) (c d : Call) (x y : IssuedSession), s.calls[i]? = some c → s.calls[j]? = some d →
    c.pc = .returned (.issued x) → d.pc = .returned (.issued y) →
    c.request.hash hashRefreshToken = d.request.hash hashRefreshToken → i = j

/-- A call that has issued a session had, or has just had, the unrevoked row
of its token. -/
theorem issued_inv {j : Nat} {c' : Call} {x : IssuedSession} (hi : Inv hashRefreshToken s)
    (h : step hashRefreshToken s a = some s') (hj : s'.calls[j]? = some c') (hx : c'.pc = .returned (.issued x)) :
    s.calls[j]? = some c' ∨
      ∃ old ∈ s.rows, old.revokedAt = none ∧ c'.request.hash hashRefreshToken = some old.refreshTokenHash ∧
        ∃ acked, a = .commit j acked := by
  rcases calls_inv h hj with hold | ⟨c, pc, ids, hashes, -, rfl, hpc⟩ | ⟨c, o, acked, ha, hc, ho, rfl, -⟩ | hnew
  · exact .inl hold
  · simp only at hx
    subst hx
    cases hpc
  · have hok := hi.calls c (List.mem_of_getElem? hc)
    rcases Call.committed_inv ho with ⟨old, now, new, hpc, -⟩ | ⟨f, held, done, now, -, hburn⟩
    · rw [Call.Ok, hpc] at hok
      obtain ⟨⟨hr, hrev, hh⟩, -⟩ := hok
      exact .inr ⟨old, hr, hrev, hh, acked, ha⟩
    · -- a family `UPDATE` issues nothing
      simp only [Pc.returned.injEq] at hx
      rcases hburn with rfl | rfl <;> split at hx <;> cases hx
  · exact absurd hx (hnew _)

theorem step_rotatedOnce (hi : Inv hashRefreshToken s) (ho : RotatedOnce hashRefreshToken s)
    (h : step hashRefreshToken s a = some s') : RotatedOnce hashRefreshToken s' := by
  -- a token whose row is unrevoked has not been rotated yet
  have clash : ∀ {i : Nat} {c : Call} {x : IssuedSession} {old : Session}, s.calls[i]? = some c →
      c.pc = .returned (.issued x) → old ∈ s.rows → old.revokedAt = none →
      c.request.hash hashRefreshToken ≠ some old.refreshTokenHash := by
    intro i c x old hc hx hold hrev he
    have hok := hi.calls c (List.mem_of_getElem? hc)
    rw [Call.Ok, hx] at hok
    obtain ⟨r, hr, hh, hne⟩ := hok
    rw [he, Option.some.injEq] at hh
    exact hne ((List.inj_on_of_nodup_map hi.hashes hold hr hh) ▸ hrev)
  intro i j c d x y hc hd hx hy hcd
  rcases issued_inv hi h hc hx with hc' | ⟨old, hold, hrev, hh, acked, ha⟩
  · rcases issued_inv hi h hd hy with hd' | ⟨old, hold, hrev, hh, -⟩
    · exact ho i j c d x y hc' hd' hx hy hcd
    · exact absurd (hcd.trans hh) (clash hc' hx hold hrev)
  · rcases issued_inv hi h hd hy with hd' | ⟨-, -, -, -, acked', ha'⟩
    · exact absurd (hcd.symm.trans hh) (clash hd' hy hold hrev)
    · rw [ha, Action.commit.injEq] at ha'
      exact ha'.1

/-- Only a commit writes rows, and a call that commits does not return
`NotFound` or `Expired`. -/
theorem rows_of_failed {t : St} {k : Nat} {c : Call} {e : SessionError} (h : step hashRefreshToken s a = some s')
    (ha : a.call = some k) (hr : run (step hashRefreshToken) s' as = some t) (hc : t.calls[k]? = some c)
    (hpc : c.pc = .returned (.error e)) (he : e = .notFound ∨ e = .expired) : s'.rows = s.rows := by
  cases step_inv h with
  | create _ _ _ | rotate | revokeFamily => cases ha
  | call _ _ _ => rfl
  | @commit k' acked c₀ o hk ho =>
    cases ha
    have hlt : k < s.calls.length := (List.getElem?_eq_some_iff.1 hk).1
    -- the commit's outcome is the one the call still has at the end
    have hend := invariant_run (I := fun s => s.calls[k]? = some
        { c₀ with pc := .returned (if acked then o else .error .db) })
      (fun hi hs => returned_final hs hi rfl) hr (by simp [St.goto, hlt])
    rw [hend, Option.some.injEq] at hc
    subst hc
    simp only [Pc.returned.injEq] at hpc
    split at hpc
    · subst hpc
      rcases Call.committed_inv ho with ⟨_, _, _, _, ho'⟩ | ⟨_, _, _, _, _, ho' | ho'⟩
      · cases ho'
      · cases ho'
      · cases ho'
        simp at he
    · cases hpc
      simp at he

/-- What every reachable state of the store satisfies. -/
structure RotationSafe (hashRefreshToken : String → List UInt8) (s : St) : Prop where
  /-- Each refresh token is rotated successfully at most once. -/
  once : RotatedOnce hashRefreshToken s
  oneUnrevoked : ∀ f, (s.rows.filter (unrevokedOf f)).length ≤ 1
  oneUser : ∀ r ∈ s.rows, ∀ r' ∈ s.rows, r.familyId = r'.familyId → r.userId = r'.userId

theorem Inv.oneUnrevoked (hi : Inv hashRefreshToken s) (f : Uuid) : (s.rows.filter (unrevokedOf f)).length ≤ 1 := by
  have hnd : (s.rows.filter (unrevokedOf f)).Nodup := (List.Nodup.of_map _ hi.ids).filter _
  have hone : ∀ r ∈ s.rows.filter (unrevokedOf f), ∀ r' ∈ s.rows.filter (unrevokedOf f), r = r' := by
    intro r hr r' hr'
    simp only [List.mem_filter, unrevokedOf_iff] at hr hr'
    exact hi.oneLive r hr.1 r' hr'.1 (hr.2.1.trans hr'.2.1.symm) hr.2.2 hr'.2.2
  match hl : s.rows.filter (unrevokedOf f) with
  | [] => simp
  | [_] => simp
  | r :: r' :: l =>
    rw [hl] at hnd hone
    have he := hone r (by simp) r' (by simp)
    simp [he] at hnd

/-- **Rotation is safe in every interleaving.** After any run of concurrent
`create`, `rotate` and `revoke_family` calls, each refresh token has been
rotated successfully at most once, each family has at most one unrevoked
session, and all its sessions carry one user. A rotation that returned
`NotFound` or `Expired` changed no row at any of its steps. -/
theorem rotation_safe (h : run (step hashRefreshToken) init as = some s) :
    RotationSafe hashRefreshToken s ∧
      ∀ (k : Nat) (c : Call), s.calls[k]? = some c →
        c.pc = .returned (.error .notFound) ∨ c.pc = .returned (.error .expired) →
        EachStep (step hashRefreshToken) (fun t a u => a.call = some k → u.rows = t.rows) init as := by
  have hi := reachable_inv ⟨as, h⟩
  have honce : Inv hashRefreshToken s ∧ RotatedOnce hashRefreshToken s :=
    invariant_run (I := fun s => Inv hashRefreshToken s ∧ RotatedOnce hashRefreshToken s)
      (fun hi hs => ⟨step_keeps_inv hi.1 hs, step_rotatedOnce hi.1 hi.2 hs⟩) h
      ⟨inv_init, by intro i j c d x y hc; simp [init] at hc⟩
  refine ⟨⟨honce.2, hi.oneUnrevoked, hi.oneUser⟩, fun k c hc hpc pre a post t u he hpre hu ha => ?_⟩
  rw [he] at h
  obtain ⟨t', ht', hpost⟩ := run_append_some.1 h
  rw [hpre, Option.some.injEq] at ht'
  subst ht'
  obtain ⟨u', hu', hpost⟩ := run_cons_some.1 hpost
  rw [hu, Option.some.injEq] at hu'
  subst hu'
  rcases hpc with hpc | hpc
  · exact rows_of_failed hu ha hpost hc hpc (.inl rfl)
  · exact rows_of_failed hu ha hpost hc hpc (.inr rfl)

/-- Two clients rotate one token at once; a third presents an unknown one.
The first gets its session, the second reads the row again under the lock and
burns the family. -/
def twoClients : List Action :=
  [.create 1 2 7 "t0" none none (.fromSecs 1209600) 0,
    .rotate "t0" (.fromSecs 1209600), .rotate "t0" (.fromSecs 1209600),
    .rotate "guess" (.fromSecs 1209600),
    .select 0, .select 1, .select 2, .lockRow 0, .mark 0 5, .insert 0 3 "t1", .commit 0 true,
    .lockRow 1, .burn 1 9, .visit 1 3, .commit 1 true]

theorem rotation_safe_twoClients : ∃ s, run (step plainHash) init twoClients = some s ∧
    (s.calls.map fun c => c.pc matches .returned _) = [true, true, true] ∧
    RotationSafe plainHash s ∧
      EachStep (step plainHash) (fun t a u => a.call = some 2 → u.rows = t.rows) init twoClients := by
  have hrun : ∃ s, run (step plainHash) init twoClients = some s ∧
      (s.calls.map fun c => c.pc matches .returned _) = [true, true, true] ∧
      ∃ c, s.calls[2]? = some c ∧ c.pc = .returned (.error .notFound) := ⟨_, rfl, rfl, _, rfl, rfl⟩
  obtain ⟨s, hs, hall, c, hc, hpc⟩ := hrun
  obtain ⟨hsafe, hfailed⟩ := rotation_safe hs
  exact ⟨s, hs, hall, hsafe, hfailed 2 c hc (.inl hpc)⟩

end FerrKit.Auth
