/-
Burning a family: once `revoke_family` has returned, or a rotation has
returned `ReuseDetected`, the family should be closed for good.

It is, unless a rotation of the family commits while the family `UPDATE` is
running. The `UPDATE` goes through the rows of the snapshot it took when it
started. It waits for the rotation's lock on the old session, finds that one
revoked, and never sees the session the rotation inserted. Without such a
commit the rows yet to visit and those already locked are all the family's
unrevoked rows (`Covered`), so the commit of the `UPDATE` closes the family,
and a closed family has no unrevoked row for a rotation to start from.
-/
import FerrKit.Auth.Rotation

namespace FerrKit.Auth

open ReadCommitted Runs

variable {hashRefreshToken : String → List UInt8} {s s' t : St} {a : Action} {c c' : Call} {f : Uuid}

/-- The family a rotation is about to commit a new session to. -/
def Pc.inserting : Pc → Option Uuid
  | .inserted old _ _ => some old.familyId
  | _ => none

/-- The family whose `UPDATE` is running. -/
def Pc.burns : Pc → Option Uuid
  | .burning f _ _ _ _ => some f
  | _ => none

/-- No rotation commits to a family while the family's `UPDATE` is running. -/
def Undisturbed (s : St) : Action → Prop
  | .commit k _ => ∀ f ∈ s.calls[k]?.bind (·.pc.inserting), ∀ d ∈ s.calls, d.pc.burns ≠ some f
  | _ => True

instance (s : St) (a : Action) : Decidable (Undisturbed s a) :=
  match a with
  | .commit k _ =>
    inferInstanceAs (Decidable (∀ f ∈ s.calls[k]?.bind (·.pc.inserting), ∀ d ∈ s.calls, d.pc.burns ≠ some f))
  | .create .. | .rotate .. | .revokeFamily _ | .select _ | .lockRow _ | .mark .. | .insert .. | .burn .. | .visit ..
  | .abort _ => isTrue trivial

/-- The call has returned, and it says that the family `f` is revoked. -/
def Burned (hashRefreshToken : String → List UInt8) (rows : List Session) (c : Call) (f : Uuid) : Prop :=
  (c.request = .revokeFamily f ∧ c.pc = .returned .ok) ∨
    (c.pc = .returned (.error .reuseDetected) ∧
      ∃ r ∈ rows, c.request.hash hashRefreshToken = some r.refreshTokenHash ∧ r.familyId = f)

/-! ## Closed families -/

/-- No session of the family is unrevoked; its id is one that has come up, so
no login will draw it. -/
def Closed (f : Uuid) (s : St) : Prop := f ∈ s.drawn ∧ ∀ r ∈ s.rows, r.familyId = f → r.revokedAt ≠ none

theorem Request.Targets.drawn (hi : Inv hashRefreshToken s) (hc : c ∈ s.calls)
    (h : c.request.Targets hashRefreshToken s.rows f) : f ∈ s.drawn := by
  rcases h with hreq | ⟨r, hr, -, hf⟩
  · exact hi.named c hc f hreq
  · exact hf ▸ (hi.drawn r hr).2.1

/-- A token is of one family. -/
theorem Request.Targets.unique {req : Request} {g : Uuid} (hi : Inv hashRefreshToken s)
    (hf : req.Targets hashRefreshToken s.rows f) (hg : req.Targets hashRefreshToken s.rows g) : f = g := by
  rcases hf with rfl | ⟨r, hr, hh, rfl⟩
  · rcases hg with he | ⟨r, -, hh, -⟩
    · simpa using he
    · cases hh
  · rcases hg with rfl | ⟨r', hr', hh', rfl⟩
    · cases hh
    · rw [hh, Option.some.injEq] at hh'
      rw [List.inj_on_of_nodup_map hi.hashes hr hr' hh']

theorem step_evolves (hi : Inv hashRefreshToken s) (h : step hashRefreshToken s a = some s') :
    Evolves s.rows s'.rows := by
  cases step_inv h with
  | create _ _ _ => exact .of_subset fun r hr => List.mem_append_left _ hr
  | rotate | revokeFamily | call _ _ _ => exact .of_subset fun r hr => hr
  | commit hk _ => exact commit_evolves hi hk

theorem step_drawn (h : step hashRefreshToken s a = some s') : ∀ id ∈ s.drawn, id ∈ s'.drawn := by
  intro id hid
  cases step_inv h with
  | create _ _ _ | revokeFamily => simp [hid]
  | rotate | commit _ _ => exact hid
  | call _ _ _ => exact List.mem_append_right _ hid

/-- A closed family stays closed: a rotation starts from an unrevoked row, a
login from a new family. -/
theorem step_closed (hi : Inv hashRefreshToken s) (hf : Closed f s) (h : step hashRefreshToken s a = some s') :
    Closed f s' := by
  refine ⟨step_drawn h f hf.1, fun r' hr' hfam => ?_⟩
  cases step_inv h with
  | create _ hnew _ =>
    rcases List.mem_append.1 hr' with hold | he
    · exact hf.2 r' hold hfam
    · rw [List.mem_singleton.1 he] at hfam
      subst hfam
      exact absurd hf.1 hnew
  | rotate | revokeFamily | call _ _ _ => exact hf.2 r' hr' hfam
  | commit hk _ =>
    rcases commit_mem hi hk hr' with ⟨hold, -⟩ | ⟨r, -, now, rfl, -⟩ | hn
    · exact hf.2 r' hold hfam
    · simp
    · obtain ⟨old, hold, hfo, -, hrev, -⟩ := (hi.calls _ (List.mem_of_getElem? hk)).inserts hn
      exact absurd hrev (hf.2 old hold (hfo ▸ hfam))

/-! ## A running family `UPDATE` -/

/-- Every unrevoked row of the family is yet to be visited, or locked and
updated. -/
def Covered (s : St) : Prop :=
  ∀ c ∈ s.calls, ∀ f held todo done now, c.pc = .burning f held todo done now →
    ∀ r ∈ s.rows, unrevokedOf f r = true → r.id ∈ todo ∨ r ∈ done

theorem PcR.covered {k : Nat} {pc ids hashes} (hi : Inv hashRefreshToken s) (hk : s.calls[k]? = some c)
    (hcov : Covered s) (h : PcR hashRefreshToken s k c pc ids hashes) {held todo : List Uuid} {done : List Session}
    {now : Int} (hpc : pc = .burning f held todo done now) {r : Session} (hr : r ∈ s.rows)
    (hu : unrevokedOf f r = true) : r.id ∈ todo ∨ r ∈ done := by
  have hc := List.mem_of_getElem? hk
  cases h with
  | burn _ =>
    cases hpc
    exact .inl (List.mem_map_of_mem (List.mem_filter.2 ⟨hr, hu⟩))
  | @hit _ _ todo₀ done₀ _ r₀ hp _ hr₀ _ =>
    cases hpc
    rcases hcov c hc _ _ _ _ _ hp r hr hu with htodo | hdone
    · by_cases hid : r.id = r₀.id
      · rw [List.inj_on_of_nodup_map hi.ids hr hr₀ hid]
        exact .inr (by simp)
      · exact .inl ((List.mem_erase_of_ne hid).2 htodo)
    · exact .inr (List.mem_append_left _ hdone)
  | @miss _ _ _ _ _ id hp hmiss =>
    cases hpc
    rcases hcov c hc _ _ _ _ _ hp r hr hu with htodo | hdone
    · by_cases hid : r.id = id
      · have := hmiss r ((Table.get_eq_some_iff hi.ids).2 ⟨hr, hid⟩)
        rw [hu] at this
        cases this
      · exact .inl ((List.mem_erase_of_ne hid).2 htodo)
    · exact .inr hdone
  | _ => cases hpc

theorem step_covered (hi : Inv hashRefreshToken s) (hcov : Covered s) (hq : Undisturbed s a)
    (h : step hashRefreshToken s a = some s') : Covered s' := by
  intro d hd f held todo done now hpc r hr hu
  cases step_inv h with
  | create _ hnew _ =>
    rcases List.mem_append.1 hr with hold | he
    · exact hcov d hd f held todo done now hpc r hold hu
    · have hok := hi.calls d hd
      rw [Call.Ok, hpc] at hok
      rw [List.mem_singleton.1 he] at hu
      obtain ⟨hfam, -⟩ := unrevokedOf_iff.1 hu
      subst hfam
      exact absurd (hok.1.drawn hi hd) hnew
  | rotate | revokeFamily =>
    rcases List.mem_append.1 hd with hold | he
    · exact hcov d hold f held todo done now hpc r hr hu
    · rw [List.mem_singleton.1 he] at hpc
      cases hpc
  | call _ hk hR =>
    rcases (List.mem_or_eq_of_mem_set hd).symm with rfl | hold
    · exact hR.covered hi hk hcov hpc hr hu
    · exact hcov d hold f held todo done now hpc r hr hu
  | @commit k _ c _ hk _ =>
    rcases (List.mem_or_eq_of_mem_set hd).symm with rfl | hold
    · cases hpc
    rcases commit_mem hi hk hr with ⟨hr₀, -⟩ | ⟨_, _, now', rfl, -⟩ | hn
    · exact hcov d hold f held todo done now hpc r hr₀ hu
    · simp [unrevokedOf] at hu
    · -- the new session of a rotation: its family is not burning
      have hok := hi.calls c (List.mem_of_getElem? hk)
      obtain ⟨req, pc⟩ := c
      cases pc with
      | inserted old now' new =>
        simp only [Pc.tx, List.mem_singleton] at hn
        subst hn
        have hfam : old.familyId = f := hok.2.1.symm.trans (unrevokedOf_iff.1 hu).1
        have hins : f ∈ s.calls[k]?.bind (·.pc.inserting) := by simp [hk, Pc.inserting, hfam]
        exact absurd (by rw [hpc]; rfl) (hq f hins d hold)
      | _ => simp [Pc.tx] at hn

/-- The commit of the family `UPDATE` closes the family. -/
theorem closed_of_commit {k : Nat} {held : List Uuid} {done : List Session} {now : Int}
    (hi : Inv hashRefreshToken s) (hcov : Covered s) (hk : s.calls[k]? = some c)
    (hpc : c.pc = .burning f held [] done now) :
    ∀ r ∈ c.pc.tx.commit Session.id s.rows, r.familyId = f → r.revokedAt ≠ none := by
  intro r hr hfam hrev
  rcases commit_mem hi hk hr with ⟨hr₀, hw⟩ | ⟨_, _, now', rfl, -⟩ | hn
  · have hu : unrevokedOf f r = true := unrevokedOf_iff.2 ⟨hfam, hrev⟩
    rcases hcov c (List.mem_of_getElem? hk) _ _ _ _ _ hpc r hr₀ hu with htodo | hdone
    · cases htodo
    · have hmem : r.revoke now ∈ c.pc.tx.writes := by
        rw [hpc]
        exact List.mem_map_of_mem hdone
      exact Table.get_eq_none_iff.1 hw _ hmem rfl
  · simp at hrev
  · rw [hpc] at hn
    cases hn

/-! ## Every undisturbed run -/

/-- The call has returned `Ok` of `revoke_family`, or `ReuseDetected`. -/
def Call.Burnt (c : Call) : Prop := c.pc = .returned .ok ∨ c.pc = .returned (.error .reuseDetected)

/-- What undisturbed steps keep. -/
structure BurnInv (hashRefreshToken : String → List UInt8) (s : St) : Prop where
  inv : Inv hashRefreshToken s
  covered : Covered s
  closed : ∀ c ∈ s.calls, c.Burnt → ∃ f, c.request.Targets hashRefreshToken s.rows f ∧ Closed f s

theorem burnInv_init : BurnInv hashRefreshToken init where
  inv := inv_init
  covered := by simp [Covered, init]
  closed := by simp [init]

theorem step_burnInv (hi : BurnInv hashRefreshToken s) (hq : Undisturbed s a)
    (h : step hashRefreshToken s a = some s') : BurnInv hashRefreshToken s' where
  inv := step_keeps_inv hi.inv h
  covered := step_covered hi.inv hi.covered hq h
  closed c' hc' hb := by
    have hev := step_evolves hi.inv h
    obtain ⟨j, hj⟩ := List.mem_iff_getElem?.1 hc'
    rcases calls_inv h hj with hold | ⟨c, pc, ids, hashes, -, rfl, hpc⟩ | ⟨c, o, acked, rfl, hc, ho, rfl, hrows⟩ | hnew
    · obtain ⟨f, hf, hcl⟩ := hi.closed c' (List.mem_of_getElem? hold) hb
      exact ⟨f, hf.evolves hev, step_closed hi.inv hcl h⟩
    · rcases hb with hb | hb
      all_goals
        simp only at hb
        subst hb
        cases hpc
    · -- the call that commits was burning, with nothing left to visit
      have hmem := List.mem_of_getElem? hc
      have hburn : ∃ f held done now, c.pc = .burning f held [] done now := by
        rcases Call.committed_inv ho with ⟨_, _, _, _, rfl⟩ | ⟨f, held, done, now, hpc, -⟩
        · cases acked <;> rcases hb with hb | hb <;> cases hb
        · exact ⟨f, held, done, now, hpc⟩
      obtain ⟨f, held, done, now, hpc⟩ := hburn
      have hok := hi.inv.calls c hmem
      rw [Call.Ok, hpc] at hok
      refine ⟨f, hok.1.evolves hev, step_drawn h f (hok.1.drawn hi.inv hmem), fun r hr => ?_⟩
      rw [hrows] at hr
      exact closed_of_commit hi.inv hi.covered hc hpc r hr
    · rcases hb with hb | hb
      · exact absurd hb (hnew _)
      · exact absurd hb (hnew _)

theorem Burned.closed (hi : BurnInv hashRefreshToken s) (hc : c ∈ s.calls) (h : Burned hashRefreshToken s.rows c f) :
    Closed f s := by
  have htar : c.request.Targets hashRefreshToken s.rows f ∧ c.Burnt := by
    rcases h with ⟨hreq, hpc⟩ | ⟨hpc, hr⟩
    · exact ⟨.inl hreq, .inl hpc⟩
    · exact ⟨.inr hr, .inr hpc⟩
  obtain ⟨g, hg, hcl⟩ := hi.closed c hc htar.2
  exact htar.1.unique hi.inv hg ▸ hcl

/-- A session issued with a token of a closed family was issued before. -/
theorem step_issued {j : Nat} {x : IssuedSession} (hi : Inv hashRefreshToken s) (hf : Closed f s)
    (h : step hashRefreshToken s a = some s') (hj : s'.calls[j]? = some c')
    (hx : c'.pc = .returned (.issued x)) (htar : c'.request.Targets hashRefreshToken s'.rows f) :
    s.calls[j]? = some c' ∧ c'.request.Targets hashRefreshToken s.rows f := by
  -- a row of the token in `s` shows that the token is of the same family there
  have back : ∀ {r : Session}, r ∈ s.rows → c'.request.hash hashRefreshToken = some r.refreshTokenHash →
      r.familyId = f := by
    intro r hr hh
    have hr' : c'.request.Targets hashRefreshToken s'.rows r.familyId :=
      Request.Targets.evolves (step_evolves hi h) (.inr ⟨r, hr, hh, rfl⟩)
    exact hr'.unique (step_keeps_inv hi h) htar
  rcases issued_inv hi h hj hx with hold | ⟨old, hr, hrev, hh, -⟩
  · have hok := hi.calls c' (List.mem_of_getElem? hold)
    rw [Call.Ok, hx] at hok
    obtain ⟨r, hr, hh, -⟩ := hok
    exact ⟨hold, .inr ⟨r, hr, hh, back hr hh⟩⟩
  · exact absurd hrev (hf.2 old hr (back hr hh))

theorem run_issued {as : List Action} {j : Nat} {d : Call} {x : IssuedSession} (hi : Inv hashRefreshToken s)
    (hf : Closed f s) (h : run (step hashRefreshToken) s as = some t) (hj : t.calls[j]? = some d)
    (hx : d.pc = .returned (.issued x)) (htar : d.request.Targets hashRefreshToken t.rows f) :
    s.calls[j]? = some d ∧ d.request.Targets hashRefreshToken s.rows f := by
  induction as generalizing s with
  | nil =>
    cases h
    exact ⟨hj, htar⟩
  | cons a as ih =>
    obtain ⟨s', hs, h⟩ := run_cons_some.1 h
    obtain ⟨hj', htar'⟩ := ih (step_keeps_inv hi hs) (step_closed hi hf hs) h
    exact step_issued hi hf hs hj' hx htar'

/-- **A burnt family stays burnt.** Take a run in which no rotation commits to
a family while the family's `UPDATE` is running. Once a `revoke_family(f)`
has returned `Ok`, or a rotation has returned `ReuseDetected` for a token of
`f`, no session of `f` is unrevoked, then or later, and no rotation with a
token of `f` that has not returned by then ever issues a session. -/
theorem burned_family_closed {before after : List Action} {k : Nat}
    (hq : Along (step hashRefreshToken) Undisturbed init (before ++ after))
    (hs : run (step hashRefreshToken) init before = some s) (ht : run (step hashRefreshToken) s after = some t)
    (hk : s.calls[k]? = some c) (hb : Burned hashRefreshToken s.rows c f) :
    (∀ r ∈ t.rows, r.familyId = f → r.revokedAt ≠ none) ∧
      ∀ (j : Nat) (d : Call) (x : IssuedSession), t.calls[j]? = some d → d.pc = .returned (.issued x) →
        (∃ r ∈ t.rows, d.request.hash hashRefreshToken = some r.refreshTokenHash ∧ r.familyId = f) →
        s.calls[j]? = some d := by
  have hi : BurnInv hashRefreshToken s := invariant_along step_burnInv (hq.append hs).1 hs burnInv_init
  have hcl : Closed f s := hb.closed hi (List.mem_of_getElem? hk)
  have hend : Inv hashRefreshToken t ∧ Closed f t :=
    invariant_run (I := fun s => Inv hashRefreshToken s ∧ Closed f s)
      (fun hi hs => ⟨step_keeps_inv hi.1 hs, step_closed hi.1 hi.2 hs⟩) ht ⟨hi.inv, hcl⟩
  exact ⟨hend.2.2, fun j d x hj hx hr => (run_issued hi.inv hcl ht hj hx (.inr hr)).1⟩

/-- A rotation, then a logout, then a rotation with the burnt token. -/
def logout : List Action :=
  [.create 1 2 7 "t0" none none (.fromSecs 1209600) 0,
    .rotate "t0" (.fromSecs 1209600), .select 0, .lockRow 0, .mark 0 5, .insert 0 3 "t1", .commit 0 true,
    .revokeFamily 2, .burn 1 9, .visit 1 3, .commit 1 true]

def rotateBurnt : List Action :=
  [.rotate "t1" (.fromSecs 1209600), .select 2, .lockRow 2, .burn 2 9, .commit 2 true]

theorem burned_family_closed_logout : ∃ s t, run (step plainHash) init logout = some s ∧
    run (step plainHash) s rotateBurnt = some t ∧
    (t.calls[2]?.map Call.pc) = some (.returned (.error .reuseDetected)) ∧
    ∀ r ∈ t.rows, r.familyId = 2 → r.revokedAt ≠ none := by
  have hq : Along (step plainHash) Undisturbed init (logout ++ rotateBurnt) := by decide
  have hrun : ∃ s t c, run (step plainHash) init logout = some s ∧ run (step plainHash) s rotateBurnt = some t ∧
      (t.calls[2]?.map Call.pc) = some (.returned (.error .reuseDetected)) ∧
      s.calls[1]? = some c ∧ c.request = .revokeFamily 2 ∧ c.pc = .returned .ok :=
    ⟨_, _, _, rfl, rfl, rfl, rfl, rfl, rfl⟩
  obtain ⟨s, t, c, hs, ht, hpc, hc, hreq, hok⟩ := hrun
  exact ⟨s, t, hs, ht, hpc, (burned_family_closed hq hs ht hc (.inl ⟨hreq, hok⟩)).1⟩

/-! ## A rotation inside the `UPDATE` -/

/-- The rotation has the row's lock when `revoke_family` takes its snapshot,
and commits before the `UPDATE` gets to the row. -/
def missedInsert : List Action :=
  [.create 1 2 7 "t0" none none (.fromSecs 1209600) 0,
    .rotate "t0" (.fromSecs 1209600), .revokeFamily 2, .select 0, .lockRow 0, .burn 1 4,
    .mark 0 5, .insert 0 3 "t1", .commit 0 true, .visit 1 1, .commit 1 true]

/-- The client goes on with the session it got. -/
def rotateSurvivor : List Action :=
  [.rotate "t1" (.fromSecs 1209600), .select 2, .lockRow 2, .mark 2 9, .insert 2 4 "t2", .commit 2 true]

theorem missedInsert_survives : ∃ s t c, run (step plainHash) init missedInsert = some s ∧
    s.calls[1]? = some c ∧ Burned plainHash s.rows c 2 ∧
    (s.rows.filter (unrevokedOf 2)).map Session.id = [3] ∧
    run (step plainHash) s rotateSurvivor = some t ∧
    (t.calls[2]?.any fun d => d.pc matches .returned (.issued _)) = true ∧
    (t.rows.filter (unrevokedOf 2)).map Session.id = [4] :=
  ⟨_, _, _, rfl, rfl, .inl ⟨rfl, rfl⟩, rfl, rfl, rfl, rfl⟩

end FerrKit.Auth
