/-
The invariant that every interleaving of session calls keeps.

It is about row locks. A rotation past its `SELECT` and a family `UPDATE`
past a row hold that row's lock, so the version they have read is still the
committed one, and still not revoked, when they commit. The rest follows
from it: a family gains a session only as it loses its one unrevoked one.
-/
import FerrKit.Auth.SessionFacts

namespace FerrKit.Auth

open ReadCommitted Runs

variable {hashRefreshToken : String → List UInt8}

/-! ## The table through a step -/

/-- Rows are never deleted, keep all but `revoked_at`, and stay revoked. -/
def Evolves (rows rows' : List Session) : Prop :=
  ∀ r ∈ rows, ∃ r' ∈ rows', r'.refreshTokenHash = r.refreshTokenHash ∧ r'.familyId = r.familyId ∧
    (r.revokedAt ≠ none → r'.revokedAt ≠ none)

theorem Evolves.of_subset {rows rows' : List Session} (h : ∀ r ∈ rows, r ∈ rows') : Evolves rows rows' :=
  fun r hr => ⟨r, h r hr, rfl, rfl, id⟩

/-- The call is for the family `f`: by its name, or by the token of one of its
sessions. -/
def Request.Targets (hashRefreshToken : String → List UInt8) (rows : List Session) (req : Request) (f : Uuid) :
    Prop :=
  req = .revokeFamily f ∨ ∃ r ∈ rows, req.hash hashRefreshToken = some r.refreshTokenHash ∧ r.familyId = f

theorem Request.Targets.evolves {rows rows' : List Session} {req : Request} {f : Uuid} (hev : Evolves rows rows')
    (h : req.Targets hashRefreshToken rows f) : req.Targets hashRefreshToken rows' f := by
  rcases h with hreq | ⟨r, hr, hh, hf⟩
  · exact .inl hreq
  · obtain ⟨r', hr', hh', hf', -⟩ := hev r hr
    exact .inr ⟨r', hr', hh'.symm ▸ hh, hf'.trans hf⟩

/-- A rotation holds the row of its token, and it is not revoked. -/
def Call.Holds (hashRefreshToken : String → List UInt8) (rows : List Session) (c : Call) (old : Session) : Prop :=
  old ∈ rows ∧ old.revokedAt = none ∧ c.request.hash hashRefreshToken = some old.refreshTokenHash

/-- What a call has read of the committed rows is still so. -/
def Call.Ok (hashRefreshToken : String → List UInt8) (rows : List Session) (c : Call) : Prop :=
  match c.pc with
  | .begun | .waiting _ | .returned .ok | .returned (.error _) => True
  | .live old | .marked old _ => c.Holds hashRefreshToken rows old
  | .inserted old _ new => c.Holds hashRefreshToken rows old ∧ new.session.familyId = old.familyId ∧
      new.session.userId = old.userId ∧ new.session.revokedAt = none
  | .revoking f _ => c.request.Targets hashRefreshToken rows f
  | .burning f _ _ done _ => c.request.Targets hashRefreshToken rows f ∧
      ∀ d ∈ done, d ∈ rows ∧ unrevokedOf f d = true
  | .returned (.issued _) =>
      ∃ r ∈ rows, c.request.hash hashRefreshToken = some r.refreshTokenHash ∧ r.revokedAt ≠ none

/-- When the rows a call has locked are left alone. -/
theorem Call.Ok.evolves {rows rows' : List Session} {c : Call} (h : c.Ok hashRefreshToken rows)
    (hev : Evolves rows rows') (hlocked : ∀ r ∈ rows, r.id ∈ c.pc.tx.locks → r ∈ rows') :
    c.Ok hashRefreshToken rows' := by
  obtain ⟨req, pc⟩ := c
  have holds : ∀ {old : Session}, old.id ∈ pc.tx.locks → Call.Holds hashRefreshToken rows ⟨req, pc⟩ old →
      Call.Holds hashRefreshToken rows' ⟨req, pc⟩ old :=
    fun hl hh => ⟨hlocked _ hh.1 hl, hh.2⟩
  cases pc with
  | begun | waiting _ => trivial
  | live old => exact holds (by simp [Pc.tx]) h
  | marked old now => exact holds (by simp [Pc.tx]) h
  | inserted old now new => exact ⟨holds (by simp [Pc.tx]) h.1, h.2⟩
  | revoking f held => exact Request.Targets.evolves hev h
  | burning f held todo done now =>
    refine ⟨h.1.evolves hev, fun d hd => ?_⟩
    obtain ⟨hr, hu⟩ := h.2 d hd
    exact ⟨hlocked d hr (by simp only [Pc.tx, List.mem_append]; exact .inr (List.mem_map_of_mem hd)), hu⟩
  | returned o =>
    cases o with
    | ok | error _ => trivial
    | issued i =>
      obtain ⟨r, hr, hh, hrev⟩ := h
      obtain ⟨r', hr', hh', -, hrev'⟩ := hev r hr
      exact ⟨r', hr', hh'.symm ▸ hh, hrev' hrev⟩

/-! ## The invariant -/

/-- What every interleaving keeps. -/
structure Inv (hashRefreshToken : String → List UInt8) (s : St) : Prop where
  ids : (s.rows.map Session.id).Nodup
  hashes : (s.rows.map Session.refreshTokenHash).Nodup
  drawn : ∀ r ∈ s.rows, r.id ∈ s.drawn ∧ r.familyId ∈ s.drawn ∧ r.refreshTokenHash ∈ s.hashes
  named : ∀ c ∈ s.calls, ∀ f, c.request = .revokeFamily f → f ∈ s.drawn
  /-- A row not yet committed has an id and a hash of its own. -/
  pending : ∀ (k : Nat) (c : Call) (n : Session), s.calls[k]? = some c → n ∈ c.pc.tx.inserts →
    (n.id ∈ s.drawn ∧ n.refreshTokenHash ∈ s.hashes) ∧
      ∀ r ∈ s.rows, r.id ≠ n.id ∧ r.refreshTokenHash ≠ n.refreshTokenHash
  apart : ∀ (i j : Nat) (c d : Call) (n m : Session), s.calls[i]? = some c → s.calls[j]? = some d →
    n ∈ c.pc.tx.inserts → m ∈ d.pc.tx.inserts → n.id = m.id ∨ n.refreshTokenHash = m.refreshTokenHash → i = j
  locks : Exclusive s.txs
  calls : ∀ c ∈ s.calls, c.Ok hashRefreshToken s.rows
  oneUser : ∀ r ∈ s.rows, ∀ r' ∈ s.rows, r.familyId = r'.familyId → r.userId = r'.userId
  oneLive : ∀ r ∈ s.rows, ∀ r' ∈ s.rows, r.familyId = r'.familyId → r.revokedAt = none → r'.revokedAt = none → r = r'

theorem inv_init : Inv hashRefreshToken init := by
  constructor <;> simp [init, Exclusive, St.txs]

/-! ## A call inside its transaction -/

theorem goto_txs (s : St) (k : Nat) (c : Call) (pc : Pc) : (s.goto k c pc).txs = s.txs.set k pc.tx := by
  simp [St.goto, St.txs, List.map_set]

theorem txs_of_call {s : St} {k : Nat} {c : Call} (hk : s.calls[k]? = some c) : s.txs[k]? = some c.pc.tx := by
  simp [St.txs, hk]

/-- Locks are only taken when free. -/
theorem PcR.locks {s : St} {k : Nat} {c : Call} {pc ids hashes} (h : PcR hashRefreshToken s k c pc ids hashes) :
    ∀ id ∈ pc.tx.locks, id ∈ c.pc.tx.locks ∨ lockFree s.txs k id = true := by
  intro id hid
  cases h with
  | notFound _ | found _ | expired _ | abort _ => simp [Pc.tx] at hid
  | live hpc _ _ hfree | replay hpc _ _ hfree =>
    simp only [Pc.tx, List.mem_singleton] at hid
    exact .inr (hid ▸ hfree)
  | mark hpc | insert hpc _ _ | burn hpc =>
    rw [hpc]
    simp only [Pc.tx, List.map_nil, List.append_nil] at hid ⊢
    exact .inl hid
  | miss hpc _ =>
    rw [hpc]
    exact .inl hid
  | hit hpc hfree _ _ =>
    rw [hpc]
    simp only [Pc.tx, List.map_append, List.map_cons, List.map_nil, List.mem_append, List.mem_singleton] at hid ⊢
    rcases hid with hheld | hdone | hnew
    · exact .inl (.inl hheld)
    · exact .inl (.inr hdone)
    · exact .inr (hnew ▸ hfree)

/-- A row about to be inserted has just been given its id and its hash. -/
theorem PcR.inserts {s : St} {k : Nat} {c : Call} {pc ids hashes} (h : PcR hashRefreshToken s k c pc ids hashes)
    {n : Session} (hn : n ∈ pc.tx.inserts) :
    ids = [n.id] ∧ hashes = [n.refreshTokenHash] ∧ n.id ∉ s.drawn ∧ n.refreshTokenHash ∉ s.hashes := by
  cases h with
  | insert hpc hid hhash =>
    simp only [Pc.tx, List.mem_singleton] at hn
    subst hn
    exact ⟨rfl, rfl, hid, hhash⟩
  | _ => simp [Pc.tx] at hn

theorem PcR.ok {s : St} {k : Nat} {c : Call} {pc ids hashes} (h : PcR hashRefreshToken s k c pc ids hashes)
    (hc : c.Ok hashRefreshToken s.rows) : Call.Ok hashRefreshToken s.rows { c with pc } := by
  obtain ⟨req, pc₀⟩ := c
  cases h with
  | notFound _ | found _ | expired _ | abort _ => trivial
  | live hpc hh hr _ hrev => exact ⟨hr, hrev, hh⟩
  | replay hpc hh hr _ => exact .inr ⟨_, hr, hh, rfl⟩
  | mark hpc =>
    simp only at hpc
    subst hpc
    exact hc
  | insert hpc _ _ =>
    simp only at hpc
    subst hpc
    exact ⟨hc, rfl, rfl, rfl⟩
  | burn hpc =>
    simp only at hpc
    subst hpc
    exact ⟨hc, by simp⟩
  | hit hpc _ hr hu =>
    simp only at hpc
    subst hpc
    refine ⟨hc.1, fun d hd => ?_⟩
    rcases List.mem_append.1 hd with hdone | hnew
    · exact hc.2 d hdone
    · rw [List.mem_singleton.1 hnew]
      exact ⟨hr, hu⟩
  | miss hpc _ =>
    simp only at hpc
    subst hpc
    exact hc

theorem inv_call {s : St} {k : Nat} {c : Call} {pc ids hashes} (hi : Inv hashRefreshToken s)
    (hk : s.calls[k]? = some c) (h : PcR hashRefreshToken s k c pc ids hashes) :
    Inv hashRefreshToken { s.goto k c pc with drawn := ids ++ s.drawn, hashes := hashes ++ s.hashes } where
  ids := hi.ids
  hashes := hi.hashes
  drawn r hr := by
    obtain ⟨h₁, h₂, h₃⟩ := hi.drawn r hr
    exact ⟨List.mem_append_right _ h₁, List.mem_append_right _ h₂, List.mem_append_right _ h₃⟩
  named c' hc' f hf := by
    rcases (List.mem_or_eq_of_mem_set hc').symm with rfl | hold
    · exact List.mem_append_right _ (hi.named c (List.mem_of_getElem? hk) f hf)
    · exact List.mem_append_right _ (hi.named c' hold f hf)
  pending j c' n hj hn := by
    rcases Table.getElem?_set_inv hk hj with ⟨rfl, rfl⟩ | ⟨-, hold⟩
    · obtain ⟨rfl, rfl, hid, hhash⟩ := h.inserts hn
      refine ⟨by simp, fun r hr => ⟨fun he => ?_, fun he => ?_⟩⟩
      · exact hid (he ▸ (hi.drawn r hr).1)
      · exact hhash (he ▸ (hi.drawn r hr).2.2)
    · obtain ⟨⟨h₁, h₂⟩, h₃⟩ := hi.pending j c' n hold hn
      exact ⟨⟨List.mem_append_right _ h₁, List.mem_append_right _ h₂⟩, h₃⟩
  apart i j ci cj n m hci hcj hn hm he := by
    -- the row just drawn is unlike every other pending one
    have fresh : ∀ {j : Nat} {c' : Call} {n m : Session}, s.calls[j]? = some c' → n ∈ pc.tx.inserts →
        m ∈ c'.pc.tx.inserts → ¬(n.id = m.id ∨ n.refreshTokenHash = m.refreshTokenHash) := by
      intro j c' n m hj hn hm he
      obtain ⟨-, -, hid, hhash⟩ := h.inserts hn
      obtain ⟨⟨h₁, h₂⟩, -⟩ := hi.pending j c' m hj hm
      rcases he with he | he
      · exact hid (he ▸ h₁)
      · exact hhash (he ▸ h₂)
    rcases Table.getElem?_set_inv hk hci with ⟨rfl, rfl⟩ | ⟨-, hi'⟩
    · rcases Table.getElem?_set_inv hk hcj with ⟨rfl, rfl⟩ | ⟨-, hj'⟩
      · rfl
      · exact absurd he (fresh hj' hn hm)
    · rcases Table.getElem?_set_inv hk hcj with ⟨rfl, rfl⟩ | ⟨-, hj'⟩
      · exact absurd (he.imp Eq.symm Eq.symm) (fresh hi' hm hn)
      · exact hi.apart i j ci cj n m hi' hj' hn hm he
  locks := by
    show Exclusive (s.goto k c pc).txs
    rw [goto_txs]
    exact hi.locks.set (txs_of_call hk) h.locks
  calls c' hc' := by
    rcases (List.mem_or_eq_of_mem_set hc').symm with rfl | hold
    · exact h.ok (hi.calls c (List.mem_of_getElem? hk))
    · exact hi.calls c' hold
  oneUser := hi.oneUser
  oneLive := hi.oneLive

/-! ## Commits -/

theorem Pc.inserts_eq (pc : Pc) : pc.tx.inserts = [] ∨ ∃ n, pc.tx.inserts = [n] := by
  cases pc with
  | inserted old now new => exact .inr ⟨new.session, rfl⟩
  | _ => exact .inl rfl

/-- A call writes revoked versions of unrevoked rows that it has locked. -/
theorem Call.Ok.writes {rows : List Session} {c : Call} (h : c.Ok hashRefreshToken rows) {w : Session}
    (hw : w ∈ c.pc.tx.writes) :
    ∃ r ∈ rows, ∃ now, w = r.revoke now ∧ r.revokedAt = none ∧ r.id ∈ c.pc.tx.locks := by
  obtain ⟨req, pc⟩ := c
  cases pc with
  | begun | waiting _ | live _ | revoking _ _ | returned _ => simp [Pc.tx] at hw
  | marked old now =>
    simp only [Pc.tx, List.mem_singleton] at hw
    exact ⟨old, h.1, now, hw, h.2.1, by simp [Pc.tx]⟩
  | inserted old now new =>
    simp only [Pc.tx, List.mem_singleton] at hw
    exact ⟨old, h.1.1, now, hw, h.1.2.1, by simp [Pc.tx]⟩
  | burning f held todo done now =>
    simp only [Pc.tx, List.mem_map] at hw
    obtain ⟨d, hd, rfl⟩ := hw
    obtain ⟨hr, hu⟩ := h.2 d hd
    refine ⟨d, hr, now, rfl, (unrevokedOf_iff.1 hu).2, ?_⟩
    simp only [Pc.tx, List.mem_append]
    exact .inr (List.mem_map_of_mem hd)

/-- A call inserts a row in place of one that it revokes. -/
theorem Call.Ok.inserts {rows : List Session} {c : Call} (h : c.Ok hashRefreshToken rows) {n : Session}
    (hn : n ∈ c.pc.tx.inserts) :
    ∃ old ∈ rows, n.familyId = old.familyId ∧ n.userId = old.userId ∧ old.revokedAt = none ∧
      ∃ now, old.revoke now ∈ c.pc.tx.writes := by
  obtain ⟨req, pc⟩ := c
  cases pc with
  | inserted old now new =>
    simp only [Pc.tx, List.mem_singleton] at hn
    subst hn
    obtain ⟨⟨hr, hrev, -⟩, hf, hu, -⟩ := h
    exact ⟨old, hr, hf, hu, hrev, now, by simp [Pc.tx]⟩
  | _ => simp [Pc.tx] at hn

section
variable {s : St} {k : Nat} {c : Call}

/-- The version of a committed row after the commit of a call. -/
theorem commit_row (hi : Inv hashRefreshToken s) (hk : s.calls[k]? = some c) {r w : Session} (hr : r ∈ s.rows)
    (hw : Table.get Session.id c.pc.tx.writes r.id = some w) : ∃ now, w = r.revoke now ∧ r.revokedAt = none := by
  obtain ⟨r₀, hr₀, now, rfl, hrev, -⟩ := (hi.calls c (List.mem_of_getElem? hk)).writes (Table.get_mem hw)
  have hid : (r₀.revoke now).id = r.id := Table.get_key hw
  rw [Session.revoke_id] at hid
  rw [List.inj_on_of_nodup_map hi.ids hr₀ hr hid] at hrev ⊢
  exact ⟨now, rfl, hrev⟩

/-- A row is in the table after a commit because it was and the call did not
write it, or as its revoked version, or as a new row. -/
theorem commit_mem (hi : Inv hashRefreshToken s) (hk : s.calls[k]? = some c) {r' : Session}
    (h : r' ∈ c.pc.tx.commit Session.id s.rows) :
    (r' ∈ s.rows ∧ Table.get Session.id c.pc.tx.writes r'.id = none) ∨
      (∃ r ∈ s.rows, ∃ now, r' = r.revoke now ∧ r.revokedAt = none) ∨ r' ∈ c.pc.tx.inserts := by
  rcases mem_commit.1 h with ⟨r, hr, he⟩ | hn
  · cases hw : Table.get Session.id c.pc.tx.writes r.id with
    | none =>
      rw [hw, Option.getD_none] at he
      subst he
      exact .inl ⟨hr, hw⟩
    | some w =>
      rw [hw, Option.getD_some] at he
      subst he
      obtain ⟨now, hrev⟩ := commit_row hi hk hr hw
      exact .inr (.inl ⟨r, hr, now, hrev⟩)
  · exact .inr (.inr hn)

theorem commit_evolves (hi : Inv hashRefreshToken s) (hk : s.calls[k]? = some c) :
    Evolves s.rows (c.pc.tx.commit Session.id s.rows) := by
  intro r hr
  refine ⟨_, mem_commit.2 (.inl ⟨r, hr, rfl⟩), ?_⟩
  cases hw : Table.get Session.id c.pc.tx.writes r.id with
  | none => exact ⟨rfl, rfl, id⟩
  | some w =>
    obtain ⟨now, rfl, -⟩ := commit_row hi hk hr hw
    exact ⟨rfl, rfl, fun _ => by simp⟩

/-- Every row after a commit belongs to a family, and a user, of before. -/
theorem commit_origin (hi : Inv hashRefreshToken s) (hk : s.calls[k]? = some c) {r' : Session}
    (h : r' ∈ c.pc.tx.commit Session.id s.rows) :
    ∃ r ∈ s.rows, r'.familyId = r.familyId ∧ r'.userId = r.userId := by
  rcases commit_mem hi hk h with ⟨hr, -⟩ | ⟨r, hr, now, rfl, -⟩ | hn
  · exact ⟨r', hr, rfl, rfl⟩
  · exact ⟨r, hr, rfl, rfl⟩
  · obtain ⟨old, hr, hf, hu, -⟩ := (hi.calls c (List.mem_of_getElem? hk)).inserts hn
    exact ⟨old, hr, hf, hu⟩

/-- A column that revoking leaves alone and that is new in new rows stays
without repetitions. -/
theorem commit_nodup {β : Type} [DecidableEq β] {f : Session → β} (hi : Inv hashRefreshToken s) (hk : s.calls[k]? = some c)
    (hrevoke : ∀ now r, f (Session.revoke now r) = f r) (hn : (s.rows.map f).Nodup)
    (hnew : ∀ n ∈ c.pc.tx.inserts, ∀ r ∈ s.rows, f r ≠ f n) :
    ((c.pc.tx.commit Session.id s.rows).map f).Nodup := by
  rw [commit_map fun r hr w hw => by
    obtain ⟨now, rfl, -⟩ := commit_row hi hk hr hw
    exact hrevoke now r]
  rcases c.pc.inserts_eq with he | ⟨n, he⟩
  · simpa [he] using hn
  · rw [he, ← List.map_append]
    exact Table.append_keys_nodup hn (Table.get_eq_none_iff.2 (hnew n (by simp [he])))

/-- The new row is the family's one unrevoked row: the one before it is
written by the same commit. -/
theorem commit_oneLive (hi : Inv hashRefreshToken s) (hk : s.calls[k]? = some c) {r r' : Session}
    (hr : r ∈ c.pc.tx.commit Session.id s.rows) (hr' : r' ∈ c.pc.tx.commit Session.id s.rows)
    (hf : r.familyId = r'.familyId) (hrev : r.revokedAt = none) (hrev' : r'.revokedAt = none) : r = r' := by
  have hok := hi.calls c (List.mem_of_getElem? hk)
  have clash : ∀ {r n : Session}, r ∈ s.rows → Table.get Session.id c.pc.tx.writes r.id = none →
      n ∈ c.pc.tx.inserts → r.familyId = n.familyId → r.revokedAt ≠ none := by
    intro r n hr hw hn hf hrev
    obtain ⟨old, hold, hfo, -, hrevo, now, hwo⟩ := hok.inserts hn
    have he := hi.oneLive r hr old hold (hf.trans hfo) hrev hrevo
    subst he
    exact Table.get_eq_none_iff.1 hw _ hwo rfl
  rcases commit_mem hi hk hr with ⟨hm, hw⟩ | ⟨_, _, now, rfl, -⟩ | hn
  · rcases commit_mem hi hk hr' with ⟨hm', -⟩ | ⟨_, _, now, rfl, -⟩ | hn'
    · exact hi.oneLive r hm r' hm' hf hrev hrev'
    · simp at hrev'
    · exact absurd hrev (clash hm hw hn' hf)
  · simp at hrev
  · rcases commit_mem hi hk hr' with ⟨hm', hw'⟩ | ⟨_, _, now, rfl, -⟩ | hn'
    · exact absurd hrev' (clash hm' hw' hn hf.symm)
    · simp at hrev'
    · rcases c.pc.inserts_eq with he | ⟨n, he⟩
      · simp [he] at hn
      · rw [he, List.mem_singleton] at hn hn'
        rw [hn, hn']

/-- The committed call itself: the token it rotated is revoked. -/
theorem Call.Ok.committed (hok : c.Ok hashRefreshToken s.rows) {o : Outcome} (ho : c.committed = some o)
    (acked : Bool) :
    Call.Ok hashRefreshToken (c.pc.tx.commit Session.id s.rows)
      { c with pc := .returned (if acked then o else .error .db) } := by
  obtain ⟨req, pc⟩ := c
  cases acked with
  | false => trivial
  | true =>
    rcases Call.committed_inv ho with ⟨old, now, new, rfl, rfl⟩ | ⟨f, held, done, now, -, rfl | rfl⟩
    · obtain ⟨⟨hr, -, hh⟩, -⟩ := hok
      refine ⟨old.revoke now, mem_commit.2 (.inl ⟨old, hr, ?_⟩), hh, by simp⟩
      simp [Pc.tx, Table.get]
    · trivial
    · trivial

theorem inv_commit (hi : Inv hashRefreshToken s) (hk : s.calls[k]? = some c) {o : Outcome} (ho : c.committed = some o)
    (acked : Bool) :
    Inv hashRefreshToken
      { s.goto k c (.returned (if acked then o else .error .db)) with
        rows := c.pc.tx.commit Session.id s.rows } where
  ids := commit_nodup hi hk (fun _ _ => rfl) hi.ids fun n hn r hr => ((hi.pending k c n hk hn).2 r hr).1
  hashes := commit_nodup hi hk (fun _ _ => rfl) hi.hashes fun n hn r hr => ((hi.pending k c n hk hn).2 r hr).2
  drawn r' hr' := by
    rcases commit_mem hi hk hr' with ⟨hr, -⟩ | ⟨r, hr, now, rfl, -⟩ | hn
    · exact hi.drawn r' hr
    · exact hi.drawn r hr
    · obtain ⟨⟨hid, hhash⟩, -⟩ := hi.pending k c r' hk hn
      obtain ⟨r, hr, hf, -⟩ := commit_origin hi hk hr'
      exact ⟨hid, hf ▸ (hi.drawn r hr).2.1, hhash⟩
  named c' hc' f hf := by
    rcases (List.mem_or_eq_of_mem_set hc').symm with rfl | hold
    · exact hi.named c (List.mem_of_getElem? hk) f hf
    · exact hi.named c' hold f hf
  pending j c' n hj hn := by
    rcases Table.getElem?_set_inv hk hj with ⟨rfl, rfl⟩ | ⟨hne, hold⟩
    · simp [Pc.tx] at hn
    · obtain ⟨hdrawn, hrows⟩ := hi.pending j c' n hold hn
      refine ⟨hdrawn, fun r' hr' => ?_⟩
      rcases commit_mem hi hk hr' with ⟨hr, -⟩ | ⟨r, hr, now, rfl, -⟩ | hm
      · exact hrows r' hr
      · exact hrows r hr
      · refine ⟨fun he => hne ?_, fun he => hne ?_⟩
        · exact hi.apart j k c' c n r' hold hk hn hm (.inl he.symm)
        · exact hi.apart j k c' c n r' hold hk hn hm (.inr he.symm)
  apart i j ci cj n m hci hcj hn hm he := by
    rcases Table.getElem?_set_inv hk hci with ⟨rfl, rfl⟩ | ⟨-, hi'⟩
    · simp [Pc.tx] at hn
    · rcases Table.getElem?_set_inv hk hcj with ⟨rfl, rfl⟩ | ⟨-, hj'⟩
      · simp [Pc.tx] at hm
      · exact hi.apart i j ci cj n m hi' hj' hn hm he
  locks := by
    show Exclusive (s.goto k c (.returned (if acked then o else .error .db))).txs
    rw [goto_txs]
    exact hi.locks.set (txs_of_call hk) (by simp [Pc.tx])
  calls c' hc' := by
    have hok := hi.calls c (List.mem_of_getElem? hk)
    obtain ⟨j, hj⟩ := List.mem_iff_getElem?.1 hc'
    rcases Table.getElem?_set_inv hk hj with ⟨rfl, rfl⟩ | ⟨hne, hold⟩
    · exact hok.committed ho acked
    · refine (hi.calls c' (List.mem_of_getElem? hold)).evolves (commit_evolves hi hk) fun r hr hl => ?_
      refine mem_commit_of_locked hi.locks (txs_of_call hk) (fun w hw => ?_) (txs_of_call hold) hne hl hr
      obtain ⟨r₀, -, now, rfl, -, hl₀⟩ := hok.writes hw
      exact hl₀
  oneUser r hr r' hr' hf := by
    obtain ⟨r₀, hr₀, hf₀, hu₀⟩ := commit_origin hi hk hr
    obtain ⟨r₁, hr₁, hf₁, hu₁⟩ := commit_origin hi hk hr'
    rw [hu₀, hu₁]
    exact hi.oneUser r₀ hr₀ r₁ hr₁ (by rw [← hf₀, ← hf₁, hf])
  oneLive _ hr _ hr' hf hrev hrev' := commit_oneLive hi hk hr hr' hf hrev hrev'

end

/-! ## Calls that begin, and `create` -/

theorem inv_begin {s : St} (hi : Inv hashRefreshToken s) {c : Call} (ids : List Uuid) (htx : c.pc.tx = {})
    (hok : c.Ok hashRefreshToken s.rows) (hnamed : ∀ f, c.request = .revokeFamily f → f ∈ ids) :
    Inv hashRefreshToken { s with calls := s.calls ++ [c], drawn := ids ++ s.drawn } := by
  have old : ∀ {j : Nat} {c' : Call} {n : Session}, (s.calls ++ [c])[j]? = some c' → n ∈ c'.pc.tx.inserts →
      s.calls[j]? = some c' := by
    intro j c' n hj hn
    rcases Table.getElem?_append_inv hj with hold | ⟨-, rfl⟩
    · exact hold
    · simp [htx] at hn
  constructor
  · exact hi.ids
  · exact hi.hashes
  · intro r hr
    obtain ⟨h₁, h₂, h₃⟩ := hi.drawn r hr
    exact ⟨List.mem_append_right _ h₁, List.mem_append_right _ h₂, h₃⟩
  · intro c' hc' f hf
    rcases List.mem_append.1 hc' with hold | hnew
    · exact List.mem_append_right _ (hi.named c' hold f hf)
    · rw [List.mem_singleton.1 hnew] at hf
      exact List.mem_append_left _ (hnamed f hf)
  · intro j c' n hj hn
    obtain ⟨⟨h₁, h₂⟩, h₃⟩ := hi.pending j c' n (old hj hn) hn
    exact ⟨⟨List.mem_append_right _ h₁, h₂⟩, h₃⟩
  · intro i j ci cj n m hci hcj hn hm he
    exact hi.apart i j ci cj n m (old hci hn) (old hcj hm) hn hm he
  · simp only [St.txs, List.map_append, List.map_cons, List.map_nil]
    exact hi.locks.append (by rw [htx])
  · intro c' hc'
    rcases List.mem_append.1 hc' with hold | hnew
    · exact hi.calls c' hold
    · rw [List.mem_singleton.1 hnew]
      exact hok
  · exact hi.oneUser
  · exact hi.oneLive

theorem inv_create {s : St} (hi : Inv hashRefreshToken s) {n : Session} (hid : n.id ∉ s.drawn)
    (hfam : n.familyId ∉ s.drawn) (hhash : n.refreshTokenHash ∉ s.hashes) :
    Inv hashRefreshToken
      { s with
        rows := s.rows ++ [n]
        drawn := n.id :: n.familyId :: s.drawn
        hashes := n.refreshTokenHash :: s.hashes } := by
  have notFamily : ∀ r ∈ s.rows, r.familyId ≠ n.familyId := fun r hr he => hfam (he ▸ (hi.drawn r hr).2.1)
  -- rows of one family are both old, or both the new one
  have oneFamily : ∀ {r r' : Session}, r ∈ s.rows ++ [n] → r' ∈ s.rows ++ [n] → r.familyId = r'.familyId →
      (r ∈ s.rows ∧ r' ∈ s.rows) ∨ r = r' := by
    intro r r' hr hr' hf
    simp only [List.mem_append, List.mem_singleton] at hr hr'
    rcases hr with hr | rfl
    · rcases hr' with hr' | rfl
      · exact .inl ⟨hr, hr'⟩
      · exact absurd hf (notFamily r hr)
    · rcases hr' with hr' | rfl
      · exact absurd hf.symm (notFamily r' hr')
      · exact .inr rfl
  constructor
  · exact Table.append_keys_nodup hi.ids
      (Table.get_eq_none_iff.2 fun r hr he => hid (he ▸ (hi.drawn r hr).1))
  · exact Table.append_keys_nodup hi.hashes
      (Table.get_eq_none_iff.2 fun r hr he => hhash (he ▸ (hi.drawn r hr).2.2))
  · intro r hr
    rcases List.mem_append.1 hr with hold | hnew
    · obtain ⟨h₁, h₂, h₃⟩ := hi.drawn r hold
      simp [h₁, h₂, h₃]
    · rw [List.mem_singleton.1 hnew]
      simp
  · intro c hc f hf
    simp [hi.named c hc f hf]
  · intro j c m hj hm
    obtain ⟨⟨h₁, h₂⟩, h₃⟩ := hi.pending j c m hj hm
    refine ⟨by simp [h₁, h₂], fun r hr => ?_⟩
    rcases List.mem_append.1 hr with hold | hnew
    · exact h₃ r hold
    · rw [List.mem_singleton.1 hnew]
      exact ⟨fun he => hid (he ▸ h₁), fun he => hhash (he ▸ h₂)⟩
  · exact hi.apart
  · exact hi.locks
  · intro c hc
    exact (hi.calls c hc).evolves (.of_subset fun r hr => List.mem_append_left _ hr)
      fun r hr _ => List.mem_append_left _ hr
  · intro r hr r' hr' hf
    rcases oneFamily hr hr' hf with ⟨hold, hold'⟩ | rfl
    · exact hi.oneUser r hold r' hold' hf
    · rfl
  · intro r hr r' hr' hf hrev hrev'
    rcases oneFamily hr hr' hf with ⟨hold, hold'⟩ | rfl
    · exact hi.oneLive r hold r' hold' hf hrev hrev'
    · rfl

theorem step_keeps_inv {s s' : St} {a : Action} (hi : Inv hashRefreshToken s)
    (h : step hashRefreshToken s a = some s') : Inv hashRefreshToken s' := by
  cases step_inv h with
  | create hid hfam hhash => exact inv_create hi hid hfam hhash
  | rotate => exact inv_begin hi [] rfl trivial (by simp)
  | @revokeFamily f => exact inv_begin hi [f] rfl (.inl rfl) (by simp)
  | call _ hk hpc => exact inv_call hi hk hpc
  | commit hk ho => exact inv_commit hi hk ho _

theorem reachable_inv {s : St} (h : Reachable (step hashRefreshToken) init s) : Inv hashRefreshToken s :=
  h.invariant step_keeps_inv inv_init

end FerrKit.Auth
