/-
The cache in front of Cloud KMS (`GcpKmsKek` in `crates/crypto/src/lib.rs`),
with any number of `unwrap_dek` calls going on at a time. A call looks into
the cache, asks KMS if it has to, and puts the answer into the cache: three
steps with anything in between. What KMS answers is anybody's choice at each
step, and so is the order in which a drained map comes out.

The health check, which does not touch the cache, is in `HealthCheck`. Left
out: the key name, which goes with every request. A call that is dropped half
way is one that takes no further step.
-/
import FerrKit.Crypto.Envelope
import FerrKit.Lib.Calls
import FerrKit.Lib.Duration
import FerrKit.Lib.KeyMap
import FerrKit.Lib.KeySort
import FerrKit.Lib.Runs

namespace FerrKit.Crypto

/-! ## The cache -/

/-- `cached_at` in nanoseconds of the clock of `Instant`. -/
structure CachedDek where
  plaintext : Bytes
  cachedAt : Nat
  deriving DecidableEq

abbrev Entry := KeyMap.Entry Bytes CachedDek

abbrev Cache := KeyMap.Map Bytes CachedDek

structure GcpKmsKek where
  ttl : Duration
  maxEntries : Nat

def GcpKmsKek.new : GcpKmsKek := ⟨.fromSecs 60, 1024⟩

variable (kek : GcpKmsKek)

/-- What is found, and the cache after. -/
def cacheGet (now : Nat) (cache : Cache) (key : Bytes) : Option Bytes × Cache :=
  match cache.lookup key with
  | some entry =>
    if now - entry.cachedAt < kek.ttl.asNanos then (some entry.plaintext, cache) else (none, cache.erase key)
  | none => (none, cache)

/-- The eviction of `cache_put`, of the entries as they were drained. -/
def evict (drained : List Entry) : Cache :=
  KeyMap.refill ((KeySort.sortByKey (fun e => e.2.cachedAt) drained).drop (kek.maxEntries / 2))

def cachePut (now : Nat) (cache : Cache) (drained : List Entry) (key plaintext : Bytes) : Cache :=
  let cache := if cache.entries.length ≥ kek.maxEntries then evict kek drained else cache
  cache.insert key ⟨plaintext, now⟩

/-! ## The calls -/

/-- Where a call to `unwrap_dek` is between two steps. -/
inductive Phase
  | asking (ciphertext : Bytes)
  | putting (ciphertext plaintext : Bytes)
  deriving DecidableEq

inductive Event
  /-- KMS has answered the call with a plaintext. -/
  | answered (call : Nat) (ciphertext plaintext : Bytes)
  | evicted (drained kept : List Entry)
  | put (call : Nat) (ciphertext plaintext : Bytes) (time : Nat)
  | returned (call : Nat) (ciphertext : Bytes) (result : Except String Bytes) (time : Nat)

structure St extends Calls Phase Event where
  now : Nat := 0
  cache : Cache := ∅

inductive Action
  | tick (nanos : Nat)
  /-- A new call, up to its first `await` on KMS. -/
  | unwrap (encryptedDek : Bytes)
  /-- KMS answers. -/
  | answer (call : Nat) (result : Except String Bytes)
  /-- `cache_put`, the map coming out of `drain` as given, and the return. -/
  | put (call : Nat) (drained : List Entry)

/-- `std::str::from_utf8` -/
abbrev FromUtf8 := Bytes → Except String String

/-- `unwrap_dek` until it returns or waits for KMS. -/
def St.unwrap (fromUtf8 : FromUtf8) (s : St) (encryptedDek : Bytes) : St :=
  let returned := fun result => s.begun.record [.returned s.next encryptedDek result s.now]
  if !isGcpKmsCiphertext encryptedDek then
    { s with toCalls := returned (.error ("secret was wrapped by a local KEK but the API is running against " ++
      "GCP Cloud KMS — run the re-wrap migration")) }
  else
    match cacheGet kek s.now s.cache encryptedDek with
    | (some cached, cache) => { s with cache, toCalls := returned (.ok cached) }
    | (none, cache) =>
      match fromUtf8 (encryptedDek.drop gcpKmsPrefix.length) with
      | .error e => { s with cache, toCalls := returned (.error ("gcp kms ciphertext not utf-8: " ++ e)) }
      | .ok _ => { s with cache, toCalls := s.begun.goto s.next (some (.asking encryptedDek)) }

def step (fromUtf8 : FromUtf8) (s : St) : Action → Option St
  | .tick nanos => some { s with now := s.now + nanos }
  | .unwrap encryptedDek => some (s.unwrap kek fromUtf8 encryptedDek)
  | .answer call result =>
    match s.calls call with
    | some (.asking c) =>
      match result with
      | .ok plaintext =>
        some { s with toCalls := (s.goto call (some (.putting c plaintext))).record [.answered call c plaintext] }
      | .error e =>
        some { s with
          toCalls := (s.goto call none).record
            [.returned call c (.error ("gcp kms decrypt: " ++ e)) s.now] }
    | _ => none
  | .put call drained =>
    match s.calls call with
    | some (.putting c plaintext) =>
      if drained.Perm s.cache.entries then
        let evicted : List Event :=
          if s.cache.entries.length ≥ kek.maxEntries then [.evicted drained (evict kek drained).entries] else []
        some { s with
          cache := cachePut kek s.now s.cache drained c plaintext
          toCalls := (s.goto call none).record
            (evicted ++ [Event.put call c plaintext s.now, Event.returned call c (.ok plaintext) s.now]) }
      else none
    | _ => none

abbrev run (fromUtf8 : FromUtf8) (as : List Action) : Option St := Runs.run (step kek fromUtf8) {} as

/-! ## What the log has to say -/

/-- What stands behind an event, in the log before it. -/
def Coherent (pre : List Event) : Event → Prop
  | .answered .. => True
  | .evicted drained kept => (∀ e ∈ kept, e ∈ drained) ∧
      ∀ e ∈ kept, ∀ dropped ∈ drained, dropped ∉ kept → dropped.2.cachedAt ≤ e.2.cachedAt
  | .put call c plaintext _ => .answered call c plaintext ∈ pre
  | .returned call c (.ok plaintext) time => .answered call c plaintext ∈ pre ∨
      ∃ other since, .answered other c plaintext ∈ pre ∧ .put other c plaintext since ∈ pre ∧ since ≤ time ∧
        time - since < kek.ttl.asNanos
  | .returned _ _ (.error _) _ => True

structure Inv (s : St) : Prop where
  cached : ∀ e ∈ s.cache.entries, e.2.cachedAt ≤ s.now ∧
    ∃ call, .answered call e.1 e.2.plaintext ∈ s.log ∧ .put call e.1 e.2.plaintext e.2.cachedAt ∈ s.log
  pending : ∀ call c plaintext, s.calls call = some (.putting c plaintext) → .answered call c plaintext ∈ s.log
  coherent : Runs.Guarded (Coherent kek) s.log
  bounded : 2 ≤ kek.maxEntries → s.cache.entries.length ≤ kek.maxEntries

variable {kek} {fromUtf8 : FromUtf8} {s t : St} {a : Action}

theorem inv_init : Inv kek {} where
  cached e he := by cases he
  pending call c plaintext h := by cases h
  coherent := Runs.guarded_nil
  bounded _ := Nat.zero_le _

/-- A step that puts nothing into the cache. -/
theorem Inv.grow (hi : Inv kek s) (new : List Event) (hcache : ∀ e ∈ t.cache.entries, e ∈ s.cache.entries)
    (hlen : t.cache.entries.length ≤ s.cache.entries.length) (hnow : s.now ≤ t.now) (hlog : t.log = s.log ++ new)
    (hcalls : ∀ call c p, t.calls call = some (.putting c p) →
      s.calls call = some (.putting c p) ∨ .answered call c p ∈ new)
    (hcoherent : Runs.Guarded (Coherent kek) (s.log ++ new)) : Inv kek t where
  cached e he := by
    obtain ⟨hle, call, hans, hput⟩ := hi.cached e (hcache e he)
    rw [hlog]
    exact ⟨hle.trans hnow, call, List.mem_append_left _ hans, List.mem_append_left _ hput⟩
  pending call c p h := by
    rw [hlog, List.mem_append]
    exact (hcalls call c p h).imp (hi.pending call c p) id
  coherent := hlog ▸ hcoherent
  bounded hmax := hlen.trans (hi.bounded hmax)

/-- A step that records nothing either. -/
theorem Inv.quiet (hi : Inv kek s) (hcache : ∀ e ∈ t.cache.entries, e ∈ s.cache.entries)
    (hlen : t.cache.entries.length ≤ s.cache.entries.length) (hnow : s.now ≤ t.now) (hlog : t.log = s.log)
    (hcalls : ∀ call c p, t.calls call = some (.putting c p) → s.calls call = some (.putting c p)) : Inv kek t := by
  have hlog' : t.log = s.log ++ [] := by rw [hlog, List.append_nil]
  refine hi.grow [] hcache hlen hnow hlog' (fun call c p h => .inl (hcalls call c p h)) ?_
  rw [List.append_nil]
  exact hi.coherent

/-! ## Looking up -/

theorem cacheGet_entries {now : Nat} {cache : Cache} {key : Bytes} {e : Entry}
    (h : e ∈ (cacheGet kek now cache key).2.entries) : e ∈ cache.entries := by
  unfold cacheGet at h
  split at h
  · split at h
    · exact h
    · exact KeyMap.mem_of_mem_erase h
  · exact h

theorem cacheGet_length_le (now : Nat) (cache : Cache) (key : Bytes) :
    (cacheGet kek now cache key).2.entries.length ≤ cache.entries.length := by
  unfold cacheGet
  split
  · split
    · exact Nat.le_refl _
    · exact KeyMap.length_erase_le ..
  · exact Nat.le_refl _

/-- What is found is a young enough entry for the key. -/
theorem cacheGet_some {now : Nat} {cache : Cache} {key plaintext : Bytes}
    (h : (cacheGet kek now cache key).1 = some plaintext) :
    ∃ time, (⟨key, plaintext, time⟩ : Entry) ∈ cache.entries ∧ now - time < kek.ttl.asNanos := by
  unfold cacheGet at h
  split at h
  · next entry hlookup =>
    split at h
    · next hyoung =>
      cases h
      exact ⟨entry.cachedAt, AList.mem_lookup_iff.1 hlookup, hyoung⟩
    · cases h
  · cases h

theorem Inv.unwrap (hi : Inv kek s) (encryptedDek : Bytes) : Inv kek (s.unwrap kek fromUtf8 encryptedDek) := by
  have hentries : ∀ e ∈ (cacheGet kek s.now s.cache encryptedDek).2.entries, e ∈ s.cache.entries :=
    fun e => cacheGet_entries
  have hlen : (cacheGet kek s.now s.cache encryptedDek).2.entries.length ≤ s.cache.entries.length :=
    cacheGet_length_le ..
  unfold St.unwrap
  simp only
  split
  · refine hi.grow _ (fun e he => he) (Nat.le_refl _) (Nat.le_refl _) rfl (fun _ _ _ h => .inl h) ?_
    exact hi.coherent.append (by simp [Coherent])
  · split
    · next cached cache hget =>
      rw [hget] at hentries hlen
      refine hi.grow _ hentries hlen (Nat.le_refl _) rfl (fun _ _ _ h => .inl h) (hi.coherent.concat (.inr ?_))
      obtain ⟨time, hmem, hyoung⟩ := cacheGet_some (congrArg Prod.fst hget)
      obtain ⟨hle, call, hans, hput⟩ := hi.cached _ hmem
      exact ⟨call, time, hans, hput, hle, hyoung⟩
    · next cache hget =>
      rw [hget] at hentries hlen
      split
      · refine hi.grow _ hentries hlen (Nat.le_refl _) rfl (fun _ _ _ h => .inl h) ?_
        exact hi.coherent.append (by simp [Coherent])
      · exact hi.quiet hentries hlen (Nat.le_refl _) rfl fun call c p h => Calls.before_goto (by simp) h

/-! ## Putting -/

section Evict

variable (kek) {cache : Cache} {drained : List Entry} (hd : drained.Perm cache.entries)

include hd

theorem evict_perm : (evict kek drained).entries.Perm
    ((KeySort.sortByKey (fun e => e.2.cachedAt) drained).drop (kek.maxEntries / 2)) := by
  refine KeyMap.refill_perm ?_
  have hperm := (KeySort.sortByKey_perm (fun e : Entry => e.2.cachedAt) drained).trans hd
  exact ((List.perm_nodupKeys hperm).2 cache.nodupKeys).sublist (List.drop_sublist ..)

/-- The oldest half goes. -/
theorem evict_length : (evict kek drained).entries.length = cache.entries.length - kek.maxEntries / 2 := by
  rw [(evict_perm kek hd).length_eq, List.length_drop, (KeySort.sortByKey_perm ..).length_eq, hd.length_eq]

theorem evict_coherent (pre : List Event) : Coherent kek pre (.evicted drained (evict kek drained).entries) := by
  have hkept := evict_perm kek hd
  have hperm := KeySort.sortByKey_perm (fun e : Entry => e.2.cachedAt) drained
  have hsorted := KeySort.sortByKey_sorted (fun e : Entry => e.2.cachedAt) drained
  refine ⟨fun e he => hperm.mem_iff.1 (List.mem_of_mem_drop (hkept.mem_iff.1 he)), fun e he dropped hdrop hgone => ?_⟩
  -- what was dropped is in the half that was skipped, which comes first
  rw [hkept.mem_iff] at he hgone
  rw [← hperm.mem_iff] at hdrop
  generalize KeySort.sortByKey (fun e : Entry => e.2.cachedAt) drained = sorted at hsorted he hgone hdrop
  rw [KeySort.Sorted, ← List.take_append_drop (kek.maxEntries / 2) sorted, List.pairwise_append] at hsorted
  rw [← List.take_append_drop (kek.maxEntries / 2) sorted, List.mem_append] at hdrop
  exact hsorted.2.2 dropped (hdrop.resolve_right hgone) e he

end Evict

theorem cachePut_length_le {now : Nat} {cache : Cache} {drained : List Entry} (hd : drained.Perm cache.entries)
    (key plaintext : Bytes) (hmax : 2 ≤ kek.maxEntries) (hlen : cache.entries.length ≤ kek.maxEntries) :
    (cachePut kek now cache drained key plaintext).entries.length ≤ kek.maxEntries := by
  refine Nat.le_trans (KeyMap.length_insert_le ..) ?_
  split
  · rw [evict_length kek hd]
    omega
  · omega

/-- An entry after `cache_put` is the new one or was there before. -/
theorem cachePut_entries {now : Nat} {cache : Cache} {drained : List Entry} (hd : drained.Perm cache.entries)
    {key plaintext : Bytes} {e : Entry} (h : e ∈ (cachePut kek now cache drained key plaintext).entries) :
    e = ⟨key, plaintext, now⟩ ∨ e ∈ cache.entries := by
  obtain hnew | hold := KeyMap.mem_of_mem_insert h
  · exact .inl hnew
  · refine .inr ?_
    split at hold
    · exact hd.mem_iff.1 ((evict_coherent kek hd []).1 e hold)
    · exact hold

/-- The events of a `cache_put` and of the return after it. -/
theorem put_coherent {call now : Nat} {c plaintext : Bytes} {evicted : List Event} {log : List Event}
    (hlog : Runs.Guarded (Coherent kek) log) (hevicted : ∀ e ∈ evicted, ∀ pre, Coherent kek pre e)
    (hans : .answered call c plaintext ∈ log) :
    Runs.Guarded (Coherent kek)
      (log ++ (evicted ++ [.put call c plaintext now, .returned call c (.ok plaintext) now])) := by
  have hput : Coherent kek (log ++ evicted) (.put call c plaintext now) := List.mem_append_left _ hans
  have hreturned : Coherent kek (log ++ evicted ++ [.put call c plaintext now]) (.returned call c (.ok plaintext) now) :=
    .inl (List.mem_append_left _ (List.mem_append_left _ hans))
  simpa using ((hlog.append hevicted).concat hput).concat hreturned

theorem Inv.put (hi : Inv kek s) {call : Nat} {c plaintext : Bytes} {drained : List Entry}
    (hcall : s.calls call = some (.putting c plaintext)) (hd : drained.Perm s.cache.entries) :
    Inv kek { s with
      cache := cachePut kek s.now s.cache drained c plaintext
      toCalls := (s.goto call none).record
        ((if s.cache.entries.length ≥ kek.maxEntries then [Event.evicted drained (evict kek drained).entries] else []) ++
          [Event.put call c plaintext s.now, Event.returned call c (.ok plaintext) s.now]) } where
  cached e he := by
    obtain rfl | hold := cachePut_entries hd he
    · have hans := hi.pending call c plaintext hcall
      exact ⟨Nat.le_refl _, call, List.mem_append_left _ hans, by simp [Calls.record]⟩
    · obtain ⟨hle, call', hans, hput⟩ := hi.cached e hold
      exact ⟨hle, call', List.mem_append_left _ hans, List.mem_append_left _ hput⟩
  pending call' c' p' h := by
    have hold : s.calls call' = some (.putting c' p') := Calls.before_goto (by simp) h
    exact List.mem_append_left _ (hi.pending call' c' p' hold)
  coherent := by
    refine put_coherent hi.coherent (fun e he pre => ?_) (hi.pending call c plaintext hcall)
    split at he
    · rw [List.mem_singleton.1 he]
      exact evict_coherent kek hd pre
    · cases he
  bounded hmax := cachePut_length_le hd c plaintext hmax (hi.bounded hmax)

theorem step_keeps_inv (hi : Inv kek s) (h : step kek fromUtf8 s a = some t) : Inv kek t := by
  cases a with
  | tick nanos =>
    cases h
    exact hi.quiet (fun e he => he) (Nat.le_refl _) (Nat.le_add_right ..) rfl fun _ _ _ hc => hc
  | unwrap encryptedDek =>
    cases h
    exact hi.unwrap encryptedDek
  | answer call result =>
    simp only [step] at h
    split at h
    · next c hcall =>
      split at h
      · next plaintext =>
        cases h
        refine hi.grow _ (fun e he => he) (Nat.le_refl _) (Nat.le_refl _) rfl (fun call' c' p' hc => ?_)
          (hi.coherent.concat trivial)
        obtain ⟨rfl, hphase⟩ | hold := Calls.goto_some hc
        · cases hphase
          exact .inr (List.mem_singleton_self _)
        · exact .inl hold
      · cases h
        exact hi.grow _ (fun e he => he) (Nat.le_refl _) (Nat.le_refl _) rfl
          (fun call' c' p' hc => .inl (Calls.before_goto (by simp) hc)) (hi.coherent.concat trivial)
    · cases h
  | put call drained =>
    simp only [step] at h
    split at h
    · next c plaintext hcall =>
      split at h
      · next hd =>
        cases h
        exact hi.put hcall hd
      · cases h
    · cases h

/-- **The cache in front of KMS is coherent and bounded.** In every run of any
number of calls, whatever KMS answers when: each plaintext returned for a
ciphertext is one KMS gave for that ciphertext, to this call or to one that
put it into the cache less than the TTL ago; each eviction keeps only entries
at least as recent as those it drops; and the cache holds at most
`max_entries`, if that is at least two. -/
theorem unwrap_coherent {as : List Action} (h : run kek fromUtf8 as = some s) :
    Runs.Guarded (Coherent kek) s.log ∧ (2 ≤ kek.maxEntries → s.cache.entries.length ≤ kek.maxEntries) := by
  have hi : Inv kek s := Runs.invariant_run step_keeps_inv h inv_init
  exact ⟨hi.coherent, hi.bounded⟩

/-- A cache of two. The second call finds what KMS has answered the first, and
the cache is full when the answer to the last one comes. -/
def hitThenFull : List Action :=
  let a : Bytes := gcpKmsPrefix ++ [65]
  let b : Bytes := gcpKmsPrefix ++ [66]
  let c : Bytes := gcpKmsPrefix ++ [67]
  [.unwrap a, .answer 0 (.ok [7]), .put 0 [], .tick 5, .unwrap a, .unwrap b, .unwrap c, .answer 2 (.ok [8]),
    .put 2 [⟨a, [7], 0⟩], .answer 3 (.ok [9]), .put 3 [⟨a, [7], 0⟩, ⟨b, [8], 5⟩]]

/-- Of two entries the younger stays. -/
theorem evict_pair (ttl : Duration) {a b : Entry} (hab : a.2.cachedAt ≤ b.2.cachedAt) :
    (evict ⟨ttl, 2⟩ [a, b]).entries = [b] := by
  have hsorted : KeySort.Sorted (fun e : Entry => e.2.cachedAt) [a, b] := by simpa [KeySort.Sorted] using hab
  unfold evict
  rw [KeySort.sortByKey_of_sorted hsorted]
  simp [KeyMap.refill]

theorem unwrap_coherent_hitThenFull :
    ∃ s, run ⟨.fromSecs 60, 2⟩ (fun _ => .ok "A") hitThenFull = some s ∧
      s.log[3]? = some (.returned 1 (gcpKmsPrefix ++ [65]) (.ok [7]) 5) ∧
      s.log[8]? = some (.evicted [⟨gcpKmsPrefix ++ [65], [7], 0⟩, ⟨gcpKmsPrefix ++ [66], [8], 5⟩]
        [⟨gcpKmsPrefix ++ [66], [8], 5⟩]) ∧
      Runs.Guarded (Coherent ⟨.fromSecs 60, 2⟩) s.log ∧ s.cache.entries.length ≤ 2 := by
  have hr : run ⟨.fromSecs 60, 2⟩ (fun _ => .ok "A") hitThenFull = some _ := rfl
  obtain ⟨hcoherent, hbounded⟩ := unwrap_coherent hr
  refine ⟨_, hr, rfl, ?_, hcoherent, hbounded (by decide)⟩
  exact congrArg (fun kept => some (Event.evicted _ kept)) (evict_pair (.fromSecs 60) (Nat.zero_le 5))

end FerrKit.Crypto
