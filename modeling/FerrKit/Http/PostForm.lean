/-
`safe_post_form` (`crates/http/src/lib.rs`): the fetch that carries a client's
secret. It shares `resolve_and_validate` and `read_capped` with `safe_get` and
differs in two places: it has a body, and there is no loop, so that a redirect
is a response like any other.

To the log of the fetch come what the resolver has answered, where the body
went and which responses came in. Texts are their bytes.
-/
import FerrKit.Http.Confined
import FerrKit.Lib.FormUrlencoded

namespace FerrKit.Http

open Net Runs
open FormUrlencoded (Pair extendPairs parse)

structure PostSt extends St where
  /-- What the resolver has answered. -/
  resolved : List (Except String (List SocketAddr)) := []
  /-- The requests that went out. -/
  sent : List (SocketAddr × List UInt8) := []
  /-- The responses that came in. -/
  responses : List Response := []

/-- What the resolver says in this answer, if it is one of its. -/
def resolutions : Answer → List (Except String (List SocketAddr))
  | .resolved answer => [answer]
  | .clientFailed _ | .responded _ | .chunk _ | .deadline => []

/-- The request that goes out with this answer, if one does. -/
def posts (o : Outside) (body : List UInt8) (s : St) : Answer → List (SocketAddr × List UInt8)
  | .responded _ | .deadline =>
    match s.phase with
    | .send parsed host pinned => [(o.connect parsed host pinned, body)]
    | _ => []
  | .resolved _ | .clientFailed _ | .chunk _ => []

/-- The response that comes in with this answer, if one does. -/
def heard : Answer → List Response
  | .responded (.ok resp) => [resp]
  | .responded (.error _) | .resolved _ | .clientFailed _ | .chunk _ | .deadline => []

/-- A step of `safe_get_inner`, except that no response is followed. -/
def fetchStep (o : Outside) (opts : SafeFetchOpts) (s : St) : Answer → Option St
  | .responded (.ok resp) =>
    match s.phase with
    | .send parsed host pinned =>
      some (Trail.at { s.toTrail.connect o parsed host pinned with received := [] } (.read resp.status resp.url []))
    | _ => none
  | a => step o opts s a

def postStep (o : Outside) (opts : SafeFetchOpts) (form : List Pair) (s : PostSt) (a : Answer) : Option PostSt :=
  (fetchStep o opts s.toSt a).map fun t =>
    { t with
      resolved := s.resolved ++ resolutions a
      sent := s.sent ++ posts o (extendPairs [] form) s.toSt a
      responses := s.responses ++ heard a }

/-- `safe_post_form` is called. -/
def safePostForm (o : Outside) (url : String) : PostSt := { enter o { } url with }

/-! ## One step -/

variable {o : Outside} {opts : SafeFetchOpts} {form : List Pair} {url : String} {a : Answer}

theorem fetchStep_keeps_inv (ho : o.Documented) {s t : St} (hi : Inv o opts s) (h : fetchStep o opts s a = some t) :
    Inv o opts t := by
  unfold fetchStep at h
  split at h
  · split at h
    · next hp =>
      cases h
      simp only [Inv, hp] at hi
      exact ⟨(hi.1.connect hi.2).receive [], rfl, Nat.zero_le _⟩
    · cases h
  · exact step_keeps_inv ho hi h

/-- What a step makes of the phase, and what is heard in it. -/
inductive Moves (o : Outside) (s : St) (a : Answer) (t : St) : Prop
  | failed {e} : t.phase = .finished (.error e) → Moves o s a t
  | pinned {parsed host port answer addrs pinned} : s.phase = .lookup parsed host port →
      resolutions a = [answer] → lookupHost o (lookupTarget host port) answer = .ok addrs →
      validateAddrs addrs = .ok pinned → t.phase = .send parsed host pinned → heard a = [] → Moves o s a t
  | answered {parsed host pinned resp} : s.phase = .send parsed host pinned → heard a = [resp] →
      t.phase = .read resp.status resp.url [] → Moves o s a t
  | chunk {status finalUrl body body'} : s.phase = .read status finalUrl body →
      t.phase = .read status finalUrl body' → heard a = [] → Moves o s a t
  | complete {status finalUrl body} : s.phase = .read status finalUrl body →
      t.phase = .finished (.ok ⟨status, body, finalUrl⟩) → heard a = [] → Moves o s a t

/-- A step moves the phase in one of these ways, stays in its hop and takes
nothing out of the log. -/
theorem fetchStep_moves {s t : St} (h : fetchStep o opts s a = some t) :
    Moves o s a t ∧ t.followed = s.followed ∧ s.log <+: t.log := by
  cases a with
  | resolved answer =>
    simp only [fetchStep, step] at h
    split at h
    · next hp =>
      split at h
      · cases h; exact ⟨.failed rfl, rfl, List.prefix_rfl⟩
      next hlook =>
      split at h
      · cases h; exact ⟨.failed rfl, rfl, List.prefix_rfl⟩
      · next hvalid => cases h; exact ⟨.pinned hp rfl hlook hvalid rfl rfl, rfl, List.prefix_append ..⟩
    · cases h
  | clientFailed e =>
    simp only [fetchStep, step] at h
    split at h
    · cases h; exact ⟨.failed rfl, rfl, List.prefix_rfl⟩
    · cases h
  | responded answer =>
    cases answer with
    | error e =>
      simp only [fetchStep, step] at h
      split at h
      · cases h; exact ⟨.failed rfl, rfl, List.prefix_append ..⟩
      · cases h
    | ok resp =>
      simp only [fetchStep] at h
      split at h
      · next hp => cases h; exact ⟨.answered hp rfl rfl, rfl, List.prefix_append ..⟩
      · cases h
  | chunk next =>
    simp only [fetchStep, step] at h
    split at h
    · next hp =>
      split at h
      · cases h; exact ⟨.failed rfl, rfl, List.prefix_rfl⟩
      · cases h; exact ⟨.complete hp rfl rfl, rfl, List.prefix_rfl⟩
      · split at h
        · cases h; exact ⟨.failed rfl, rfl, List.prefix_rfl⟩
        · cases h; exact ⟨.chunk hp rfl rfl, rfl, List.prefix_rfl⟩
    · cases h
  | deadline =>
    simp only [fetchStep, step] at h
    split at h
    · cases h
    · cases h; exact ⟨.failed rfl, rfl, List.prefix_append ..⟩
    · cases h; exact ⟨.failed rfl, rfl, List.prefix_rfl⟩

/-- A request goes out only where one is being sent. -/
theorem posts_cases (o : Outside) (body : List UInt8) (s : St) (a : Answer) :
    posts o body s a = [] ∨ ∃ parsed host pinned, s.phase = .send parsed host pinned ∧
      posts o body s a = [(o.connect parsed host pinned, body)] := by
  unfold posts
  split
  · split
    · next hp => exact .inr ⟨_, _, _, hp, rfl⟩
    · exact .inl rfl
  · split
    · next hp => exact .inr ⟨_, _, _, hp, rfl⟩
    · exact .inl rfl
  · exact .inl rfl
  · exact .inl rfl
  · exact .inl rfl

/-! ## Every run -/

/-- The URL and host of a fetch that has not sent its request. -/
def Phase.target : Phase → Option (Url × String)
  | .lookup parsed host _ | .send parsed host _ => some (parsed, host)
  | .read _ _ _ | .finished _ => none

/-- The response that a fetch has or returns. -/
def Phase.response : Phase → Option (Nat × String)
  | .read status finalUrl _ => some (status, finalUrl)
  | .finished (.ok r) => some (r.status, r.finalUrl)
  | .lookup _ _ _ | .send _ _ _ | .finished (.error _) => none

/-- An address of a host: the one it is written as, or one of those that the
resolver has answered, all of them public. -/
inductive AddressOf (o : Outside) (host : String) (port : UInt16) (answers : List (Except String (List SocketAddr)))
    (ip : IpAddr) : Prop
  | literal : o.parseIp host = some ip → AddressOf o host port answers ip
  | resolved {answer addrs} {a : SocketAddr} : answer ∈ answers →
      lookupHost o (lookupTarget host port) answer = .ok addrs → (∀ b ∈ addrs, isPublicUnicast b.ip = true) →
      a ∈ addrs → a.ip = ip → AddressOf o host port answers ip

/-- An address of the host that the URL names. -/
def AddressFor (o : Outside) (url : String) (answers : List (Except String (List SocketAddr))) (ip : IpAddr) : Prop :=
  ∃ parsed host port, locate o url = .ok (parsed, host, port) ∧ AddressOf o host port answers ip

/-- A request with the form, to a checked address of the host that the URL
names. -/
structure SentFor (o : Outside) (form : List Pair) (url : String) (s : PostSt) (request : SocketAddr × List UInt8) :
    Prop where
  body : request.2 = extendPairs [] form
  isPublic : isPublicUnicast request.1.ip = true
  validated : .validated 0 request.1.ip ∈ s.log
  address : AddressFor o url s.resolved request.1.ip

structure PostInv (o : Outside) (opts : SafeFetchOpts) (form : List Pair) (url : String) (s : PostSt) : Prop where
  fetch : Inv o opts s.toSt
  followed : s.followed = 0
  waiting : ∀ parsed host, s.phase.target = some (parsed, host) → s.sent = [] ∧ s.responses = []
  locates : ∀ parsed host port, s.phase = .lookup parsed host port → locate o url = .ok (parsed, host, port)
  pinned : ∀ parsed host pinned, s.phase = .send parsed host pinned →
    AddressFor o url s.resolved (o.connect parsed host pinned).ip
  once : s.sent.length ≤ 1
  sentFor : ∀ request ∈ s.sent, SentFor o form url s request
  response : ∀ status finalUrl, s.phase.response = some (status, finalUrl) →
    ∃ resp, s.responses = [resp] ∧ resp.status = status ∧ resp.url = finalUrl

theorem AddressFor.mono {answers : List (Except String (List SocketAddr))} {ip : IpAddr}
    (h : AddressFor o url answers ip) (more : List (Except String (List SocketAddr))) :
    AddressFor o url (answers ++ more) ip := by
  obtain ⟨parsed, host, port, hlocate, haddress⟩ := h
  refine ⟨parsed, host, port, hlocate, ?_⟩
  cases haddress with
  | literal hip => exact .literal hip
  | resolved hanswer hlook hpublic ha hip => exact .resolved (List.mem_append_left _ hanswer) hlook hpublic ha hip

/-- What the head of the loop leaves behind of the URL. -/
theorem enter_cases (o : Outside) (t : Trail) (current : String) :
    (∃ e, (enter o t current).phase = .finished (.error e)) ∨
    ∃ parsed host port, locate o current = .ok (parsed, host, port) ∧
      ((enter o t current).phase = .lookup parsed host port ∨
        ∃ ip, o.parseIp host = some ip ∧ (enter o t current).phase = .send parsed host ⟨ip, port⟩) := by
  unfold enter
  split
  · exact .inl ⟨_, rfl⟩
  · next hlocate =>
    split
    · next ip hip =>
      split
      · exact .inr ⟨_, _, _, hlocate, .inr ⟨ip, hip, rfl⟩⟩
      · exact .inl ⟨_, rfl⟩
    · exact .inr ⟨_, _, _, hlocate, .inl rfl⟩

theorem enter_followed (o : Outside) (t : Trail) (current : String) : (enter o t current).followed = t.followed := by
  unfold enter
  split
  · rfl
  · split
    · split <;> rfl
    · rfl

theorem postInv_start (ho : o.Documented) : PostInv o opts form url (safePostForm o url) where
  fetch := enter_inv ho ⟨guarded_nil, rfl, Nat.zero_le _, Nat.zero_le _⟩ url
  followed := enter_followed o _ url
  waiting _ _ _ := ⟨rfl, rfl⟩
  locates parsed host port h := by
    change (enter o { } url).phase = _ at h
    obtain ⟨e, he⟩ | ⟨parsed', host', port', hlocate, hp | ⟨ip, -, hp⟩⟩ := enter_cases o { } url
    · rw [he] at h; cases h
    · rw [hp] at h; cases h; exact hlocate
    · rw [hp] at h; cases h
  pinned parsed host pinned h := by
    change (enter o { } url).phase = _ at h
    obtain ⟨e, he⟩ | ⟨parsed', host', port', hlocate, hp | ⟨ip, hip, hp⟩⟩ := enter_cases o { } url
    · rw [he] at h; cases h
    · rw [hp] at h; cases h
    · rw [hp] at h
      cases h
      exact ⟨_, _, _, hlocate, .literal (by rw [connect_checked_ip ho (locate_ok hlocate) hip, hip])⟩
  once := Nat.zero_le _
  sentFor := nofun
  response status finalUrl h := by
    change (enter o { } url).phase.response = _ at h
    obtain ⟨e, he⟩ | ⟨parsed', host', port', hlocate, hp | ⟨ip, -, hp⟩⟩ := enter_cases o { } url
    · rw [he] at h; cases h
    · rw [hp] at h; cases h
    · rw [hp] at h; cases h

/-- A request that goes out is the first, and goes where the URL says. -/
theorem PostInv.send {s : PostSt} (hi : PostInv o opts form url s) {parsed : Url} {host : String} {pinned : SocketAddr}
    (hp : s.phase = .send parsed host pinned) :
    s.sent = [] ∧ SentFor o form url s (o.connect parsed host pinned, extendPairs [] form) := by
  have hfetch := hi.fetch
  simp only [Inv, hp] at hfetch
  obtain ⟨-, -, hpublic, hvalidated⟩ := hfetch
  rw [hi.followed] at hvalidated
  exact ⟨(hi.waiting parsed host (by rw [hp]; rfl)).1, rfl, hpublic, hvalidated, hi.pinned parsed host pinned hp⟩

theorem SentFor.mono {s t : PostSt} {request : SocketAddr × List UInt8} (h : SentFor o form url s request)
    (hlog : s.log <+: t.log) {more : List (Except String (List SocketAddr))} (ht : t.resolved = s.resolved ++ more) :
    SentFor o form url t request :=
  ⟨h.body, h.isPublic, hlog.subset h.validated, ht ▸ h.address.mono more⟩

theorem postStep_keeps_inv (ho : o.Documented) {s t : PostSt} (hi : PostInv o opts form url s)
    (h : postStep o opts form s a = some t) : PostInv o opts form url t := by
  obtain ⟨u, hu, rfl⟩ := Option.map_eq_some_iff.1 h
  obtain ⟨hmoves, hfollowed, hlog⟩ := fetchStep_moves hu
  refine ⟨fetchStep_keeps_inv ho hi.fetch hu, hfollowed.trans hi.followed, fun parsed host ht => ?_,
    fun parsed host port ht => ?_, fun parsed host pinned ht => ?_, ?_, fun request hrequest => ?_,
    fun status finalUrl hr => ?_⟩
  · cases hmoves with
    | failed ht' | answered _ _ ht' | chunk _ ht' _ | complete _ ht' _ => rw [ht'] at ht; cases ht
    | pinned hp _ _ _ ht' hheard =>
      rw [ht'] at ht
      cases ht
      obtain ⟨hempty, hquiet⟩ := hi.waiting parsed host (by rw [hp]; rfl)
      refine ⟨?_, by rw [hquiet, hheard, List.append_nil]⟩
      obtain hnone | ⟨parsed', host', pinned', hp', -⟩ := posts_cases o (extendPairs [] form) s.toSt a
      · rw [hempty, hnone, List.append_nil]
      · rw [hp] at hp'
        cases hp'
  · cases hmoves with
    | failed ht' | pinned _ _ _ _ ht' _ | answered _ _ ht' | chunk _ ht' _ | complete _ ht' _ =>
      rw [ht'] at ht; cases ht
  · cases hmoves with
    | failed ht' | answered _ _ ht' | chunk _ ht' _ | complete _ ht' _ => rw [ht'] at ht; cases ht
    | pinned hp hanswer hlook hvalid ht' _ =>
      rw [ht'] at ht
      cases ht
      have hlocate := hi.locates _ _ _ hp
      have hfetch := hi.fetch
      simp only [Inv, hp] at hfetch
      obtain ⟨hpinned, hpublic⟩ := validateAddrs_ok hvalid
      obtain ⟨b, hb, hip⟩ := connect_checked_addrs ho (locate_ok hlocate) hfetch.2.2 hlook hpinned
      exact ⟨_, _, _, hlocate, .resolved (by simp [hanswer]) hlook hpublic hb hip⟩
  · obtain hnone | ⟨parsed, host, pinned, hp, hone⟩ := posts_cases o (extendPairs [] form) s.toSt a
    · rw [hnone, List.append_nil]
      exact hi.once
    · rw [hone, (hi.send hp).1]
      exact Nat.le_refl 1
  · obtain hold | hnew := List.mem_append.1 hrequest
    · exact (hi.sentFor request hold).mono hlog rfl
    · obtain hnone | ⟨parsed, host, pinned, hp, hone⟩ := posts_cases o (extendPairs [] form) s.toSt a
      · rw [hnone] at hnew
        cases hnew
      · rw [hone] at hnew
        obtain rfl := List.mem_singleton.1 hnew
        exact (hi.send hp).2.mono hlog rfl
  · cases hmoves with
    | failed ht' | pinned _ _ _ _ ht' _ => rw [ht'] at hr; cases hr
    | answered hp hheard ht' =>
      rw [ht'] at hr
      cases hr
      obtain ⟨-, hquiet⟩ := hi.waiting _ _ (by rw [hp]; rfl)
      exact ⟨_, by rw [hquiet, hheard, List.nil_append], rfl, rfl⟩
    | chunk hp ht' hheard | complete hp ht' hheard =>
      rw [ht'] at hr
      cases hr
      rw [hheard, List.append_nil]
      exact hi.response _ _ (by rw [hp]; rfl)

/-- **The form goes to one place, once.** Whatever is answered, for every URL,
form and options: `safe_post_form` is confined as `safe_get` is and sends at
most one request. It goes to an address that passed the check and that is the
host of the given URL itself, or one of the addresses the resolver has given
for that host, all of them public; and its body reads as the form. What is
returned has the status and URL of the one response there was: a redirect is
handed back and not followed. -/
theorem postForm_once (ho : o.Documented) (opts : SafeFetchOpts) (form : List Pair) (url : String) {as : List Answer}
    {s : PostSt} (hr : run (postStep o opts form) (safePostForm o url) as = some s) :
    Confined opts s.toSt ∧ requests s.log ≤ 1 ∧ s.sent.length ≤ 1 ∧
      (∀ addr body, (addr, body) ∈ s.sent → parse body = form ∧ isPublicUnicast addr.ip = true ∧
        .validated 0 addr.ip ∈ s.log ∧
        ∃ parsed host port, locate o url = .ok (parsed, host, port) ∧ AddressOf o host port s.resolved addr.ip) ∧
      ∀ r, s.phase = .finished (.ok r) → ∃ resp, s.responses = [resp] ∧ resp.status = r.status ∧
        resp.url = r.finalUrl := by
  have hi : PostInv o opts form url s := invariant_run (postStep_keeps_inv ho) hr (postInv_start ho)
  refine ⟨hi.fetch.confined, ?_, hi.once, fun addr body hmem => ?_, fun r hp => hi.response _ _ (by rw [hp]; rfl)⟩
  · have hrequests := hi.fetch.trail.requests
    rwa [hi.followed] at hrequests
  · have hsent := hi.sentFor _ hmem
    refine ⟨?_, hsent.isPublic, hsent.validated, hsent.address⟩
    rw [show body = extendPairs [] form from hsent.body]
    exact FormUrlencoded.parse_extendPairs [] form

/-- The server redirects to the literal, and the caller gets the redirect. -/
theorem postForm_once_redirected :
    ∃ s, run (postStep twoUrls .default [([99], [38, 61])]) (safePostForm twoUrls "http://a.example/")
        [.resolved (.ok [⟨.v4 ⟨93, 184, 216, 34⟩, 80⟩]),
          .responded (.ok ⟨307, some "https://[2606:4700::1111]/", "http://a.example/"⟩), .chunk (.ok none)] = some s ∧
      s.phase = .finished (.ok ⟨307, [], "http://a.example/"⟩) ∧
      s.sent.map Prod.fst = [⟨.v4 ⟨93, 184, 216, 34⟩, 80⟩] ∧ requests s.log ≤ 1 ∧
      ∀ addr body, (addr, body) ∈ s.sent → parse body = [([99], [38, 61])] := by
  have hr : run (postStep twoUrls .default [([99], [38, 61])]) (safePostForm twoUrls "http://a.example/")
      [.resolved (.ok [⟨.v4 ⟨93, 184, 216, 34⟩, 80⟩]),
        .responded (.ok ⟨307, some "https://[2606:4700::1111]/", "http://a.example/"⟩), .chunk (.ok none)] =
      some _ := rfl
  obtain ⟨-, hrequests, -, hsent, -⟩ := postForm_once twoUrls_documented .default _ _ hr
  exact ⟨_, hr, rfl, rfl, hrequests, fun addr body hmem => (hsent addr body hmem).1⟩

end FerrKit.Http
