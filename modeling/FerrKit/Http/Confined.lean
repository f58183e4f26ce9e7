/-
What an attacker cannot make the outbound fetch do. Whatever the resolver
and the servers answer, a request goes out only to an address that passed
`is_public_unicast` in the same hop: the three ways a host is written (an
IPv4 literal, an IPv6 literal in brackets, a name) reach the check by three
ways, and `connect_checked_ip` and `connect_checked_addrs` say that each
checks the address that is then connected to. The hop counter cannot
overflow because it is compared with its limit before it moves.
-/
import FerrKit.Http.SafeGet

namespace FerrKit.Http

open Net Runs

/-! ## What a step can do -/

/-- Every step, with what it checked. -/
inductive StepR (o : Outside) (opts : SafeFetchOpts) (s : St) : St → Prop
  | failed {e} : StepR o opts s (s.fail e)
  | pinned {parsed host port answer addrs pinned} : s.phase = .lookup parsed host port →
      lookupHost o (lookupTarget host port) answer = .ok addrs → validateAddrs addrs = .ok pinned →
      StepR o opts s (Trail.at { s with log := s.log ++ addrs.map fun a => .validated s.followed a.ip }
        (.send parsed host pinned))
  | sendFailed {parsed host pinned e} : s.phase = .send parsed host pinned →
      StepR o opts s ((s.toTrail.connect o parsed host pinned).fail e)
  | followed {parsed host pinned next} : s.phase = .send parsed host pinned → s.hops < opts.maxRedirects →
      StepR o opts s (enter o { s.toTrail.connect o parsed host pinned with
        hops := s.hops + 1, followed := s.followed + 1 } next)
  | answered {parsed host pinned status url} : s.phase = .send parsed host pinned →
      StepR o opts s (Trail.at { s.toTrail.connect o parsed host pinned with received := [] } (.read status url []))
  | tooLarge {status url body chunk e} : s.phase = .read status url body →
      StepR o opts s (Trail.fail { s with received := s.received ++ [chunk] } e)
  | chunk {status url body chunk} : s.phase = .read status url body →
      body.length + chunk.length ≤ opts.maxBodyBytes →
      StepR o opts s (Trail.at { s with received := s.received ++ [chunk] } (.read status url (body ++ chunk)))
  | complete {status url body} : s.phase = .read status url body →
      StepR o opts s (s.at (.finished (.ok ⟨status, body, url⟩)))

theorem redirect_inv {o : Outside} {opts : SafeFetchOpts} {s : St} {parsed host pinned location}
    (hp : s.phase = .send parsed host pinned) :
    StepR o opts s (redirect o opts (s.toTrail.connect o parsed host pinned) parsed location) := by
  unfold redirect
  split
  · exact .sendFailed hp
  next hlt =>
  split
  · exact .sendFailed hp
  · split
    · exact .sendFailed hp
    · exact .followed hp (by simpa [Trail.connect] using hlt)

theorem step_inv {o : Outside} {opts : SafeFetchOpts} {s s' : St} {a : Answer} (h : step o opts s a = some s') :
    StepR o opts s s' := by
  cases a with
  | resolved answer =>
    simp only [step] at h
    split at h
    · next hp =>
      split at h
      · cases h; exact .failed
      next hl =>
      split at h
      · cases h; exact .failed
      · next hv => cases h; exact .pinned hp hl hv
    · cases h
  | clientFailed e =>
    simp only [step] at h
    split at h
    · cases h; exact .failed
    · cases h
  | responded answer =>
    simp only [step] at h
    split at h
    · next hp =>
      split at h
      · cases h; exact .sendFailed hp
      · split at h
        · cases h; exact redirect_inv hp
        · cases h; exact .answered hp
    · cases h
  | chunk next =>
    simp only [step] at h
    split at h
    · next hp =>
      split at h
      · cases h; exact .failed
      · cases h; exact .complete hp
      · split at h
        · cases h; exact .tooLarge hp
        · next hle => cases h; exact .chunk hp (by omega)
    · cases h
  | deadline =>
    simp only [step] at h
    split at h
    · cases h
    · next hp => cases h; exact .sendFailed hp
    · cases h; exact .failed

/-! ## The address that is checked is the one connected to -/

/-- What the head of the loop has established of a URL. -/
structure Located (o : Outside) (parsed : Url) (host : String) (port : UInt16) : Prop where
  text : ∃ text, o.parse text = .ok parsed
  overHttp : parsed.scheme = "http" ∨ parsed.scheme = "https"
  hostStr : parsed.hostStr = some host
  hasPort : parsed.port = some port

theorem locate_ok {o : Outside} {text : String} {parsed host port}
    (h : locate o text = .ok (parsed, host, port)) : Located o parsed host port := by
  unfold locate at h
  split at h
  · cases h
  next url hurl =>
  split at h
  · next hs =>
    split at h
    · next hh hp => cases h; exact ⟨⟨text, hurl⟩, hs, hh, hp⟩
    · cases h
    · cases h
  · cases h

variable {o : Outside} {opts : SafeFetchOpts} {parsed : Url} {host : String} {port : UInt16}

/-- The host parses as an address: that address is the literal, or the name
is pinned to it. -/
theorem connect_checked_ip (ho : o.Documented) (hl : Located o parsed host port) {ip : IpAddr}
    (hip : o.parseIp host = some ip) : (o.connect parsed host ⟨ip, port⟩).ip = ip := by
  obtain ⟨text, ht⟩ := hl.text
  cases hh : parsed.host with
  | none => exact absurd hh (ho.host ht hl.hostStr)
  | some h =>
    cases h with
    | domain name => rw [ho.connectDomain hh hl.hostStr]
    | ipv4 a =>
      rw [ho.ipv4 ht hh hl.hostStr, Option.some.injEq] at hip
      rw [ho.connectIpv4 hh, hip]
    | ipv6 a =>
      rw [(ho.ipv6 ht hh hl.hostStr hl.hasPort).1] at hip
      cases hip

/-- The host does not: it is a name, pinned to one of the addresses, or an
IPv6 literal, which `lookup_host` returns as it is. -/
theorem connect_checked_addrs (ho : o.Documented) (hl : Located o parsed host port)
    (hip : o.parseIp host = none) {answer addrs} {pinned : SocketAddr}
    (hlook : lookupHost o (lookupTarget host port) answer = .ok addrs) (hm : pinned ∈ addrs) :
    ∃ a ∈ addrs, a.ip = (o.connect parsed host pinned).ip := by
  obtain ⟨text, ht⟩ := hl.text
  cases hh : parsed.host with
  | none => exact absurd hh (ho.host ht hl.hostStr)
  | some h =>
    cases h with
    | domain name =>
      rw [ho.connectDomain hh hl.hostStr]
      exact ⟨pinned, hm, rfl⟩
    | ipv4 a =>
      rw [ho.ipv4 ht hh hl.hostStr] at hip
      cases hip
    | ipv6 a =>
      rw [lookupHost, (ho.ipv6 ht hh hl.hostStr hl.hasPort).2] at hlook
      cases hlook
      exact ⟨_, List.mem_singleton_self _, (ho.connectIpv6 hh).symm⟩

theorem validateAddrs_ok {addrs : List SocketAddr} {pinned : SocketAddr} (h : validateAddrs addrs = .ok pinned) :
    pinned ∈ addrs ∧ ∀ a ∈ addrs, isPublicUnicast a.ip = true := by
  cases addrs with
  | nil => cases h
  | cons a rest =>
    simp only [validateAddrs] at h
    split at h
    · cases h
    · next hnone =>
      cases h
      refine ⟨List.mem_cons_self, fun b hb => ?_⟩
      simpa using List.find?_eq_none.1 hnone b hb

/-! ## The invariant -/

/-- What an event needs of the ones before it: a connection goes over http or
https to a public address that was checked in the same hop. -/
def Allowed (past : List Event) : Event → Prop
  | .validated _ ip => isPublicUnicast ip = true
  | .connected hop scheme addr =>
    (scheme = "http" ∨ scheme = "https") ∧ isPublicUnicast addr.ip = true ∧ .validated hop addr.ip ∈ past

def Event.isRequest : Event → Bool
  | .connected _ _ _ => true
  | .validated _ _ => false

def requests (log : List Event) : Nat := log.countP Event.isRequest

/-- Of the trail, when at most `sent` requests went out in the current hop. -/
structure TrailOk (opts : SafeFetchOpts) (t : Trail) (sent : Nat) : Prop where
  allowed : Guarded Allowed t.log
  counter : t.hops.toNat = t.followed
  limit : t.followed ≤ opts.maxRedirects.toNat
  requests : requests t.log ≤ t.followed + sent

/-- The body is all that was received, and within the cap. -/
def Capped (opts : SafeFetchOpts) (t : Trail) (body : List UInt8) : Prop :=
  body = t.received.flatten ∧ body.length ≤ opts.maxBodyBytes

def Inv (o : Outside) (opts : SafeFetchOpts) (s : St) : Prop :=
  match s.phase with
  | .lookup parsed host port =>
    TrailOk opts s.toTrail 0 ∧ Located o parsed host port ∧ o.parseIp host = none
  | .send parsed host pinned =>
    TrailOk opts s.toTrail 0 ∧
      Allowed s.log (.connected s.followed parsed.scheme (o.connect parsed host pinned))
  | .read _ _ body => TrailOk opts s.toTrail 1 ∧ Capped opts s.toTrail body
  | .finished (.ok r) => TrailOk opts s.toTrail 1 ∧ Capped opts s.toTrail r.body
  | .finished (.error _) => TrailOk opts s.toTrail 1

theorem Inv.trail {s : St} (h : Inv o opts s) : TrailOk opts s.toTrail 1 := by
  have widen : TrailOk opts s.toTrail 0 → TrailOk opts s.toTrail 1 := fun ht =>
    ⟨ht.allowed, ht.counter, ht.limit, Nat.le_succ_of_le ht.requests⟩
  unfold Inv at h
  split at h
  · exact widen h.1
  · exact widen h.1
  · exact h.1
  · exact h.1
  · exact h

theorem requests_append_validated {log : List Event} {hop : Nat} {addrs : List SocketAddr} :
    requests (log ++ addrs.map fun a => .validated hop a.ip) = requests log := by
  simp [requests, Event.isRequest]

/-- Addresses that passed the check are added to the trail. -/
theorem TrailOk.validate {t : Trail} {n : Nat} (h : TrailOk opts t n) (addrs : List SocketAddr)
    (hpub : ∀ a ∈ addrs, isPublicUnicast a.ip = true) :
    TrailOk opts { t with log := t.log ++ addrs.map fun a => .validated t.followed a.ip } n where
  allowed := by
    refine h.allowed.append fun e he pre => ?_
    obtain ⟨a, ha, rfl⟩ := List.mem_map.1 he
    exact hpub a ha
  counter := h.counter
  limit := h.limit
  requests := by
    simp only [requests_append_validated]
    exact h.requests

theorem TrailOk.connect {t : Trail} {pinned : SocketAddr} (h : TrailOk opts t 0)
    (ha : Allowed t.log (.connected t.followed parsed.scheme (o.connect parsed host pinned))) :
    TrailOk opts (t.connect o parsed host pinned) 1 where
  allowed := h.allowed.concat ha
  counter := h.counter
  limit := h.limit
  requests := by
    have := h.requests
    simp only [Trail.connect, Http.requests, List.countP_append, List.countP_singleton, Event.isRequest] at this ⊢
    simp only [if_true]
    omega

/-- The counter is below its limit, so it moves without overflow. -/
theorem TrailOk.follow {t : Trail} (h : TrailOk opts t 1) (hlt : t.hops < opts.maxRedirects) :
    TrailOk opts { t with hops := t.hops + 1, followed := t.followed + 1 } 0 := by
  have hlt : t.hops.toNat < opts.maxRedirects.toNat := hlt
  have hmax : opts.maxRedirects.toNat < 256 := opts.maxRedirects.toNat_lt
  have hc := h.counter
  refine ⟨h.allowed, ?_, ?_, h.requests⟩
  · show (t.hops + 1).toNat = t.followed + 1
    rw [UInt8.toNat_add]
    simp only [UInt8.reduceToNat]
    omega
  · show t.followed + 1 ≤ opts.maxRedirects.toNat
    omega

theorem TrailOk.receive {t : Trail} {n : Nat} (h : TrailOk opts t n) (received : List (List UInt8)) :
    TrailOk opts { t with received } n :=
  ⟨h.allowed, h.counter, h.limit, h.requests⟩

theorem TrailOk.fail {t : Trail} (h : TrailOk opts t 1) {e : SafeFetchError} : Inv o opts (t.fail e) := h

theorem enter_inv (ho : o.Documented) {t : Trail} (h : TrailOk opts t 0) (current : String) :
    Inv o opts (enter o t current) := by
  have hfail : TrailOk opts t 1 := ⟨h.allowed, h.counter, h.limit, Nat.le_succ_of_le h.requests⟩
  unfold enter
  split
  · exact hfail.fail
  next parsed host port hloc =>
  have hl := locate_ok hloc
  split
  · next ip hip =>
    split
    · next hpub =>
      have hc := connect_checked_ip ho hl hip
      refine ⟨h.validate [⟨ip, port⟩] (by simpa using hpub), hl.overHttp, ?_, ?_⟩
      · rw [hc]; exact hpub
      · rw [hc]; simp [Trail.at]
    · exact hfail.fail
  · next hip => exact ⟨h, hl, hip⟩

theorem step_keeps_inv (ho : o.Documented) {s s' : St} {a : Answer} (hi : Inv o opts s)
    (h : step o opts s a = some s') : Inv o opts s' := by
  cases step_inv h with
  | failed => exact hi.trail.fail
  | pinned hp hlook hval =>
    simp only [Inv, hp] at hi
    obtain ⟨ht, hl, hip⟩ := hi
    obtain ⟨hm, hpub⟩ := validateAddrs_ok hval
    obtain ⟨a, ha, hc⟩ := connect_checked_addrs ho hl hip hlook hm
    refine ⟨ht.validate _ hpub, hl.overHttp, ?_, ?_⟩
    · rw [← hc]; exact hpub a ha
    · rw [← hc]
      exact List.mem_append_right _ (List.mem_map_of_mem ha)
  | sendFailed hp =>
    simp only [Inv, hp] at hi
    exact (hi.1.connect hi.2).fail
  | followed hp hlt =>
    simp only [Inv, hp] at hi
    exact enter_inv ho ((hi.1.connect hi.2).follow hlt) _
  | answered hp =>
    simp only [Inv, hp] at hi
    exact ⟨(hi.1.connect hi.2).receive [], rfl, Nat.zero_le _⟩
  | tooLarge _ => exact (hi.trail.receive _).fail
  | chunk hp hle =>
    simp only [Inv, hp] at hi
    obtain ⟨ht, hb, -⟩ := hi
    refine ⟨ht.receive _, ?_, by simpa using hle⟩
    simp [Trail.at, hb]
  | complete hp =>
    simp only [Inv, hp] at hi
    exact hi

/-! ## The result -/

/-- What holds of a fetch at any moment. -/
structure Confined (opts : SafeFetchOpts) (s : St) : Prop where
  connections : ∀ pre hop scheme addr post, s.log = pre ++ .connected hop scheme addr :: post →
    (scheme = "http" ∨ scheme = "https") ∧ isPublicUnicast addr.ip = true ∧ .validated hop addr.ip ∈ pre
  validations : ∀ hop ip, .validated hop ip ∈ s.log → isPublicUnicast ip = true
  requests : requests s.log ≤ opts.maxRedirects.toNat + 1
  counter : s.hops.toNat = s.followed
  body : ∀ r, s.phase = .finished (.ok r) → r.body = s.received.flatten ∧ r.body.length ≤ opts.maxBodyBytes

theorem Inv.confined {s : St} (hi : Inv o opts s) : Confined opts s := by
  have ht := hi.trail
  refine ⟨fun pre hop scheme addr post he => ht.allowed pre _ post he, fun hop ip hm => ?_, ?_, ht.counter, ?_⟩
  · obtain ⟨pre, post, he⟩ := List.append_of_mem hm
    exact ht.allowed pre _ post he
  · exact Nat.le_trans ht.requests (Nat.succ_le_succ ht.limit)
  · intro r hp
    simp only [Inv, hp] at hi
    exact hi.2

/-- **The fetch is confined**, whatever is answered, for every start URL and
all options: each request goes over http or https to an address that passed
`is_public_unicast` earlier in the same hop; at most `max_redirects + 1`
requests go out and the hop counter never overflows; and a body that is
returned is the whole of what was received, within the cap. -/
theorem safeGet_confined (ho : o.Documented) (opts : SafeFetchOpts) (url : String) {as : List Answer} {s : St}
    (hr : run (step o opts) (safeGet o url) as = some s) : Confined opts s := by
  have hstart : Inv o opts (safeGet o url) :=
    enter_inv ho ⟨guarded_nil, rfl, Nat.zero_le _, Nat.zero_le _⟩ url
  have hi : Inv o opts s := invariant_run (step_keeps_inv ho) hr hstart
  exact hi.confined

/-! ## A fetch with a redirect -/

/-- A name that redirects to an IPv6 literal. -/
def nameUrl : Url where
  scheme := "http"
  host := some (.domain "a.example")
  hostStr := some "a.example"
  port := some 80
  asStr := "http://a.example/"

def literalUrl : Url where
  scheme := "https"
  host := some (.ipv6 ⟨0x2606, 0x4700, 0, 0, 0, 0, 0, 0x1111⟩)
  hostStr := some "[2606:4700::1111]"
  port := some 443
  asStr := "https://[2606:4700::1111]/"

def twoUrls : Outside where
  parse text := if text = nameUrl.asStr then .ok nameUrl else if text = literalUrl.asStr then .ok literalUrl
    else .error "relative URL without a base"
  join _ location := if location = literalUrl.asStr then .ok literalUrl else .error "relative URL without a base"
  parseIp _ := none
  parseSocketAddr text := if text = lookupTarget "[2606:4700::1111]" 443 then
      some ⟨.v6 ⟨0x2606, 0x4700, 0, 0, 0, 0, 0, 0x1111⟩, 443⟩
    else none
  connect url _ addr :=
    match url.host with
    | some (.ipv4 ip) => ⟨.v4 ip, addr.port⟩
    | some (.ipv6 ip) => ⟨.v6 ip, addr.port⟩
    | _ => addr

theorem twoUrls_parse {text : String} {url : Url} (h : twoUrls.parse text = .ok url) :
    url = nameUrl ∨ url = literalUrl := by
  simp only [twoUrls] at h
  split at h
  · cases h; exact .inl rfl
  · split at h
    · cases h; exact .inr rfl
    · cases h

theorem twoUrls_documented : twoUrls.Documented where
  host ht _ := by rcases twoUrls_parse ht with rfl | rfl <;> simp [nameUrl, literalUrl]
  ipv4 ht hh _ := by rcases twoUrls_parse ht with rfl | rfl <;> cases hh
  ipv6 ht hh hs hp := by
    rcases twoUrls_parse ht with rfl | rfl
    · cases hh
    · cases hh; cases hs; cases hp
      exact ⟨rfl, rfl⟩
  connectDomain hh _ := by simp only [twoUrls, hh]
  connectIpv4 hh := by simp only [twoUrls, hh]
  connectIpv6 hh := by simp only [twoUrls, hh]

/-- The name resolves, its server redirects to the literal, and the body of
the second answer comes in two chunks. -/
def redirected : List Answer :=
  [.resolved (.ok [⟨.v4 ⟨93, 184, 216, 34⟩, 80⟩]), .responded (.ok ⟨302, some "https://[2606:4700::1111]/", ""⟩),
    .resolved (.error "unused"), .responded (.ok ⟨200, none, "https://[2606:4700::1111]/"⟩),
    .chunk (.ok (some [104, 105])), .chunk (.ok (some [33])), .chunk (.ok none)]

theorem safeGet_confined_redirected : ∃ s, run (step twoUrls .default) (safeGet twoUrls "http://a.example/") redirected
      = some s ∧ s.phase = .finished (.ok ⟨200, [104, 105, 33], "https://[2606:4700::1111]/"⟩) ∧
    Confined .default s := by
  have hr : run (step twoUrls .default) (safeGet twoUrls "http://a.example/") redirected = some _ := rfl
  exact ⟨_, hr, rfl, safeGet_confined twoUrls_documented .default _ hr⟩

end FerrKit.Http
