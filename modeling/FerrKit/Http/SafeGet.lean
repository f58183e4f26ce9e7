/-
The outbound fetch (`crates/http/src/lib.rs`): `safe_get` and the loop of
`safe_get_inner`, one step for each answer it awaits.

The environment is the attacker. Every answer is in the action: what the
resolver returns, with which status, `Location` and chunks a server answers,
where a call fails, when the deadline strikes. Nothing relates one answer to
another. The libraries outside the crate are `Outside`; what is assumed of
them is `Outside.Documented`.

The state keeps a log that the code does not have: which addresses passed
`is_public_unicast` and where a request went, each with the number of the
hop, and the chunks of the body being read. Left out: the texts of errors.
`safe_post_form`, which is one hop of the same, is in `PostForm`.
-/
import FerrKit.Http.Address
import FerrKit.Lib.Duration
import FerrKit.Lib.Runs

namespace FerrKit.Http

open Net

structure SafeFetchOpts where
  timeout : Duration
  maxBodyBytes : Nat
  maxRedirects : UInt8

/-- `SafeFetchOpts::default`. -/
def SafeFetchOpts.default : SafeFetchOpts := ⟨.fromSecs 15, 5 * 1024 * 1024, 5⟩

structure SafeResponse where
  status : Nat
  body : List UInt8
  finalUrl : String
  deriving DecidableEq

inductive SafeFetchError
  | invalidUrl (e : String)
  | unsupportedScheme (scheme : String)
  | missingHost
  | dnsLookup (e : String)
  | dnsEmpty
  | blockedAddress (ip : IpAddr)
  | tooManyRedirects (limit : UInt8)
  | badRedirect
  | bodyTooLarge (limit : Nat)
  | timeout
  | http (e : String)
  deriving DecidableEq

/-! ## Outside the crate -/

structure Outside where
  /-- `Url::parse` -/
  parse : String → Except String Url
  /-- `Url::join` -/
  join : Url → String → Except String Url
  /-- `str::parse::<IpAddr>` -/
  parseIp : String → Option IpAddr
  /-- `str::parse::<SocketAddr>` -/
  parseSocketAddr : String → Option SocketAddr
  /-- Where a request for a URL connects, from a client with no proxy, no
  redirects and `.resolve(host, addr)`. -/
  connect : Url → String → SocketAddr → SocketAddr

/-- The text `resolve_and_validate` hands to `lookup_host`. -/
def lookupTarget (host : String) (port : UInt16) : String := host ++ ":" ++ toString port.toNat

structure Outside.Documented (o : Outside) : Prop where
  /-- `host_str` is there when the URL has a host. -/
  host : ∀ {text url h}, o.parse text = .ok url → url.hostStr = some h → url.host ≠ none
  /-- `host_str` writes an IPv4 host in dotted form. -/
  ipv4 : ∀ {text url ip h}, o.parse text = .ok url → url.host = some (.ipv4 ip) → url.hostStr = some h →
    o.parseIp h = some (.v4 ip)
  /-- It writes an IPv6 host in brackets, which is the form a `SocketAddr`
  has and an `IpAddr` has not. -/
  ipv6 : ∀ {text url ip h port}, o.parse text = .ok url → url.host = some (.ipv6 ip) → url.hostStr = some h →
    url.port = some port →
    o.parseIp h = none ∧ o.parseSocketAddr (lookupTarget h port) = some ⟨.v6 ip, port⟩
  /-- For a domain the connection goes to the pinned address. -/
  connectDomain : ∀ {url name h addr}, url.host = some (.domain name) → url.hostStr = some h →
    o.connect url h addr = addr
  /-- For a literal it goes to the literal. -/
  connectIpv4 : ∀ {url ip h addr}, url.host = some (.ipv4 ip) → (o.connect url h addr).ip = .v4 ip
  connectIpv6 : ∀ {url ip h addr}, url.host = some (.ipv6 ip) → (o.connect url h addr).ip = .v6 ip

/-- `lookup_host`: the text of a socket address stands for itself, anything
else is asked of the resolver. -/
def lookupHost (o : Outside) (target : String) (answer : Except String (List SocketAddr)) :
    Except String (List SocketAddr) :=
  match o.parseSocketAddr target with
  | some addr => .ok [addr]
  | none => answer

/-! ## The fetch -/

/-- What happened so far, by hop. -/
inductive Event
  | validated (hop : Nat) (ip : IpAddr)
  | connected (hop : Nat) (scheme : String) (addr : SocketAddr)
  deriving DecidableEq

/-- What the fetch awaits. -/
inductive Phase
  | lookup (parsed : Url) (host : String) (port : UInt16)
  | send (parsed : Url) (host : String) (pinned : SocketAddr)
  | read (status : Nat) (finalUrl : String) (body : List UInt8)
  | finished (result : Except SafeFetchError SafeResponse)

/-- What the turns of the loop leave behind. Only `hops` is the code's. -/
structure Trail where
  hops : UInt8 := 0
  /-- The redirects followed, counted without a bound. -/
  followed : Nat := 0
  log : List Event := []
  /-- The chunks of the body being read. -/
  received : List (List UInt8) := []

structure St extends Trail where
  phase : Phase

def Trail.at (t : Trail) (phase : Phase) : St := { t with phase }

def Trail.fail (t : Trail) (e : SafeFetchError) : St := t.at (.finished (.error e))

/-- A response up to its headers; `location` is the header when it is there
and `to_str` accepts it. -/
structure Response where
  status : Nat
  location : Option String
  url : String

/-- `StatusCode::is_redirection`. -/
def Response.isRedirection (r : Response) : Bool := decide (300 ≤ r.status) && decide (r.status < 400)

inductive Answer
  | resolved (answer : Except String (List SocketAddr))
  /-- `Client::builder().build()` fails. -/
  | clientFailed (e : String)
  | responded (answer : Except String Response)
  | chunk (next : Except String (Option (List UInt8)))
  | deadline

/-- The head of the loop: the URL, its scheme, host and port. -/
def locate (o : Outside) (current : String) : Except SafeFetchError (Url × String × UInt16) :=
  match o.parse current with
  | .error e => .error (.invalidUrl e)
  | .ok parsed =>
    if parsed.scheme = "http" ∨ parsed.scheme = "https" then
      match parsed.hostStr, parsed.port with
      | some host, some port => .ok (parsed, host, port)
      | none, _ => .error .missingHost
      | some _, none => .error .missingHost
    else .error (.unsupportedScheme parsed.scheme)

/-- One turn of the loop, up to its first await: the branch of
`resolve_and_validate` for an address has none. -/
def enter (o : Outside) (t : Trail) (current : String) : St :=
  match locate o current with
  | .error e => t.fail e
  | .ok (parsed, host, port) =>
    match o.parseIp host with
    | some ip =>
      if isPublicUnicast ip then
        Trail.at { t with log := t.log ++ [.validated t.followed ip] } (.send parsed host ⟨ip, port⟩)
      else t.fail (.blockedAddress ip)
    | none => t.at (.lookup parsed host port)

/-- The rest of `resolve_and_validate`, for the addresses of a name. -/
def validateAddrs : List SocketAddr → Except SafeFetchError SocketAddr
  | [] => .error .dnsEmpty
  | a :: rest =>
    match (a :: rest).find? fun b => !isPublicUnicast b.ip with
    | some b => .error (.blockedAddress b.ip)
    | none => .ok a

/-- The response is a redirect: follow it while the limit allows. -/
def redirect (o : Outside) (opts : SafeFetchOpts) (t : Trail) (parsed : Url) (location : Option String) : St :=
  if t.hops ≥ opts.maxRedirects then t.fail (.tooManyRedirects opts.maxRedirects)
  else
    match location with
    | none => t.fail .badRedirect
    | some loc =>
      match o.join parsed loc with
      | .error e => t.fail (.invalidUrl e)
      | .ok next => enter o { t with hops := t.hops + 1, followed := t.followed + 1 } next.asStr

/-- A request goes out. -/
def Trail.connect (o : Outside) (t : Trail) (parsed : Url) (host : String) (pinned : SocketAddr) : Trail :=
  { t with log := t.log ++ [.connected t.followed parsed.scheme (o.connect parsed host pinned)] }

def step (o : Outside) (opts : SafeFetchOpts) (s : St) : Answer → Option St
  | .resolved answer =>
    match s.phase with
    | .lookup parsed host port =>
      match lookupHost o (lookupTarget host port) answer with
      | .error e => some (s.fail (.dnsLookup e))
      | .ok addrs =>
        match validateAddrs addrs with
        | .error e => some (s.fail e)
        | .ok pinned =>
          some (Trail.at { s with log := s.log ++ addrs.map fun a => .validated s.followed a.ip }
            (.send parsed host pinned))
    | _ => none
  | .clientFailed e =>
    match s.phase with
    | .send _ _ _ => some (s.fail (.http e))
    | _ => none
  | .responded answer =>
    match s.phase with
    | .send parsed host pinned =>
      let t := s.toTrail.connect o parsed host pinned
      match answer with
      | .error e => some (t.fail (.http e))
      | .ok resp =>
        if resp.isRedirection then some (redirect o opts t parsed resp.location)
        else some (Trail.at { t with received := [] } (.read resp.status resp.url []))
    | _ => none
  | .chunk next =>
    match s.phase with
    -- the loop of `read_capped`
    | .read status finalUrl body =>
      match next with
      | .error e => some (s.fail (.http e))
      | .ok none => some (s.at (.finished (.ok ⟨status, body, finalUrl⟩)))
      | .ok (some chunk) =>
        let t := { s.toTrail with received := s.received ++ [chunk] }
        if body.length + chunk.length > opts.maxBodyBytes then some (t.fail (.bodyTooLarge opts.maxBodyBytes))
        else some (t.at (.read status finalUrl (body ++ chunk)))
    | _ => none
  | .deadline =>
    match s.phase with
    | .finished _ => none
    -- the request may be on its way
    | .send parsed host pinned => some ((s.toTrail.connect o parsed host pinned).fail .timeout)
    | _ => some (s.fail .timeout)

/-- `safe_get` is called. -/
def safeGet (o : Outside) (url : String) : St := enter o { } url

end FerrKit.Http
