/-
Logins with an OpenID Connect provider, any number of them at a time:
`authorize` sends a browser off, somebody comes back with a code, and
`exchange_code` turns the code into an identity (`crates/oauth/src/oidc.rs`).

Who comes back with which code, and in which order, is the attacker's choice,
and so is what a user is made to approve: an authorize request may be one of
the client's or have any other query. The provider does what the protocol
asks of it. It keeps the request with the code it gives out, takes a code
once, from the client it was for, with a verifier that fits the challenge if
there was one, and signs an id_token with the nonce of the request and the
user who approved it.

A call of `exchange_code` is two steps, and those of other calls may come in
between: the token request, and what is done with the answer. The second
reads and writes the cached keys at once. That loses nothing here, since what
is said holds for whatever keys a call gets.

What keeps the logins apart is the nonce: `exchange_code` takes no id_token
but one with the login's own. The `state`, which the caller compares, is left
out: the attacker is taken to get past that.
-/
import FerrKit.Lib.Runs
import FerrKit.OAuth.Authorize
import FerrKit.OAuth.IdToken

namespace FerrKit.OAuth.Login

open FerrKit.Http (SafeResponse)
open FormUrlencoded (Pair parse)

/-! ## The provider -/

/-- An authorize request that a user has approved, and the code for it. -/
structure Grant where
  code : String
  query : List UInt8
  user : String
  deriving DecidableEq

/-- What the provider answers for a grant, and the id_token in it. -/
structure Idp where
  secret : String
  body : Grant → List UInt8
  idToken : Grant → String

variable (sha256 : List UInt8 → List UInt8) (idp : Idp)

/-- The verifier, if the request had a challenge. -/
def verifierFits (asked form : List Pair) : Bool :=
  match param "code_challenge" asked with
  | none => true
  | some challenge =>
    (param "code_verifier" form).any fun verifier => Wire.bytes (Base64.urlSafeNoPad (sha256 verifier)) = challenge

/-- The form is for this grant. -/
def Grant.takes (g : Grant) (form : List Pair) : Bool :=
  decide (param "code" form = some (Wire.bytes g.code)) &&
    decide (param "client_id" form = param "client_id" (parse g.query)) &&
    decide (param "redirect_uri" form = param "redirect_uri" (parse g.query)) &&
    decide (param "client_secret" form = some (Wire.bytes idp.secret)) && verifierFits sha256 (parse g.query) form

/-- The grant that a token request gets, of those whose code is not spent. -/
def redeem (grants : List Grant) (spent : List String) (form : List (String × String)) : Option Grant :=
  grants.find? fun g => decide (g.code ∉ spent) && g.takes sha256 idp (parse (formBody form))

def tokenEndpoint (url : String) : Option Grant → SafeResponse
  | some g => ⟨200, idp.body g, url⟩
  | none => ⟨400, Wire.bytes "\x7b\"error\":\"invalid_grant\"\x7d", url⟩

/-- The tokens say what was approved. -/
structure Idp.Honest {Key : Type} (idp : Idp) (o : Outside Key) : Prop where
  token : ∀ {g token}, o.tokenResponse (idp.body g) = .ok (some token) → token = idp.idToken g
  nonce : ∀ {g unix key v claims nonce}, o.decode unix (idp.idToken g) key v = .ok claims →
    claims.get "nonce" = some (.string nonce) → param "nonce" (parse g.query) = some (Wire.bytes nonce)
  subject : ∀ {g unix key v claims sub}, o.decode unix (idp.idToken g) key v = .ok claims →
    claims.get "sub" = some (.string sub) → sub = g.user

/-! ## Logins -/

/-- What becomes of a token request. -/
inductive Delivery
  | answered | answerLost | requestLost
  deriving DecidableEq

/-- A call of `exchange_code` and what its token request came back with. -/
structure Call where
  login : Nat
  code : String
  response : Except String SafeResponse

structure Result where
  call : Nat
  login : Nat
  code : String
  identity : OidcIdentity

structure St where
  grants : List Grant := []
  spent : List String := []
  /-- The logins that were started, by what they drew. -/
  logins : List (Draws × OidcAuthorizeRequest) := []
  calls : List Call := []
  finished : List Nat := []
  cache : Option CachedJwks := none
  results : List Result := []

inductive Action
  | start (draws : Draws)
  | approve (query : List UInt8) (user code : String)
  /-- somebody comes back to a login with a code -/
  | request (login : Nat) (code : String) (delivery : Delivery)
  /-- the call goes on with its answer -/
  | finish (call : Nat) (clock : Clock) (keys : String → Except String SafeResponse)

variable {Key : Type} (o : Outside Key) (client : OidcClient)

/-- What a token request comes back with. -/
def answer (granted : Option Grant) : Delivery → Except String SafeResponse
  | .answered => .ok (tokenEndpoint idp client.metadata.tokenEndpoint granted)
  | .answerLost | .requestLost => .error "request deadline exceeded"

/-- The codes that are spent after a token request. -/
def spentAfter (spent : List String) (granted : Option Grant) : Delivery → List String
  | .answered | .answerLost => (granted.map Grant.code).toList ++ spent
  | .requestLost => spent

/-- The endpoints as a call sees them. -/
def Call.provider (call : Call) (keys : String → Except String SafeResponse) : Provider where
  post _ _ := call.response
  get := keys

/-- The rest of a call. -/
def exchange (s : St) (n : Nat) (call : Call) (request : OidcAuthorizeRequest) (clock : Clock)
    (keys : String → Except String SafeResponse) : St :=
  match client.exchangeCode o (call.provider keys) clock s.cache call.code request.pkceVerifier request.nonce with
  | (.ok (identity, _), cache) =>
    { s with cache, finished := n :: s.finished, results := ⟨n, call.login, call.code, identity⟩ :: s.results }
  | (.error _, cache) => { s with cache, finished := n :: s.finished }

def step (s : St) : Action → Option St
  | .start draws =>
    (client.authorize sha256 o draws).map fun request => { s with logins := s.logins ++ [(draws, request)] }
  | .approve query user code => some { s with grants := s.grants ++ [{ code, query, user }] }
  | .request login code delivery =>
    s.logins[login]?.map fun (_, request) =>
      let granted := redeem sha256 idp s.grants s.spent (client.tokenForm code request.pkceVerifier)
      { s with
        spent := spentAfter s.spent granted delivery
        calls := s.calls ++ [⟨login, code, answer idp client granted delivery⟩] }
  | .finish n clock keys =>
    if n ∈ s.finished then none
    else s.calls[n]?.bind fun call => s.logins[call.login]?.map fun (_, request) =>
      exchange o client s n call request clock keys

/-! ## One exchange -/

variable {sha256} {idp} {o} {client}

theorem requestToken_ok {p : Provider} {code verifier token : String}
    (h : client.requestToken o p code verifier = .ok token) :
    ∃ response, p.post client.metadata.tokenEndpoint (client.tokenForm code verifier) = .ok response ∧
      response.status = 200 ∧ o.tokenResponse response.body = .ok (some token) := by
  simp only [OidcClient.requestToken, Except.bind_ok_iff, Except.mapError_ok_iff] at h
  obtain ⟨response, hpost, h⟩ := h
  split at h
  · cases h
  · next hstatus =>
    simp only [Except.bind_ok_iff, Except.mapError_ok_iff] at h
    obtain ⟨idToken, htoken, h⟩ := h
    cases idToken with
    | none => cases h
    | some idToken =>
      cases h
      exact ⟨response, hpost, Decidable.not_not.1 hstatus, htoken⟩

/-- An identity comes from claims that were accepted for the nonce. -/
theorem exchangeCode_ok {p : Provider} {clock : Clock} {cache cache' : Option CachedJwks} {code verifier nonce : String}
    {identity : OidcIdentity} {claims : Json.Map}
    (h : client.exchangeCode o p clock cache code verifier nonce = (.ok (identity, claims), cache')) :
    ∃ token jwks, client.requestToken o p code verifier = .ok token ∧
      validateIdToken o clock.unix token jwks (client.expectations nonce) = .ok claims ∧
      identity = identityFromClaims client.metadata.issuer claims := by
  unfold OidcClient.exchangeCode at h
  split at h
  · cases h
  · next token htoken =>
    split at h
    · cases h
    · split at h
      · cases h
      · next jwks cache'' hkeys =>
        split at h
        · cases h
        · next claims' hvalid =>
          cases h
          exact ⟨token, jwks, htoken, hvalid, rfl⟩

theorem param_code (client : OidcClient) (code verifier : String) :
    param "code" (parse (formBody (client.tokenForm code verifier))) = some (Wire.bytes code) := by
  rw [parse_formBody, param_textPairs]
  rfl

theorem param_clientId (client : OidcClient) (code verifier : String) :
    param "client_id" (parse (formBody (client.tokenForm code verifier))) = some (Wire.bytes client.clientId) := by
  rw [parse_formBody, param_textPairs]
  rfl

theorem param_codeVerifier (client : OidcClient) (code verifier : String) :
    param "code_verifier" (parse (formBody (client.tokenForm code verifier))) = some (Wire.bytes verifier) := by
  rw [parse_formBody, param_textPairs]
  rfl

variable (sha256) (client)

/-- The grant is for a request of this client, with the login's challenge or
none. -/
structure For (request : OidcAuthorizeRequest) (g : Grant) : Prop where
  clientId : param "client_id" (parse g.query) = some (Wire.bytes client.clientId)
  challenge : ∀ c, param "code_challenge" (parse g.query) = some c →
    c = Wire.bytes (pkceChallengeS256 sha256 request.pkceVerifier)

variable {sha256} {client}

/-- A grant that is taken for a login's form. -/
theorem redeem_some {grants : List Grant} {spent : List String} {code : String} {request : OidcAuthorizeRequest}
    {g : Grant} (h : redeem sha256 idp grants spent (client.tokenForm code request.pkceVerifier) = some g) :
    g ∈ grants ∧ code ∉ spent ∧ g.code = code ∧ For sha256 client request g := by
  have htakes := List.find?_some h
  simp only [Grant.takes, param_code, param_clientId, Bool.and_eq_true, decide_eq_true_eq, Option.some.injEq,
    bytes_inj] at htakes
  obtain ⟨hunspent, ⟨⟨⟨rfl, hclient⟩, -⟩, -⟩, hverifier⟩ := htakes
  refine ⟨List.mem_of_find?_eq_some h, hunspent, rfl, hclient.symm, fun c hc => ?_⟩
  simp only [verifierFits, hc, param_codeVerifier, Option.any_some, decide_eq_true_eq] at hverifier
  exact hverifier.symm

/-- The token request was granted. -/
def Call.Granted (call : Call) : Prop := ∃ response, call.response = .ok response ∧ response.status = 200

/-- An identity is that of the grant whose tokens came back, with the login's
nonce. -/
theorem exchangeCode_grant (hidp : idp.Honest o) {call : Call} {keys : String → Except String SafeResponse}
    {clock : Clock} {cache cache' : Option CachedJwks} {request : OidcAuthorizeRequest} {identity : OidcIdentity}
    {claims : Json.Map}
    (h : client.exchangeCode o (call.provider keys) clock cache call.code request.pkceVerifier request.nonce =
      (.ok (identity, claims), cache')) :
    ∃ response, call.response = .ok response ∧ response.status = 200 ∧
      ∀ g, response.body = idp.body g →
        identity.subject = g.user ∧ param "nonce" (parse g.query) = some (Wire.bytes request.nonce) := by
  obtain ⟨token, jwks, htoken, hvalid, rfl⟩ := exchangeCode_ok h
  obtain ⟨response, hpost, hstatus, hbody⟩ := requestToken_ok htoken
  refine ⟨response, hpost, hstatus, fun g hg => ?_⟩
  rw [hg] at hbody
  cases hidp.token hbody
  obtain ⟨header, jwk, key, -, -, -, -, hdecode, hcheck⟩ := validateIdToken_ok hvalid
  obtain ⟨hnonce, ⟨sub, hsub, -, hsubject⟩, -⟩ := checkClaims_ok hcheck
  exact ⟨by rw [hsubject, hidp.subject hdecode hsub], hidp.nonce hdecode hnonce⟩

/-! ## Every run -/

/-- A granted call has spent its code, on a grant for its login. -/
def Backed (sha256 : List UInt8 → List UInt8) (idp : Idp) (client : OidcClient) (s : St) (call : Call) : Prop :=
  ∀ response, call.response = .ok response → response.status = 200 → call.code ∈ s.spent ∧
    ∃ login g, s.logins[call.login]? = some login ∧ g ∈ s.grants ∧ g.code = call.code ∧ response.body = idp.body g ∧
      For sha256 client login.2 g

/-- A result is that of a granted call, with the login's nonce. -/
def Earned (sha256 : List UInt8 → List UInt8) (client : OidcClient) (s : St) (r : Result) : Prop :=
  r.call ∈ s.finished ∧ (∃ call, s.calls[r.call]? = some call ∧ call.Granted ∧ call.code = r.code) ∧
    ∃ login g, s.logins[r.login]? = some login ∧ g ∈ s.grants ∧ g.code = r.code ∧ r.identity.subject = g.user ∧
      For sha256 client login.2 g ∧ param "nonce" (parse g.query) = some (Wire.bytes login.2.nonce)

structure Inv (sha256 : List UInt8 → List UInt8) (idp : Idp) (o : Outside Key) (client : OidcClient) (s : St) :
    Prop where
  nonces : (s.logins.map fun l => l.1.nonce).Nodup
  authorized : ∀ login ∈ s.logins, client.authorize sha256 o login.1 = some login.2
  backed : ∀ call ∈ s.calls, Backed sha256 idp client s call
  /-- No two calls are granted for one code. -/
  apart : ∀ {m n : Nat} {c d : Call}, s.calls[m]? = some c → s.calls[n]? = some d → c.Granted → d.Granted →
    c.code = d.code → m = n
  earned : ∀ r ∈ s.results, Earned sha256 client s r
  once : (s.results.map Result.code).Nodup

variable {s t : St} {a : Action}

/-- Nothing that calls and results rest on is taken back. -/
structure Grows (s t : St) : Prop where
  grants : ∀ g ∈ s.grants, g ∈ t.grants
  spent : ∀ code ∈ s.spent, code ∈ t.spent
  logins : ∀ {n : Nat} {login}, s.logins[n]? = some login → t.logins[n]? = some login
  calls : ∀ {n : Nat} {call}, s.calls[n]? = some call → t.calls[n]? = some call
  finished : ∀ n ∈ s.finished, n ∈ t.finished

theorem Backed.grows {call : Call} (h : Backed sha256 idp client s call) (hg : Grows s t) :
    Backed sha256 idp client t call := by
  intro response hresponse hstatus
  obtain ⟨hspent, login, g, hlogin, hgrant, hrest⟩ := h response hresponse hstatus
  exact ⟨hg.spent _ hspent, login, g, hg.logins hlogin, hg.grants g hgrant, hrest⟩

theorem Earned.grows {r : Result} (h : Earned sha256 client s r) (hg : Grows s t) : Earned sha256 client t r := by
  obtain ⟨hfinished, ⟨call, hcall, hgranted⟩, login, g, hlogin, hgrant, hrest⟩ := h
  exact ⟨hg.finished _ hfinished, ⟨call, hg.calls hcall, hgranted⟩, login, g, hg.logins hlogin, hg.grants g hgrant,
    hrest⟩

theorem getElem?_append_some {α : Type} {l : List α} {n : Nat} {a : α} (h : l[n]? = some a) (l' : List α) :
    (l ++ l')[n]? = some a := by
  rw [List.getElem?_append_left (List.getElem?_eq_some_iff.1 h).1, h]

/-- An element of a list with one more is one of the list or the new one. -/
theorem getElem?_append_one {α : Type} {l : List α} {n : Nat} {a b : α} (h : (l ++ [b])[n]? = some a) :
    l[n]? = some a ∨ n = l.length ∧ a = b := by
  obtain hn | hn := Nat.lt_or_ge n l.length
  · rw [List.getElem?_append_left hn] at h
    exact .inl h
  · rw [List.getElem?_append_right hn, List.getElem?_singleton] at h
    split at h
    · next hzero =>
      cases h
      exact .inr ⟨by omega, rfl⟩
    · cases h

theorem inv_init : Inv sha256 idp o client {} where
  nonces := .nil
  authorized := nofun
  backed := nofun
  apart := nofun
  earned := nofun
  once := .nil

theorem Inv.start (hi : Inv sha256 idp o client s) {draws : Draws} {request : OidcAuthorizeRequest}
    (hfresh : draws.nonce ∉ s.logins.map fun l => l.1.nonce) (h : client.authorize sha256 o draws = some request) :
    Inv sha256 idp o client { s with logins := s.logins ++ [(draws, request)] } := by
  have hg : Grows s { s with logins := s.logins ++ [(draws, request)] } :=
    ⟨fun _ h => h, fun _ h => h, fun h => getElem?_append_some h _, id, fun _ h => h⟩
  refine ⟨?_, fun login hlogin => ?_, fun call hcall => (hi.backed call hcall).grows hg, hi.apart,
    fun r hr => (hi.earned r hr).grows hg, hi.once⟩
  · rw [List.map_append, List.nodup_append_comm]
    exact List.nodup_cons.2 ⟨hfresh, hi.nonces⟩
  · obtain hlogin | hlogin := List.mem_append.1 hlogin
    · exact hi.authorized login hlogin
    · obtain rfl := List.mem_singleton.1 hlogin
      exact h

theorem Inv.approve (hi : Inv sha256 idp o client s) (g : Grant) :
    Inv sha256 idp o client { s with grants := s.grants ++ [g] } := by
  have hg : Grows s { s with grants := s.grants ++ [g] } :=
    ⟨fun _ h => List.mem_append_left _ h, fun _ h => h, id, id, fun _ h => h⟩
  exact ⟨hi.nonces, hi.authorized, fun call hcall => (hi.backed call hcall).grows hg, hi.apart,
    fun r hr => (hi.earned r hr).grows hg, hi.once⟩

theorem answer_granted {granted : Option Grant} {delivery : Delivery} {response : SafeResponse}
    (h : answer idp client granted delivery = .ok response) (hstatus : response.status = 200) :
    delivery = .answered ∧ ∃ g, granted = some g ∧ response.body = idp.body g := by
  cases delivery with
  | answerLost | requestLost => cases h
  | answered =>
    cases h
    cases granted with
    | none => cases hstatus
    | some g => exact ⟨rfl, g, rfl, rfl⟩

theorem mem_spentAfter {code : String} {spent : List String} (h : code ∈ spent) (granted : Option Grant)
    (delivery : Delivery) : code ∈ spentAfter spent granted delivery := by
  cases delivery with
  | answered | answerLost => exact List.mem_append_right _ h
  | requestLost => exact h

theorem Inv.request (hi : Inv sha256 idp o client s) {n : Nat} {login : Draws × OidcAuthorizeRequest}
    (hlogin : s.logins[n]? = some login) (code : String) (delivery : Delivery) :
    let granted := redeem sha256 idp s.grants s.spent (client.tokenForm code login.2.pkceVerifier)
    Inv sha256 idp o client
      { s with
        spent := spentAfter s.spent granted delivery
        calls := s.calls ++ [⟨n, code, answer idp client granted delivery⟩] } := by
  intro granted
  have hg : Grows s
      { s with
        spent := spentAfter s.spent granted delivery
        calls := s.calls ++ [⟨n, code, answer idp client granted delivery⟩] } :=
    ⟨fun _ h => h, fun _ h => mem_spentAfter h _ _, id, fun h => getElem?_append_some h _, fun _ h => h⟩
  -- a call that is granted now finds its code unspent, so no call before it has had it
  have hnew : ∀ {c : Call}, c ∈ s.calls → c.Granted →
      (Call.mk n code (answer idp client granted delivery)).Granted → c.code ≠ code := by
    intro c hc hcg hdg hcode
    obtain ⟨response, hresponse, hstatus⟩ := hcg
    obtain ⟨response', hresponse', hstatus'⟩ := hdg
    obtain ⟨-, g, hredeem, -⟩ := answer_granted hresponse' hstatus'
    obtain ⟨-, hunspent, -⟩ := redeem_some hredeem
    exact hunspent (hcode ▸ (hi.backed c hc response hresponse hstatus).1)
  refine ⟨hi.nonces, hi.authorized, fun call hcall => ?_, fun {i j c d} hc hd hcg hdg hcode => ?_,
    fun r hr => (hi.earned r hr).grows hg, hi.once⟩
  · obtain hcall | hcall := List.mem_append.1 hcall
    · exact (hi.backed call hcall).grows hg
    · obtain rfl := List.mem_singleton.1 hcall
      intro response hresponse hstatus
      obtain ⟨rfl, g, hredeem, hbody⟩ := answer_granted hresponse hstatus
      obtain ⟨hmem, -, hcode, hfor⟩ := redeem_some hredeem
      refine ⟨?_, login, g, hlogin, hmem, hcode, hbody, hfor⟩
      simp [spentAfter, hredeem, granted, hcode]
  · obtain hc | ⟨rfl, rfl⟩ := getElem?_append_one hc
    · obtain hd | ⟨rfl, rfl⟩ := getElem?_append_one hd
      · exact hi.apart hc hd hcg hdg hcode
      · exact absurd hcode (hnew (List.mem_of_getElem? hc) hcg hdg)
    · obtain hd | ⟨rfl, rfl⟩ := getElem?_append_one hd
      · exact absurd hcode.symm (hnew (List.mem_of_getElem? hd) hdg hcg)
      · rfl

theorem Inv.finish (hidp : idp.Honest o) (hi : Inv sha256 idp o client s) {n : Nat} {call : Call}
    {login : Draws × OidcAuthorizeRequest} (hn : n ∉ s.finished) (hcall : s.calls[n]? = some call)
    (hlogin : s.logins[call.login]? = some login) (clock : Clock) (keys : String → Except String SafeResponse) :
    Inv sha256 idp o client (exchange o client s n call login.2 clock keys) := by
  unfold exchange
  split
  · next identity claims cache h =>
    have hg : Grows s { s with cache, finished := n :: s.finished,
                               results := ⟨n, call.login, call.code, identity⟩ :: s.results } :=
      ⟨fun _ h => h, fun _ h => h, id, id, fun _ h => List.mem_cons_of_mem _ h⟩
    obtain ⟨response, hresponse, hstatus, hgrant⟩ := exchangeCode_grant hidp h
    obtain ⟨-, login', g, hlogin', hmem, hcode, hbody, hfor⟩ :=
      hi.backed call (List.mem_of_getElem? hcall) response hresponse hstatus
    cases hlogin.symm.trans hlogin'
    obtain ⟨hsubject, hnonce⟩ := hgrant g hbody
    have hgranted : call.Granted := ⟨response, hresponse, hstatus⟩
    refine ⟨hi.nonces, hi.authorized, fun c hc => (hi.backed c hc).grows hg, hi.apart, fun r hr => ?_,
      List.nodup_cons.2 ⟨fun hmem => ?_, hi.once⟩⟩
    · obtain rfl | hr := List.mem_cons.1 hr
      · exact ⟨List.mem_cons_self, ⟨call, hcall, hgranted, rfl⟩, login, g, hlogin, hmem, hcode, hsubject, hfor,
          hnonce⟩
      · exact (hi.earned r hr).grows hg
    · -- a result with this code would be of this call, which has not finished
      obtain ⟨r, hr, hrcode⟩ := List.mem_map.1 hmem
      obtain ⟨hfinished, ⟨c, hc, hcg, hccode⟩, -⟩ := hi.earned r hr
      cases hi.apart hc hcall hcg hgranted (hccode.trans hrcode)
      exact hn hfinished
  · next cache h =>
    have hg : Grows s { s with cache, finished := n :: s.finished } :=
      ⟨fun _ h => h, fun _ h => h, id, id, fun _ h => List.mem_cons_of_mem _ h⟩
    exact ⟨hi.nonces, hi.authorized, fun c hc => (hi.backed c hc).grows hg, hi.apart,
      fun r hr => (hi.earned r hr).grows hg, hi.once⟩

/-- A login draws a nonce that no login before it has. -/
def FreshNonce (s : St) : Action → Prop
  | .start draws => draws.nonce ∉ s.logins.map fun l => l.1.nonce
  | .approve .. | .request .. | .finish .. => True

instance : ∀ (s : St) (a : Action), Decidable (FreshNonce s a)
  | s, .start draws => inferInstanceAs (Decidable (draws.nonce ∉ s.logins.map fun l => l.1.nonce))
  | _, .approve .. | _, .request .. | _, .finish .. => isTrue trivial

theorem step_keeps_inv (hidp : idp.Honest o) (hi : Inv sha256 idp o client s) (hfresh : FreshNonce s a)
    (h : step sha256 idp o client s a = some t) : Inv sha256 idp o client t := by
  cases a with
  | start draws =>
    obtain ⟨request, hrequest, rfl⟩ := Option.map_eq_some_iff.1 h
    exact hi.start hfresh hrequest
  | approve query user code =>
    cases h
    exact hi.approve _
  | request login code delivery =>
    obtain ⟨⟨draws, request⟩, hlogin, rfl⟩ := Option.map_eq_some_iff.1 h
    exact hi.request hlogin code delivery
  | finish n clock keys =>
    simp only [step] at h
    split at h
    · cases h
    · next hn =>
      obtain ⟨call, hcall, h⟩ := Option.bind_eq_some_iff.1 h
      obtain ⟨⟨draws, request⟩, hlogin, rfl⟩ := Option.map_eq_some_iff.1 h
      exact hi.finish hidp hn hcall hlogin clock keys

/-! ## Apart -/

/-- The authorize URL of a login carries its nonce, if the endpoint's own query
has none. -/
theorem param_nonce {draws : Draws} {request : OidcAuthorizeRequest}
    (h : client.authorize sha256 o draws = some request)
    (hown : ∀ url, o.parseUrl client.metadata.authorizationEndpoint = .ok url →
      ∀ p ∈ parse (Wire.bytes (url.query.getD "")), p.1 ≠ Wire.bytes "nonce") :
    param "nonce" (parse request.url.query) = some (Wire.bytes (randomToken draws.nonce)) ∧
      request.nonce = randomToken draws.nonce := by
  unfold OidcClient.authorize at h
  split at h
  · cases h
  · next url hurl =>
    cases h
    refine ⟨?_, rfl⟩
    rw [parse_appendPairs, param_append (hown url hurl), param_textPairs]
    rfl

/-- **A login ends with a user who approved it.** Whatever users are made to
approve, whoever comes back to which login with which code, and however the
calls interleave: an identity that a login returns is that of a user who has
approved a request of this client with the login's nonce, and with its
challenge or none. If what was approved is the URL of some login, it is that
of this login and no other. And no code gives two identities. -/
theorem logins_apart (hidp : idp.Honest o)
    (hown : ∀ url, o.parseUrl client.metadata.authorizationEndpoint = .ok url →
      ∀ p ∈ parse (Wire.bytes (url.query.getD "")), p.1 ≠ Wire.bytes "nonce")
    {as : List Action} (hfresh : Runs.Along (step sha256 idp o client) FreshNonce {} as)
    (hr : Runs.run (step sha256 idp o client) {} as = some s) :
    (s.results.map Result.code).Nodup ∧
      ∀ r ∈ s.results, ∃ login g, s.logins[r.login]? = some login ∧ g ∈ s.grants ∧ g.code = r.code ∧
        r.identity.subject = g.user ∧ For sha256 client login.2 g ∧
        param "nonce" (parse g.query) = some (Wire.bytes login.2.nonce) ∧
        ∀ n other, s.logins[n]? = some other → g.query = other.2.url.query → n = r.login := by
  have hi : Inv sha256 idp o client s :=
    Runs.invariant_along (fun hi hf h => step_keeps_inv hidp hi hf h) hfresh hr inv_init
  refine ⟨hi.once, fun r hrmem => ?_⟩
  obtain ⟨-, -, login, g, hlogin, hg, hcode, hsubject, hfor, hboth⟩ := hi.earned r hrmem
  refine ⟨login, g, hlogin, hg, hcode, hsubject, hfor, hboth, fun n other hother hquery => ?_⟩
  obtain ⟨hsent, -⟩ := param_nonce (hi.authorized other (List.mem_of_getElem? hother)) hown
  obtain ⟨-, hnonce⟩ := param_nonce (hi.authorized login (List.mem_of_getElem? hlogin)) hown
  -- the grant's nonce is that of both logins, and nonces are drawn once
  have hsame : randomToken other.1.nonce = randomToken login.1.nonce := by
    rw [hquery, hsent, Option.some.injEq, bytes_inj, hnonce] at hboth
    exact hboth
  have hat : (s.logins.map fun l => l.1.nonce)[n]? = (s.logins.map fun l => l.1.nonce)[r.login]? := by
    rw [List.getElem?_map, List.getElem?_map, hother, hlogin, Option.map_some, Option.map_some, randomToken_inj hsame]
  have hn : n < s.logins.length := (List.getElem?_eq_some_iff.1 hother).1
  exact (List.getElem?_inj (by rwa [List.length_map]) hi.nonces).1 hat

/-! ## Two logins -/

/-- What the n-th of two logins draws. -/
def drawn (n : UInt8) : Draws := ⟨Vector.replicate 32 n, Vector.replicate 32 n, Vector.replicate 32 n⟩

/-- In place of SHA-256, the first byte. -/
def firstByte (bytes : List UInt8) : List UInt8 := bytes.take 1

def plainClient : OidcClient := idpClient "https://idp.example.com"

/-- The user approves the URL of the login with these draws. -/
def grantOf (n : UInt8) (user : String) : Grant where
  code := user
  query := formBody (plainClient.authorizePairs firstByte (drawn n))
  user

def alice : Grant := grantOf 0 "alice"

def mallory : Grant := grantOf 255 "mallory"

def twoUsers : Idp where
  secret := "secret"
  body g := if g = alice ∨ g = mallory then Wire.bytes g.user else []
  idToken g := if g = alice ∨ g = mallory then g.user else ""

def claimsOf (n : UInt8) (user : String) : Json.Map :=
  [("iss", .string "https://idp.example.com"), ("sub", .string user), ("aud", .string "client"),
    ("nonce", .string (randomToken (drawn n).nonce))]

def twoUsersOutside : Outside Unit :=
  { OAuth.idp "https://idp.example.com" with
    tokenResponse := fun body =>
      if body = Wire.bytes "alice" then .ok (some "alice")
      else if body = Wire.bytes "mallory" then .ok (some "mallory") else .error "EOF while parsing a value"
    decode := fun _ token _ _ =>
      if token = "alice" then .ok (claimsOf 0 "alice")
      else if token = "mallory" then .ok (claimsOf 255 "mallory") else .error "InvalidToken" }

theorem param_nonce_grantOf (n : UInt8) (user : String) :
    param "nonce" (parse (grantOf n user).query) = some (Wire.bytes (randomToken (drawn n).nonce)) := by
  rw [grantOf, parse_formBody, param_textPairs]
  rfl

/-- A token that decodes is one of the two. -/
theorem twoUsers_decode {g : Grant} {unix : Nat} {v : Validation} {claims : Json.Map}
    (h : twoUsersOutside.decode unix (twoUsers.idToken g) () v = .ok claims) :
    ∃ n, g = grantOf n g.user ∧ claims = claimsOf n g.user := by
  by_cases hg : g = alice ∨ g = mallory
  · rw [show twoUsers.idToken g = g.user from if_pos hg] at h
    obtain rfl | rfl := hg
    · exact ⟨0, rfl, (Except.ok.inj h).symm⟩
    · exact ⟨255, rfl, (Except.ok.inj h).symm⟩
  · simp only [twoUsers, if_neg hg] at h
    cases h

theorem twoUsers_honest : twoUsers.Honest twoUsersOutside where
  token {g token} h := by
    by_cases hg : g = alice ∨ g = mallory
    · rw [show twoUsers.body g = Wire.bytes g.user from if_pos hg] at h
      rw [show twoUsers.idToken g = g.user from if_pos hg]
      obtain rfl | rfl := hg
      · exact (Option.some.inj (Except.ok.inj h)).symm
      · exact (Option.some.inj (Except.ok.inj h)).symm
    · simp only [twoUsers, if_neg hg] at h
      cases h
  nonce h hnonce := by
    obtain ⟨n, hg, rfl⟩ := twoUsers_decode h
    cases hnonce
    rw [hg]
    exact param_nonce_grantOf n _
  subject h hsub := by
    obtain ⟨n, -, rfl⟩ := twoUsers_decode h
    cases hsub
    rfl

/-- Mallory's code is tried on Alice's login first, and the calls overlap. -/
def twoLogins : List Action :=
  [.start (drawn 0), .start (drawn 255), .approve mallory.query "mallory" "mallory", .request 0 "mallory" .answered,
    .approve alice.query "alice" "alice", .request 0 "alice" .answered, .request 1 "mallory" .answered,
    .finish 2 ⟨0, 0, 0⟩ fun _ => .ok ⟨200, [], ""⟩, .finish 0 ⟨0, 0, 0⟩ fun _ => .ok ⟨200, [], ""⟩,
    .finish 1 ⟨0, 0, 0⟩ fun _ => .ok ⟨200, [], ""⟩]

theorem logins_apart_twoLogins :
    ∃ s, Runs.run (step firstByte twoUsers twoUsersOutside plainClient) {} twoLogins = some s ∧
      s.results.map (fun r => (r.login, r.code, r.identity.subject)) =
        [(0, "alice", "alice"), (1, "mallory", "mallory")] ∧
      (s.results.map Result.code).Nodup ∧
      ∀ r ∈ s.results, ∃ login g, s.logins[r.login]? = some login ∧ g ∈ s.grants ∧ g.code = r.code ∧
        r.identity.subject = g.user ∧ For firstByte plainClient login.2 g ∧
        param "nonce" (parse g.query) = some (Wire.bytes login.2.nonce) ∧
        ∀ n other, s.logins[n]? = some other → g.query = other.2.url.query → n = r.login := by
  have hends : (Runs.run (step firstByte twoUsers twoUsersOutside plainClient) {} twoLogins).map
      (fun s => s.results.map fun r => (r.login, r.code, r.identity.subject)) =
      some [(0, "alice", "alice"), (1, "mallory", "mallory")] := by decide +kernel
  have hfresh : Runs.Along (step firstByte twoUsers twoUsersOutside plainClient) FreshNonce {} twoLogins := by
    decide +kernel
  obtain ⟨s, hr, hresults⟩ := Option.map_eq_some_iff.1 hends
  refine ⟨s, hr, hresults, logins_apart twoUsers_honest (fun url hurl p hp => ?_) hfresh hr⟩
  cases hurl
  cases hp

end FerrKit.OAuth.Login
