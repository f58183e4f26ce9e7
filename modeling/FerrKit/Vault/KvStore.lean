/-
The requests of the Vault client (`crates/vault/src/lib.rs`: `write_secret`,
`read_secret`, `delete_secret`, `parse_secret_value`) against a KV v2 engine.

The engine keeps a JSON object for each list of path segments below its
mount and handles one request at a time. It sees a request by the segments of
its URL (`FerrKit.Vault.KvUrl`) and nothing else of the path. Clones of the
client make calls that overlap. A request reaches the engine at most once, at
any time after its call has begun: the call may be answered then, or be
refused with some other status or given up on, before or after.

Seen through the client the engine is a map from segments to strings
(`secrets`), and the history of the calls is linearizable for it. That is for
paths without tabs and line breaks, where `kvUrl_segments` holds.
-/
import FerrKit.Lib.Histories
import FerrKit.Lib.Json
import FerrKit.Lib.Runs
import FerrKit.Vault.KvUrl

namespace FerrKit.Vault

open Runs
open Histories (Event)

/-- The segments of a secret's path, below `data` or `metadata`. -/
abbrev Segments := List (List Char)

/-- `SECRET_FIELD`. -/
def secretField : String := "value"

/-! ## The client -/

inductive Method
  | get | post | delete
  deriving DecidableEq

/-- What the client sends. -/
structure Request (U : UrlCrate) where
  method : Method
  url : U.Url
  vaultToken : List Char
  json : Option Json.Value

/-- What comes of a request: `json` is the body, when it parses. -/
inductive Reply
  | failed
  | response (status : Nat) (json : Option Json.Value)

inductive VaultError
  | url (e : KvUrlError)
  | requestFailed (verb : String)
  | returned (verb : String) (status : Nat)
  | parsing
  deriving DecidableEq

/-- The outermost text; `status` is how a status code is displayed. -/
def VaultError.display (status : Nat → String) : VaultError → String
  | .url e => e.display
  | .requestFailed verb => "vault " ++ verb ++ " request failed"
  | .returned verb code => "vault " ++ verb ++ " returned " ++ status code
  | .parsing => "parsing vault response"

/-- `StatusCode::is_success`. -/
def isSuccess (status : Nat) : Bool := 200 ≤ status && status < 300

def parseSecretValue (body : Json.Value) : Option String := do
  let data ← body.get "data"
  let data ← data.get "data"
  let value ← data.get secretField
  value.asStr

inductive Op
  | write (path : List Char) (value : String)
  | read (path : List Char)
  | delete (path : List Char)
  deriving DecidableEq

def Op.path : Op → List Char
  | .write path _ | .read path | .delete path => path

/-- What an operation returns; only a read has a value. -/
inductive Outcome
  | done
  | value (v : Option String)
  | error (e : VaultError)
  deriving DecidableEq

def Op.method : Op → Method
  | .write .. => .post
  | .read _ => .get
  | .delete _ => .delete

def Op.url (U : UrlCrate) (c : VaultClient) : Op → Except KvUrlError U.Url
  | .write path _ | .read path => c.dataUrl U path
  | .delete path => c.metadataUrl U path

/-- `json!({ "data": { SECRET_FIELD: value } })`. -/
def Op.json : Op → Option Json.Value
  | .write _ value => some (.object [("data", .object [(secretField, .string value)])])
  | .read _ | .delete _ => none

/-- The request an operation makes. -/
def VaultClient.request (U : UrlCrate) (c : VaultClient) (op : Op) : Except VaultError (Request U) :=
  match op.url U c with
  | .ok url => .ok ⟨op.method, url, c.token, op.json⟩
  | .error e => .error (.url e)

def writeOutcome : Reply → Outcome
  | .failed => .error (.requestFailed "write")
  | .response status _ => if isSuccess status then .done else .error (.returned "write" status)

def readOutcome : Reply → Outcome
  | .failed => .error (.requestFailed "read")
  | .response status json =>
    if status = 404 then .value none
    else if isSuccess status then
      match json with
      | some body => .value (parseSecretValue body)
      | none => .error .parsing
    else .error (.returned "read" status)

def deleteOutcome : Reply → Outcome
  | .failed => .error (.requestFailed "delete")
  | .response status _ =>
    if isSuccess status || status = 404 then .done else .error (.returned "delete" status)

/-- What the operation makes of the reply. -/
def Op.outcome : Op → Reply → Outcome
  | .write .., reply => writeOutcome reply
  | .read _, reply => readOutcome reply
  | .delete _, reply => deleteOutcome reply

/-! ## The engine -/

/-- The current data of each secret. -/
abbrev Kv := Segments → Option Json.Value

def Kv.put (kv : Kv) (segments : Segments) (data : Option Json.Value) : Kv :=
  fun segments' => if segments' = segments then data else kv segments'

/-- What is left of the URL below `{base}/{kind}`. -/
def below (base : Segments) (kind : List Char) (url : Segments) : Option Segments :=
  if base ++ [kind] <+: url then some (url.drop (base.length + 1)) else none

/-- A KV v2 engine mounted at `base`. Other requests are not for it. -/
def Kv.handle {U : UrlCrate} (base : Segments) (kv : Kv) (r : Request U) : Kv × Reply :=
  match r.method with
  | .post =>
    match below base "data".toList (U.segments r.url), r.json.bind (·.get "data") with
    | some segments, some data => (kv.put segments (some data), .response 200 none)
    | _, _ => (kv, .response 404 none)
  | .get =>
    match below base "data".toList (U.segments r.url) with
    | some segments =>
      match kv segments with
      | some data => (kv, .response 200 (some (.object [("data", .object [("data", data), ("metadata", .null)])])))
      | none => (kv, .response 404 none)
    | none => (kv, .response 404 none)
  | .delete =>
    match below base "metadata".toList (U.segments r.url) with
    | some segments => (kv.put segments none, .response 204 none)
    | none => (kv, .response 404 none)

/-! ## Calls that overlap -/

/-- What becomes of a call: answered, with a body that may be unreadable;
refused with another status; or given up on. -/
inductive Net
  | answered (readable : Bool)
  | refused (status : Nat)
  | unanswered

structure Call (U : UrlCrate) where
  op : Op
  /-- Nothing, when there is no URL. -/
  sent : Option (Request U)
  /-- What the engine has answered. -/
  reply : Option Reply := none
  returned : Bool := false

/-- A call is known by when it began. -/
structure KvSys (U : UrlCrate) where
  kv : Kv
  calls : List (Call U) := []
  history : List (Event Op Outcome) := []

inductive KvAction
  | begin (op : Op)
  /-- The engine handles the request, whether or not anybody waits for it. -/
  | handle (i : Nat)
  | finish (i : Nat) (net : Net)

/-- The body is lost. -/
def Reply.unreadable : Reply → Reply
  | .failed => .failed
  | .response status _ => .response status none

/-- What the caller gets to see. -/
def Net.reply (reply : Option Reply) : Net → Option Reply
  | .answered readable => reply.map fun r => if readable then r else r.unreadable
  -- a 404 says that there is no such secret
  | .refused status => if isSuccess status || status = 404 then none else some (.response status none)
  | .unanswered => some .failed

def KvSys.handle {U : UrlCrate} (base : Segments) (s : KvSys U) (i : Nat) (call : Call U) (r : Request U) : KvSys U :=
  { s with
    kv := (s.kv.handle base r).1
    calls := s.calls.set i { call with reply := some (s.kv.handle base r).2 } }

def KvSys.finish {U : UrlCrate} (s : KvSys U) (i : Nat) (call : Call U) (outcome : Outcome) : KvSys U :=
  { s with
    calls := s.calls.set i { call with returned := true }
    history := s.history ++ [.returned i outcome] }

def KvSys.opened {U : UrlCrate} (s : KvSys U) (call : Call U) : KvSys U :=
  { s with calls := s.calls ++ [call], history := s.history ++ [.begun s.calls.length call.op] }

def KvSys.begin {U : UrlCrate} (c : VaultClient) (s : KvSys U) (op : Op) : KvSys U :=
  match c.request U op with
  | .ok r => s.opened { op, sent := some r }
  -- no URL, no request
  | .error e => (s.opened { op, sent := none }).finish s.calls.length { op, sent := none } (.error e)

def kvStep (U : UrlCrate) (c : VaultClient) (base : Segments) (s : KvSys U) : KvAction → Option (KvSys U)
  | .begin op => some (s.begin c op)
  | .handle i => do
    let call ← s.calls[i]?
    let r ← call.sent
    if call.reply.isSome then none else some (s.handle base i call r)
  | .finish i net => do
    let call ← s.calls[i]?
    let reply ← net.reply call.reply
    if call.returned then none else some (s.finish i call (call.op.outcome reply))

/-! ## The map behind it -/

/-- What the client would read. -/
def view (kv : Kv) : Segments → Option String := fun segments =>
  (kv segments).bind fun data => (data.get secretField).bind Json.Value.asStr

/-- The operation on a map. -/
def Op.apply : Op → (Segments → Option String) → Segments → Option String
  | .write path value, m => Function.update m (pathSegments path) (some value)
  | .delete path, m => Function.update m (pathSegments path) none
  | .read _, m => m

def Op.result : Op → (Segments → Option String) → Outcome
  | .read path, m => .value (m (pathSegments path))
  | .write .., _ | .delete _, _ => .done

def Outcome.isError : Outcome → Bool
  | .error _ => true
  | .done | .value _ => false

def secrets : Histories.Object (Segments → Option String) Op Outcome where
  apply := Op.apply
  result := Op.result
  failed := Outcome.isError

/-! ## The engine refines the map -/

/-- `{addr}/v1/{mount}`. -/
def VaultClient.kvBase (c : VaultClient) (addrSegments : Segments) : Segments :=
  ownSegments addrSegments ++ ["v1".toList] ++ c.mount.splitOn '/'

/-- No tabs, no line breaks. -/
def Op.Plain (op : Op) : Prop := ∀ x ∈ op.path, dropped x = false

theorem below_append (base segments : Segments) (kind : List Char) :
    below base kind (base ++ [kind] ++ segments) = some segments := by
  have hlen : (base ++ [kind]).length = base.length + 1 := by simp
  rw [below, if_pos (List.prefix_append _ _), ← hlen, List.drop_left]

/-- What a caller can take from the reply, over a map. -/
def Op.Answers (op : Op) (m : Segments → Option String) (reply : Reply) : Prop :=
  ∀ readable : Bool, (op.outcome (if readable then reply else reply.unreadable)).isError = false →
    op.outcome (if readable then reply else reply.unreadable) = op.result m

section Refines

variable {U : UrlCrate} {c : VaultClient} {addr : U.Url} {op : Op} {r : Request U} (kv : Kv)

variable (hU : U.Lawful) (hmount : ∀ s ∈ c.mount.splitOn '/', Plain s) (haddr : U.parse c.addr = some addr)
include hU hmount haddr

/-- The URL of a plain path, as the engine sees it. -/
theorem below_kvUrl {kind path : List Char} {url : U.Url} (hkind : kind = "data".toList ∨ kind = "metadata".toList)
    (h : c.kvUrl U kind path = .ok url) (hpath : ∀ x ∈ path, dropped x = false) :
    below (c.kvBase (U.segments addr)) kind (U.segments url) = some (pathSegments path) := by
  rw [kvUrl_segments hU hmount hkind haddr h hpath]
  exact below_append _ _ _

omit hU hmount haddr in
theorem request_ok (h : c.request U op = .ok r) :
    ∃ url, op.url U c = .ok url ∧ r = ⟨op.method, url, c.token, op.json⟩ := by
  unfold VaultClient.request at h
  split at h
  · next url hurl =>
    cases h
    exact ⟨url, hurl, rfl⟩
  · cases h

/-- The data of a secret in the body of a reply. -/
def dataBody (data : Json.Value) : Json.Value := .object [("data", .object [("data", data), ("metadata", .null)])]

omit hU hmount haddr in
theorem parseSecretValue_dataBody (data : Json.Value) :
    parseSecretValue (dataBody data) = (data.get secretField).bind Json.Value.asStr := by
  simp [parseSecretValue, dataBody, Json.Value.get, Json.Map.get]

/-- A write is stored and acknowledged. -/
theorem handle_write {path : List Char} {value : String} (h : c.request U (.write path value) = .ok r)
    (hp : (Op.write path value).Plain) :
    kv.handle (c.kvBase (U.segments addr)) r =
      (kv.put (pathSegments path) (some (.object [(secretField, .string value)])), .response 200 none) := by
  obtain ⟨url, hurl, rfl⟩ := request_ok h
  have hbelow := below_kvUrl hU hmount haddr (.inl rfl) hurl hp
  have hjson : (Op.write path value).json.bind (·.get "data") = some (.object [(secretField, .string value)]) := by
    simp [Op.json, Json.Value.get, Json.Map.get]
  simp only [Kv.handle, Op.method, hbelow, hjson]

theorem handle_delete {path : List Char} (h : c.request U (.delete path) = .ok r) (hp : (Op.delete path).Plain) :
    kv.handle (c.kvBase (U.segments addr)) r = (kv.put (pathSegments path) none, .response 204 none) := by
  obtain ⟨url, hurl, rfl⟩ := request_ok h
  have hbelow := below_kvUrl hU hmount haddr (.inr rfl) hurl hp
  simp only [Kv.handle, Op.method, hbelow]

theorem handle_read {path : List Char} (h : c.request U (.read path) = .ok r) (hp : (Op.read path).Plain) :
    kv.handle (c.kvBase (U.segments addr)) r =
      (kv, (kv (pathSegments path)).elim (.response 404 none) fun data => .response 200 (some (dataBody data))) := by
  obtain ⟨url, hurl, rfl⟩ := request_ok h
  have hbelow := below_kvUrl hU hmount haddr (.inl rfl) hurl hp
  simp only [Kv.handle, Op.method, hbelow]
  cases kv (pathSegments path) <;> rfl

omit hU hmount haddr in
theorem view_put (segments : Segments) (data : Option Json.Value) :
    view (kv.put segments data) = fun segments' =>
      if segments' = segments then data.bind fun d => (d.get secretField).bind Json.Value.asStr
      else view kv segments' := by
  funext segments'
  unfold view Kv.put
  split <;> rfl

/-- The engine does to its map what the operation says. -/
theorem view_handle (h : c.request U op = .ok r) (hp : op.Plain) :
    view (kv.handle (c.kvBase (U.segments addr)) r).1 = op.apply (view kv) := by
  cases op with
  | write path value =>
    rw [handle_write kv hU hmount haddr h hp, view_put]
    funext segments
    simp [Op.apply, Function.update_apply, Json.Value.get, Json.Map.get, Json.Value.asStr]
  | read path =>
    rw [handle_read kv hU hmount haddr h hp]
    rfl
  | delete path =>
    rw [handle_delete kv hU hmount haddr h hp, view_put]
    funext segments
    simp [Op.apply, Function.update_apply]

/-- What the engine answers is what is in the map: a call that gets the answer
fails or returns that, whether or not the body is readable. -/
theorem answers_handle (h : c.request U op = .ok r) (hp : op.Plain) :
    op.Answers (view kv) (kv.handle (c.kvBase (U.segments addr)) r).2 := by
  intro readable
  cases op with
  | write path value =>
    rw [handle_write kv hU hmount haddr h hp]
    cases readable <;> exact fun _ => rfl
  | delete path =>
    rw [handle_delete kv hU hmount haddr h hp]
    cases readable <;> exact fun _ => rfl
  | read path =>
    rw [handle_read kv hU hmount haddr h hp, Op.result, view]
    cases kv (pathSegments path) with
    | none => cases readable <;> exact fun _ => rfl
    | some data =>
      cases readable with
      | false =>
        intro hok
        cases hok
      | true =>
        intro _
        simp only [if_true, Option.elim_some, Op.outcome, readOutcome, Option.bind_some]
        rw [if_neg (by decide), if_pos (by decide), parseSecretValue_dataBody]

end Refines

/-! ## Every run -/

/-- A call of a run, with an order of the operations so far. -/
structure CallOk {U : UrlCrate} (c : VaultClient) (m : Segments → Option String) (history : List (Event Op Outcome))
    (order : List (Nat × Op)) (i : Nat) (call : Call U) : Prop where
  begun : .begun i call.op ∈ history
  sent : ∀ r, call.sent = some r → call.op.Plain ∧ c.request U call.op = .ok r
  waiting : call.reply = none → i ∉ Histories.calls order
  handled : ∀ reply, call.reply = some reply →
    ∃ pre post, order = pre ++ (i, call.op) :: post ∧ call.op.Answers (secrets.replay m pre) reply

/-- The engine holds what the operations make of what it held first. -/
structure KvInv {U : UrlCrate} (c : VaultClient) (kv : Kv) (s : KvSys U) (order : List (Nat × Op)) : Prop where
  explains : secrets.Explains (view kv) s.history order
  held : view s.kv = secrets.replay (view kv) order
  known : ∀ i op, .begun i op ∈ s.history → i < s.calls.length
  calls : ∀ i call, s.calls[i]? = some call → CallOk c (view kv) s.history order i call

def PlainPaths {U : UrlCrate} (_ : KvSys U) : KvAction → Prop
  | .begin op => op.Plain
  | .handle _ | .finish _ _ => True

section Runs

variable {U : UrlCrate} {c : VaultClient} {addr : U.Url} {kv₀ : Kv} {s t : KvSys U} {a : KvAction} {op : Op} {i : Nat}
  {call : Call U} {order : List (Nat × Op)} {m : Segments → Option String} {history : List (Event Op Outcome)}

theorem CallOk.later (h : CallOk c m history order i call) (more : List (Event Op Outcome)) :
    CallOk c m (history ++ more) order i call :=
  ⟨List.mem_append_left _ h.begun, h.sent, h.waiting, h.handled⟩

/-- Another call takes effect. -/
theorem CallOk.other (h : CallOk c m history order i call) {j : Nat} (hne : i ≠ j) :
    CallOk c m history (order ++ [(j, op)]) i call where
  begun := h.begun
  sent := h.sent
  waiting hnone := by simpa [hne] using h.waiting hnone
  handled reply hreply := by
    obtain ⟨pre, post, he, hanswers⟩ := h.handled reply hreply
    exact ⟨pre, post ++ [(j, op)], by simp [he], hanswers⟩

/-- A status other than a success and a 404 is an error of every operation. -/
theorem refused_error (op : Op) {status : Nat} (h : (isSuccess status || decide (status = 404)) = false) :
    (op.outcome (.response status none)).isError = true := by
  simp only [Bool.or_eq_false_iff, decide_eq_false_iff_not] at h
  cases op with
  | write path value => simp [Op.outcome, writeOutcome, h.1, Outcome.isError]
  | read path => simp [Op.outcome, readOutcome, h.1, h.2, Outcome.isError]
  | delete path => simp [Op.outcome, deleteOutcome, h.1, h.2, Outcome.isError]

/-- What a call returns that does not fail comes from the engine. -/
theorem reply_of_ok {net : Net} {sent : Option Reply} {reply : Reply} (h : net.reply sent = some reply)
    (hok : (op.outcome reply).isError = false) :
    ∃ r, ∃ readable : Bool, sent = some r ∧ reply = if readable then r else r.unreadable := by
  cases net with
  | answered readable =>
    obtain ⟨r, hr, rfl⟩ := Option.map_eq_some_iff.1 h
    exact ⟨r, readable, hr, rfl⟩
  | refused status =>
    simp only [Net.reply] at h
    split at h
    · cases h
    · next href =>
      cases h
      rw [refused_error op (Bool.eq_false_iff.2 href)] at hok
      cases hok
  | unanswered =>
    cases h
    cases op <;> cases hok

theorem KvInv.opened (h : KvInv c kv₀ s order) (hreply : call.reply = none)
    (hsent : ∀ r, call.sent = some r → call.op.Plain ∧ c.request U call.op = .ok r) :
    KvInv c kv₀ (s.opened call) order := by
  have hnew : ∀ op', .begun s.calls.length op' ∉ s.history := fun op' hop' => absurd (h.known _ _ hop') (Nat.lt_irrefl _)
  refine ⟨h.explains.begins hnew, h.held, fun j op hj => ?_, fun j call' hj => ?_⟩
  · simp only [KvSys.opened, List.length_append, List.length_singleton]
    obtain hj | hj := List.mem_append.1 hj
    · exact Nat.lt_succ_of_lt (h.known j op hj)
    · cases List.mem_singleton.1 hj
      exact Nat.lt_succ_self _
  · simp only [KvSys.opened] at hj
    by_cases hlt : j < s.calls.length
    · rw [List.getElem?_append_left hlt] at hj
      exact (h.calls j call' hj).later _
    · obtain rfl : j = s.calls.length := by
        have hle := (List.getElem?_eq_some_iff.1 hj).1
        simp only [List.length_append, List.length_singleton] at hle
        omega
      rw [List.getElem?_concat_length, Option.some.injEq] at hj
      subst hj
      refine ⟨by simp [KvSys.opened], hsent, fun _ hc => ?_, by simp [hreply]⟩
      obtain ⟨op', hop'⟩ := h.explains.begun_of_mem hc
      exact hnew op' hop'

theorem KvInv.finish (h : KvInv c kv₀ s order) {outcome : Outcome} (hc : s.calls[i]? = some call)
    (hout : outcome.isError = false →
      ∃ pre post, order = pre ++ (i, call.op) :: post ∧ outcome = call.op.result (secrets.replay (view kv₀) pre)) :
    KvInv c kv₀ (s.finish i call outcome) order := by
  have hcall := h.calls i call hc
  have hexplains : secrets.Explains (view kv₀) (s.history ++ [.returned i outcome]) order := by
    refine h.explains.returns fun hok => ?_
    obtain ⟨pre, post, he, hresult⟩ := hout hok
    exact ⟨pre, call.op, post, he, hresult⟩
  refine ⟨hexplains, h.held, fun j op hj => ?_, fun j call' hj => ?_⟩
  · simp only [KvSys.finish, List.length_set]
    exact h.known j op (by simpa [KvSys.finish] using hj)
  · by_cases hij : i = j
    · subst hij
      have hlt : i < s.calls.length := (List.getElem?_eq_some_iff.1 hc).1
      simp only [KvSys.finish, List.getElem?_set_self hlt, Option.some.injEq] at hj
      subst hj
      exact ⟨List.mem_append_left _ hcall.begun, hcall.sent, hcall.waiting, hcall.handled⟩
    · simp only [KvSys.finish, List.getElem?_set_ne hij] at hj
      exact (h.calls j call' hj).later _

theorem KvInv.begin (h : KvInv c kv₀ s order) (hp : op.Plain) : KvInv c kv₀ (s.begin c op) order := by
  unfold KvSys.begin
  split
  · next r hr =>
    refine h.opened rfl fun r' hr' => ?_
    cases hr'
    exact ⟨hp, hr⟩
  · have hopened : KvInv c kv₀ (s.opened { op, sent := none }) order := h.opened rfl fun r hr => by cases hr
    exact hopened.finish (by simp [KvSys.opened]) nofun

section Step

variable (hU : U.Lawful) (hmount : ∀ s ∈ c.mount.splitOn '/', Plain s) (haddr : U.parse c.addr = some addr)
include hU hmount haddr

/-- The operation takes effect when the engine handles it. -/
theorem KvInv.handle (h : KvInv c kv₀ s order) {r : Request U} (hc : s.calls[i]? = some call)
    (hsent : call.sent = some r) (hreply : call.reply = none) :
    KvInv c kv₀ (s.handle (c.kvBase (U.segments addr)) i call r) (order ++ [(i, call.op)]) := by
  have hcall := h.calls i call hc
  obtain ⟨hp, hreq⟩ := hcall.sent r hsent
  refine ⟨h.explains.effect hcall.begun (hcall.waiting hreply), ?_, fun j op hj => ?_, fun j call' hj => ?_⟩
  · rw [Histories.replay_concat, ← h.held]
    exact view_handle s.kv hU hmount haddr hreq hp
  · simp only [KvSys.handle, List.length_set]
    exact h.known j op hj
  · by_cases hij : i = j
    · subst hij
      have hlt : i < s.calls.length := (List.getElem?_eq_some_iff.1 hc).1
      simp only [KvSys.handle, List.getElem?_set_self hlt, Option.some.injEq] at hj
      subst hj
      refine ⟨hcall.begun, hcall.sent, nofun, fun reply hr => ?_⟩
      cases hr
      refine ⟨order, [], rfl, ?_⟩
      rw [← h.held]
      exact answers_handle s.kv hU hmount haddr hreq hp
    · simp only [KvSys.handle, List.getElem?_set_ne hij] at hj
      exact (h.calls j call' hj).other (Ne.symm hij)

theorem kvStep_inv (h : ∃ order, KvInv c kv₀ s order) (hp : PlainPaths s a)
    (hs : kvStep U c (c.kvBase (U.segments addr)) s a = some t) : ∃ order, KvInv c kv₀ t order := by
  obtain ⟨order, h⟩ := h
  cases a with
  | «begin» op =>
    cases hs
    exact ⟨order, h.begin hp⟩
  | handle i =>
    obtain ⟨call, hc, hs⟩ := Option.bind_eq_some_iff.1 hs
    obtain ⟨r, hr, hs⟩ := Option.bind_eq_some_iff.1 hs
    split at hs
    · cases hs
    · next hreply =>
      cases hs
      exact ⟨_, h.handle hU hmount haddr hc hr (Option.not_isSome_iff_eq_none.1 hreply)⟩
  | finish i net =>
    obtain ⟨call, hc, hs⟩ := Option.bind_eq_some_iff.1 hs
    obtain ⟨reply, hreply, hs⟩ := Option.bind_eq_some_iff.1 hs
    split at hs
    · cases hs
    · cases hs
      refine ⟨order, h.finish hc fun hok => ?_⟩
      obtain ⟨r, readable, hr, rfl⟩ := reply_of_ok hreply hok
      obtain ⟨pre, post, he, hanswers⟩ := (h.calls i call hc).handled r hr
      exact ⟨pre, post, he, hanswers readable hok⟩

end Step

end Runs

/-- Two writes that return in the order they were not handled in, with a read
that finds the second while both go on; then a delete that is handled after
its caller has given up. -/
def overlapping : List KvAction :=
  [.begin (.write "a/b".toList "x"), .begin (.write "/a/b/".toList "y"), .begin (.read "a/b".toList), .handle 0,
    .handle 1, .handle 2, .finish 2 (.answered true), .finish 1 (.answered true), .finish 0 (.answered false),
    .begin (.delete "a/b".toList), .finish 3 .unanswered, .handle 3, .begin (.read "a/b".toList), .handle 4,
    .finish 4 (.answered false)]

theorem overlapping_plain {U : UrlCrate} (s : KvSys U) : ∀ a ∈ overlapping, PlainPaths s a := by
  simp [overlapping, PlainPaths, Op.Plain, Op.path, dropped]

end FerrKit.Vault
