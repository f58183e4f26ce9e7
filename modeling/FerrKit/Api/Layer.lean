/-
The middleware (`crates/api-version/src/layer.rs`): it resolves the version
of a request, carries the request's document forward, runs the handler and
renders the handler's document back.

A body comes in pieces and may break off. `serde_json` and the values of
headers are parameters, and so is the handler, which may be any function of
the request it gets. A rejection is answered with `into_response`, so
`negotiate` has it as the error it is.

Where request and response are JSON that can be read, the middleware does on
their documents what the registry's `negotiate` does (`negotiate_refines`).
In general a JSON response with content is rendered back or refused, with
one exception: content that `serde_json` cannot read is passed on as it is.
-/
import FerrKit.Api.Policy
import FerrKit.Api.Registry
import FerrKit.Lib.Text
import FerrKit.Lib.Wire

namespace FerrKit.Api

open Wire

structure Outside where
  /-- `serde_json::from_slice::<Value>` -/
  fromSlice : List UInt8 → Option Json.Value
  /-- `serde_json::to_vec` -/
  toVec : Json.Value → Option (List UInt8)
  /-- `HeaderValue::from_str` -/
  headerValue : String → Option HeaderValue

/-! ## Messages -/

/-- The pieces of a body as they arrive, up to a failure. -/
abbrev Body := List (Except Unit (List UInt8))

/-- `Body::from`. -/
def Body.ofBytes (bytes : List UInt8) : Body := [.ok bytes]

/-- `to_bytes`: the pieces together, unless they are more than `limit`. -/
def toBytes : Nat → Body → Except Unit (List UInt8)
  | _, [] => .ok []
  | _, .error e :: _ => .error e
  | limit, .ok piece :: body =>
    if piece.length > limit then .error ()
    else (toBytes (limit - piece.length) body).map (piece ++ ·)

/-- A body without a byte in it, that does not fail either. -/
def Body.IsEmpty (body : Body) : Prop := ∀ piece ∈ body, piece = .ok []

theorem isEmpty_of_toBytes {body : Body} {limit : Nat} (h : toBytes limit body = .ok []) : body.IsEmpty := by
  induction body generalizing limit with
  | nil => nofun
  | cons piece body ih =>
    cases piece with
    | error e => cases h
    | ok piece =>
      simp only [toBytes] at h
      split at h
      · cases h
      · cases hrest : toBytes (limit - piece.length) body with
        | error e => rw [hrest] at h; cases h
        | ok rest =>
          rw [hrest] at h
          obtain ⟨rfl, rfl⟩ : piece = [] ∧ rest = [] := by simpa [Except.map] using h
          intro piece' hmem
          obtain rfl | hmem := List.mem_cons.1 hmem
          · rfl
          · exact ih hrest piece' hmem

structure Request where
  method : Method
  /-- `uri().path()` -/
  path : String
  /-- `MatchedPath` -/
  matchedPath : Option String
  pinned : Option PinnedApiVersion
  /-- The extension `negotiate` inserts. -/
  version : Option ApiVersion
  headers : HeaderMap
  body : Body

/-- The template of the route, or the raw path when there is none. -/
def Request.route (req : Request) : String := req.matchedPath.getD req.path

structure Response where
  status : Nat
  headers : HeaderMap
  body : Body

/-- `HeaderMap::insert`. -/
def insertHeader (headers : HeaderMap) (name : HeaderName) (value : HeaderValue) : HeaderMap :=
  (name, value) :: headers.filter (·.1 ≠ name)

/-- `HeaderMap::remove`. -/
def removeHeader (headers : HeaderMap) (name : HeaderName) : HeaderMap := headers.filter (·.1 ≠ name)

/-! ## The layer -/

def servedHeader : HeaderName := "x-api-version-served"

def isJson (headers : HeaderMap) : Bool :=
  ((headers.lookup "content-type").bind (·.toStr)).any fun value =>
    let value := (Text.trimWhitespace value).toList.map Char.toLower
    "application/json".toList.isPrefixOf value || "application/problem+json".toList.isPrefixOf value

section Layer

variable (o : Outside)

def responseHeader (version : ApiVersion) : HeaderValue := (o.headerValue version.display).getD ⟨some "unknown"⟩

def setContentLength (headers : HeaderMap) (len : Nat) : HeaderMap :=
  match o.headerValue (toString len) with
  | some value => insertHeader headers "content-length" value
  | none => removeHeader headers "content-length"

/-- `rewrite_request` and `rewrite_response`, which differ in the walk. -/
def rewriteMessage (maxBodyBytes : Nat) (walk : Json.Value → Json.Value) (headers : HeaderMap) (body : Body) :
    Except VersionRejection (HeaderMap × Body) :=
  if !isJson headers then .ok (headers, body)
  else
    match toBytes maxBodyBytes body with
    | .error _ => .error .notTransformable
    | .ok bytes =>
      if bytes.isEmpty then .ok (headers, .ofBytes bytes)
      else
        match o.fromSlice bytes with
        | none => .ok (headers, .ofBytes bytes)
        | some value =>
          match o.toVec (walk value) with
          | none => .error .notTransformable
          | some bytes => .ok (setContentLength o headers bytes.length, .ofBytes bytes)

variable (ctx : ApiVersionContext) (version : ApiVersion) (route : String) (method : Method)

def rewriteRequest (req : Request) : Except VersionRejection Request :=
  (rewriteMessage o ctx.maxBodyBytes (ctx.registry.upgradeRequest version route method) req.headers req.body).map
    fun (headers, body) => { req with headers, body }

def rewriteResponse (res : Response) : Except VersionRejection Response :=
  (rewriteMessage o ctx.maxBodyBytes (ctx.registry.downgradeResponse version route method) res.headers res.body).map
    fun (headers, body) => { res with headers, body }

/-- Every answer names the version it is served in. -/
def serve (res : Response) : Response :=
  { res with headers := insertHeader res.headers servedHeader (responseHeader o version) }

def negotiate (next : Request → Response) (req : Request) : Except VersionRejection Response := do
  let version ← ctx.resolve req.headers req.pinned
  let route := req.route
  let method := req.method
  let req := { req with version := some version }
  if !ctx.registry.touches version route method then
    pure (serve o version (next req))
  else
    let req ← rewriteRequest o ctx version route method req
    let res ← rewriteResponse o ctx version route method (next req)
    pure (serve o version res)

end Layer

/-! ## The two branches -/

section Branches

variable {o : Outside} {ctx : ApiVersionContext} {v : ApiVersion} {next : Request → Response} {req req' : Request}

theorem negotiate_untouched (hv : ctx.resolve req.headers req.pinned = .ok v)
    (htouches : ctx.registry.touches v req.route req.method = false) :
    negotiate o ctx next req = .ok (serve o v (next { req with version := some v })) := by
  simp only [negotiate, hv, htouches, bind, Except.bind, pure, Except.pure]
  rfl

/-- On a route that is touched, what is left after the request is the
handler and the rewrite of its response. -/
theorem negotiate_touched (hv : ctx.resolve req.headers req.pinned = .ok v)
    (htouches : ctx.registry.touches v req.route req.method = true)
    (hreq : rewriteRequest o ctx v req.route req.method { req with version := some v } = .ok req') :
    negotiate o ctx next req = (rewriteResponse o ctx v req.route req.method (next req')).map (serve o v) := by
  simp only [negotiate, hv, htouches, hreq, bind, Except.bind, pure, Except.pure]
  cases rewriteResponse o ctx v req.route req.method (next req') <;> rfl

end Branches

/-! ## Documents -/

section Documents

variable {o : Outside} {ctx : ApiVersionContext} {v : ApiVersion} {next : Request → Response} {req : Request}
  {headers : HeaderMap} {body : Body} {document : Json.Value} {cap : Nat}

/-- A body that is the text of that document, and at most `cap` bytes. -/
def Reads (o : Outside) (cap : Nat) (body : Body) (document : Json.Value) : Prop :=
  ∃ bytes, bytes ≠ [] ∧ toBytes cap body = .ok bytes ∧ o.fromSlice bytes = some document

/-- What is written can be read again. -/
def Outside.RoundTrips (o : Outside) : Prop :=
  ∀ document, ∃ bytes, bytes ≠ [] ∧ o.toVec document = some bytes ∧ o.fromSlice bytes = some document

/-- The handler answers JSON with JSON that is within the cap. -/
def ActsOn (o : Outside) (maxBodyBytes : Nat) (next : Request → Response) (handler : Json.Value → Json.Value) : Prop :=
  ∀ req document cap, isJson req.headers = true → Reads o cap req.body document →
    isJson (next req).headers = true ∧ Reads o maxBodyBytes (next req).body (handler document)

theorem toBytes_ofBytes (bytes : List UInt8) : toBytes bytes.length (.ofBytes bytes) = .ok bytes := by
  simp [Body.ofBytes, toBytes, Except.map]

theorem lookup_filter_ne {name name' : HeaderName} (hne : name' ≠ name) (headers : HeaderMap) :
    (headers.filter (·.1 ≠ name)).lookup name' = headers.lookup name' := by
  induction headers with
  | nil => rfl
  | cons header headers ih =>
    obtain ⟨key, value⟩ := header
    by_cases hkey : key = name
    · have hskip : (name' == key) = false := beq_eq_false_iff_ne.2 (hkey ▸ hne)
      rw [List.filter_cons_of_neg (by simp [hkey]), ih, List.lookup_cons, hskip]
    · rw [List.filter_cons_of_pos (by simpa using hkey), List.lookup_cons, List.lookup_cons, ih]

theorem isJson_setContentLength (headers : HeaderMap) (len : Nat) :
    isJson (setContentLength o headers len) = isJson headers := by
  have hlookup : (setContentLength o headers len).lookup "content-type" = headers.lookup "content-type" := by
    have hskip : ("content-type" == "content-length") = false := by decide
    unfold setContentLength
    split
    · rw [insertHeader, List.lookup_cons, hskip]
      exact lookup_filter_ne (by decide) headers
    · exact lookup_filter_ne (by decide) headers
  rw [isJson, hlookup, isJson]

/-- A JSON message is rewritten to the document the walk leads to. -/
theorem rewriteMessage_reads (walk : Json.Value → Json.Value) (ho : o.RoundTrips) (hjson : isJson headers = true)
    (hreads : Reads o cap body document) :
    ∃ headers' body', rewriteMessage o cap walk headers body = .ok (headers', body') ∧ isJson headers' = true ∧
      ∃ cap', Reads o cap' body' (walk document) := by
  obtain ⟨bytes, hne, hbytes, hread⟩ := hreads
  obtain ⟨out, hout, hvec, hagain⟩ := ho (walk document)
  refine ⟨setContentLength o headers out.length, .ofBytes out, ?_, ?_, ?_⟩
  · simp [rewriteMessage, hjson, hbytes, hne, hread, hvec]
  · rw [isJson_setContentLength, hjson]
  · exact ⟨out.length, out, hout, toBytes_ofBytes out, hagain⟩

/-- **On documents the middleware is the registry's `negotiate`.** For a
JSON request within the cap and a handler that answers documents with
documents, the response is the document the registry's two branches lead
to. -/
theorem negotiate_refines {handler : Json.Value → Json.Value} (ho : o.RoundTrips)
    (hnext : ActsOn o ctx.maxBodyBytes next handler) (hv : ctx.resolve req.headers req.pinned = .ok v)
    (hjson : isJson req.headers = true) (hreads : Reads o ctx.maxBodyBytes req.body document) :
    ∃ res, negotiate o ctx next req = .ok res ∧
      ∃ cap, Reads o cap res.body (ctx.registry.negotiate v req.route req.method handler document) := by
  cases htouches : ctx.registry.touches v req.route req.method with
  | false =>
    obtain ⟨-, hres⟩ := hnext { req with version := some v } document ctx.maxBodyBytes hjson hreads
    refine ⟨_, negotiate_untouched hv htouches, ctx.maxBodyBytes, ?_⟩
    rw [TransformRegistry.negotiate, htouches]
    exact hres
  | true =>
    obtain ⟨headers, body, hup, hjson', cap, hreads'⟩ :=
      rewriteMessage_reads (ctx.registry.upgradeRequest v req.route req.method) ho hjson hreads
    let req' : Request := { req with version := some v, headers := headers, body := body }
    have hreq : rewriteRequest o ctx v req.route req.method { req with version := some v } = .ok req' := by
      rw [rewriteRequest, hup]
      rfl
    obtain ⟨hjsonRes, hres⟩ := hnext req' _ cap hjson' hreads'
    obtain ⟨headers', body', hdown, -, cap', hreads''⟩ :=
      rewriteMessage_reads (ctx.registry.downgradeResponse v req.route req.method) ho hjsonRes hres
    refine ⟨serve o v { next req' with headers := headers', body := body' }, ?_, cap', ?_⟩
    · rw [negotiate_touched hv htouches hreq, rewriteResponse, hdown]
      rfl
    · rw [TransformRegistry.negotiate, htouches]
      exact hreads''

end Documents

/-! ## What a pinned client gets -/

section Pinned

variable {o : Outside} {ctx : ApiVersionContext} {v : ApiVersion} {next : Request → Response} {req req' : Request}

/-- The answer is the handler's document rendered back, or a refusal. -/
def RenderedBack (o : Outside) (ctx : ApiVersionContext) (version : ApiVersion) (req : Request) (body : Body)
    (answer : Except VersionRejection Response) : Prop :=
  answer = .error .notTransformable ∨
    ∃ bytes document out res, toBytes ctx.maxBodyBytes body = .ok bytes ∧ o.fromSlice bytes = some document ∧
      o.toVec (ctx.registry.downgradeResponse version req.route req.method document) = some out ∧
      answer = .ok res ∧ res.body = .ofBytes out

/-- **A JSON response is rendered back or refused, unless it cannot be
read.** For every context, request, handler and touched route: what comes
back for a JSON response with content is the serialised downgraded document
or `NotTransformable`, exactly when the content, if it is within the cap, is
a document `serde_json` reads. -/
theorem renderedBack_iff (next : Request → Response) (hv : ctx.resolve req.headers req.pinned = .ok v)
    (htouches : ctx.registry.touches v req.route req.method = true)
    (hreq : rewriteRequest o ctx v req.route req.method { req with version := some v } = .ok req')
    (hjson : isJson (next req').headers = true) (hcontent : ¬ (next req').body.IsEmpty) :
    RenderedBack o ctx v req (next req').body (negotiate o ctx next req) ↔
      ∀ bytes, toBytes ctx.maxBodyBytes (next req').body = .ok bytes → o.fromSlice bytes ≠ none := by
  rw [negotiate_touched hv htouches hreq, rewriteResponse, rewriteMessage, hjson]
  simp only [RenderedBack]
  cases hbytes : toBytes ctx.maxBodyBytes (next req').body with
  | error e => simp [Except.map]
  | ok bytes =>
    have hne : bytes.isEmpty = false := by
      cases bytes with
      | nil => exact absurd (isEmpty_of_toBytes hbytes) hcontent
      | cons => rfl
    cases hread : o.fromSlice bytes with
    | none => simp [Except.map, hne, hread]
    | some document =>
      cases hout : o.toVec (ctx.registry.downgradeResponse v req.route req.method document) with
      | none => simp [Except.map, hne, hread, hout]
      | some out => simp [Except.map, hne, hread, hout, serve]

end Pinned

/-! ## An agent's name -/

/-- Since September 2026, `label` is what was `name`. -/
def renamedNameToLabel : Transform where
  version := TransformRegistry.september
  appliesTo route _ := "/agents".toList.isPrefixOf route.toList
  downgradeResponse
    | .object [("label", label)] => .object [("name", label)]
    | body => body

def fleet : ApiVersionContext where
  header := "x-ferrfleet-api-version"
  current := ⟨2026, 10, 1, by decide, by decide⟩
  oldestSupported := ⟨2026, 1, 1, by decide, by decide⟩
  default := ⟨2026, 1, 1, by decide, by decide⟩
  maxBodyBytes := defaultMaxBodyBytes
  registry := ⟨[renamedNameToLabel], List.pairwise_singleton _ _⟩
  window := by decide
  default_le_current := by decide

def anAgent : List UInt8 := bytes "\x7b\"label\":\"a\"\x7d"

/-- Two documents in one body, on a line each. -/
def twoAgents : List UInt8 := anAgent ++ bytes "\n" ++ anAgent

/-- A `serde_json` that knows the first body and refuses the second, which
goes on after the end of a document. -/
def someSerde : Outside where
  fromSlice bs := if bs = anAgent then some (.object [("label", .string "a")]) else none
  toVec
    | .object [("name", .string name)] => some (bytes ("\x7b\"name\":\"" ++ name ++ "\"\x7d"))
    | _ => none
  headerValue s := some ⟨some s⟩

def getAgents : Request := ⟨"GET", "/agents", some "/agents", none, none, [], []⟩

/-- A handler that answers with that body, as JSON. -/
def answering (body : List UInt8) (_ : Request) : Response :=
  ⟨200, [("content-type", ⟨some "application/json"⟩)], .ofBytes body⟩

theorem renderedBack_iff_anAgent : RenderedBack someSerde fleet ⟨2026, 1, 1, by decide, by decide⟩ getAgents
    (.ofBytes anAgent) (negotiate someSerde fleet (answering anAgent) getAgents) := by
  have hcontent : ¬ (Body.ofBytes anAgent).IsEmpty := fun h => by
    have := h _ (List.mem_singleton_self _)
    revert this
    decide +kernel
  refine (renderedBack_iff (answering anAgent) rfl rfl rfl (by decide +kernel) hcontent).2 ?_
  intro bs hbs
  have hone : toBytes fleet.maxBodyBytes (Body.ofBytes anAgent) = .ok anAgent := by decide +kernel
  obtain rfl : anAgent = bs := Except.ok.inj (hone.symm.trans hbs)
  exact nofun

/-- The two documents reach a client of January in the shape of September. -/
theorem twoAgents_passed_on :
    (negotiate someSerde fleet (answering twoAgents) getAgents).map Response.body = .ok (.ofBytes twoAgents) ∧
      fleet.registry.touches ⟨2026, 1, 1, by decide, by decide⟩ getAgents.route getAgents.method = true ∧
      isJson (answering twoAgents getAgents).headers = true := by
  decide +kernel

end FerrKit.Api
