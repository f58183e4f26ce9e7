/-
The URLs of the Vault client (`crates/vault/src/lib.rs`): `validated_segments`
turns a secret path into segments or refuses it, `kv_url` pushes them onto
the address.

`validated_segments` looks for dot segments in the raw text. The `url` crate
takes tabs and line breaks out of a pushed segment first and looks for dot
segments then. So a path of `.`, tab, `.` is accepted and goes up one
segment, and `a`, tab, `b` names the secret `ab`. Apart from such characters
the two agree, and a URL has exactly the segments it should have.

The `url` crate is a parameter (`UrlCrate`); what is assumed of it is
`UrlCrate.Lawful`. The requests are in `KvStore`.
-/
import FerrKit.Lib.Text

namespace FerrKit.Vault

/-! ## Secret paths -/

inductive InvalidSecretPath
  | emptySegment | dotSegment
  deriving DecidableEq, Repr

def InvalidSecretPath.display : InvalidSecretPath → String
  | .emptySegment => "secret path contains an empty segment"
  | .dotSegment => "secret path contains a `.` or `..` segment"

/-- `replace("%2e", ".")`. -/
def replaceEncodedDot : List Char → List Char
  | '%' :: '2' :: 'e' :: cs => '.' :: replaceEncodedDot cs
  | c :: cs => c :: replaceEncodedDot cs
  | [] => []

/-- `to_ascii_lowercase` is `Char.toLower` on each character. -/
def isDotSegment (segment : List Char) : Bool :=
  (replaceEncodedDot (segment.map Char.toLower)).all (· == '.')

/-- `path.trim_matches('/').split('/')`. -/
def pathSegments (path : List Char) : List (List Char) := (Text.trim '/' path).splitOn '/'

/-- The loop of `validated_segments`. -/
def checkSegments : List (List Char) → Except InvalidSecretPath Unit
  | [] => .ok ()
  | segment :: rest =>
    if segment.isEmpty then .error .emptySegment
    else if isDotSegment segment then .error .dotSegment
    else checkSegments rest

def validatedSegments (path : List Char) : Except InvalidSecretPath (List (List Char)) :=
  (checkSegments (pathSegments path)).map fun _ => pathSegments path

/-! ## The `url` crate -/

/-- What `kv_url` calls of the `url` crate. `extend` pushes one segment after
the other. -/
structure UrlCrate where
  Url : Type
  parse : List Char → Option Url
  /-- `path_segments_mut` is `Ok`. -/
  canBeBase : Url → Bool
  /-- The path segments, percent-decoded. -/
  segments : Url → List (List Char)
  popIfEmpty : Url → Url
  push : Url → List Char → Url

def UrlCrate.extend (U : UrlCrate) (url : U.Url) (segments : List (List Char)) : U.Url := segments.foldl U.push url

/-- The characters the parser drops. -/
def dropped (c : Char) : Bool := c == '\t' || c == '\n' || c == '\r'

def dropControls (segment : List Char) : List Char := segment.filter fun c => !dropped c

/-- What a segment is appended to: `/` is one empty segment, which the first
push fills. -/
def base (segments : List (List Char)) : List (List Char) := if segments = [[]] then [] else segments

/-- `push`: `.` and `..` are skipped as they are, and resolved when they come
out of the parser's own cleaning. Percent-encoding keeps every other
character, `%` and `/` included. -/
def pushed (segments : List (List Char)) (segment : List Char) : List (List Char) :=
  if segment = ['.'] ∨ segment = ['.', '.'] then segments
  else if dropControls segment = ['.'] then base segments ++ [[]]
  else if dropControls segment = ['.', '.'] then (base segments).dropLast ++ [[]]
  else base segments ++ [dropControls segment]

/-- `pop_if_empty`: not the only segment. -/
def popped (segments : List (List Char)) : List (List Char) :=
  if 1 < segments.length ∧ segments.getLast? = some [] then segments.dropLast else segments

structure UrlCrate.Lawful (U : UrlCrate) : Prop where
  popIfEmpty : ∀ url, U.segments (U.popIfEmpty url) = popped (U.segments url)
  push : ∀ url segment, U.segments (U.push url segment) = pushed (U.segments url) segment

/-! ## The client -/

structure VaultClient where
  addr : List Char
  token : List Char
  mount : List Char

def VaultClient.new (addr token mount : List Char) : VaultClient :=
  ⟨Text.trimEnd '/' addr, token, Text.trim '/' mount⟩

inductive KvUrlError
  | invalidSecretPath (e : InvalidSecretPath)
  | invalidAddress
  | notABase
  deriving DecidableEq

def KvUrlError.display : KvUrlError → String
  | .invalidSecretPath e => e.display
  | .invalidAddress => "invalid vault address"
  | .notABase => "vault address cannot be used as a base url"

def VaultClient.kvUrl (U : UrlCrate) (c : VaultClient) (kind path : List Char) : Except KvUrlError U.Url :=
  match validatedSegments path with
  | .error e => .error (.invalidSecretPath e)
  | .ok secretSegments =>
    match U.parse c.addr with
    | none => .error .invalidAddress
    | some url =>
      if U.canBeBase url then
        let url := U.push (U.popIfEmpty url) "v1".toList
        let url := U.push (U.extend url (c.mount.splitOn '/')) kind
        .ok (U.extend url secretSegments)
      else .error .notABase

def VaultClient.dataUrl (U : UrlCrate) (c : VaultClient) (path : List Char) : Except KvUrlError U.Url :=
  c.kvUrl U "data".toList path

def VaultClient.metadataUrl (U : UrlCrate) (c : VaultClient) (path : List Char) : Except KvUrlError U.Url :=
  c.kvUrl U "metadata".toList path

/-! ## Accepted paths -/

theorem checkSegments_ok : ∀ {segments : List (List Char)}, checkSegments segments = .ok () →
    ∀ s ∈ segments, s ≠ [] ∧ isDotSegment s = false
  | [], _, _, hs => by cases hs
  | segment :: rest, h, s, hs => by
    simp only [checkSegments] at h
    split at h
    · cases h
    next hne =>
    split at h
    · cases h
    next hdot =>
    rcases List.mem_cons.1 hs with rfl | hs
    · exact ⟨by simpa using hne, by simpa using hdot⟩
    · exact checkSegments_ok h s hs

theorem validatedSegments_ok {path : List Char} {segments : List (List Char)}
    (h : validatedSegments path = .ok segments) :
    segments = pathSegments path ∧ ∀ s ∈ segments, s ≠ [] ∧ isDotSegment s = false := by
  simp only [validatedSegments] at h
  cases hc : checkSegments (pathSegments path) with
  | error e => simp [hc, Except.map] at h
  | ok u =>
    simp only [hc, Except.map, Except.ok.injEq] at h
    subst h
    exact ⟨rfl, checkSegments_ok hc⟩

example : validatedSegments "a/%2e%2E/b".toList = .error .dotSegment := by decide

/-- Cutting a path up loses slashes only. -/
theorem mem_pathSegments {path : List Char} {x : Char} (h : x ≠ '/') :
    x ∈ path ↔ ∃ s ∈ pathSegments path, x ∈ s := by
  rw [pathSegments, ← Text.mem_splitOn h, Text.mem_trim h]

/-- A segment that a push appends as it is. -/
structure Plain (segment : List Char) : Prop where
  ne_nil : segment ≠ []
  ne_dot : segment ≠ ['.']
  ne_dots : segment ≠ ['.', '.']
  kept : ∀ c ∈ segment, dropped c = false

theorem plain_of_accepted {s : List Char} (hne : s ≠ []) (hdot : isDotSegment s = false)
    (hkept : ∀ c ∈ s, dropped c = false) : Plain s where
  ne_nil := hne
  ne_dot := by rintro rfl; exact absurd hdot (by decide)
  ne_dots := by rintro rfl; exact absurd hdot (by decide)
  kept := hkept

/-! ## Pushes -/

theorem dropControls_eq_self {s : List Char} (h : ∀ c ∈ s, dropped c = false) : dropControls s = s := by
  simpa [dropControls, List.filter_eq_self] using h

theorem pushed_plain {segments : List (List Char)} {s : List Char} (h : Plain s) :
    pushed segments s = base segments ++ [s] := by
  unfold pushed
  rw [if_neg (by simp [h.ne_dot, h.ne_dots]), dropControls_eq_self h.kept, if_neg h.ne_dot, if_neg h.ne_dots]

/-- Once a non-empty segment has been appended the path is not `/`. -/
theorem base_append {segments : List (List Char)} {s : List Char} (h : s ≠ []) :
    base (segments ++ [s]) = segments ++ [s] := by
  refine if_neg fun he => h ?_
  have hlast := congrArg List.getLast? he
  simpa using hlast

theorem base_push_plain {U : UrlCrate} (hU : U.Lawful) (url : U.Url) {s : List Char} (h : Plain s) :
    base (U.segments (U.push url s)) = base (U.segments url) ++ [s] := by
  rw [hU.push, pushed_plain h, base_append h.ne_nil]

theorem base_extend_plain {U : UrlCrate} (hU : U.Lawful) : ∀ (segments : List (List Char)) (url : U.Url),
    (∀ s ∈ segments, Plain s) → base (U.segments (U.extend url segments)) = base (U.segments url) ++ segments
  | [], url, _ => by simp [UrlCrate.extend]
  | s :: rest, url, h => by
    have ih := base_extend_plain hU rest (U.push url s) fun s' hs' => h s' (by simp [hs'])
    rw [base_push_plain hU url (h s (by simp)), List.append_assoc] at ih
    exact ih

/-- How many characters of the segments a push would have dropped. -/
def controls (segments : List (List Char)) : Nat := segments.flatten.countP dropped

@[simp] theorem controls_append (l l' : List (List Char)) : controls (l ++ l') = controls l + controls l' := by
  simp [controls]

@[simp] theorem controls_empty : controls [[]] = 0 := by simp [controls]

theorem controls_dropControls (s : List Char) : controls [dropControls s] = 0 := by
  simp [controls, dropControls, List.countP_filter]

theorem controls_base (segments : List (List Char)) : controls (base segments) ≤ controls segments := by
  unfold base
  split
  · simp [controls]
  · exact Nat.le_refl _

theorem controls_dropLast (segments : List (List Char)) : controls segments.dropLast ≤ controls segments := by
  rcases List.eq_nil_or_concat segments with rfl | ⟨l, s, rfl⟩
  · simp
  · simp

/-- A push brings none of them into the URL. -/
theorem controls_pushed (segments : List (List Char)) (s : List Char) :
    controls (pushed segments s) ≤ controls segments := by
  have hb := controls_base segments
  have hd := controls_dropLast (base segments)
  unfold pushed
  split
  · exact Nat.le_refl _
  split
  · rw [controls_append, controls_empty]; omega
  split
  · rw [controls_append, controls_empty]; omega
  · rw [controls_append, controls_dropControls]; omega

theorem controls_extend {U : UrlCrate} (hU : U.Lawful) : ∀ (segments : List (List Char)) (url : U.Url),
    controls (U.segments (U.extend url segments)) ≤ controls (U.segments url)
  | [], url => Nat.le_refl _
  | s :: rest, url => by
    have ih := controls_extend hU rest (U.push url s)
    have hp := controls_pushed (U.segments url) s
    rw [← hU.push] at hp
    exact Nat.le_trans ih hp

theorem controls_eq_zero {segments : List (List Char)} (h : controls segments = 0) :
    ∀ s ∈ segments, ∀ c ∈ s, dropped c = false := by
  intro s hs c hc
  rw [controls, List.countP_eq_zero] at h
  simpa using h c (List.mem_flatten.2 ⟨s, hs, hc⟩)

/-! ## The URL of a secret -/

/-- The address's own segments. -/
def ownSegments (segments : List (List Char)) : List (List Char) := base (popped segments)

/-- The segments up to the secret's own: `{addr}/v1/{mount}/{kind}`. -/
def VaultClient.kvPrefix (c : VaultClient) (addrSegments : List (List Char)) (kind : List Char) : List (List Char) :=
  ownSegments addrSegments ++ ["v1".toList] ++ c.mount.splitOn '/' ++ [kind]

theorem kvUrl_ok {U : UrlCrate} {c : VaultClient} {kind path : List Char} {url : U.Url}
    (h : c.kvUrl U kind path = .ok url) :
    ∃ addr, U.parse c.addr = some addr ∧ (∀ s ∈ pathSegments path, s ≠ [] ∧ isDotSegment s = false) ∧
      url = U.extend (U.push (U.extend (U.push (U.popIfEmpty addr) "v1".toList) (c.mount.splitOn '/')) kind)
        (pathSegments path) := by
  unfold VaultClient.kvUrl at h
  split at h
  · cases h
  next segments hv =>
  obtain ⟨rfl, hsegs⟩ := validatedSegments_ok hv
  split at h
  · cases h
  next addr ha =>
  split at h
  · cases h
    exact ⟨addr, ha, hsegs, rfl⟩
  · cases h

theorem plain_v1 : Plain "v1".toList := ⟨by decide, by decide, by decide, by simp [dropped]⟩

theorem plain_kind {kind : List Char} (h : kind = "data".toList ∨ kind = "metadata".toList) : Plain kind := by
  rcases h with rfl | rfl
  · exact ⟨by decide, by decide, by decide, by simp [dropped]⟩
  · exact ⟨by decide, by decide, by decide, by simp [dropped]⟩

section
variable {U : UrlCrate} {c : VaultClient} {kind path : List Char} {url addr : U.Url}

/-- Without tabs and line breaks the URL is the one the path asks for. -/
theorem kvUrl_segments (hU : U.Lawful) (hmount : ∀ s ∈ c.mount.splitOn '/', Plain s)
    (hkind : kind = "data".toList ∨ kind = "metadata".toList) (haddr : U.parse c.addr = some addr)
    (h : c.kvUrl U kind path = .ok url) (hpath : ∀ x ∈ path, dropped x = false) :
    U.segments url = c.kvPrefix (U.segments addr) kind ++ pathSegments path := by
  obtain ⟨addr', ha, hsegs, rfl⟩ := kvUrl_ok h
  rw [haddr, Option.some.injEq] at ha
  subst ha
  have hplain : ∀ s ∈ pathSegments path, Plain s := by
    intro s hs
    refine plain_of_accepted (hsegs s hs).1 (hsegs s hs).2 fun x hx => ?_
    by_cases hslash : x = '/'
    · subst hslash; decide
    · exact hpath x ((mem_pathSegments hslash).2 ⟨s, hs, hx⟩)
  -- every push appends, from `v1` on
  have hbase := base_extend_plain hU (pathSegments path)
    (U.push (U.extend (U.push (U.popIfEmpty addr) "v1".toList) (c.mount.splitOn '/')) kind) hplain
  rw [base_push_plain hU _ (plain_kind hkind), base_extend_plain hU _ _ hmount, base_push_plain hU _ plain_v1,
    hU.popIfEmpty] at hbase
  -- and the result is not `/`, so `base` is the identity on it
  have hne : pathSegments path ≠ [] := List.splitOn_ne_nil _ _
  rw [VaultClient.kvPrefix, ownSegments, ← hbase]
  refine (if_neg fun he => ?_).symm
  have hlen := congrArg List.length hbase
  rw [he] at hlen
  simp [base] at hlen

/-- **Which secret paths name their own secret.** For a usable address and a
mount of plain segments, the URL of an accepted path has exactly the
segments of the address, `v1`, the mount, the kind and the path if and only
if the path holds no tab and no line break. For such paths the URL stays
under `{addr}/v1/{mount}/{kind}/`, and paths with different segments name
different secrets. -/
theorem kvUrl_exact_iff (hU : U.Lawful) (hmount : ∀ s ∈ c.mount.splitOn '/', Plain s)
    (hkind : kind = "data".toList ∨ kind = "metadata".toList) (haddr : U.parse c.addr = some addr)
    (h : c.kvUrl U kind path = .ok url) :
    (U.segments url = c.kvPrefix (U.segments addr) kind ++ pathSegments path ↔ ∀ x ∈ path, dropped x = false) ∧
      ((∀ x ∈ path, dropped x = false) →
        c.kvPrefix (U.segments addr) kind <+: U.segments url ∧
        ∀ path' url', c.kvUrl U kind path' = .ok url' → (∀ x ∈ path', dropped x = false) →
          pathSegments path' ≠ pathSegments path → U.segments url' ≠ U.segments url) := by
  refine ⟨⟨fun hexact => ?_, kvUrl_segments hU hmount hkind haddr h⟩, fun hpath => ⟨?_, ?_⟩⟩
  · obtain ⟨addr', ha, -, rfl⟩ := kvUrl_ok h
    rw [haddr, Option.some.injEq] at ha
    subst ha
    have hv1 : controls (U.segments (U.push (U.popIfEmpty addr) "v1".toList)) =
        controls (ownSegments (U.segments addr)) + controls ["v1".toList] := by
      rw [hU.push, pushed_plain plain_v1, hU.popIfEmpty, controls_append, ownSegments]
    -- nothing that is pushed adds to the count, so the path's own share is zero
    have hkindle := controls_pushed
      (U.segments (U.extend (U.push (U.popIfEmpty addr) "v1".toList) (c.mount.splitOn '/'))) kind
    rw [← hU.push] at hkindle
    have hmountle := controls_extend hU (c.mount.splitOn '/') (U.push (U.popIfEmpty addr) "v1".toList)
    have hpathle := controls_extend hU (pathSegments path)
      (U.push (U.extend (U.push (U.popIfEmpty addr) "v1".toList) (c.mount.splitOn '/')) kind)
    rw [hexact] at hpathle
    simp only [VaultClient.kvPrefix, controls_append] at hpathle
    have hzero : controls (pathSegments path) = 0 := by omega
    intro x hx
    by_cases hslash : x = '/'
    · subst hslash; decide
    · obtain ⟨s, hs, hxs⟩ := (mem_pathSegments hslash).1 hx
      exact controls_eq_zero hzero s hs x hxs
  · rw [kvUrl_segments hU hmount hkind haddr h hpath]
    exact List.prefix_append _ _
  · intro path' url' h' hpath' hne he
    rw [kvUrl_segments hU hmount hkind haddr h hpath, kvUrl_segments hU hmount hkind haddr h' hpath'] at he
    exact hne (List.append_cancel_left he)

end

/-! ## A crate for runs -/

/-- The path segments of `scheme://host/..`; without a path that is `/`. -/
def addressSegments (addr : List Char) : List (List Char) :=
  match (addr.splitOn '/').drop 3 with
  | [] => [[]]
  | segments => segments

/-- URLs as their path segments. -/
def segmentUrl : UrlCrate where
  Url := List (List Char)
  parse addr := some (addressSegments addr)
  canBeBase _ := true
  segments url := url
  popIfEmpty := popped
  push := pushed

theorem segmentUrl_lawful : segmentUrl.Lawful := ⟨fun _ => rfl, fun _ _ => rfl⟩

def exampleClient : VaultClient := .new "https://vault.example.com/".toList "t".toList "/secret/".toList

theorem exampleClient_mount : ∀ s ∈ exampleClient.mount.splitOn '/', Plain s := by
  intro s hs
  have hm : exampleClient.mount.splitOn '/' = ["secret".toList] := by decide
  rw [hm, List.mem_singleton] at hs
  subst hs
  exact ⟨by decide, by decide, by decide, by simp [dropped]⟩

theorem kvUrl_exact_iff_token : ∃ url, exampleClient.kvUrl segmentUrl "data".toList "ferrfleet/token".toList = .ok url ∧
    (segmentUrl.segments url =
        exampleClient.kvPrefix [[]] "data".toList ++ pathSegments "ferrfleet/token".toList ↔
      ∀ x ∈ "ferrfleet/token".toList, dropped x = false) :=
  ⟨_, rfl, (kvUrl_exact_iff segmentUrl_lawful exampleClient_mount (.inl rfl) rfl rfl).1⟩

/-- A path of `.`, tab, `.` and a name leaves the `data` tree, and a tab inside
a name gives the URL of another secret. -/
theorem tab_leaves_data : segmentUrl.Lawful ∧ (∀ s ∈ exampleClient.mount.splitOn '/', Plain s) ∧
    (∃ url, exampleClient.dataUrl segmentUrl ".\t./other".toList = .ok url ∧
      segmentUrl.segments url = ["v1".toList, "secret".toList, [], "other".toList] ∧
      ¬ exampleClient.kvPrefix [[]] "data".toList <+: segmentUrl.segments url) ∧
    ∃ url, exampleClient.dataUrl segmentUrl "to\tken".toList = .ok url ∧
      exampleClient.dataUrl segmentUrl "token".toList = .ok url ∧
      pathSegments "to\tken".toList ≠ pathSegments "token".toList :=
  ⟨segmentUrl_lawful, exampleClient_mount, ⟨_, rfl, rfl, by decide⟩, _, rfl, rfl, by decide⟩

end FerrKit.Vault
