/-
Whether a user has an installation (`crates/github/src/ownership.rs`). The
code is exchanged for a user token, the user's installations are listed once
and searched for the claimed id.

GitHub answers a listing in pages and links each page but the last to the
next one; `Serves` says so. The code reads the first page and does not look
at the link, so its answer is about the first page (`owns_first_page`).
Along with the result stand the payloads that were read.
-/
import FerrKit.Lib.Json
import FerrKit.Lib.Wire

namespace FerrKit.Github

open Json (Value)

inductive GithubError
  | exchange (reason : String)
  | http (context reason : String)
  deriving DecidableEq

/-! ## The payload -/

/-- `Value::get`, of a member. -/
def getMember (key : String) : Value → Option Value
  | .object members => Json.Map.get members key
  | _ => none

/-- `Value::as_i64`; `-0` is a float. -/
def asI64 : Value → Option Int
  | .number text => if text = "-0" then none else Wire.parseI64 text
  | _ => none

def entryId (entry : Value) : Option Int := (getMember "id" entry).bind asI64

/-- The ids of a payload, of those entries that have one. -/
def installationIds (payload : Value) : List Int :=
  match (getMember "installations" payload).bind Value.asArray with
  | some installations => installations.filterMap entryId
  | none => []

def ownsInstallation (payload : Value) (installationId : Int) : Bool :=
  ((getMember "installations" payload).bind Value.asArray).any fun installations =>
    (installations.filterMap entryId).any (· == installationId)

/-- Whatever the payload is, it owns what its ids are. -/
theorem ownsInstallation_iff {payload : Value} {id : Int} :
    ownsInstallation payload id = true ↔ id ∈ installationIds payload := by
  unfold ownsInstallation installationIds
  cases (getMember "installations" payload).bind Value.asArray with
  | none => simp
  | some installations => simp only [Option.any_some, List.any_eq_true, beq_iff_eq, exists_eq_right]

/-! ## The call -/

structure HttpRequest where
  url : String
  headers : List (String × String)

structure HttpResponse where
  status : Nat
  /-- The next page of a `Link` header. -/
  next : Option String
  /-- `response.json()` -/
  json : Except String Value

/-- The provider's side of the exchange, and the client's `send`. -/
structure Network where
  exchangeCode : String → Except String String
  send : HttpRequest → Except String HttpResponse

def installationsUrl : String := "https://api.github.com/user/installations"

/-- What is sent with the user's token. -/
def listRequest (userAgent token : String) : HttpRequest :=
  ⟨installationsUrl, [("Authorization", "Bearer " ++ token), ("Accept", "application/vnd.github+json"),
    ("X-GitHub-Api-Version", "2022-11-28"), ("User-Agent", userAgent)]⟩

/-- The result, and the payloads it was read off. -/
def userOwnsInstallation (net : Network) (userAgent code : String) (installationId : Int) :
    Except GithubError Bool × List Value :=
  match net.exchangeCode code with
  | .error reason => (.error (.exchange reason), [])
  | .ok token =>
    match net.send (listRequest userAgent token) with
    | .error reason => (.error (.http "listing the user's installations" reason), [])
    | .ok response =>
      -- `error_for_status`
      if 400 ≤ response.status ∧ response.status < 600 then
        (.error (.http "listing the user's installations returned an error status" (toString response.status)), [])
      else
        match response.json with
        | .error reason => (.error (.http "decoding the user's installations" reason), [])
        | .ok payload => (.ok (ownsInstallation payload installationId), [payload])

/-! ## GitHub -/

/-- An installation as it is listed; an id is an `i64`. -/
structure Installation where
  id : Int
  others : Json.Map
  id_low : -2 ^ 63 ≤ id
  id_high : id < 2 ^ 63

def Installation.entry (i : Installation) : Value := .object (("id", .number (toString i.id)) :: i.others)

def pageSize : Nat := 30

/-- The pages, from 0 on. -/
def page (installations : List Installation) (n : Nat) : List Installation :=
  (installations.drop (n * pageSize)).take pageSize

def pageUrl (n : Nat) : String := if n = 0 then installationsUrl else installationsUrl ++ "?page=" ++ toString (n + 1)

def pageResponse (installations : List Installation) (n : Nat) : HttpResponse where
  status := 200
  next := if (n + 1) * pageSize < installations.length then some (pageUrl (n + 1)) else none
  json := .ok (.object [("total_count", .number (toString installations.length)),
    ("installations", .array ((page installations n).map Installation.entry))])

/-- The code is one of a user with these installations, and GitHub lists them
in pages to whoever shows the user's token. -/
structure Serves (net : Network) (code : String) (installations : List Installation) : Prop where
  lists : ∃ token, net.exchangeCode code = .ok token ∧
    ∀ n headers, n = 0 ∨ n * pageSize < installations.length → ("Authorization", "Bearer " ++ token) ∈ headers →
      net.send ⟨pageUrl n, headers⟩ = .ok (pageResponse installations n)

/-! ## What is found -/

variable {net : Network} {code : String} {installations : List Installation}

theorem entryId_entry (i : Installation) : entryId i.entry = some i.id := by
  have hread : Wire.parseI64 (toString i.id) = some i.id := Wire.parseI64_toString i.id_low i.id_high
  have hzero : toString i.id ≠ "-0" := by
    intro h
    have hid : i.id = 0 := by
      rw [h] at hread
      exact (Option.some.inj hread).symm
    rw [hid] at h
    exact absurd h (by decide)
  have hmember : getMember "id" i.entry = some (.number (toString i.id)) := rfl
  rw [entryId, hmember, Option.bind_some, asI64, if_neg hzero, hread]

theorem installationIds_page (n : Nat) {payload : Value} (h : (pageResponse installations n).json = .ok payload) :
    installationIds payload = (page installations n).map (·.id) := by
  cases h
  have hids : ((page installations n).map Installation.entry).filterMap entryId = (page installations n).map (·.id) := by
    rw [List.filterMap_map, ← List.filterMap_eq_map]
    exact List.filterMap_congr fun i _ => entryId_entry i
  exact hids

/-- The answer is that of the first page. -/
theorem owns_first_page (h : Serves net code installations) (userAgent : String) (id : Int) :
    ∃ payload, installationIds payload = (installations.take pageSize).map (·.id) ∧
      userOwnsInstallation net userAgent code id = (.ok (ownsInstallation payload id), [payload]) := by
  obtain ⟨token, hexchange, hsend⟩ := h.lists
  have hfirst : net.send (listRequest userAgent token) = .ok (pageResponse installations 0) :=
    hsend 0 _ (.inl rfl) List.mem_cons_self
  refine ⟨_, installationIds_page 0 rfl, ?_⟩
  simp only [userOwnsInstallation, hexchange, hfirst]
  rfl

/-- The ids of all payloads that were read. -/
def examined (payloads : List Value) : List Int := payloads.flatMap installationIds

/-- What a caller takes the answer for: `true` for exactly the user's
installations, and `false` after all of them have been looked at. -/
def Settled (installations : List Installation) (id : Int) (answer : Except GithubError Bool × List Value) : Prop :=
  (answer.1 = .ok true ↔ id ∈ installations.map (·.id)) ∧
    (answer.1 = .ok false → examined answer.2 = installations.map (·.id))

/-- **One page is all that is read.** The answer is settled exactly when the
claimed installation is on the first page or there is no other page. -/
theorem ownership_settled_iff (h : Serves net code installations) (userAgent : String) (id : Int) :
    Settled installations id (userOwnsInstallation net userAgent code id) ↔
      id ∈ (installations.take pageSize).map (·.id) ∨ installations.length ≤ pageSize := by
  obtain ⟨payload, hids, hanswer⟩ := owns_first_page h userAgent id
  have howns : ownsInstallation payload id = true ↔ id ∈ (installations.take pageSize).map (·.id) := by
    rw [ownsInstallation_iff, hids]
  have hexamined : examined [payload] = (installations.take pageSize).map (·.id) := by simp [examined, hids]
  rw [hanswer]
  constructor
  · rintro ⟨-, hfalse⟩
    by_cases hfound : id ∈ (installations.take pageSize).map (·.id)
    · exact .inl hfound
    · have hall := hfalse (congrArg Except.ok (Bool.eq_false_iff.2 (howns.not.2 hfound)))
      rw [hexamined] at hall
      have hlen : min pageSize installations.length = installations.length := by
        simpa using congrArg List.length hall
      exact .inr (by omega)
  · rintro (hfound | hlen)
    · have htrue : ownsInstallation payload id = true := howns.2 hfound
      have hmem : id ∈ installations.map (·.id) := List.map_subset _ (List.take_subset _ _) hfound
      exact ⟨iff_of_true (congrArg Except.ok htrue) hmem, fun hfalse => by simp [htrue] at hfalse⟩
    · rw [List.take_of_length_le hlen] at howns hexamined
      exact ⟨by rw [← howns, Except.ok.injEq], fun _ => hexamined⟩

/-! ## Two pages -/

/-- GitHub, for a user with at most two pages of installations. -/
def twoPages (installations : List Installation) : Network where
  exchangeCode _ := .ok "user-token"
  send request := .ok (pageResponse installations (if request.url = installationsUrl then 0 else 1))

theorem serves_twoPages (code : String) (hlen : installations.length ≤ 2 * pageSize) :
    Serves (twoPages installations) code installations := by
  refine ⟨"user-token", rfl, fun n headers hn _ => ?_⟩
  match n with
  | 0 => rfl
  | 1 =>
    have hother : pageUrl 1 ≠ installationsUrl := by decide +kernel
    simp only [twoPages, if_neg hother]
  | n + 2 =>
    simp only [pageSize] at hn hlen
    omega

def installed (id : Fin 100) : Installation := ⟨id.val, [], by omega, by omega⟩

/-- One installation more than the first page holds. -/
def manyInstalled : List Installation := (List.range 31).map fun i => installed (Fin.ofNat 100 i)

theorem ownership_settled_iff_many :
    Settled manyInstalled 29 (userOwnsInstallation (twoPages manyInstalled) "kit" "code" 29) ∧
      ¬ Settled manyInstalled 30 (userOwnsInstallation (twoPages manyInstalled) "kit" "code" 30) := by
  have hserves : Serves (twoPages manyInstalled) "code" manyInstalled := serves_twoPages "code" (by decide)
  refine ⟨(ownership_settled_iff hserves "kit" 29).2 (.inl (by decide)), fun hsettled => ?_⟩
  obtain hfirst | hlen := (ownership_settled_iff hserves "kit" 30).1 hsettled
  · exact absurd hfirst (by decide)
  · exact absurd hlen (by decide)

/-- The last of the user's installations is denied. -/
theorem second_page_denied :
    Serves (twoPages manyInstalled) "code" manyInstalled ∧ 30 ∈ manyInstalled.map (·.id) ∧
      (userOwnsInstallation (twoPages manyInstalled) "kit" "code" 30).1 = .ok false :=
  ⟨serves_twoPages "code" (by decide), by decide, by decide +kernel⟩

end FerrKit.Github
