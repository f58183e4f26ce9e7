/-
The golden tests of the transforms (`crates/testkit/src/api_version_golden.rs`).
With `UPDATE_GOLDEN` the harness writes what the registry renders for each
case and version into a file of its own; without, it compares. What it is
for is in `golden_detects`: once the files are written, a later run complains
of exactly those cases and versions that are rendered otherwise.

That no two of them share a file rests on the case names, which the harness
does not check, and on versions being of one width, which those with a year of
five digits are not.

The files are a map from paths, and which writes fail is the disk's choice.
What `serde_json` makes of a document is a parameter, as is the comparison.
-/
import FerrKit.Api.Registry
import FerrKit.Api.VersionText

namespace FerrKit.Testkit

open Api

structure Outside where
  /-- `to_string_pretty`, or `to_string` where that fails -/
  pretty : Json.Value → String
  /-- `serde_json::from_str` -/
  fromStr : String → Except String Json.Value
  /-- `==` of `serde_json::Value` -/
  same : Json.Value → Json.Value → Bool

structure GoldenCase where
  name : String
  route : String
  method : Method
  current : Json.Value

/-- The files that can be read, by path. -/
abbrev Files := String → Option String

/-- How a write to a path fails, and what it leaves there. -/
abbrev Disk := String → Option (String × Option String)

/-- `Path::join`. -/
def joinPath (dir file : String) : String :=
  if file.toList.head? = some '/' then file
  else if dir.toList = [] ∨ dir.toList.getLast? = some '/' then dir ++ file
  else dir ++ "/" ++ file

def fixturePath (dir name : String) (version : ApiVersion) : String :=
  joinPath dir (name ++ "__" ++ version.display ++ ".json")

inductive FixtureError
  | missing
  | invalid (e : String)

variable (o : Outside) (registry : TransformRegistry) (dir : String)

def readFixture (files : Files) (path : String) : Except FixtureError Json.Value :=
  match files path with
  | none => .error .missing
  | some contents => (o.fromStr contents).mapError .invalid

/-- The case at a version, as the registry renders it. -/
def render (p : GoldenCase × ApiVersion) : Json.Value :=
  registry.downgradeResponse p.2 p.1.route p.1.method p.1.current

def pathOf (p : GoldenCase × ApiVersion) : String := fixturePath dir p.1.name p.2

/-- The turns of the two loops. -/
def pairs (cases : List GoldenCase) (versions : List ApiVersion) : List (GoldenCase × ApiVersion) :=
  cases.flatMap fun c => versions.map fun v => (c, v)

/-- `write_fixture`: the files after, and what went wrong. -/
def writeFixture (disk : Disk) (files : Files) (path : String) (value : Json.Value) : Files × Option String :=
  match disk path with
  | some (e, left) => (fun q => if q = path then left else files q, some e)
  | none => (fun q => if q = path then some (o.pretty value ++ "\n") else files q, none)

/-- A turn that updates. -/
def updateOne (disk : Disk) (s : Files × List String) (p : GoldenCase × ApiVersion) : Files × List String :=
  let path := pathOf dir p
  match writeFixture o disk s.1 path (render registry p) with
  | (files, some e) => (files, s.2 ++ [path ++ ": could not write fixture: " ++ e])
  | (files, none) => (files, s.2)

/-- What a turn says that finds another document in its file. -/
def mismatch (p : GoldenCase × ApiVersion) (expected actual : Json.Value) : String :=
  p.1.name ++ " at " ++ p.2.display ++ " does not match " ++ pathOf dir p ++ "\nexpected:\n" ++
    o.pretty expected ++ "\nactual:\n" ++ o.pretty actual

/-- A turn that compares: what it complains of. -/
def compareOne (files : Files) (p : GoldenCase × ApiVersion) : Option String :=
  let path := pathOf dir p
  match readFixture o files path with
  | .ok expected =>
    if o.same expected (render registry p) then none
    else some (mismatch o dir p expected (render registry p))
  | .error .missing => some (p.1.name ++ " at " ++ p.2.display ++ ": no fixture at " ++ path ++
      "; rerun with UPDATE_GOLDEN=1 to create it, then review the diff")
  | .error (.invalid e) => some (path ++ ": not valid JSON: " ++ e)

/-- The loops of `check_golden_responses`: the files after, and the failures. -/
def failures (disk : Disk) (files : Files) (cases : List GoldenCase) (versions : List ApiVersion) (update : Bool) :
    Files × List String :=
  if update then (pairs cases versions).foldl (updateOne o registry dir disk) (files, [])
  else (files, (pairs cases versions).filterMap (compareOne o registry dir files))

/-- Its `assert!`, with the text of the panic. -/
def checkGoldenResponses (disk : Disk) (files : Files) (cases : List GoldenCase) (versions : List ApiVersion)
    (update : Bool) : Files × Except String Unit :=
  let (files, failures) := failures o registry dir disk files cases versions update
  (files, if failures = [] then .ok ()
    else .error ("golden API-version fixtures out of date:\n\n" ++ "\n\n".intercalate failures))

/-! ## A file for each -/

variable {o registry dir}

theorem joinPath_inj {a b : String} (ha : a.toList.head? ≠ some '/') (hb : b.toList.head? ≠ some '/')
    (h : joinPath dir a = joinPath dir b) : a = b := by
  unfold joinPath at h
  rw [if_neg ha, if_neg hb] at h
  split at h
  · exact (String.append_right_inj _).1 h
  · exact (String.append_right_inj _).1 h

theorem display_length {v : ApiVersion} (h : v.year ≤ 9999) : v.display.toList.length = 10 := by
  obtain ⟨ys, ms, ds, hraw, hy, hm, hd⟩ := ApiVersion.spells_display (ApiVersion.year_lt_iff.2 h)
  rw [hraw]
  simp [ApiVersion.spelling, hy.length_eq, hm.length_eq, hd.length_eq]

theorem display_inj {v w : ApiVersion} (hv : v.year ≤ 9999) (hw : w.year ≤ 9999) (h : v.display = w.display) :
    v = w := by
  have hreadV := ApiVersion.fromStr_ok_iff.2 (ApiVersion.spells_display (ApiVersion.year_lt_iff.2 hv))
  have hreadW := ApiVersion.fromStr_ok_iff.2 (ApiVersion.spells_display (ApiVersion.year_lt_iff.2 hw))
  rw [h, hreadW] at hreadV
  exact (Except.ok.inj hreadV).symm

/-- A case name that is no path. -/
def GoldenCase.Plain (c : GoldenCase) : Prop := '/' ∉ c.name.toList

theorem fixturePath_inj {name name' : String} {v w : ApiVersion} (hname : '/' ∉ name.toList)
    (hname' : '/' ∉ name'.toList) (hv : v.year ≤ 9999) (hw : w.year ≤ 9999)
    (h : fixturePath dir name v = fixturePath dir name' w) :
    name = name' ∧ v = w := by
  have hrelative : ∀ {name : String} {v : ApiVersion}, '/' ∉ name.toList →
      (name ++ "__" ++ v.display ++ ".json").toList.head? ≠ some '/' := by
    intro name v hplain hhead
    cases hn : name.toList with
    | nil => simp [hn] at hhead
    | cons c cs =>
      simp only [String.toList_append, hn, List.cons_append, List.head?_cons, Option.some.injEq] at hhead
      rw [hn, hhead] at hplain
      exact hplain List.mem_cons_self
  have hfile := congrArg String.toList (joinPath_inj (hrelative hname) (hrelative hname') h)
  simp only [String.toList_append, List.append_assoc] at hfile
  -- what comes after the name has one length
  obtain ⟨hnames, htails⟩ := List.append_inj' hfile (by simp [display_length hv, display_length hw])
  obtain ⟨hdisplay, -⟩ := List.append_inj' (List.append_cancel_left htails) rfl
  exact ⟨String.toList_inj.1 hnames, display_inj hv hw (String.toList_inj.1 hdisplay)⟩

theorem mem_pairs {cases : List GoldenCase} {versions : List ApiVersion} {p : GoldenCase × ApiVersion} :
    p ∈ pairs cases versions ↔ p.1 ∈ cases ∧ p.2 ∈ versions := by
  obtain ⟨c, v⟩ := p
  simp [pairs]

/-- A file for each case and version. -/
theorem pathOf_inj {cases : List GoldenCase} {versions : List ApiVersion} (hplain : ∀ c ∈ cases, c.Plain)
    (hnames : (cases.map GoldenCase.name).Nodup) (hyears : ∀ v ∈ versions, v.year ≤ 9999)
    {p q : GoldenCase × ApiVersion} (hp : p ∈ pairs cases versions) (hq : q ∈ pairs cases versions)
    (h : pathOf dir p = pathOf dir q) : p = q := by
  obtain ⟨hpc, hpv⟩ := mem_pairs.1 hp
  obtain ⟨hqc, hqv⟩ := mem_pairs.1 hq
  obtain ⟨hname, hversion⟩ :=
    fixturePath_inj (hplain _ hpc) (hplain _ hqc) (hyears _ hpv) (hyears _ hqv) h
  exact Prod.ext (List.inj_on_of_nodup_map hnames hpc hqc hname) hversion

/-! ## Writing -/

variable {disk : Disk}

theorem updateOne_other (s : Files × List String) {p : GoldenCase × ApiVersion} {path : String}
    (h : path ≠ pathOf dir p) : (updateOne o registry dir disk s p).1 path = s.1 path := by
  unfold updateOne writeFixture
  cases hd : disk (pathOf dir p) <;> simp [hd, h]

/-- A turn without a complaint has written its file. -/
theorem updateOne_written {s : Files × List String} {p : GoldenCase × ApiVersion}
    (h : (updateOne o registry dir disk s p).2 = []) :
    s.2 = [] ∧ (updateOne o registry dir disk s p).1 (pathOf dir p) = some (o.pretty (render registry p) ++ "\n") := by
  unfold updateOne writeFixture at h ⊢
  cases hd : disk (pathOf dir p) with
  | some failure => simp [hd] at h
  | none =>
    simp only [hd] at h
    exact ⟨h, by simp [hd]⟩

theorem foldl_update_other {path : String} : ∀ (l : List (GoldenCase × ApiVersion)) (s : Files × List String),
    (∀ p ∈ l, path ≠ pathOf dir p) → (l.foldl (updateOne o registry dir disk) s).1 path = s.1 path
  | [], _, _ => rfl
  | p :: l, s, h => by
    rw [List.foldl_cons, foldl_update_other l _ fun q hq => h q (List.mem_cons_of_mem _ hq),
      updateOne_other s (h p List.mem_cons_self)]

theorem foldl_update_nil : ∀ (l : List (GoldenCase × ApiVersion)) (s : Files × List String),
    (l.foldl (updateOne o registry dir disk) s).2 = [] → s.2 = []
  | [], _, h => h
  | _ :: l, _, h => (updateOne_written (foldl_update_nil l _ h)).1

theorem foldl_update_written : ∀ (l : List (GoldenCase × ApiVersion)) (s : Files × List String),
    (∀ p ∈ l, ∀ q ∈ l, pathOf dir p = pathOf dir q → p = q) → (l.foldl (updateOne o registry dir disk) s).2 = [] →
    ∀ p ∈ l, (l.foldl (updateOne o registry dir disk) s).1 (pathOf dir p) = some (o.pretty (render registry p) ++ "\n")
  | [], _, _, _, p, hp => by cases hp
  | p :: l, s, hinj, h, q, hq => by
    have hrest : ∀ p ∈ l, ∀ q ∈ l, pathOf dir p = pathOf dir q → p = q := fun a ha b hb =>
      hinj a (List.mem_cons_of_mem _ ha) b (List.mem_cons_of_mem _ hb)
    rw [List.foldl_cons] at h ⊢
    by_cases hlater : q ∈ l
    · exact foldl_update_written l _ hrest h q hlater
    · -- no later turn has this file
      obtain rfl : q = p := (List.mem_cons.1 hq).resolve_right hlater
      rw [foldl_update_other l _ fun r hr he => hlater (hinj q hq r (List.mem_cons_of_mem _ hr) he ▸ hr)]
      exact (updateOne_written (foldl_update_nil l _ h)).2

/-! ## Comparing -/

/-- A turn that finds what was written complains of a difference only. -/
theorem compareOne_written {files : Files} {registry' : TransformRegistry} {p p' : GoldenCase × ApiVersion}
    (hpath : pathOf dir p' = pathOf dir p)
    (hfile : files (pathOf dir p) = some (o.pretty (render registry p) ++ "\n"))
    (hround : o.fromStr (o.pretty (render registry p) ++ "\n") = .ok (render registry p)) :
    compareOne o registry' dir files p' =
      if o.same (render registry p) (render registry' p') then none
      else some (mismatch o dir p' (render registry p) (render registry' p')) := by
  have hread : readFixture o files (pathOf dir p') = .ok (render registry p) := by
    rw [readFixture, hpath, hfile]
    simp only [hround]
    rfl
  unfold compareOne
  simp only [hread]

/-- The case with another current shape. -/
def GoldenCase.sampled (sample : GoldenCase → Json.Value) (c : GoldenCase) : GoldenCase :=
  { c with current := sample c }

theorem pairs_sampled (sample : GoldenCase → Json.Value) (cases : List GoldenCase) (versions : List ApiVersion) :
    pairs (cases.map (GoldenCase.sampled sample)) versions =
      (pairs cases versions).map fun p => (p.1.sampled sample, p.2) := by
  simp [pairs, List.flatMap_map, List.map_flatMap, Function.comp_def]

theorem checkGoldenResponses_ok {files : Files} {cases : List GoldenCase} {versions : List ApiVersion} {update : Bool} :
    (checkGoldenResponses o registry dir disk files cases versions update).2 = .ok () ↔
      (failures o registry dir disk files cases versions update).2 = [] := by
  unfold checkGoldenResponses
  by_cases h : (failures o registry dir disk files cases versions update).2 = []
  · simp [h]
  · simp [h]

/-- **The harness sees every drift and no other.** After a run that has written
the files, of cases with names of their own, a run with any registry and any
current shapes has one failure for each case and version that is rendered
otherwise than when it was written, in their order, and it names the case, the
version and both renderings. So it passes exactly when all are rendered as
they were. -/
theorem golden_detects {cases : List GoldenCase} {versions : List ApiVersion} {files : Files}
    (hplain : ∀ c ∈ cases, c.Plain) (hnames : (cases.map GoldenCase.name).Nodup)
    (hyears : ∀ v ∈ versions, v.year ≤ 9999)
    (hround : ∀ p ∈ pairs cases versions, o.fromStr (o.pretty (render registry p) ++ "\n") = .ok (render registry p))
    (hwritten : (checkGoldenResponses o registry dir disk files cases versions true).2 = .ok ())
    (registry' : TransformRegistry) (sample : GoldenCase → Json.Value) (disk' : Disk) :
    let written := (checkGoldenResponses o registry dir disk files cases versions true).1
    let later := cases.map (GoldenCase.sampled sample)
    (failures o registry' dir disk' written later versions false).2 =
        ((pairs cases versions).filter fun p =>
          !o.same (render registry p) (render registry' (p.1.sampled sample, p.2))).map
        (fun p => mismatch o dir p (render registry p) (render registry' (p.1.sampled sample, p.2))) ∧
      ((checkGoldenResponses o registry' dir disk' written later versions false).2 = .ok () ↔
        ∀ c ∈ cases, ∀ v ∈ versions, o.same (registry.downgradeResponse v c.route c.method c.current)
          (registry'.downgradeResponse v c.route c.method (sample c)) = true) := by
  intro written later
  have hnone : ((pairs cases versions).foldl (updateOne o registry dir disk) (files, [])).2 = [] :=
    checkGoldenResponses_ok.1 hwritten
  have hfiles : ∀ p ∈ pairs cases versions, written (pathOf dir p) = some (o.pretty (render registry p) ++ "\n") :=
    foldl_update_written _ _ (fun p hp q hq => pathOf_inj hplain hnames hyears hp hq) hnone
  have hfailures : (failures o registry' dir disk' written later versions false).2 =
      ((pairs cases versions).filter fun p =>
        !o.same (render registry p) (render registry' (p.1.sampled sample, p.2))).map
      (fun p => mismatch o dir p (render registry p) (render registry' (p.1.sampled sample, p.2))) := by
    simp only [failures, Bool.false_eq_true, if_false, later]
    rw [pairs_sampled, List.filterMap_map, ← List.filterMap_eq_map, List.filterMap_filter]
    refine List.filterMap_congr fun p hp => ?_
    have hpath : pathOf dir (p.1.sampled sample, p.2) = pathOf dir p := rfl
    rw [Function.comp_apply, compareOne_written hpath (hfiles p hp) (hround p hp)]
    cases o.same (render registry p) (render registry' (p.1.sampled sample, p.2)) <;> rfl
  refine ⟨hfailures, ?_⟩
  rw [checkGoldenResponses_ok, hfailures, List.map_eq_nil_iff, List.filter_eq_nil_iff]
  constructor
  · intro hall c hc v hv
    simpa [render, GoldenCase.sampled] using hall (c, v) (mem_pairs.2 ⟨hc, hv⟩)
  · intro hall p hp
    obtain ⟨hc, hv⟩ := mem_pairs.1 hp
    simpa [render, GoldenCase.sampled] using hall p.1 hc p.2 hv

/-! ## A drift -/

open TransformRegistry (august september)

/-- Documents that are texts, in quotes. -/
def texts : Outside where
  pretty
    | .string text => "\"" ++ text ++ "\""
    | _ => ""
  fromStr contents := .ok (.string (String.ofList contents.toList.tail.dropLast.dropLast))
  same
    | .string a, .string b => a == b
    | _, _ => false

def getAgent : GoldenCase := ⟨"get_agent", "/agents/\x7bid\x7d", "GET", .string "label"⟩

/-- `name` became `label`. -/
def renamed : Transform where
  version := september
  appliesTo route _ := route == "/agents/\x7bid\x7d"
  downgradeResponse _ := .string "name"

def withRenamed : TransformRegistry := ⟨[renamed], List.pairwise_singleton _ _⟩

/-- The files are written with the transform and compared without: only the
version before it has drifted. -/
theorem golden_detects_renamed :
    let written := (checkGoldenResponses texts withRenamed "tests/golden" (fun _ => none)
      (fun _ => none) [getAgent] [august, september] true).1
    (failures texts TransformRegistry.new "tests/golden" (fun _ => none) written
      ([getAgent].map (GoldenCase.sampled GoldenCase.current)) [august, september] false).2 =
        ["get_agent at 2026-08-01 does not match tests/golden/get_agent__2026-08-01.json\n" ++
          "expected:\n\"name\"\nactual:\n\"label\""] := by
  have hplain : ∀ c ∈ [getAgent], c.Plain := by
    intro c hc
    rw [List.mem_singleton.1 hc]
    exact (by decide : '/' ∉ "get_agent".toList)
  have hround : ∀ p ∈ pairs [getAgent] [august, september],
      texts.fromStr (texts.pretty (render withRenamed p) ++ "\n") =
        .ok (render withRenamed p) := by
    intro p hp
    obtain rfl | rfl : p = (getAgent, august) ∨ p = (getAgent, september) := by simpa [pairs] using hp
    · rfl
    · rfl
  have hdetects := golden_detects hplain (List.nodup_singleton _) (by decide) hround
    (show (checkGoldenResponses texts withRenamed "tests/golden" (fun _ => none)
      (fun _ => none) [getAgent] [august, september] true).2 = .ok () from rfl)
    TransformRegistry.new GoldenCase.current fun _ => none
  exact hdetects.1.trans rfl

end FerrKit.Testkit
