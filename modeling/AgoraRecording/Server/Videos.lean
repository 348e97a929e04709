/-
AgoraRecording.Server.Videos — `GET /videos/:sid`, and the lookup of
`utils/file.js` behind it.

The handler asks `getFileHasFormatMP4` for a file and answers with a link
made of `host`, the sid and the file. Three things go wrong, whatever is
on the disk:

* `host` is `process.env.DOMAIN_VIDEO | 'http://…'`, a bitwise or: the
  number 0 for every URL and for an unset variable (`envHost_eq_zero`);
* a directory that cannot be listed is an exception inside an async
  handler, and Express 4 answers nothing;
* a directory without a video is answered with a link to `null`.

So no request is answered as it should be (`not_answersPlayable`).

The path is `./output/` followed by the sid as it came, `..` and all, and
it is listed without a look at where it leads. `confined_iff` is the exact
condition under which it stays below `./output`.

The file system is what `readdirSync` returns for each path: the names, or
an exception.
-/
import AgoraRecording.Js.Number
import AgoraRecording.Lib.Path

namespace AgoraRecording.Server

open AgoraRecording.Lib AgoraRecording.Js

/-! ## utils/file.js -/

/-- `String.prototype.indexOf`. -/
def indexOf (pattern : JsString) : JsString → Int
  | [] => if pattern = [] then 0 else -1
  | u :: s =>
      if pattern.isPrefixOf (u :: s) then 0
      else
        let i := indexOf pattern s
        if i = -1 then -1 else i + 1

def outputFolder : JsString := js "./output"

/-- `${outputFolder}/${sid}` -/
def videoPath (sid : JsString) : JsString := outputFolder ++ js "/" ++ sid

/-- `getFileHasFormatMP4`, after its path: `none` when `readdirSync`
throws, and the last of several matches. -/
def getFileHasFormatMP4 (readdirSync : JsString → Option (List JsString)) (sid : JsString) :
    Option (Option JsString) :=
  (readdirSync (videoPath sid)).map (fun files =>
    files.foldl (fun mp4File file => if indexOf (js ".mp4") file > 0 then some file else mp4File)
      none)

/-! ## app.js -/

def localHost : JsString := js "http://localhost:50004/streamvideos"

/-- `ToNumeric` of an environment variable that may be unset. -/
def envNumber (round : Rat → JsDouble) : Option JsString → JsDouble
  | none => .nan
  | some value => stringToNumber round value

/-- `let host = process.env.DOMAIN_VIDEO | 'http://localhost:50004/streamvideos'` -/
def envHost (round : Rat → JsDouble) (domain : Option JsString) : Int :=
  ((envNumber round domain).toInt32 ||| (stringToNumber round localHost).toInt32).toInt

inductive VideosAnswer where
  /-- `res.json({ url })` -/
  | url (url : JsString)
  /-- the error middleware -/
  | failure (err : JsString)
  deriving DecidableEq, Repr

/-- A request that was handled: the paths it listed, and its answer, if it
has one. -/
structure VideosRun where
  listed : List JsString
  answer : Option VideosAnswer

/-- `GET /videos/:sid`. -/
def getVideos (host : Int) (readdirSync : JsString → Option (List JsString)) (sid : JsString) :
    VideosRun :=
  { listed := [videoPath sid]
    answer := (getFileHasFormatMP4 readdirSync sid).map (fun urlFile =>
      .url (js (toString host) ++ js "/" ++ sid ++ js "/" ++ urlFile.getD (js "null"))) }

/-! ## The answer -/

/-- An absolute URL has a scheme: a letter first, and a colon after it. -/
def HasScheme (value : JsString) : Prop :=
  ∃ u rest, value = u :: rest ∧ ((65 ≤ u.toNat ∧ u.toNat ≤ 90) ∨ (97 ≤ u.toNat ∧ u.toNat ≤ 122)) ∧
    58 ∈ rest

/-- The base of the links: the domain if it is set. -/
def base (domain : Option JsString) : JsString := domain.getD localHost

/-- A link to a video if there is one, and an error otherwise; one answer
in any case. -/
structure AnswersPlayable (domain : Option JsString) (files : Option (List JsString))
    (sid : JsString) (answer : Option VideosAnswer) : Prop where
  answered : answer ≠ none
  found : ∀ names, files = some names → (∃ f ∈ names, js ".mp4" <:+ f) →
    ∃ f ∈ names, js ".mp4" <:+ f ∧
      answer = some (.url (base domain ++ js "/" ++ sid ++ js "/" ++ f))
  missing : (∀ names, files = some names → ∀ f ∈ names, ¬ js ".mp4" <:+ f) →
    ∃ err, answer = some (.failure err)

theorem stringToNumber_of_hasScheme (round : Rat → JsDouble) {value : JsString}
    (h : HasScheme value) : stringToNumber round value = .nan := by
  obtain ⟨u, rest, rfl, -, hcolon⟩ := h
  exact stringToNumber_eq_nan round (List.mem_cons_of_mem u hcolon) rfl rfl

theorem hasScheme_localHost : HasScheme localHost :=
  ⟨104, localHost.tail, rfl, by decide, by decide⟩

/-- The host is 0 for an unset variable and for every URL. -/
theorem envHost_eq_zero (round : Rat → JsDouble) {domain : Option JsString}
    (h : ∀ value, domain = some value → HasScheme value) : envHost round domain = 0 := by
  have hnan : envNumber round domain = .nan := by
    cases domain with
    | none => rfl
    | some value => exact stringToNumber_of_hasScheme round (h value rfl)
  rw [envHost, hnan, stringToNumber_of_hasScheme round hasScheme_localHost]
  rfl

theorem hasScheme_base {domain : Option JsString}
    (h : ∀ value, domain = some value → HasScheme value) : HasScheme (base domain) := by
  cases domain with
  | none => exact hasScheme_localHost
  | some value => exact h value rfl

/-- **No request is answered as it should be.** -/
theorem not_answersPlayable (round : Rat → JsDouble) {domain : Option JsString}
    (h : ∀ value, domain = some value → HasScheme value)
    (readdirSync : JsString → Option (List JsString)) (sid : JsString) :
    ¬ AnswersPlayable domain (readdirSync (videoPath sid)) sid
      (getVideos (envHost round domain) readdirSync sid).answer := by
  intro hgood
  rw [envHost_eq_zero round h] at hgood
  unfold getVideos getFileHasFormatMP4 at hgood
  cases hfiles : readdirSync (videoPath sid) with
  | none =>
    rw [hfiles] at hgood
    exact hgood.answered rfl
  | some names =>
    rw [hfiles] at hgood
    by_cases hvideo : ∃ f ∈ names, js ".mp4" <:+ f
    · obtain ⟨f, -, -, heq⟩ := hgood.found names rfl hvideo
      obtain ⟨u, rest, hbase, hletter, -⟩ := hasScheme_base h
      rw [hbase] at heq
      simp only [Option.map_some, Option.some.injEq, VideosAnswer.url.injEq, List.append_assoc,
        List.cons_append] at heq
      -- the link begins with the digit 0
      have hzero : 48 = u := (List.cons.inj heq).1
      rw [← hzero] at hletter
      revert hletter
      decide
    · obtain ⟨err, heq⟩ := hgood.missing (fun names' hnames f hf hmp4 => by
        cases hnames
        exact hvideo ⟨f, hf, hmp4⟩)
      cases heq

theorem not_answersPlayable_unset :
    ¬ AnswersPlayable none (some [js "a.mp4"]) (js "s")
      (getVideos (envHost .finite none) (fun _ => some [js "a.mp4"]) (js "s")).answer :=
  not_answersPlayable .finite (fun _ h => by cases h) (fun _ => some [js "a.mp4"]) (js "s")

/-- A recording with one video, and the variable unset. -/
theorem not_all_answersPlayable :
    ¬ ∀ round domain readdirSync sid, (∀ value, domain = some value → HasScheme value) →
      AnswersPlayable domain (readdirSync (videoPath sid)) sid
        (getVideos (envHost round domain) readdirSync sid).answer := by
  intro h
  have hunset : ∀ value, none = some value → HasScheme value := fun _ h => by cases h
  have hgood := h .finite none (fun _ => some [js "a.mp4"]) (js "s") hunset
  obtain ⟨f, -, -, heq⟩ := hgood.found _ rfl ⟨js "a.mp4", List.mem_singleton.mpr rfl, by decide⟩
  rw [envHost_eq_zero .finite hunset] at heq
  have hhead := congrArg List.head? (VideosAnswer.url.inj (Option.some.inj heq))
  have hdigit : some (48 : UInt16) = some 104 := hhead
  exact absurd hdigit (by decide)

/-! ## The path -/

/-- The segments of a path: empty ones and `.` go nowhere. -/
def steps (path : JsString) : List (Path.Step JsString) :=
  (path.splitOn 47).filterMap (fun segment =>
    if segment = [] ∨ segment = js "." then none
    else if segment = js ".." then some .up
    else some (.down segment))

/-- `path.resolve(cwd, path)`, as the names below the root. -/
def resolvePath (cwd : List JsString) (path : JsString) : List JsString :=
  Path.resolve (if path.head? = some 47 then [] else cwd) (steps path)

/-- Whatever is listed is strictly below `./output`, and a sid that leads
elsewhere is answered with an error before anything is listed. -/
structure Confined (cwd : List JsString) (sid : JsString) (run : VideosRun) : Prop where
  listed : ∀ path ∈ run.listed,
    Path.Below (resolvePath cwd outputFolder) (resolvePath cwd path)
  refused : ¬ Path.Below (resolvePath cwd outputFolder) (resolvePath cwd (videoPath sid)) →
    run.listed = [] ∧ ∃ err, run.answer = some (.failure err)

theorem resolvePath_outputFolder (cwd : List JsString) :
    resolvePath cwd outputFolder = cwd ++ [js "output"] := by
  have hsteps : steps outputFolder = [.down (js "output")] := by decide
  rw [resolvePath, hsteps]
  rfl

/-- The lookup walks from the output directory. -/
theorem resolvePath_videoPath (cwd : List JsString) (sid : JsString) :
    resolvePath cwd (videoPath sid) = Path.resolve (cwd ++ [js "output"]) (steps sid) := by
  have hpath : videoPath sid = outputFolder ++ 47 :: sid := rfl
  have hsteps : steps (videoPath sid) = steps outputFolder ++ steps sid := by
    rw [hpath, steps, List.splitOn_append_cons_self, List.filterMap_append]
    rfl
  rw [← resolvePath_outputFolder, resolvePath, resolvePath, hsteps, Path.resolve_append]
  rfl

/-- **The exact condition**: in the normal form of the sid, the names that
follow the steps up begin with as many last names of the output
directory's own path, and go on. -/
theorem confined_iff (cwd : List JsString) (host : Int)
    (readdirSync : JsString → Option (List JsString)) (sid : JsString) :
    Confined cwd sid (getVideos host readdirSync sid) ↔
      ∃ rest, rest ≠ [] ∧ (Path.relative (steps sid)).names =
        (cwd ++ [js "output"]).drop
          ((cwd ++ [js "output"]).length - (Path.relative (steps sid)).ups) ++ rest := by
  rw [← Path.below_resolve_iff, ← resolvePath_videoPath, ← resolvePath_outputFolder]
  constructor
  · intro h
    exact h.listed (videoPath sid) (List.mem_singleton.mpr rfl)
  · intro hbelow
    refine ⟨fun path hpath => ?_, fun hnot => absurd hbelow hnot⟩
    rw [List.mem_singleton.mp hpath]
    exact hbelow

/-- `..` lists the directory of the server. -/
theorem not_confined_dotdot :
    ¬ ∀ cwd host readdirSync (sid : JsString), sid ≠ [] →
      Confined cwd sid (getVideos host readdirSync sid) := by
  intro h
  have hconfined := h [js "app"] 0 (fun _ => none) (js "..") (by decide)
  obtain ⟨rest, hrest, heq⟩ := hconfined.listed _ (List.mem_singleton.mpr rfl)
  have hup : resolvePath [js "app"] (videoPath (js "..")) = [js "app"] := by decide
  rw [hup, resolvePath_outputFolder, List.append_assoc] at heq
  simp at heq

end AgoraRecording.Server
