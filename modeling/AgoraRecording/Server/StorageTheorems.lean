/-
AgoraRecording.Server.StorageTheorems — where a recording is stored, and
where its video is looked for.

The two sides build their paths differently. `initStorage` resolves
`./output/${sid}` against `__dirname`; `utils/file.js` leaves its
`./output/${sid}` relative, so `readdirSync` reads it against the directory
the process was started in. Nothing connects the two but the `WORKDIR` of
the Dockerfile.

For a sid that comes from a client anything can happen
(`not_confined_dotdot`). For a sid the server told a client it is one name
(`steps_of_isUuidV4`), so the lookup stays below `./output`; and it finds
the directory of a recording exactly when the process runs in its own
directory and the recording is the one with that sid (`lookup_iff`).
-/
import AgoraRecording.Server.AppTheorems
import AgoraRecording.Server.StartTheorems

namespace AgoraRecording.Server

open AgoraRecording.Lib AgoraRecording.Js AgoraRecording.Native

/-! ## A uuid is one name -/

/-- The characters of a uuid. -/
theorem mem_of_isUuidV4 {sid : JsString} (h : isUuidV4 sid = true) {u : UInt16} (hu : u ∈ sid) :
    u = 45 ∨ u = 52 ∨ u ∈ js "89ab" ∨ isHexDigit u = true := by
  obtain ⟨i, hi⟩ := List.mem_iff_getElem?.mp hu
  simp only [isUuidV4, Bool.and_eq_true, List.all_eq_true] at h
  have hall := h.2 (u, i) (List.mem_zipIdx_iff_getElem?.mpr hi)
  simp only at hall
  split at hall
  · exact Or.inl (by simpa using hall)
  split at hall
  · exact Or.inr (Or.inl (by simpa using hall))
  split at hall
  · exact Or.inr (Or.inr (Or.inl (by simpa using hall)))
  · exact Or.inr (Or.inr (Or.inr hall))

/-- No separator among them. -/
theorem not_mem_of_isUuidV4 {sid : JsString} (h : isUuidV4 sid = true) : (47 : UInt16) ∉ sid := by
  intro hmem
  rcases mem_of_isUuidV4 h hmem with hu | hu | hu | hu <;> revert hu <;> decide

theorem length_of_isUuidV4 {sid : JsString} (h : isUuidV4 sid = true) : sid.length = 36 := by
  simp only [isUuidV4, Bool.and_eq_true, beq_iff_eq] at h
  exact h.1

theorem steps_of_isUuidV4 {sid : JsString} (h : isUuidV4 sid = true) :
    steps sid = [.down sid] := by
  have hlength := length_of_isUuidV4 h
  have hne : ∀ name : JsString, name.length ≠ 36 → sid ≠ name := by
    rintro name hname rfl
    exact hname hlength
  have hsplit : sid.splitOn 47 = [sid] :=
    List.splitOn_eq_singleton_of_beq_eq_false fun u hu => by
      have hne : u ≠ 47 := fun heq => not_mem_of_isUuidV4 h (heq ▸ hu)
      simpa using hne
  simp [steps, hsplit, hne [] (by decide), hne (js ".") (by decide), hne (js "..") (by decide)]

/-- A separator cuts a path in two. -/
theorem steps_append (path rest : JsString) :
    steps (path ++ 47 :: rest) = steps path ++ steps rest := by
  rw [steps, List.splitOn_append_cons_self, List.filterMap_append]
  rfl

/-! ## The two paths -/

/-- The directory of the server, as the names below the root. -/
def home : List JsString := [js "opt", js "app"]

theorem resolvePath_dirname (cwd : List JsString) : resolvePath cwd dirname = home := by
  have hsteps : steps dirname = [.down (js "opt"), .down (js "app")] := by decide
  rw [resolvePath, hsteps]
  rfl

theorem resolvePath_videoPath_of_isUuidV4 (cwd : List JsString) {sid : JsString}
    (h : isUuidV4 sid = true) :
    resolvePath cwd (videoPath sid) = cwd ++ [js "output", sid] := by
  rw [resolvePath_videoPath, steps_of_isUuidV4 h]
  simp [Path.resolve, Path.walk]

theorem resolvePath_cfgPath (cwd : List JsString) {sid : JsString} (h : isUuidV4 sid = true) :
    resolvePath cwd (cfgPath (storagePath sid)) =
      home ++ [js "output", sid, js "cfg.json"] := by
  have hpath : cfgPath (storagePath sid) =
      (js "/opt/app/output" ++ 47 :: sid) ++ 47 :: js "cfg.json" := by
    simp [cfgPath, storagePath, dirname]
    rfl
  have houtput : steps (js "/opt/app/output") =
      [.down (js "opt"), .down (js "app"), .down (js "output")] := by decide
  have hcfg : steps (js "cfg.json") = [.down (js "cfg.json")] := by decide
  have hsteps : steps (cfgPath (storagePath sid)) =
      [.down (js "opt"), .down (js "app"), .down (js "output"), .down sid,
        .down (js "cfg.json")] := by
    rw [hpath, steps_append, steps_append, steps_of_isUuidV4 h, houtput, hcfg]
    rfl
  rw [resolvePath, hsteps]
  rfl

/-- The listed directory holds a recording's `cfg.json` if it is the
recording's own. -/
theorem below_cfg_iff (cwd : List JsString) {sid sid' : JsString} :
    Path.Below (cwd ++ [js "output", sid]) (home ++ [js "output", sid', js "cfg.json"]) ↔
      cwd = home ∧ sid = sid' := by
  constructor
  · rintro ⟨rest, hrest, heq⟩
    have hlength := congrArg List.length heq
    simp only [home, List.length_append, List.length_cons, List.length_nil] at hlength
    have hpos := List.length_pos_of_ne_nil hrest
    match cwd, hlength, heq with
    | [], _, heq => exact absurd (List.cons.inj heq).1 (by decide)
    | [_], _, heq => exact absurd (List.cons.inj (List.cons.inj heq).2).1 (by decide)
    | [_, _], _, heq =>
      obtain ⟨hopt, heq⟩ := List.cons.inj heq
      obtain ⟨happ, heq⟩ := List.cons.inj heq
      exact ⟨by rw [home, hopt, happ], (List.cons.inj (List.cons.inj heq).2).1.symm⟩
    | _ :: _ :: _ :: _, hlength, _ =>
      simp only [List.length_cons] at hlength
      omega
  · rintro ⟨rfl, rfl⟩
    exact ⟨[js "cfg.json"], List.cons_ne_nil _ _, by simp⟩

/-! ## Every run -/

namespace Process

theorem isUuidV4_of_mem {s : Process} (hs : machine.Reachable s) {g : Session}
    (hg : g ∈ s.sessions) : isUuidV4 g.sid = true := by
  revert g
  refine hs.induct
    (I := fun s => ∀ {g : Session}, g ∈ s.sessions → isUuidV4 g.sid = true) ?_ ?_
  · simp [machine, empty]
  · intro s a s' hs hall hstep g hg
    obtain ⟨-, ⟨sid, key, appid, channel, -, hfresh, rfl⟩ | ⟨_, -, rfl⟩ |
      ⟨i, g₀, m, t, s₀, ht, rfl⟩⟩ := (reachable_wired hs).1.step_cases hstep
    · rcases List.mem_append.mp hg with hg | hg
      · exact hall hg
      · rw [List.mem_singleton.mp hg]
        simp only [fresh, Bool.and_eq_true] at hfresh
        exact hfresh.1
    · exact hall hg
    · rcases (ht.exists_mem_iff (fun x => x = g)).mp ⟨g, hg, rfl⟩ with
        rfl | ⟨j, x, -, hj, rfl⟩
      · rw [ht.same.sid]
        exact hall (List.mem_of_getElem? ht.get)
      · exact hall (List.mem_of_getElem? hj)

end Process

namespace App

variable {numberText : JsNumber → JsString} {host : Int}

/-- **A client finds its own recording**: the directory that is listed for a
sid the server gave out is below `./output`, wherever the process was
started; it is the one of a recording if and only if the process runs in
its own directory and the recording is the one with that sid. -/
theorem lookup_iff {s : App} (hs : (machine numberText host).Reachable s) {x : Exchange}
    (hx : x ∈ s.exchanges) {sid : JsString} (hsid : .started sid ∈ x.replies)
    (readdirSync : JsString → Option (List JsString)) (cwd : List JsString) {path : JsString}
    (hpath : path ∈ (getVideos host readdirSync sid).listed) :
    Path.Below (resolvePath cwd outputFolder) (resolvePath cwd path) ∧
    ∀ file storeFolder, (file, storeFolder) ∈ s.process.files →
      (Path.Below (resolvePath cwd path) (resolvePath cwd file) ↔
        cwd = resolvePath [] dirname ∧ storeFolder = storagePath sid) := by
  have hinv := inv_reachable hs
  obtain ⟨i, g, -, hg, -, -, rfl⟩ := hinv.toWf.session_of_told hx hsid
  have huuid := Process.isUuidV4_of_mem hinv.process (List.mem_of_getElem? hg)
  have hlisted : path = videoPath g.sid := List.mem_singleton.mp hpath
  rw [hlisted, resolvePath_videoPath_of_isUuidV4 cwd huuid, resolvePath_outputFolder,
    resolvePath_dirname]
  refine ⟨⟨[g.sid], List.cons_ne_nil _ _, by simp⟩, fun file storeFolder hfile => ?_⟩
  obtain ⟨g', hg', -, heq⟩ := (Process.mem_files_iff hinv.process _).mp hfile
  obtain ⟨rfl, rfl⟩ := Prod.mk.inj heq
  rw [resolvePath_cfgPath cwd (Process.isUuidV4_of_mem hinv.process hg'), below_cfg_iff]
  refine and_congr_right fun _ => ⟨fun h => by rw [h], fun h => ?_⟩
  exact (List.append_cancel_left h).symm

/-- The server in its directory: the first client finds its own recording,
and not the one that failed. -/
theorem lookup_iff_failedRun :
    ∃ s own other, (machine (fun _ => []) 0).run failedRun = some s ∧
      s.process.files = [own, other] ∧
      Path.Below (resolvePath home (videoPath Process.someSid)) (resolvePath home own.1) ∧
      ¬ Path.Below (resolvePath home (videoPath Process.someSid)) (resolvePath home other.1) := by
  obtain ⟨-, s, x, y, -, -, -, hs, hxs, hx, -, hfiles⟩ := run_failedRun
  have hget : x ∈ s.exchanges := by rw [hxs]; exact List.mem_cons_self
  have htold : .started Process.someSid ∈ x.replies := by
    rw [hx]
    exact List.mem_singleton.mpr rfl
  have hfound := (lookup_iff ⟨failedRun, hs⟩ hget htold (fun _ => none) home
    (List.mem_singleton.mpr rfl)).2
  rw [hfiles] at hfound
  refine ⟨s, _, _, hs, hfiles, ?_, fun hbelow => ?_⟩
  · exact (hfound _ _ List.mem_cons_self).mpr ⟨(resolvePath_dirname []).symm, rfl⟩
  · have hsame := ((hfound _ _ (List.mem_cons_of_mem _ List.mem_cons_self)).mp hbelow).2
    exact absurd hsame (by decide)

end App

end AgoraRecording.Server
