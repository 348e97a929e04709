/-
AgoraRecording.Server.StopRequest — which values `POST
/recorder/v1/stop` accepts as a session.

The handler passes whatever the body holds to `RecordManager.stop`, which
uses it to index `this.recorders`, a plain object. An index becomes a
property name first, and a plain object has more properties than its own.
So besides the sids that were issued, two kinds of value are answered with
success: the names every object inherits, and a value that is no string
but is converted to an issued sid, such as an array of one.

`stop_only_issued_iff` says that there are no others.
-/
import AgoraRecording.Js.Text
import AgoraRecording.Server.StopTheorems

namespace AgoraRecording.Server

open AgoraRecording.Lib AgoraRecording.Js

/-! ## The request -/

inductive StopAnswer where
  /-- 200, `{ success: true }` -/
  | success
  /-- the error middleware: 500, `{ success: false, err }` -/
  | failure (err : String)
  deriving DecidableEq, Repr

namespace Process

variable (numberText : JsNumber → JsString)

/-- `POST /recorder/v1/stop`: the answer, and the state afterwards. -/
def postStop (s : Process) (body : Json) : StopAnswer × Process :=
  match body.field (js "sid") with
  | none => (.failure "sid is mandatory", s)
  | some sid =>
      if sid.truthy = false then (.failure "sid is mandatory", s)
      else match sid.toText numberText with
        | none => (.failure "Cannot convert object to primitive value", s)
        | some key =>
            match s.stop key with
            | .error message => (.failure message, s)
            | .ok s' => (.success, s')

/-- An earlier start returned this sid, and its promise resolved. -/
def Issued (s : Process) (sid : JsString) : Prop :=
  ∃ g ∈ s.sessions, g.sid = sid ∧ g.started = .resolved

/-- Success is for issued sids; anything else is an error, and changes
nothing. -/
structure StopsOnlyIssued (s : Process) (sid : Json) (out : StopAnswer × Process) : Prop where
  accepted : out.1 = .success → ∃ str, sid = .string str ∧ s.Issued str
  refused : (¬ ∃ str, sid = .string str ∧ s.Issued str) →
    (∃ err, out.1 = .failure err) ∧ out.2 = s

/-! ## The registry and the sids issued -/

/-- The sids issued are those the registry holds. -/
theorem issued_iff_find {s : Process} (hs : machine.Reachable s) (sid : JsString) :
    s.Issued sid ↔ ∃ i, s.find sid = .own i := by
  constructor
  · rintro ⟨g, hmem, rfl, hstarted⟩
    obtain ⟨i, hg⟩ := List.mem_iff_getElem?.mp hmem
    obtain ⟨l, hl, rfl⟩ := exists_view hg
    have hjoined := (reachable_inv hs hl).joined_of_started (by simp [hstarted])
    have hreg := hjoined.aftermath.started_iff.mp hstarted
    refine ⟨i, ?_⟩
    rw [(reachable_wired hs).1.find_eq hg, ← (view_eq_some hl).2.1, hreg]
    rfl
  · rintro ⟨i, hfind⟩
    obtain ⟨l, hl, hsid, hreg, -, hjoined⟩ := exists_registered hs hfind
    exact ⟨l.session, List.mem_of_getElem? (view_eq_some hl).1, hsid,
      hjoined.aftermath.started_iff.mpr hreg⟩

/-- A key is found when it was issued or every object inherits it. -/
theorem find_ne_missing_iff {s : Process} (hs : machine.Reachable s) (key : JsString) :
    s.find key ≠ .missing ↔ s.Issued key ∨ key ∈ objectPrototype := by
  rw [issued_iff_find hs]
  unfold find
  cases s.recorders.lookup key with
  | some i => simp
  | none =>
    by_cases h : key ∈ objectPrototype
    · simp [h]
    · simp [h]

/-- No issued sid is a name every object inherits. -/
theorem not_mem_objectPrototype_of_issued {s : Process} (hs : machine.Reachable s)
    {sid : JsString} (h : s.Issued sid) : sid ∉ objectPrototype := by
  obtain ⟨g, hmem, rfl, -⟩ := h
  exact (reachable_wired hs).1.plain g hmem

/-! ## The answers -/

theorem stop_eq (s : Process) (key : JsString) :
    s.stop key = if s.find key = .missing then .error "recorder not exists" else .ok s := by
  unfold stop onCleanup
  cases s.find key <;> rfl

/-- A request is refused, or it is a step of the server. -/
theorem postStop_cases (s : Process) (body : Json) :
    (∃ err, postStop numberText s body = (.failure err, s)) ∨
      ∃ key, postStop numberText s body = (.success, s) ∧ s.stop key = .ok s := by
  unfold postStop
  split
  · exact Or.inl ⟨_, rfl⟩
  · split
    · exact Or.inl ⟨_, rfl⟩
    · split
      · exact Or.inl ⟨_, rfl⟩
      · rename_i key _
        rw [stop_eq]
        by_cases h : s.find key = .missing
        · rw [if_pos h]
          exact Or.inl ⟨_, rfl⟩
        · rw [if_neg h]
          exact Or.inr ⟨key, rfl, by rw [stop_eq, if_neg h]⟩

theorem postStop_success_iff {s : Process} (hs : machine.Reachable s) {body sid : Json}
    (hbody : body.field (js "sid") = some sid) :
    (postStop numberText s body).1 = .success ↔
      sid.truthy = true ∧ ∃ key, sid.toText numberText = some key ∧
        (s.Issued key ∨ key ∈ objectPrototype) := by
  unfold postStop
  rw [hbody]
  cases htruthy : sid.truthy with
  | false => simp [htruthy]
  | true =>
    cases htext : sid.toText numberText with
    | none => simp [htruthy, htext]
    | some key =>
      simp only [htruthy, htext, Bool.true_eq_false, if_false, stop_eq, Option.some.injEq,
        exists_eq_left', true_and]
      rw [← find_ne_missing_iff hs]
      by_cases h : s.find key = .missing
      · simp [h]
      · simp [h]

/-- **The exact condition**: only issued sids are accepted if and only if
the value is falsy, or names no inherited property and is either a string
or not converted to an issued sid. -/
theorem stop_only_issued_iff {s : Process} (hs : machine.Reachable s) {body sid : Json}
    (hbody : body.field (js "sid") = some sid) :
    s.StopsOnlyIssued sid (postStop numberText s body) ↔
      (sid.truthy = true → ∀ key, sid.toText numberText = some key →
        key ∉ objectPrototype ∧ ((∃ str, sid = .string str) ∨ ¬ s.Issued key)) := by
  have hsuccess := postStop_success_iff numberText hs hbody
  constructor
  · intro h htruthy key hkey
    have hissued : s.Issued key ∨ key ∈ objectPrototype → ∃ str, sid = .string str ∧ s.Issued str :=
      fun hor => h.accepted (hsuccess.mpr ⟨htruthy, key, hkey, hor⟩)
    constructor
    · intro hmem
      obtain ⟨str, rfl, hstr⟩ := hissued (Or.inr hmem)
      cases hkey
      exact not_mem_objectPrototype_of_issued hs hstr hmem
    · by_cases hk : s.Issued key
      · obtain ⟨str, hstr, -⟩ := hissued (Or.inl hk)
        exact Or.inl ⟨str, hstr⟩
      · exact Or.inr hk
  · intro h
    have haccepted : (postStop numberText s body).1 = .success →
        ∃ str, sid = .string str ∧ s.Issued str := by
      intro hok
      obtain ⟨htruthy, key, hkey, hor⟩ := hsuccess.mp hok
      obtain ⟨hplain, hkind⟩ := h htruthy key hkey
      have hk : s.Issued key := hor.resolve_right hplain
      rcases hkind with ⟨str, rfl⟩ | hnot
      · cases hkey
        exact ⟨key, rfl, hk⟩
      · exact absurd hk hnot
    refine ⟨haccepted, fun hnot => ?_⟩
    rcases postStop_cases numberText s body with ⟨err, heq⟩ | ⟨key, heq, -⟩
    · rw [heq]
      exact ⟨⟨err, rfl⟩, rfl⟩
    · exact absurd (haccepted (by rw [heq])) hnot

/-- A stop request with this sid. -/
def stopBody (sid : Json) : Json := .object [(js "sid", sid)]

/-- An array of an issued sid is as good as the sid. -/
theorem postStop_array {s : Process} (hs : machine.Reachable s) {sid : JsString}
    (h : s.Issued sid) :
    (postStop numberText s (stopBody (.array [.string sid]))).1 = .success :=
  (postStop_success_iff numberText hs rfl).mpr
    ⟨rfl, sid, Json.toText_singleton numberText sid, Or.inl h⟩

theorem stop_only_issued_startRun :
    ∃ s, machine.run startRun = some s ∧
      (s.StopsOnlyIssued (.string someSid)
        (postStop (fun _ => []) s (stopBody (.string someSid))) ↔
          ((Json.string someSid).truthy = true → ∀ key,
            (Json.string someSid).toText (fun _ => []) = some key →
              key ∉ objectPrototype ∧ ((∃ str, Json.string someSid = .string str) ∨
                ¬ s.Issued key))) := by
  obtain ⟨s, hs, -, -⟩ := run_startRun
  exact ⟨s, hs, stop_only_issued_iff (fun _ => []) ⟨startRun, hs⟩ rfl⟩

/-- Before anything was started, `constructor` is stopped with success. -/
theorem not_stop_only_issued_constructor :
    ¬ ∀ numberText s body sid, machine.Reachable s → body.field (js "sid") = some sid →
      s.StopsOnlyIssued sid (postStop numberText s body) := by
  intro h
  have honly := h (fun _ => []) empty (stopBody (.string (js "constructor"))) _
    Machine.Reachable.init rfl
  obtain ⟨str, -, g, hmem, -⟩ := honly.accepted (by decide)
  exact absurd hmem List.not_mem_nil

end Process

end AgoraRecording.Server
