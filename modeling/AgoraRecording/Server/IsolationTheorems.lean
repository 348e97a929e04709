/-
AgoraRecording.Server.IsolationTheorems — sessions do not influence each
other.

The sessions share the manager, the registry, the native queue and the
event loop, and yet what the registry and a session's sdk show of it
depends on its own events alone (`sessions_isolated`).

The projection is in two halves. Along a run the events a session's sdk
has posted grow by what its engine raises and by nothing else
(`postedBy_eq`). And its layout and the layouts passed to its
`setMixLayout` are the fold of the events emitted since (`Heard`). The
history of the session ties the halves: posted is emitted and still
pending, in order.
-/
import AgoraRecording.Server.LayoutHistory
import AgoraRecording.Server.StopTheorems

namespace AgoraRecording.Server

open AgoraRecording.Lib AgoraRecording.Js AgoraRecording.Native

/-! ## A registered session -/

namespace Local

/-- A step of a registered session: its engine raises an event, a task is
run, or an event is emitted. -/
theorem registered_step {l l' : Local} {m : Move} (h : l.Inv) (hreg : l.registered = true)
    (hstep : l.step m = some l') :
    (∃ ev dir sdk, m = .raise ev dir ∧
      l'.session = { l.session with sdk := sdk, posted := l.session.posted ++ [ev] }) ∨
    (m = .runTask ∧ l'.session = l.session) ∨
    ∃ ev rest, m = .runImmediate ∧ l.immediates = ev :: rest ∧
      l'.session = (l.session.emit true ev).session := by
  rcases h.blank_or_joined with hb | ⟨hstage, hj⟩
  · exact absurd hreg (by simp [hb.registered])
  rcases native_step_cases hstage hstep with ⟨ev, dir, t, rfl, ht, rfl⟩ |
    ⟨ev, rest, rfl, -, rfl⟩ | ⟨ev, rest, rfl, himm, rfl⟩ | ⟨r, rest, -, hr, -⟩
  · obtain ⟨_, sdk, -, -, rfl, -, -⟩ := Session.raise_eq_some hj.engine ht
    exact Or.inl ⟨ev, dir, sdk, rfl, rfl⟩
  · rw [Session.task_eq hj.subscribed]
    exact Or.inr (Or.inl ⟨rfl, rfl⟩)
  · rw [hreg]
    exact Or.inr (Or.inr ⟨ev, rest, rfl, himm, rfl⟩)
  · -- an entry in the registry is the last thing a start's reactions do
    have hafter := hj.aftermath
    rw [hreg] at hafter
    rw [hafter.reactions_of_registered] at hr
    cases hr

/-- `l'` is a sequel of `l`: the same session, which heard what it emitted
in between. -/
structure Heard (l l' : Local) : Prop where
  same : l.session.Same l'.session
  early : l'.session.early = l.session.early
  since : ∃ evs, l'.session.late = l.session.late ++ evs ∧
    l'.session.heard = evs.foldl hear l.session.heard

theorem Heard.refl (l : Local) : l.Heard l := ⟨Session.Same.refl _, rfl, [], by simp, rfl⟩

theorem Heard.step {l l₁ l₂ : Local} {m : Move} (h : l.Heard l₁) (hinv : l₁.Inv)
    (hreg : l₁.registered = true) (hstep : l₁.step m = some l₂) : l.Heard l₂ := by
  obtain ⟨hsame, hearly, evs, hlate, hheard⟩ := h
  rcases registered_step hinv hreg hstep with ⟨_, _, _, -, hs⟩ | ⟨-, hs⟩ | ⟨ev, rest, -, -, hs⟩
  · constructor <;> rw [hs]
    · exact ⟨hsame.sid, hsame.appid, hsame.channel⟩
    · exact hearly
    · exact ⟨evs, hlate, hheard⟩
  · constructor <;> rw [hs]
    · exact hsame
    · exact hearly
    · exact ⟨evs, hlate, hheard⟩
  · obtain ⟨-, hearly', hlate', hheard'⟩ := l₁.session.emit_registered ev
    constructor <;> rw [hs]
    · exact hsame.trans (Session.same_emit _ _ _)
    · exact hearly'.trans hearly
    · refine ⟨evs ++ [ev], ?_, ?_⟩
      · rw [hlate', hlate, List.append_assoc]
      · rw [hheard', hheard, List.foldl_append]
        rfl

/-- The session's events that are on their way to its handlers. -/
def pending (l : Local) : List Event := l.immediates ++ l.queue.filter handled

/-- Two sequels of one session that were posted the same, with equally
many events pending, heard the same. -/
theorem Heard.eq {l l₁ l₂ : Local} (h₁ : l.Heard l₁) (h₂ : l.Heard l₂) (hj₁ : l₁.Joined)
    (hj₂ : l₂.Joined) (hposted : l₁.session.posted = l₂.session.posted)
    (hpending : l₁.pending.length = l₂.pending.length) :
    l₁.session.heard = l₂.session.heard := by
  obtain ⟨-, hearly₁, evs₁, hlate₁, hheard₁⟩ := h₁
  obtain ⟨-, hearly₂, evs₂, hlate₂, hheard₂⟩ := h₂
  have hhistory : l.session.early ++ (l.session.late ++ evs₁) ++ l₁.pending =
      l.session.early ++ (l.session.late ++ evs₂) ++ l₂.pending := by
    rw [← hearly₁, ← hlate₁, hearly₁, ← hearly₂, ← hlate₂, pending, pending,
      ← List.append_assoc, ← List.append_assoc, ← hj₂.history, ← hposted, hj₁.history, hearly₁,
      hearly₂]
  have hevs : evs₁ = evs₂ := by
    have hboth := (List.append_inj' hhistory hpending).1
    exact List.append_cancel_left (List.append_cancel_left hboth)
  rw [hheard₁, hheard₂, hevs]

end Local

/-! ## Requests -/

/-- What a run asks of one session: an event of its engine, or a stop. -/
inductive Request where
  | event (ev : Event)
  | stop

/-- The request an action makes of session `i`, registered under `sid`. -/
def Action.request (i : SessionId) (sid : JsString) : Action → Option Request
  | .raise j ev _ => if j = i then some (.event ev) else none
  | .stop sid' => if sid' = sid then some .stop else none
  | _ => none

namespace Process

/-- A request changes what was posted if it is an event. -/
def post (posted : Option (List Event)) : Request → Option (List Event)
  | .event ev => posted.map (fun evs => evs ++ [ev])
  | .stop => posted

def postedBy (s : Process) (i : SessionId) : Option (List Event) :=
  (s.view i).map (fun l => l.session.posted)

theorem elim_request_of_not_raise {a : Action} {i : SessionId} (h : ∀ ev dir, a ≠ .raise i ev dir)
    (sid : JsString) (posted : Option (List Event)) :
    (a.request i sid).elim posted (post posted) = posted := by
  cases a with
  | raise j ev dir =>
    have hji : j ≠ i := fun heq => h ev dir (heq ▸ rfl)
    simp [Action.request, hji]
  | stop sid' =>
    simp only [Action.request]
    split <;> rfl
  | _ => rfl

/-- Only a request of its own changes what a registered session posted. -/
theorem postedBy_step {s s' : Process} {a : Action} {sid : JsString} {i : SessionId}
    (hs : machine.Reachable s) (hfind : s.find sid = .own i) (hstep : s.step a = some s') :
    s'.postedBy i = (a.request i sid).elim (s.postedBy i) (post (s.postedBy i)) := by
  obtain ⟨l, hl, -, hreg, hinv, -⟩ := exists_registered hs hfind
  rcases (reachable_wired hs).1.view_step hl hstep with
    ⟨hl', hnot⟩ | ⟨g, m, t, s₀, l', ht, hmove, hl'⟩
  · rw [elim_request_of_not_raise hnot, postedBy, postedBy, hl, hl']
  · rcases Local.registered_step hinv hreg hmove with
      ⟨ev, dir, sdk, rfl, hsession⟩ | ⟨rfl, hsession⟩ | ⟨ev, rest, rfl, -, hsession⟩
    · cases ht
      simp [postedBy, hl, hl', hsession, Action.request, post]
    · cases ht
      simp [postedBy, hl, hl', hsession, Action.request]
    · cases ht
      obtain ⟨hposted, -⟩ := l.session.emit_registered ev
      simp [postedBy, hl, hl', hsession, hposted, Action.request]

/-- Two runs that ask the same of a session make it post the same. -/
theorem postedBy_eq {s s₁ s₂ : Process} {sid : JsString} {i : SessionId} {as₁ as₂ : List Action}
    (hs : machine.Reachable s) (hfind : s.find sid = .own i)
    (h₁ : machine.runFrom s as₁ = some s₁) (h₂ : machine.runFrom s as₂ = some s₂)
    (hsame : as₁.filterMap (Action.request i sid) = as₂.filterMap (Action.request i sid)) :
    s₁.postedBy i = s₂.postedBy i := by
  have hview : ∀ t a t', (machine.Reachable t ∧ t.find sid = .own i) →
      machine.step t a = some t' →
      t'.postedBy i = (a.request i sid).elim (t.postedBy i) (post (t.postedBy i)) :=
    fun t a t' ht hstep => postedBy_step ht.1 ht.2 hstep
  exact Machine.view_eq_of_filterMap_eq (I := fun t => machine.Reachable t ∧ t.find sid = .own i)
    (fun _ _ _ ht hstep => entry_step ht hstep) hview ⟨hs, hfind⟩ h₁ h₂ hsame

/-! ## Isolation -/

/-- A run takes a registered session to a sequel of it. -/
theorem heard_runFrom {s s' : Process} {sid : JsString} {i : SessionId} {as : List Action}
    {l l' : Local} (hs : machine.Reachable s) (hfind : s.find sid = .own i)
    (hl : s.view i = some l) (hl' : s'.view i = some l') (hrun : machine.runFrom s as = some s') :
    l.Heard l' := by
  have hstep : ∀ t a t', ((machine.Reachable t ∧ t.find sid = .own i) ∧
      ∀ l', t.view i = some l' → l.Heard l') → machine.step t a = some t' →
      (machine.Reachable t' ∧ t'.find sid = .own i) ∧ ∀ l', t'.view i = some l' → l.Heard l' := by
    rintro t a t' ⟨ht, hheard⟩ hstep
    refine ⟨entry_step ht hstep, fun l₂ hl₂ => ?_⟩
    obtain ⟨l₁, hl₁, -, hreg, hinv, -⟩ := exists_registered ht.1 ht.2
    rcases (reachable_wired ht.1).1.view_step hl₁ hstep with
      ⟨hsame, -⟩ | ⟨_, _, _, _, l₃, -, hmove, hl₃⟩
    · rw [hl₂] at hsame
      cases hsame
      exact hheard _ hl₁
    · rw [hl₂] at hl₃
      cases hl₃
      exact (hheard l₁ hl₁).step hinv hreg hmove
  have hinit : ∀ l', s.view i = some l' → l.Heard l' := by
    intro l₁ hl₁
    rw [hl] at hl₁
    cases hl₁
    exact Local.Heard.refl l
  exact (Machine.runFrom_keeps hstep ⟨⟨hs, hfind⟩, hinit⟩ hrun).2 l' hl'

/-- What the registry and the sdk show under a sid: the entry, the
recorder's own fields, its layout, and the layouts passed to its
`setMixLayout`. -/
structure Shown where
  entry : SessionId
  recorder : JsString × Json × Json
  heard : JsLayout × List JsLayout

def shown (s : Process) (sid : JsString) : Option Shown :=
  match s.find sid with
  | .own i => s.sessions[i]?.map (fun g => ⟨i, (g.sid, g.appid, g.channel), g.heard⟩)
  | .missing | .inherited => none

theorem shown_eq {s : Process} {sid : JsString} {i : SessionId} {l : Local}
    (hfind : s.find sid = .own i) (hl : s.view i = some l) :
    s.shown sid =
      some ⟨i, (l.session.sid, l.session.appid, l.session.channel), l.session.heard⟩ := by
  rw [shown, hfind]
  simp only
  rw [(view_eq_some hl).1]
  rfl

/-- How many of session `i`'s events are on their way to its handlers. -/
def pending (s : Process) (i : SessionId) : Nat :=
  (share i s.immediates ++ (share i s.queue).filter handled).length

/-- The layouts passed to `setMixLayout` of session `i`'s sdk. -/
def mixCalls (s : Process) (i : SessionId) : Option (List JsLayout) :=
  s.sessions[i]?.map Session.mixCalls

/-- The step hands session `i` an event its own sdk posted. -/
def HandsOwn (i : SessionId) (s : Process) (a : Action) : Prop :=
  ∃ g ev rest, a = .runImmediate ∧ s.immediates = (i, ev) :: rest ∧ s.sessions[i]? = some g ∧
    ev ∈ g.posted

/-- Only its own events make a registered session mix. -/
theorem handsOwn_of_mixCalls {s s' : Process} {a : Action} {sid : JsString} {i : SessionId}
    (hs : machine.Reachable s) (hfind : s.find sid = .own i) (hstep : s.step a = some s')
    (hmix : s'.mixCalls i ≠ s.mixCalls i) : HandsOwn i s a := by
  obtain ⟨l, hl, -, hreg, hinv, hjoined⟩ := exists_registered hs hfind
  obtain ⟨hg, -, -, hshare, -⟩ := view_eq_some hl
  have hcalls : ∀ l', s'.view i = some l' → l'.session.mixCalls ≠ l.session.mixCalls := by
    intro l' hl' heq
    exact hmix (by rw [mixCalls, mixCalls, (view_eq_some hl').1, hg, Option.map_some, heq]; rfl)
  rcases (reachable_wired hs).1.view_step hl hstep with
    ⟨hl', -⟩ | ⟨_, _, _, _, l', ht, hmove, hl'⟩
  · exact absurd rfl (hcalls l hl')
  · rcases Local.registered_step hinv hreg hmove with
      ⟨ev, dir, sdk, -, hsession⟩ | ⟨-, hsession⟩ | ⟨ev, rest, rfl, himm, -⟩
    · exact absurd (by rw [hsession]) (hcalls l' hl')
    · exact absurd (by rw [hsession]) (hcalls l' hl')
    · cases ht with
      | @runImmediate _ _ ev' rest' _ himmediates =>
        rw [himmediates, share_cons_same, himm, List.cons.injEq] at hshare
        obtain ⟨rfl, -⟩ := hshare
        have hposted : ev ∈ l.session.posted.filter handled := by
          rw [hjoined.history, himm]
          simp
        exact ⟨l.session, ev, rest', rfl, himmediates, hg, (List.mem_filter.mp hposted).1⟩

/-- **Sessions do not influence each other.** Two runs that ask the same
of a registered session, and have as many of its events pending, show the
same under its sid; and whenever its sdk is given a layout, the event
handled is one the session's own sdk posted. -/
theorem sessions_isolated {s : Process} {sid : JsString} {i : SessionId}
    (hs : machine.Reachable s) (hfind : s.find sid = .own i) :
    (∀ as₁ as₂ s₁ s₂, machine.runFrom s as₁ = some s₁ → machine.runFrom s as₂ = some s₂ →
      as₁.filterMap (Action.request i sid) = as₂.filterMap (Action.request i sid) →
      s₁.pending i = s₂.pending i →
      ∃ o, o.entry = i ∧ s₁.shown sid = some o ∧ s₂.shown sid = some o) ∧
    ∀ as s₁ a s₂, machine.runFrom s as = some s₁ → s₁.step a = some s₂ →
      s₂.mixCalls i ≠ s₁.mixCalls i → HandsOwn i s₁ a := by
  constructor
  · intro as₁ as₂ s₁ s₂ h₁ h₂ hsame hpending
    have hfind₁ := find_keeps hs hfind h₁
    have hfind₂ := find_keeps hs hfind h₂
    obtain ⟨l, hl, -, -, -, -⟩ := exists_registered hs hfind
    obtain ⟨l₁, hl₁, -, -, -, hj₁⟩ := exists_registered (hs.runFrom h₁) hfind₁
    obtain ⟨l₂, hl₂, -, -, -, hj₂⟩ := exists_registered (hs.runFrom h₂) hfind₂
    have hheard₁ := heard_runFrom hs hfind hl hl₁ h₁
    have hheard₂ := heard_runFrom hs hfind hl hl₂ h₂
    have hposted : l₁.session.posted = l₂.session.posted := by
      simpa [postedBy, hl₁, hl₂] using postedBy_eq hs hfind h₁ h₂ hsame
    have hpending' : l₁.pending.length = l₂.pending.length := by
      rw [Local.pending, Local.pending]
      rw [pending, pending] at hpending
      rw [(view_eq_some hl₁).2.2.1, (view_eq_some hl₁).2.2.2.1, hpending,
        (view_eq_some hl₂).2.2.1, (view_eq_some hl₂).2.2.2.1]
    have hheard : l₁.session.heard = l₂.session.heard :=
      hheard₁.eq hheard₂ hj₁ hj₂ hposted hpending'
    refine ⟨_, rfl, shown_eq hfind₁ hl₁, ?_⟩
    rw [shown_eq hfind₂ hl₂, hheard, hheard₁.same.sid, hheard₁.same.appid, hheard₁.same.channel,
      hheard₂.same.sid, hheard₂.same.appid, hheard₂.same.channel]
  · intro as s₁ a s₂ hrun hstep hmix
    exact handsOwn_of_mixCalls (hs.runFrom hrun) (find_keeps hs hfind hrun) hstep hmix

/-- A user joins a started recording, its task is run, and the event is
emitted. -/
def aloneRun : List Action := [.raise 0 (.userjoin 7) none, .runTask, .runImmediate]

/-- The same while a second recording is requested, and its engine, whose
join fails, raises an error between the two. -/
def amongRun : List Action :=
  [.start otherSid none (.string (js "a")) (.string (js "c")), .mkdirDone 1 true, .runReaction,
   .accessDone 1 true, .writeDone 1 true (.engine 1), .raise 1 (.error 5 6) none,
   .raise 0 (.userjoin 7) none, .stop otherSid, .runTask, .runTask, .runImmediate, .runImmediate]

theorem sessions_isolated_startRun :
    ∃ s t s₁ s₂, machine.run startRun = some s ∧
      machine.runFrom s [.raise 0 (.userjoin 7) none, .runTask] = some t ∧
      machine.runFrom s aloneRun = some s₁ ∧ machine.runFrom s amongRun = some s₂ ∧
      (∃ o, o.entry = 0 ∧ s₁.shown someSid = some o ∧ s₂.shown someSid = some o) ∧
      HandsOwn 0 t .runImmediate := by
  have hsplit : ∀ as bs, machine.run (as ++ bs) = (machine.run as).bind (machine.runFrom · bs) :=
    machine.runFrom_append machine.init
  have halone : (machine.run (startRun ++ aloneRun)).map (fun s =>
      (s.pending 0, (s.mixCalls 0).map List.length)) = some (0, some 2) := by decide
  have hready : (machine.run (startRun ++ [.raise 0 (.userjoin 7) none, .runTask])).map (fun s =>
      (s.mixCalls 0).map List.length) = some (some 1) := by decide
  have hamong : (machine.run (startRun ++ amongRun)).map (fun s => s.pending 0) = some 0 := by
    decide
  obtain ⟨s, hs, hfind, -⟩ := run_startRun
  obtain ⟨s₁, h₁, heq₁⟩ := Option.map_eq_some_iff.mp halone
  obtain ⟨t, ht, heq⟩ := Option.map_eq_some_iff.mp hready
  obtain ⟨s₂, h₂, heq₂⟩ := Option.map_eq_some_iff.mp hamong
  rw [hsplit, hs, Option.bind_some] at h₁ ht h₂
  obtain ⟨hpending, hcalls⟩ := Prod.mk.inj heq₁
  have hstep : t.step .runImmediate = some s₁ := by
    have happ := machine.runFrom_append s [.raise 0 (.userjoin 7) none, .runTask] [.runImmediate]
    rw [ht, Option.bind_some] at happ
    obtain ⟨t', hstep, hnil⟩ := machine.runFrom_cons_some.mp (happ.symm.trans h₁)
    cases hnil
    exact hstep
  have hmix : s₁.mixCalls 0 ≠ t.mixCalls 0 := by
    intro hsame
    rw [hsame, heq] at hcalls
    cases hcalls
  have hisolated := sessions_isolated ⟨startRun, hs⟩ hfind
  exact ⟨s, t, s₁, s₂, hs, ht, h₁, h₂,
    hisolated.1 aloneRun amongRun s₁ s₂ h₁ h₂ rfl (hpending.trans heq₂.symm),
    hisolated.2 _ t .runImmediate s₁ ht hstep hmix⟩

end Process

end AgoraRecording.Server
