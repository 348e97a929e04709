/-
AgoraRecording.Server.AppTheorems — what a client of the service can rely
on, over every run of requests and of the manager in between.

Each exchange that began a session is linked to it (`Linked`), and no two to
one session: `Wf`, which every step keeps, because a start's promise, once
settled, stays as it is (`Turns.started`). What a response means follows from
the link and from what holds of the manager's state alone
(`Process.Consistent`).

`replies_sound` says it: at most one response is written for a request, a sid
is told to one client only, names the recording its request began, and can be
stopped; and who is told that there is no recorder began a session that failed
and that no sid leads to.
-/
import AgoraRecording.Server.App
import AgoraRecording.Server.Delivery

namespace AgoraRecording.Server

open AgoraRecording.Lib AgoraRecording.Js

/-! ## A settled start stays settled -/

namespace Process

theorem Turns.started {s s₀ : Process} {a : Action} {i : SessionId} {g : Session} {m : Move}
    {t : Turn} (h : s.Turns a i g m t s₀) (hset : g.started ≠ .pending) :
    t.session.started = g.started := by
  cases h with
  | mkdirDone hg h =>
    unfold Session.mkdirDone at h
    split at h
    · split at h <;> cases h <;> rfl
    · cases h
  | accessDone hg h =>
    unfold Session.accessDone at h
    split at h
    · split at h <;> cases h <;> rfl
    · cases h
  | writeDone hg h =>
    unfold Session.writeDone at h
    split at h
    · simp only at h
      split at h <;> cases h <;> rfl
    · cases h
  | raise hg h =>
    unfold Session.raise at h
    split at h
    · cases h
    · split at h <;> cases h <;> rfl
  | runTask hg h =>
    unfold Session.task
    split <;> rfl
  | runImmediate hg h =>
    rename_i ev _
    cases huser : user ev with
    | none =>
      obtain ⟨_, _, _, _, honce⟩ := (g.emitted (s.registered i g.sid) ev).once_eq ev
      rw [Session.emit_eq_once g _ huser, honce]
      exact g.emitted_started _ ev
    | some uid =>
      rw [Session.emit_eq_onUser g _ (by simp [huser])]
      split
      · exact g.emitted_started _ ev
      · exact g.emitted_started _ ev
  | runReaction hg h =>
    rename_i r _
    cases r with
    | storage => rfl
    | joinFailed => rfl
    | joined => exact if_neg hset
    | caught => exact if_neg hset

/-- Every session of `s` is still there in `s'`, with its constants, and its
start settled as it was. -/
def Keeps (s s' : Process) : Prop :=
  ∀ (i : SessionId) (g : Session), s.sessions[i]? = some g →
    ∃ g', s'.sessions[i]? = some g' ∧ g.Same g' ∧ (g.started ≠ .pending → g'.started = g.started)

theorem Wired.keeps {s s' : Process} {a : Action} (hw : s.Wired) (hstep : s.step a = some s') :
    s.Keeps s' := by
  intro i g hg
  obtain ⟨-, ⟨sid, key, appid, channel, -, -, rfl⟩ | ⟨sid, -, rfl⟩ | ⟨j, gj, m, t, s₀, ht, rfl⟩⟩ :=
    hw.step_cases hstep
  · have hlt : i < s.sessions.length := (List.getElem?_eq_some_iff.mp hg).1
    exact ⟨g, by rw [List.getElem?_append_left hlt, hg], .refl g, fun _ => rfl⟩
  · exact ⟨g, hg, .refl g, fun _ => rfl⟩
  · obtain ⟨hsessions, -, -, -⟩ := ht.popped
    by_cases hij : j = i
    · subst hij
      have hgj : gj = g := Option.some.inj (ht.get.symm.trans hg)
      subst hgj
      exact ⟨t.session, take_sessions (hsessions ▸ hg) t, ht.same, ht.started⟩
    · exact ⟨g, by rw [take_sessions_other _ hij, hsessions, hg], .refl g, fun _ => rfl⟩

end Process

/-! ## What responses rest on -/

namespace Local.Inv

theorem registered_iff_started {l : Local} (h : l.Inv) :
    l.registered = true ↔ l.session.started = .resolved := by
  constructor
  · intro hreg
    exact (h.joined_of_registered hreg).aftermath.started_iff.mpr hreg
  · intro hstarted
    exact (h.joined_of_started (by simp [hstarted])).aftermath.started_iff.mp hstarted

/-- What the answer of a start says about its engine. -/
theorem verdict_of_started {l : Local} (h : l.Inv) (hset : l.session.started ≠ .pending) :
    verdict l.session.posted = l.session.started := by
  have hjoined := h.joined_of_started hset
  have hboth : l.session.joined = l.session.started := by
    have hafter := hjoined.aftermath
    revert hset hafter
    generalize l.session.joined = joined
    generalize l.session.started = started
    generalize l.reactions = reactions
    generalize l.registered = registered
    intro hset hafter
    cases hafter <;> first | rfl | exact absurd rfl hset
  rw [← verdict_filter_handled, hjoined.history, List.append_assoc, verdict_append,
    ← hjoined.verdict, hboth]
  exact if_neg hset

end Local.Inv

namespace Process

/-- The registry leads to the sessions, and each of them is in order, with
whatever tasks it waits for. -/
structure Consistent (p : Process) : Prop where
  wired : p.Wired
  sessions : ∀ (i : SessionId) (l : Local), p.view i = some l →
    ∃ queue, Local.Inv { l with queue := queue }

theorem consistent_of_reachable {p : Process} (hp : machine.Reachable p) : p.Consistent where
  wired := (reachable_wired hp).1
  sessions := fun _ l hl => ⟨l.queue, reachable_inv hp hl⟩

theorem Consistent.verdict_of_started {p : Process} (h : p.Consistent) {i : SessionId}
    {g : Session} (hg : p.sessions[i]? = some g) (hset : g.started ≠ .pending) :
    verdict g.posted = g.started := by
  obtain ⟨l, hl, rfl⟩ := exists_view hg
  obtain ⟨_, hinv⟩ := h.sessions i l hl
  exact hinv.verdict_of_started hset

/-- A session's sid is found once its start has resolved. -/
theorem Consistent.find_eq {p : Process} (h : p.Consistent) {i : SessionId} {g : Session}
    (hg : p.sessions[i]? = some g) :
    p.find g.sid = if g.started = .resolved then .own i else .missing := by
  obtain ⟨l, hl, rfl⟩ := exists_view hg
  obtain ⟨_, hinv⟩ := h.sessions i l hl
  rw [h.wired.find_eq hg, ← (view_eq_some hl).2.1]
  exact if_congr hinv.registered_iff_started rfl rfl

/-- A session that some sid leads to has been started. -/
theorem Consistent.started_of_find {p : Process} (h : p.Consistent) {sid : JsString}
    {i : SessionId} {g : Session} (hfind : p.find sid = .own i) (hg : p.sessions[i]? = some g) :
    g.started = .resolved := by
  obtain ⟨l, hl, -, hregistered⟩ := h.wired.exists_session hfind
  obtain ⟨_, hinv⟩ := h.sessions i l hl
  have hsession : l.session = g := Option.some.inj ((view_eq_some hl).1.symm.trans hg)
  rw [← hsession]
  exact hinv.registered_iff_started.mp hregistered

/-- A sid that is found can be stopped. -/
theorem postStop_of_find (numberText : JsNumber → JsString) {p : Process} {sid : JsString}
    (hsid : sid ≠ []) (hfind : p.find sid ≠ .missing) :
    (p.postStop numberText (stopBody (.string sid))).1 = .success := by
  have hfield : (stopBody (.string sid)).field (js "sid") = some (.string sid) := rfl
  have htruthy := Json.truthy_string.mpr hsid
  simp only [postStop, hfield, htruthy, Bool.true_eq_false, if_false, Json.toText, stop_eq,
    if_neg hfind]

end Process

/-! ## Exchanges and their sessions -/

namespace App

variable {numberText : JsNumber → JsString} {host : Int}

/-- A response a handler can write before it returns. -/
def immediate : Reply → Bool
  | .started _ | .notFound => false
  | _ => true

/-- Session `g` was begun by this exchange, and the exchange is answered
with what became of it. -/
structure Tracks (x : Exchange) (g : Session) : Prop where
  request : ∃ (body : Json) (args : StartArgs), x.request = .start body ∧
    postStart body = .ok args ∧ g.appid = args.appid ∧ g.channel = args.channel
  sid : g.sid ≠ []
  replies : x.replies = if x.waiting then [] else (settledReply g).toList
  settled : x.waiting = false → g.started ≠ .pending

/-- An exchange is done with, or tracks its session. -/
def Linked (p : Process) (x : Exchange) : Prop :=
  match x.session with
  | none => x.waiting = false ∧ x.replies.length ≤ 1 ∧ ∀ r ∈ x.replies, immediate r = true
  | some i => ∃ g : Session, p.sessions[i]? = some g ∧ Tracks x g

/-- The exchanges are linked, no two of them to one session. -/
structure Wf (s : App) : Prop where
  linked : ∀ x ∈ s.exchanges, Linked s.process x
  distinct : ∀ (k k' : Nat) (x x' : Exchange) (i : SessionId), s.exchanges[k]? = some x →
    s.exchanges[k']? = some x' → x.session = some i → x'.session = some i → k = k'

structure Inv (s : App) : Prop extends s.Wf where
  process : Process.machine.Reachable s.process

/-! ## What a step can do -/

/-- What a handler leaves when it returns: an exchange that is done with, or
a session and the exchange that waits for it. -/
inductive Received (s s' : App) : Prop
  | closed (x : Exchange) (session : x.session = none) (waiting : x.waiting = false)
      (length : x.replies.length ≤ 1) (replies : ∀ r ∈ x.replies, immediate r = true)
      (eq : s' = { s with exchanges := s.exchanges ++ [x] })
  | began (body : Json) (args : StartArgs) (uuid : JsString) (process : Process)
      (checked : postStart body = .ok args)
      (step : s.process.step (.start uuid args.key args.appid args.channel) = some process)
      (eq : s' = App.mk process (s.exchanges ++
        [{ request := .start body, replies := [],
           session := some s.process.sessions.length, waiting := true }]))

theorem received_close (s : App) (request : HttpRequest) {replies : List Reply}
    (hlength : replies.length ≤ 1) (hreplies : ∀ r ∈ replies, immediate r = true) :
    s.Received (s.close s.process request replies) :=
  .closed _ rfl rfl hlength hreplies rfl

theorem received_of_receive {s s' : App} {r : HttpRequest} {uuid : JsString}
    {readdirSync : JsString → Option (List JsString)}
    (h : s.receive numberText host r uuid readdirSync = some s') : s.Received s' := by
  simp only [receive] at h
  split at h
  · cases h
    exact s.received_close _ (Nat.le_refl 1) (by simp [immediate])
  · cases h
    refine s.received_close _ ?_ ?_
    all_goals unfold videosReply; split <;> simp [immediate]
  · rename_i body
    split at h
    · cases h
      exact s.received_close _ (Nat.le_refl 1) (by simp [immediate])
    · rename_i args hargs
      obtain ⟨process, hprocess, rfl⟩ := Option.map_eq_some_iff.mp h
      exact .began body args uuid process hargs hprocess rfl
  · rename_i body
    rcases Process.postStop_cases numberText s.process body with ⟨err, heq⟩ | ⟨key, heq, -⟩
    · rw [heq] at h
      cases h
      exact s.received_close _ (Nat.le_refl 1) (by simp [immediate, stopReply])
    · rw [heq] at h
      cases h
      exact s.received_close _ (Nat.le_refl 1) (by simp [immediate, stopReply])

/-- A waiting exchange is answered with what became of its session. -/
theorem settle_eq_some {s s' : App} {k : Nat} (h : s.settle k = some s') :
    ∃ x i g reply, s.exchanges[k]? = some x ∧ x.waiting = true ∧ x.session = some i ∧
      s.process.sessions[i]? = some g ∧ settledReply g = some reply ∧
      s' = App.mk s.process
        (s.exchanges.set k { x with replies := x.replies ++ [reply], waiting := false }) := by
  unfold settle at h
  split at h
  · cases h
  · rename_i x hx
    split at h
    · rename_i hwaiting
      obtain ⟨reply, hreply, rfl⟩ := Option.map_eq_some_iff.mp h
      obtain ⟨i, hi, hsession⟩ := Option.bind_eq_some_iff.mp hreply
      obtain ⟨g, hg, heq⟩ := Option.bind_eq_some_iff.mp hsession
      exact ⟨x, i, g, reply, hx, hwaiting, hi, hg, heq, rfl⟩
    · cases h

/-! ## The step -/

theorem length_of_fresh {p : Process} {sid : JsString} (h : p.fresh sid = true) : sid ≠ [] := by
  simp only [Process.fresh, isUuidV4, Bool.and_eq_true, beq_iff_eq] at h
  intro hnil
  rw [hnil] at h
  cases h.1.1

theorem Linked.of_keeps {p p' : Process} {x : Exchange} (h : Linked p x) (hkeeps : p.Keeps p') :
    Linked p' x := by
  unfold Linked at h ⊢
  split at h
  · exact h
  · rename_i i _
    obtain ⟨g, hg, htracks⟩ := h
    obtain ⟨g', hg', hsame, hstarted⟩ := hkeeps i g hg
    refine ⟨g', hg', ?_, hsame.sid ▸ htracks.sid, ?_, ?_⟩
    · obtain ⟨body, args, hrequest, hargs, happid, hchannel⟩ := htracks.request
      exact ⟨body, args, hrequest, hargs, hsame.appid.trans happid, hsame.channel.trans hchannel⟩
    · rw [htracks.replies]
      cases hwaiting : x.waiting with
      | true => rfl
      | false =>
        have hkept := hstarted (htracks.settled hwaiting)
        simp [settledReply, hkept, hsame.sid]
    · intro hwaiting
      rw [hstarted (htracks.settled hwaiting)]
      exact htracks.settled hwaiting

theorem linked_lt {p : Process} {x : Exchange} {i : SessionId} (h : Linked p x)
    (hi : x.session = some i) : i < p.sessions.length := by
  rw [Linked, hi] at h
  obtain ⟨g, hg, -⟩ := h
  exact (List.getElem?_eq_some_iff.mp hg).1

/-- A new exchange without a session, or with a new one. -/
theorem distinct_append {s : App} (h : s.Wf) {x : Exchange}
    (hx : ∀ i, x.session = some i → s.process.sessions.length ≤ i) :
    ∀ (k k' : Nat) (y y' : Exchange) (i : SessionId), (s.exchanges ++ [x])[k]? = some y →
      (s.exchanges ++ [x])[k']? = some y' → y.session = some i → y'.session = some i →
      k = k' := by
  intro k k' y y' i hk hk' hi hi'
  have hsplit : ∀ {k : Nat} {y : Exchange}, (s.exchanges ++ [x])[k]? = some y →
      (s.exchanges[k]? = some y ∧ y ∈ s.exchanges) ∨ (k = s.exchanges.length ∧ y = x) := by
    intro k y hk
    rcases Nat.lt_or_ge k s.exchanges.length with hlt | hge
    · rw [List.getElem?_append_left hlt] at hk
      exact Or.inl ⟨hk, List.mem_of_getElem? hk⟩
    · rw [List.getElem?_append_right hge] at hk
      obtain ⟨hlt, heq⟩ := List.getElem?_eq_some_iff.mp hk
      simp only [List.length_singleton] at hlt
      have hzero : k - s.exchanges.length = 0 := by omega
      simp only [hzero, List.getElem_cons_zero] at heq
      exact Or.inr ⟨by omega, heq.symm⟩
  rcases hsplit hk with ⟨hold, hmem⟩ | ⟨rfl, rfl⟩
  · rcases hsplit hk' with ⟨hold', -⟩ | ⟨rfl, rfl⟩
    · exact h.distinct k k' y y' i hold hold' hi hi'
    · exact absurd (linked_lt (h.linked y hmem) hi) (Nat.not_lt.mpr (hx i hi'))
  · rcases hsplit hk' with ⟨-, hmem'⟩ | ⟨rfl, -⟩
    · exact absurd (linked_lt (h.linked y' hmem') hi') (Nat.not_lt.mpr (hx i hi))
    · rfl

/-- An exchange in the place of one with its session. -/
theorem distinct_set {s : App} (h : s.Wf) {k : Nat} {x x' : Exchange}
    (hk : s.exchanges[k]? = some x) (hsession : x'.session = x.session) :
    ∀ (j j' : Nat) (y y' : Exchange) (i : SessionId), (s.exchanges.set k x')[j]? = some y →
      (s.exchanges.set k x')[j']? = some y' → y.session = some i → y'.session = some i →
      j = j' := by
  intro j j' y y' i hj hj' hi hi'
  have hkept : ∀ {j : Nat} {y : Exchange}, (s.exchanges.set k x')[j]? = some y →
      ∃ z, s.exchanges[j]? = some z ∧ z.session = y.session := by
    intro j y hj
    rw [List.getElem?_set] at hj
    split at hj
    · rename_i hkj
      subst hkj
      split at hj <;> cases hj
      exact ⟨x, hk, hsession.symm⟩
    · exact ⟨y, hj, rfl⟩
  obtain ⟨z, hz, hzi⟩ := hkept hj
  obtain ⟨z', hz', hzi'⟩ := hkept hj'
  exact h.distinct j j' z z' i hz hz' (hzi.trans hi) (hzi'.trans hi')

/-- The exchange of a start, when its session has just begun. -/
theorem linked_began {p p' : Process} {body : Json} {args : StartArgs} {uuid : JsString}
    (hw : p.Wired) (hchecked : postStart body = .ok args)
    (hstep : p.step (.start uuid args.key args.appid args.channel) = some p') :
    Linked p' { request := .start body, replies := [], session := some p.sessions.length,
                waiting := true } := by
  obtain ⟨-, ⟨sid, key, appid, channel, heq, hfresh, rfl⟩ | ⟨sid, heq, -⟩ |
    ⟨j, g, m, t, s₀, ht, -⟩⟩ := hw.step_cases hstep
  · cases heq
    exact ⟨Session.start uuid args.key args.appid args.channel, List.getElem?_concat_length,
      ⟨body, args, rfl, hchecked, rfl, rfl⟩, length_of_fresh hfresh, rfl, fun hw => by cases hw⟩
  · cases heq
  · cases ht

theorem Tracks.answer {x : Exchange} {g : Session} {reply : Reply} (h : Tracks x g)
    (hwaiting : x.waiting = true) (hreply : settledReply g = some reply) :
    Tracks { x with replies := x.replies ++ [reply], waiting := false } g where
  request := h.request
  sid := h.sid
  replies := by simp [h.replies, hwaiting, hreply]
  settled := by
    intro _ hpending
    rw [settledReply, hpending] at hreply
    cases hreply

namespace Wf

theorem receive {s s' : App} (h : s.Wf) (hw : s.process.Wired) (hreceived : s.Received s') :
    s'.Wf := by
  cases hreceived with
  | closed x session waiting length replies eq =>
    subst eq
    refine ⟨fun y hy => ?_, distinct_append h (by simp [session])⟩
    rcases List.mem_append.mp hy with hold | hnew
    · exact h.linked y hold
    · rw [List.mem_singleton.mp hnew, Linked, session]
      exact ⟨waiting, length, replies⟩
  | began body args uuid process checked step eq =>
    subst eq
    refine ⟨fun y hy => ?_,
      distinct_append h (fun i hi => by cases hi; exact Nat.le_refl _)⟩
    rcases List.mem_append.mp hy with hold | hnew
    · exact (h.linked y hold).of_keeps (hw.keeps step)
    · rw [List.mem_singleton.mp hnew]
      exact linked_began hw checked step

/-- The process moves on. -/
theorem move {s : App} (h : s.Wf) {process : Process} (hkeeps : s.process.Keeps process) :
    Wf { s with process := process } :=
  ⟨fun x hx => (h.linked x hx).of_keeps hkeeps, h.distinct⟩

theorem settle {s s' : App} (h : s.Wf) {k : Nat} (hsettle : s.settle k = some s') : s'.Wf := by
  obtain ⟨x, i, g, reply, hk, hwaiting, hi, hg, hreply, rfl⟩ := settle_eq_some hsettle
  refine ⟨fun y hy => ?_, distinct_set h hk rfl⟩
  rcases List.mem_or_eq_of_mem_set hy with hold | rfl
  · exact h.linked y hold
  · have hlinked := h.linked x (List.mem_of_getElem? hk)
    rw [Linked, hi] at hlinked
    obtain ⟨g', hg', htracks⟩ := hlinked
    have hgg : g' = g := Option.some.inj (hg'.symm.trans hg)
    subst hgg
    rw [Linked]
    simp only [hi]
    exact ⟨g', hg, hi ▸ htracks.answer hwaiting hreply⟩

end Wf

/-- **The step lemma.** -/
theorem Inv.step {s s' : App} {a : AppAction} (h : s.Inv)
    (hstep : s.step numberText host a = some s') : s'.Inv := by
  have hw := (Process.reachable_wired h.process).1
  unfold App.step at hstep
  split at hstep
  · cases hstep
  cases a with
  | request r uuid readdirSync =>
    have hreceived := received_of_receive hstep
    refine ⟨h.toWf.receive hw hreceived, ?_⟩
    cases hreceived with
    | closed _ _ _ _ _ eq => exact eq ▸ h.process
    | began _ _ _ _ _ step eq => exact eq ▸ Process.reachable_step h.process step
  | process a =>
    simp only at hstep
    split at hstep
    · obtain ⟨process, hprocess, rfl⟩ := Option.map_eq_some_iff.mp hstep
      exact ⟨h.toWf.move (hw.keeps hprocess), Process.reachable_step h.process hprocess⟩
    · cases hstep
  | settled k =>
    refine ⟨h.toWf.settle hstep, ?_⟩
    obtain ⟨_, _, _, _, -, -, -, -, -, rfl⟩ := settle_eq_some hstep
    exact h.process

theorem inv_reachable {s : App} (hs : (machine numberText host).Reachable s) : s.Inv :=
  Machine.Reachable.induct (I := Inv)
    ⟨⟨by simp [machine], by simp [machine]⟩, Machine.Reachable.init⟩
    (fun _ _ _ _ hi hstep => hi.step hstep) hs

/-! ## What a response means -/

/-- The session that `x` began is a recording under `sid` of what was asked
for, and its engine reported joining first. -/
def Recorded (s : App) (x : Exchange) (sid : JsString) : Prop :=
  ∃ (body : Json) (args : StartArgs) (i : SessionId) (g : Session),
    x.request = .start body ∧ postStart body = .ok args ∧ x.session = some i ∧
    s.process.sessions[i]? = some g ∧ g.appid = args.appid ∧ g.channel = args.channel ∧
    verdict g.posted = .resolved ∧ g.sid = sid ∧ s.process.find sid = .own i

/-- The session that `x` began for what was asked failed: its engine
reported an error first. Its sid is not in the registry, and no other sid
leads to it. -/
def Failed (s : App) (x : Exchange) : Prop :=
  ∃ (body : Json) (args : StartArgs) (i : SessionId) (g : Session),
    x.request = .start body ∧ postStart body = .ok args ∧ x.session = some i ∧
    s.process.sessions[i]? = some g ∧ g.appid = args.appid ∧ g.channel = args.channel ∧
    verdict g.posted = .rejected ∧ s.process.find g.sid = .missing ∧
    ∀ sid, s.process.find sid ≠ .own i

theorem settledReply_started {g : Session} {sid : JsString}
    (h : settledReply g = some (.started sid)) : g.started = .resolved ∧ g.sid = sid := by
  unfold settledReply at h
  cases hg : g.started with
  | resolved =>
    rw [hg] at h
    cases h
    exact ⟨rfl, rfl⟩
  | _ =>
    rw [hg] at h
    cases h

theorem settledReply_notFound {g : Session} (h : settledReply g = some .notFound) :
    g.started = .rejected := by
  unfold settledReply at h
  cases hg : g.started with
  | rejected => rfl
  | _ =>
    rw [hg] at h
    cases h

namespace Wf

/-- A response to a start comes from the session it began. -/
theorem tracks_of_reply {s : App} (h : s.Wf) {x : Exchange} (hx : x ∈ s.exchanges)
    {r : Reply} (hr : r ∈ x.replies) (himm : immediate r = false) :
    ∃ (i : SessionId) (g : Session), x.session = some i ∧ s.process.sessions[i]? = some g ∧
      Tracks x g ∧ settledReply g = some r := by
  have hlinked := h.linked x hx
  unfold Linked at hlinked
  split at hlinked
  · have hyes := hlinked.2.2 r hr
    rw [himm] at hyes
    cases hyes
  · rename_i i hi
    obtain ⟨g, hg, htracks⟩ := hlinked
    rw [htracks.replies] at hr
    split at hr
    · cases hr
    · exact ⟨i, g, hi, hg, htracks, by simpa using hr⟩

/-- A request gets at most one response. -/
theorem length_replies_le {s : App} (h : s.Wf) {x : Exchange} (hx : x ∈ s.exchanges) :
    x.replies.length ≤ 1 := by
  have hlinked := h.linked x hx
  unfold Linked at hlinked
  split at hlinked
  · exact hlinked.2.1
  · obtain ⟨g, -, htracks⟩ := hlinked
    rw [htracks.replies]
    split
    · exact Nat.zero_le 1
    · cases settledReply g <;> simp

/-- A sid that a client was told is that of the session its request began,
whose promise resolved. -/
theorem session_of_told {s : App} (h : s.Wf) {x : Exchange} (hx : x ∈ s.exchanges)
    {sid : JsString} (hsid : .started sid ∈ x.replies) :
    ∃ (i : SessionId) (g : Session), x.session = some i ∧ s.process.sessions[i]? = some g ∧
      Tracks x g ∧ g.started = .resolved ∧ g.sid = sid := by
  obtain ⟨i, g, hi, hg, htracks, hreply⟩ := h.tracks_of_reply hx hsid rfl
  obtain ⟨hstarted, heq⟩ := settledReply_started hreply
  exact ⟨i, g, hi, hg, htracks, hstarted, heq⟩

theorem recorded_of_told {s : App} (h : s.Wf) (hc : s.process.Consistent) {x : Exchange}
    (hx : x ∈ s.exchanges) {sid : JsString} (hsid : .started sid ∈ x.replies) :
    s.Recorded x sid := by
  obtain ⟨i, g, hi, hg, htracks, hstarted, rfl⟩ := h.session_of_told hx hsid
  obtain ⟨body, args, hrequest, hargs, happid, hchannel⟩ := htracks.request
  have hfind := (hc.find_eq hg).trans (if_pos hstarted)
  have hverdict := hc.verdict_of_started hg (by simp [hstarted])
  exact ⟨body, args, i, g, hrequest, hargs, hi, hg, happid, hchannel, hverdict.trans hstarted,
    rfl, hfind⟩

/-- Stopping what was told succeeds. -/
theorem stop_of_told {s : App} (h : s.Wf) (hc : s.process.Consistent) {x : Exchange}
    (hx : x ∈ s.exchanges) {sid : JsString} (hsid : .started sid ∈ x.replies) :
    (s.process.postStop numberText (Process.stopBody (.string sid))).1 = .success := by
  obtain ⟨_, g, -, hg, htracks, hstarted, rfl⟩ := h.session_of_told hx hsid
  refine Process.postStop_of_find numberText htracks.sid ?_
  rw [hc.find_eq hg, if_pos hstarted]
  exact fun heq => by cases heq

/-- A sid is told to one client. -/
theorem told_once {s : App} (h : s.Wf) (hw : s.process.Wired) {k k' : Nat} {x x' : Exchange}
    (hk : s.exchanges[k]? = some x) (hk' : s.exchanges[k']? = some x') {sid : JsString}
    (hsid : .started sid ∈ x.replies) (hsid' : .started sid ∈ x'.replies) : k' = k := by
  obtain ⟨i, g, hi, hg, -, -, heq⟩ := h.session_of_told (List.mem_of_getElem? hk) hsid
  obtain ⟨i', g', hi', hg', -, -, heq'⟩ := h.session_of_told (List.mem_of_getElem? hk') hsid'
  have hii : i' = i := hw.sids i' i g' g hg' hg (heq'.trans heq.symm)
  exact h.distinct k' k x' x i hk' hk (hii ▸ hi') hi

/-- A start that was answered with an error failed, and its session cannot
be found. -/
theorem failed_of_notFound {s : App} (h : s.Wf) (hc : s.process.Consistent) {x : Exchange}
    (hx : x ∈ s.exchanges) (hnot : .notFound ∈ x.replies) : s.Failed x := by
  obtain ⟨i, g, hi, hg, htracks, hreply⟩ := h.tracks_of_reply hx hnot rfl
  have hrejected := settledReply_notFound hreply
  obtain ⟨body, args, hrequest, hargs, happid, hchannel⟩ := htracks.request
  have hverdict := hc.verdict_of_started hg (by simp [hrejected])
  have hmissing := (hc.find_eq hg).trans (if_neg (by simp [hrejected]))
  have hnone : ∀ sid, s.process.find sid ≠ .own i := by
    intro sid hfind
    have hresolved := hc.started_of_find hfind hg
    rw [hrejected] at hresolved
    cases hresolved
  exact ⟨body, args, i, g, hrequest, hargs, hi, hg, happid, hchannel, hverdict.trans hrejected,
    hmissing, hnone⟩

theorem responses_sound (numberText : JsNumber → JsString) {s : App} (h : s.Wf)
    (hc : s.process.Consistent) {k : Nat} {x : Exchange} (hk : s.exchanges[k]? = some x) :
    x.replies.length ≤ 1 ∧
    (∀ sid, .started sid ∈ x.replies → s.Recorded x sid ∧
      (s.process.postStop numberText (Process.stopBody (.string sid))).1 = .success ∧
      ∀ k' x', s.exchanges[k']? = some x' → .started sid ∈ x'.replies → k' = k) ∧
    (.notFound ∈ x.replies → s.Failed x) := by
  have hx := List.mem_of_getElem? hk
  refine ⟨h.length_replies_le hx, fun sid hsid => ?_, h.failed_of_notFound hc hx⟩
  refine ⟨h.recorded_of_told hc hx hsid, h.stop_of_told hc hx hsid, fun k' x' hk' hsid' => ?_⟩
  exact h.told_once hc.wired hk hk' hsid hsid'

end Wf

/-- **What a client can rely on**: a request gets at most one response; a
sid is told to one client, is the recording that its request began, of what
it asked for, and stopping it succeeds; and the session of a start that was
answered with an error failed, and is in the registry under no sid. -/
theorem replies_sound {s : App} (hs : (machine numberText host).Reachable s) {k : Nat}
    {x : Exchange} (hk : s.exchanges[k]? = some x) :
    x.replies.length ≤ 1 ∧
    (∀ sid, .started sid ∈ x.replies → s.Recorded x sid ∧
      (s.process.postStop numberText (Process.stopBody (.string sid))).1 = .success ∧
      ∀ k' x', s.exchanges[k']? = some x' → .started sid ∈ x'.replies → k' = k) ∧
    (.notFound ∈ x.replies → s.Failed x) := by
  have hinv := inv_reachable hs
  exact hinv.responses_sound numberText (Process.consistent_of_reachable hinv.process) hk

/-! ## Runs -/

/-- A client starts a recording, its engine joins, and it is answered. -/
def startedRun : List AppAction :=
  .request someRequest Process.someSid (fun _ => none) ::
    (Process.startRun.tail.map AppAction.process ++ [.settled 0])

/-- Another client asks for the same, and its engine reports an error first. -/
def failedRun : List AppAction :=
  startedRun ++ .request someRequest Process.otherSid (fun _ => none) ::
    (List.map AppAction.process
      ([.mkdirDone 1 true, .runReaction, .accessDone 1 true,
        .writeDone 1 true (.engine Native.errOk)] ++
        Process.deliver 1 (.error 5 6) ++ [.runReaction, .runReaction]) ++
      [.settled 1])

/-- That run, cut where the second engine has reported. -/
theorem run_failedRun :
    ∃ s s' x y, (machine (fun _ => []) 0).run (failedRun.take 16) = some s ∧
      s.process.crashed = false ∧
      (machine (fun _ => []) 0).runFrom s (failedRun.drop 16) = some s' ∧
      (machine (fun _ => []) 0).run failedRun = some s' ∧ s'.exchanges = [x, y] ∧
      x.replies = [.started Process.someSid] ∧ y.replies = [.notFound] ∧
      s'.process.files = [(cfgPath (storagePath Process.someSid), storagePath Process.someSid),
        (cfgPath (storagePath Process.otherSid), storagePath Process.otherSid)] := by
  have hrun : ((machine (fun _ => []) 0).run (failedRun.take 16)).any (fun s =>
      ((machine (fun _ => []) 0).runFrom s (failedRun.drop 16)).any (fun s' =>
        !s.process.crashed &&
          s'.exchanges.map Exchange.replies == [[.started Process.someSid], [.notFound]] &&
          s'.process.files ==
            [(cfgPath (storagePath Process.someSid), storagePath Process.someSid),
             (cfgPath (storagePath Process.otherSid), storagePath Process.otherSid)])) = true := by
    decide
  obtain ⟨s, s', hs, hrest, hs', hends⟩ := Machine.exists_of_cut hrun
  obtain ⟨hends, hfiles⟩ := Bool.and_eq_true_iff.mp hends
  obtain ⟨halive, hexchanges⟩ := Bool.and_eq_true_iff.mp hends
  obtain ⟨x, ys, hxs, hx, hys⟩ := List.map_eq_cons_iff.mp (beq_iff_eq.mp hexchanges)
  obtain ⟨y, rfl, hy⟩ := List.map_eq_singleton_iff.mp hys
  exact ⟨s, s', x, y, hs, by simpa using halive, hrest, hs', hxs, hx, hy, beq_iff_eq.mp hfiles⟩

/-- Both clients are answered: one told its sid, one that its start failed. -/
theorem replies_sound_failedRun :
    ∃ s x y, (machine (fun _ => []) 0).run failedRun = some s ∧ s.exchanges = [x, y] ∧
      s.Recorded x Process.someSid ∧ s.Failed y := by
  obtain ⟨-, s, x, y, -, -, -, hs, hxs, hx, hy, -⟩ := run_failedRun
  have hfirst := replies_sound ⟨failedRun, hs⟩ (k := 0) (x := x) (by rw [hxs]; rfl)
  have hsecond := replies_sound ⟨failedRun, hs⟩ (k := 1) (x := y) (by rw [hxs]; rfl)
  exact ⟨s, x, y, hs, hxs, (hfirst.2.1 _ (by simp [hx])).1, hsecond.2.2 (by simp [hy])⟩

end App

end AgoraRecording.Server
