/-
AgoraRecording.Server.Local — the server with one session in it.

`Local` is a session with its own registry bit and its own share of the
three queues. `Local.step` is made of the same callbacks as
`Process.step`; the one difference is that a handler is given its own
recorder where the server looks it up. `Simulation.lean` says that this is
all a session can observe.

Every callback keeps the constants of its closure (`Session.Same`).
-/
import AgoraRecording.Server.RecordManager

namespace AgoraRecording.Server

open AgoraRecording.Lib AgoraRecording.Js AgoraRecording.Native

/-! ## One session's machine -/

/-- The manager's handlers, when the recorder they find is their own. -/
def Session.onUser (g : Session) (ev : Event) : Session :=
  let layout := Session.relayout g.layout ev
  { g with layout := layout }.mix layout

/-- `emit`, for a session that is in the registry or is not. -/
def Session.emit (g : Session) (registered : Bool) (ev : Event) : Turn :=
  let g := g.emitted registered ev
  match ev with
  | .joinchannel _ _ | .error _ _ => g.once ev
  | .userjoin _ | .userleave _ => { session := if registered then g.onUser ev else g }
  | .leavechannel => { session := g }

structure Local where
  session : Session
  registered : Bool
  queue : List Event
  immediates : List Event
  reactions : List Reaction

inductive Move where
  | mkdirDone (ok : Bool)
  | accessDone (ok : Bool)
  | writeDone (ok : Bool) (out : CreateOutcome)
  | raise (ev : Event) (storageDir : Option String)
  | runTask
  | runImmediate
  | runReaction

namespace Local

def take (l : Local) (t : Turn) : Local :=
  { session := t.session
    registered := t.registers || l.registered
    queue := l.queue ++ t.posted
    immediates := l.immediates ++ t.fired
    reactions := l.reactions ++ t.reactions }

def step (l : Local) : Move → Option Local
  | .mkdirDone ok => (l.session.mkdirDone ok).map l.take
  | .accessDone ok => (l.session.accessDone ok).map l.take
  | .writeDone ok out => (l.session.writeDone ok out).map l.take
  | .raise ev storageDir => (l.session.raise ev storageDir).map l.take
  | .runTask =>
      match l.queue with
      | [] => none
      | ev :: rest => some ({ l with queue := rest }.take (l.session.task ev))
  | .runImmediate =>
      match l.immediates with
      | [] => none
      | ev :: rest =>
          some ({ l with immediates := rest }.take (l.session.emit l.registered ev))
  | .runReaction =>
      match l.reactions with
      | [] => none
      | r :: rest => some ({ l with reactions := rest }.take (l.session.react r))

/-- A session that has just been requested. -/
def start (sid : JsString) (key : Option Json) (appid channel : Json) : Local :=
  { session := Session.start sid key appid channel, registered := false, queue := [],
    immediates := [], reactions := [] }

end Local

inductive LocalAction where
  | start (sid : JsString) (key : Option Json) (appid channel : Json)
  | move (m : Move)

/-- Before its request a session is nothing. -/
def localMachine : Machine (Option Local) LocalAction where
  init := none
  step
    | none, .start sid key appid channel => some (some (Local.start sid key appid channel))
    | some l, .move m => (l.step m).map some
    | _, _ => none

/-! ## Callbacks keep the identity of their session -/

/-- The closure's constants. -/
structure Session.Same (g g' : Session) : Prop where
  sid : g'.sid = g.sid
  appid : g'.appid = g.appid
  channel : g'.channel = g.channel

namespace Session

theorem Same.refl (g : Session) : g.Same g := ⟨rfl, rfl, rfl⟩

theorem Same.trans {g g' g'' : Session} (h : g.Same g') (h' : g'.Same g'') : g.Same g'' :=
  ⟨h'.sid.trans h.sid, h'.appid.trans h.appid, h'.channel.trans h.channel⟩

theorem same_mkdirDone {g : Session} {ok : Bool} {t : Turn} (h : g.mkdirDone ok = some t) :
    g.Same t.session := by
  unfold mkdirDone at h
  split at h
  · split at h <;> cases h <;> exact ⟨rfl, rfl, rfl⟩
  · cases h

theorem same_accessDone {g : Session} {ok : Bool} {t : Turn} (h : g.accessDone ok = some t) :
    g.Same t.session := by
  unfold accessDone at h
  split at h
  · split at h <;> cases h <;> exact ⟨rfl, rfl, rfl⟩
  · cases h

theorem same_writeDone {g : Session} {ok : Bool} {out : CreateOutcome} {t : Turn}
    (h : g.writeDone ok out = some t) : g.Same t.session := by
  unfold writeDone at h
  split at h
  · simp only at h
    split at h <;> cases h <;> exact ⟨rfl, rfl, rfl⟩
  · cases h

theorem same_raise {g : Session} {ev : Event} {dir : Option String} {t : Turn}
    (h : g.raise ev dir = some t) : g.Same t.session := by
  unfold raise at h
  split at h
  · cases h
  · split at h <;> cases h <;> exact ⟨rfl, rfl, rfl⟩

theorem same_task (g : Session) (ev : Event) : g.Same (g.task ev).session := by
  unfold task
  split <;> exact ⟨rfl, rfl, rfl⟩

/-- The `once` listeners change the promise and their own flags. -/
theorem once_eq (g : Session) (ev : Event) :
    ∃ joined onceError onceJoinchannel reactions,
      g.once ev =
        { session := { g with
            joined := joined, onceError := onceError, onceJoinchannel := onceJoinchannel }
          reactions := reactions } := by
  unfold once
  split
  · split
    · exact ⟨_, g.onceError, false, _, rfl⟩
    · exact ⟨g.joined, g.onceError, g.onceJoinchannel, [], rfl⟩
  · split
    · exact ⟨_, false, g.onceJoinchannel, _, rfl⟩
    · exact ⟨g.joined, g.onceError, g.onceJoinchannel, [], rfl⟩
  · exact ⟨g.joined, g.onceError, g.onceJoinchannel, [], rfl⟩

theorem same_once (g : Session) (ev : Event) : g.Same (g.once ev).session := by
  obtain ⟨_, _, _, _, h⟩ := g.once_eq ev
  rw [h]
  exact ⟨rfl, rfl, rfl⟩

theorem same_emitted (g : Session) (registered : Bool) (ev : Event) :
    g.Same (g.emitted registered ev) := by
  unfold emitted
  split <;> exact ⟨rfl, rfl, rfl⟩

theorem same_emit (g : Session) (registered : Bool) (ev : Event) :
    g.Same (g.emit registered ev).session := by
  have h := g.same_emitted registered ev
  cases ev with
  | joinchannel channel uid => exact h.trans (same_once _ _)
  | error err stat => exact h.trans (same_once _ _)
  | leavechannel => exact h
  | userjoin uid | userleave uid =>
    unfold emit
    simp only
    split
    · exact ⟨h.sid, h.appid, h.channel⟩
    · exact h

theorem same_react (g : Session) (r : Reaction) : g.Same (g.react r).session := by
  cases r <;> exact ⟨rfl, rfl, rfl⟩

end Session

end AgoraRecording.Server
