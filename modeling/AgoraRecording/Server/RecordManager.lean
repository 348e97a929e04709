/-
AgoraRecording.Server.RecordManager — the manager of `recordManager.js`
and the event loop that runs it, for any number of sessions.

Everything the sessions share is here: the registry `recorders`, the one
native task queue, the immediates and the promise reactions of the loop,
the files, and the process. A session is named by its position in
`sessions`; the registry maps a sid to the position of the recorder
object stored there, so that a handler reaches its own `sdk` by closure
and a recorder by lookup, as in the source.

`step` is every order of events: a storage callback may come at any time,
an engine may raise an event at any time, and the three queues are served
in any order relative to each other (each of them first in, first out). Node
8 runs the reactions after all immediates of a phase and Node 11 after
each one; both are among these orders.

`start` takes the fresh uuid as an argument. What the routes answer is in
`App.lean`, on top of this machine.
-/
import AgoraRecording.Lib.Machine
import AgoraRecording.Server.Session

namespace AgoraRecording.Server

open AgoraRecording.Lib AgoraRecording.Js AgoraRecording.Native

/-! ## Names -/

/-- A session's position in the order of the start requests. -/
abbrev SessionId := Nat

/-- The properties every plain object inherits. -/
def objectPrototype : List JsString :=
  ["constructor", "__defineGetter__", "__defineSetter__", "hasOwnProperty", "__lookupGetter__",
   "__lookupSetter__", "isPrototypeOf", "propertyIsEnumerable", "toString", "valueOf",
   "__proto__", "toLocaleString"].map js

def isHexDigit (u : UInt16) : Bool :=
  (48 ≤ u.toNat && u.toNat ≤ 57) || (97 ≤ u.toNat && u.toNat ≤ 102)

/-- `xxxxxxxx-xxxx-4xxx-yxxx-xxxxxxxxxxxx`, as `uuidv4` makes it. -/
def isUuidV4 (s : JsString) : Bool :=
  s.length == 36 && s.zipIdx.all (fun (u, i) =>
    if i = 8 ∨ i = 13 ∨ i = 18 ∨ i = 23 then u == 45
    else if i = 14 then u == 52
    else if i = 19 then u ∈ js "89ab"
    else isHexDigit u)

/-! ## State -/

structure Process where
  crashed : Bool
  recorders : List (JsString × SessionId)
  sessions : List Session
  files : List (JsString × JsString)
  queue : List (SessionId × Event)
  immediates : List (SessionId × Event)
  reactions : List (SessionId × Reaction)

/-- What `this.recorders[sid]` is. -/
inductive Found where
  /-- `undefined` -/
  | missing
  /-- the recorder object of a session -/
  | own (i : SessionId)
  /-- a property of `Object.prototype` -/
  | inherited
  deriving DecidableEq, Repr

namespace Process

def empty : Process :=
  { crashed := false, recorders := [], sessions := [], files := [], queue := [],
    immediates := [], reactions := [] }

/-- `RecordManager.find`. -/
def find (s : Process) (sid : JsString) : Found :=
  match s.recorders.lookup sid with
  | some i => .own i
  | none => if sid ∈ objectPrototype then .inherited else .missing

/-- What a callback of session `i` leaves behind. -/
def take (s : Process) (i : SessionId) (t : Turn) : Process :=
  { crashed := t.crashed
    recorders := if t.registers then (t.session.sid, i) :: s.recorders else s.recorders
    sessions := s.sessions.set i t.session
    files := s.files ++ t.written
    queue := s.queue ++ t.posted.map (Prod.mk i)
    immediates := s.immediates ++ t.fired.map (Prod.mk i)
    reactions := s.reactions ++ t.reactions.map (Prod.mk i) }

/-- A callback of session `i`, if it is due. -/
def own (s : Process) (i : SessionId) (f : Session → Option Turn) : Option Process :=
  (s.sessions[i]?.bind f).map (s.take i)

/-! ## RecordManager -/

/-- `RecordManager.onCleanup`: it reads the entry and logs; the statements
that would leave, release and delete are commented out. -/
def onCleanup (s : Process) (_sid : JsString) : Process := s

/-- `RecordManager.stop`; an error is the message of the exception. -/
def stop (s : Process) (sid : JsString) : Except String Process :=
  match s.find sid with
  | .missing => .error "recorder not exists"
  | .own _ | .inherited => .ok (s.onCleanup sid)

/-- The `userjoin` and `userleave` handlers of session `i`: the recorder
found under `sid` gets the new layout, and so does the `sdk` of the
closure. An inherited property has no `layout`: a `TypeError` in an
immediate. -/
def onUser (s : Process) (i : SessionId) (sid : JsString) (ev : Event) : Process :=
  match s.find sid with
  | .missing => s
  | .inherited => { s with crashed := true }
  | .own j =>
      match s.sessions[j]? with
      | none => s
      | some recorder =>
          let layout := Session.relayout recorder.layout ev
          let sessions := s.sessions.modify j (fun r => { r with layout := layout })
          { s with sessions := sessions.modify i (fun g => g.mix layout) }

/-- `this.emit(...args)` of session `i`'s wrapper: the manager's listener
and then the `once` listeners. -/
def emit (s : Process) (i : SessionId) (g : Session) (ev : Event) : Process :=
  let g := g.emitted (s.find g.sid ≠ .missing) ev
  match ev with
  | .joinchannel _ _ => s.take i (g.once ev)
  | .error _ _ => (s.onCleanup g.sid).take i (g.once ev)
  | .userjoin _ | .userleave _ => (s.take i { session := g }).onUser i g.sid ev
  | .leavechannel => s.take i { session := g }

end Process

/-! ## Steps -/

inductive Action where
  /-- a start request, and the uuid it draws -/
  | start (sid : JsString) (key : Option Json) (appid channel : Json)
  | mkdirDone (i : SessionId) (ok : Bool)
  | accessDone (i : SessionId) (ok : Bool)
  | writeDone (i : SessionId) (ok : Bool) (out : CreateOutcome)
  /-- the engine of session `i` raises an event -/
  | raise (i : SessionId) (ev : Event) (storageDir : Option String)
  /-- the loop runs the next native task, immediate or promise reaction -/
  | runTask
  | runImmediate
  | runReaction
  /-- a stop request -/
  | stop (sid : JsString)

namespace Process

/-- Drawing the uuid: it is one, and no session has it yet. -/
def fresh (s : Process) (sid : JsString) : Bool :=
  isUuidV4 sid && s.sessions.all (fun g => g.sid ≠ sid)

def step (s : Process) (a : Action) : Option Process :=
  if s.crashed then none
  else match a with
    | .start sid key appid channel =>
        if s.fresh sid then
          some { s with sessions := s.sessions ++ [Session.start sid key appid channel] }
        else none
    | .mkdirDone i ok => s.own i (fun g => g.mkdirDone ok)
    | .accessDone i ok => s.own i (fun g => g.accessDone ok)
    | .writeDone i ok out => s.own i (fun g => g.writeDone ok out)
    | .raise i ev storageDir => s.own i (fun g => g.raise ev storageDir)
    | .runTask =>
        match s.queue with
        | [] => none
        | (i, ev) :: rest => { s with queue := rest }.own i (fun g => some (g.task ev))
    | .runImmediate =>
        match s.immediates with
        | [] => none
        | (i, ev) :: rest =>
            s.sessions[i]?.map (fun g => { s with immediates := rest }.emit i g ev)
    | .runReaction =>
        match s.reactions with
        | [] => none
        | (i, r) :: rest => { s with reactions := rest }.own i (fun g => some (g.react r))
    | .stop sid =>
        match s.stop sid with
        | .ok s' => some s'
        | .error _ => some s

/-- Every run of the server. -/
def machine : Machine Process Action where
  init := empty
  step := step

/-! ## A run -/

def someSid : JsString := js "110ec58a-a0f2-4ac4-8393-c866d813b8d1"

def otherSid : JsString := js "220ec58a-a0f2-4ac4-8393-c866d813b8d1"

/-- A start request down to its native join. -/
def joinRun : List Action :=
  [.start someSid none (.string (js "a")) (.string (js "c")), .mkdirDone 0 true, .runReaction,
   .accessDone 0 true, .writeDone 0 true (.engine errOk)]

/-- The engine joins, and the start is answered. -/
def startRun : List Action :=
  joinRun ++ [.raise 0 (.joinchannel [99] 0) none, .runTask, .runImmediate, .runReaction]

end Process

end AgoraRecording.Server
