/-
AgoraRecording.Server.Session — one start request and everything its
callbacks do.

A `Session` is what `RecordManager.start` closes over: the recorder
object (`sid`, `appid`, `channel`, `sdk`, `layout`), the two promises, the
two `once` listeners, and how far the storage steps have come. A callback
that belongs to the session is a function from it to a `Turn`: the
session afterwards and what the callback gave to the shared state — tasks
for the native queue, immediates, promise reactions, a file, a registry
entry, or the end of the process.

The rest of a `Session` is its history, read by no code: the outcome of
each step, the layouts passed to `sdk.setMixLayout`, the events its
`AgoraSdk` posted, and the events emitted before and after the registry
held the session.
-/
import AgoraRecording.Server.AgoraRecordSdk

namespace AgoraRecording.Server

open AgoraRecording.Js AgoraRecording.Native

/-! ## Sessions -/

/-- What `start` is waiting for. -/
inductive Stage where
  /-- the callback of `fs.mkdir` -/
  | mkdir
  /-- the `.then` of `initStorage` -/
  | storage
  /-- the callback of `fs.access` -/
  | access
  /-- the callback of `fs.writeFile` -/
  | write
  /-- the native engine -/
  | native
  deriving DecidableEq, Repr

inductive Settle where
  | pending | resolved | rejected
  deriving DecidableEq, Repr

/-- A settled promise stays as it is. -/
def Settle.to (p : Settle) (outcome : Settle) : Settle :=
  if p = .pending then outcome else p

structure Session where
  sid : JsString
  key : Option Json
  appid : Json
  channel : Json
  sdk : AgoraSdk
  layout : JsLayout
  stage : Stage
  /-- the promise of `sdk.joinChannel` -/
  joined : Settle
  /-- the promise of `start` -/
  started : Settle
  onceError : Bool
  onceJoinchannel : Bool
  mkdir : Option Bool
  access : Option Bool
  writeFile : Option Bool
  created : Option CreateOutcome
  mixCalls : List JsLayout
  posted : List Event
  early : List Event
  late : List Event

/-- A promise reaction waiting in the microtask queue. -/
inductive Reaction where
  /-- `.then(storagePath => …)` -/
  | storage
  /-- `.then(() => { this.recorders[sid] = recorder; … })` -/
  | joined
  /-- the same, passing a rejection on -/
  | joinFailed
  /-- `.catch(e => { reject(e); })` -/
  | caught
  deriving DecidableEq, Repr

structure Turn where
  session : Session
  posted : List Event := []
  fired : List Event := []
  reactions : List Reaction := []
  registers : Bool := false
  written : List (JsString × JsString) := []
  crashed : Bool := false

namespace Session

/-- `RecordManager.start` up to `fs.mkdir`. -/
def start (sid : JsString) (key : Option Json) (appid channel : Json) : Session :=
  { sid := sid, key := key, appid := appid, channel := channel
    sdk := .new, layout := initialLayout, stage := .mkdir
    joined := .pending, started := .pending, onceError := false, onceJoinchannel := false
    mkdir := none, access := none, writeFile := none, created := none
    mixCalls := [], posted := [], early := [], late := [] }

/-! ## Storage steps -/

/-- The callback of `fs.mkdir`: an error is thrown where nothing catches
it. -/
def mkdirDone (g : Session) (ok : Bool) : Option Turn :=
  if g.stage = .mkdir then
    if ok then
      some { session := { g with mkdir := some true, stage := .storage }
             reactions := [.storage] }
    else some { session := { g with mkdir := some false }, crashed := true }
  else none

/-- `sdk.setMixLayout(layout)` of the recorder's own wrapper. -/
def mix (g : Session) (layout : JsLayout) : Session :=
  { g with sdk := setMixLayout g.sdk layout, mixCalls := g.mixCalls ++ [layout] }

/-- The body of `.then(storagePath => …)`: a new wrapper, the first
layout, and `fs.access` on its way. -/
def storage (g : Session) : Turn :=
  let recorder := { g with sdk := newRecordSdk, layout := initialLayout, stage := .access }
  { session := recorder.mix recorder.layout }

/-- The callback of `fs.access`. -/
def accessDone (g : Session) (ok : Bool) : Option Turn :=
  if g.stage = .access then
    if ok then some { session := { g with access := some true, stage := .write } }
    else some { session := { g with access := some false }, crashed := true }
  else none

/-- The callback of `fs.writeFile`, which does not look at its `err`: the
native join, its result dropped, and then the two `once` listeners. -/
def writeDone (g : Session) (ok : Bool) (out : CreateOutcome) : Option Turn :=
  if g.stage = .write then
    let g := { g with writeFile := some ok, stage := .native }
    let files := if ok then [(cfgPath (storagePath g.sid), storagePath g.sid)] else []
    let listening := { g with onceError := true, onceJoinchannel := true }
    match recordingJoinChannel g.sdk (Json.orElse g.key .null) g.channel 0 g.appid
        (storagePath g.sid) with
    | .aborted => some { session := g, written := files, crashed := true }
    | .emitError err statCode =>
        some { session := { listening with posted := g.posted ++ [.error err statCode] }
               posted := [.error err statCode]
               written := files }
    | .createChannel appid _ _ _ config =>
        some { session := { listening with
                 sdk := (g.sdk.createChannel appid config out).1
                 created := some out }
               written := files }
  else none

/-! ## Native events -/

/-- The engine `sdk` points to may raise `ev`: any event once its join was
accepted, an error in any case. -/
def mayRaise (sdk : AgoraSdk) (ev : Event) : Option EngineId :=
  match sdk.mEngine with
  | none => none
  | some e =>
      match sdk.engines[e]? with
      | none => none
      | some engine =>
          match ev with
          | .error _ _ => some e
          | _ => if engine.joined then some e else none

/-- The session's engine raises an event: the handler runs and posts its
task. -/
def raise (g : Session) (ev : Event) (storageDir : Option String) : Option Turn :=
  match mayRaise g.sdk ev with
  | none => none
  | some e =>
      match g.sdk.onEvent e ev storageDir with
      | none => some { session := g, crashed := true }
      | some sdk =>
          some { session := { g with sdk := sdk, posted := g.posted ++ [ev] }, posted := [ev] }

/-- A task of the native queue: `MAKE_JS_CALL` looks the name up in
`m_callbacks`, and the callback found there is `fire`. -/
def task (g : Session) (ev : Event) : Turn :=
  if ev.name ∈ g.sdk.mCallbacks then { session := g, fired := [ev] } else { session := g }

/-! ## Handlers of the manager -/

/-- The region the `userjoin` handler adds. -/
def joinRegion (regions : List JsRegion) (uid : Uid) : JsRegion :=
  let region : JsRegion :=
    { x := 0, y := 0, width := 640, height := 480, zOrder := 1, alpha := 1, uid := uid }
  match regions.length with
  | 0 => { region with x := 0, y := 0 }
  | 1 => { region with x := 320, y := 0 }
  | 2 => { region with x := 0, y := 240 }
  | 3 => { region with x := 320, y := 240 }
  | _ => region

/-- What the `userjoin` and `userleave` handlers do to the layout of the
recorder they found. -/
def relayout (layout : JsLayout) : Event → JsLayout
  | .userjoin uid => { layout with regions := layout.regions ++ [joinRegion layout.regions uid] }
  | .userleave uid =>
      { layout with regions := layout.regions.filter (fun region => region.uid ≠ uid) }
  | _ => layout

/-- The `once` listeners: each takes itself off and settles the promise of
`sdk.joinChannel`. -/
def once (g : Session) : Event → Turn
  | .joinchannel _ _ =>
      if g.onceJoinchannel then
        { session := { g with onceJoinchannel := false, joined := g.joined.to .resolved }
          reactions := if g.joined = .pending then [.joined] else [] }
      else { session := g }
  | .error _ _ =>
      if g.onceError then
        { session := { g with onceError := false, joined := g.joined.to .rejected }
          reactions := if g.joined = .pending then [.joinFailed] else [] }
      else { session := g }
  | _ => { session := g }

/-- The history of one `emit`. -/
def emitted (g : Session) (registered : Bool) (ev : Event) : Session :=
  if registered then { g with late := g.late ++ [ev] } else { g with early := g.early ++ [ev] }

/-! ## Promise reactions -/

def react (g : Session) : Reaction → Turn
  | .storage => g.storage
  | .joined =>
      { session := { g with started := g.started.to .resolved }, registers := true }
  | .joinFailed => { session := g, reactions := [.caught] }
  | .caught => { session := { g with started := g.started.to .rejected } }

end Session

end AgoraRecording.Server
