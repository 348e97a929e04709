/-
AgoraRecording.Server.Service — the whole server: the routes of `app.js`
over the manager, and the manager over the threads of its engines.

`App` and `Threads` each leave the other's part out: `App` queues an
engine's report in one step, and `Threads` has no requests. Here both are
as they are. A handler runs while the JavaScript thread is in no task and
no `on_event`; the `.then(…).catch(…)` of a start is a promise reaction, and
may also run between two tasks of one `on_event`.
-/
import AgoraRecording.Server.App
import AgoraRecording.Server.Threads

namespace AgoraRecording.Server

open AgoraRecording.Lib AgoraRecording.Js AgoraRecording.Native

structure Service where
  threads : Threads
  exchanges : List Exchange

inductive ServiceAction where
  /-- a request comes in, as in `AppAction` -/
  | request (r : HttpRequest) (uuid : JsString) (readdirSync : JsString → Option (List JsString))
  /-- a step of the manager's process or of an engine's thread -/
  | threads (a : ThreadAction)
  /-- the `.then(…).catch(…)` of an exchange runs -/
  | settled (k : Nat)

/-- The steps that are no request. -/
def ThreadAction.internal : ThreadAction → Bool
  | .js a => a.internal
  | .raise _ _ _ | .serve _ => true

namespace Service

/-- What the routes see. -/
def app (s : Service) : App := { process := s.threads.process, exchanges := s.exchanges }

/-- The JavaScript thread was in `app.js`. -/
def withApp (s : Service) (t : App) : Service :=
  { threads := { s.threads with process := t.process }, exchanges := t.exchanges }

variable (numberText : JsNumber → JsString) (host : Int)

def step (s : Service) : ServiceAction → Option Service
  | .request r uuid readdirSync =>
      if s.threads.queue.loop.isIdle then
        (s.app.step numberText host (.request r uuid readdirSync)).map s.withApp
      else none
  | .threads a =>
      if a.internal then (s.threads.step a).map (fun threads => { s with threads := threads })
      else none
  | .settled k =>
      if s.threads.queue.running.isNone then
        (s.app.step numberText host (.settled k)).map s.withApp
      else none

/-- Every run of the whole server. -/
def machine : Machine Service ServiceAction where
  init := { threads := Threads.machine.init, exchanges := [] }
  step := step numberText host

/-! ## Runs -/

/-- A client starts a recording, its engine joins, and it is answered. -/
def startedRun : List ServiceAction :=
  .request App.someRequest Process.someSid (fun _ => none) ::
    (Process.joinRun.tail.map (fun a => .threads (.js a)) ++
      (Threads.deliver 0 (.joinchannel [99] 0)).map .threads ++
      [.threads (.js .runReaction), .settled 0])

/-- Another client asks for the same, and its engine reports an error first. -/
def failedRun : List ServiceAction :=
  startedRun ++ .request App.someRequest Process.otherSid (fun _ => none) ::
    (List.map (fun a => .threads (.js a))
        [.mkdirDone 1 true, .runReaction, .accessDone 1 true, .writeDone 1 true (.engine errOk)] ++
      (Threads.deliver 1 (.error 5 6)).map .threads ++
      [.threads (.js .runReaction), .threads (.js .runReaction), .settled 1])

end Service

end AgoraRecording.Server
