/-
AgoraRecording.Server.App — the routes of `app.js` over the manager, as a
client sees them.

An `Exchange` is one request and the responses written to it. `GET /`,
`GET /videos/:sid` and `POST /recorder/v1/stop` are answered, or not, while
their handler runs. `POST /recorder/v1/start` is answered there only when
it throws; otherwise it waits for the promise of `RecordManager.start`, and
the reaction that writes the response is a microtask that may run at any
time after the promise is settled (`settled`).

An exception thrown by a handler reaches the error middleware, whose
response is `failure`. The manager is `Process` as it is, and moves by
itself between the requests.
-/
import AgoraRecording.Server.StopRequest
import AgoraRecording.Server.StartArgs
import AgoraRecording.Server.Videos

namespace AgoraRecording.Server

open AgoraRecording.Lib AgoraRecording.Js

/-! ## Requests and responses -/

/-- A request that a route matches; the body is what `bodyParser.json()`
made of it. -/
inductive HttpRequest where
  /-- `GET /` -/
  | index
  /-- `GET /videos/:sid` -/
  | videos (sid : JsString)
  /-- `POST /recorder/v1/start` -/
  | start (body : Json)
  /-- `POST /recorder/v1/stop` -/
  | stop (body : Json)

inductive Reply where
  /-- `{ message: "hello recording service" }` -/
  | hello
  /-- `{ url }` -/
  | url (url : JsString)
  /-- 200, `{ success: true, sid }` -/
  | started (sid : JsString)
  /-- `{ message: "Recorder not found" }` -/
  | notFound
  /-- 200, `{ success: true }` -/
  | stopped
  /-- 500, `{ success: false, err }` -/
  | failure (err : String)
  deriving DecidableEq, Repr

structure Exchange where
  request : HttpRequest
  replies : List Reply
  /-- the session a start began -/
  session : Option SessionId
  /-- the reaction to its promise has not run yet -/
  waiting : Bool

structure App where
  process : Process
  exchanges : List Exchange

inductive AppAction where
  /-- a request comes in; a start draws the uuid, a video lookup reads the
  disk -/
  | request (r : HttpRequest) (uuid : JsString) (readdirSync : JsString → Option (List JsString))
  /-- the manager's process does a step of its own -/
  | process (a : Action)
  /-- the `.then(…).catch(…)` of an exchange runs -/
  | settled (k : Nat)

/-- The steps that are no request. -/
def Action.internal : Action → Bool
  | .start _ _ _ _ | .stop _ => false
  | _ => true

namespace App

/-- An exchange answered, or left unanswered, for good. -/
def close (s : App) (process : Process) (request : HttpRequest) (replies : List Reply) : App :=
  { process := process
    exchanges := s.exchanges ++
      [{ request := request, replies := replies, session := none, waiting := false }] }

/-- `res.json({ url })`. -/
def videosReply (run : VideosRun) : List Reply :=
  match run.answer with
  | some (.url url) => [.url url]
  | some (.failure _) | none => []

/-- The response of `POST /recorder/v1/stop`. -/
def stopReply : StopAnswer → Reply
  | .success => .stopped
  | .failure err => .failure err

/-- The reaction to the promise of `RecordManager.start`. -/
def settledReply (g : Session) : Option Reply :=
  match g.started with
  | .pending => none
  | .resolved => some (.started g.sid)
  | .rejected => some .notFound

variable (numberText : JsNumber → JsString) (host : Int)

/-- A route's handler, up to its return. -/
def receive (s : App) (r : HttpRequest) (uuid : JsString)
    (readdirSync : JsString → Option (List JsString)) : Option App :=
  match r with
  | .index => some (s.close s.process r [.hello])
  | .videos sid => some (s.close s.process r (videosReply (getVideos host readdirSync sid)))
  | .start body =>
      match postStart body with
      | .error message => some (s.close s.process r [.failure message])
      | .ok args =>
          (s.process.step (.start uuid args.key args.appid args.channel)).map (fun process =>
            { process := process
              exchanges := s.exchanges ++
                [{ request := r, replies := [], session := some s.process.sessions.length,
                   waiting := true }] })
  | .stop body =>
      let (answer, process) := s.process.postStop numberText body
      some (s.close process r [stopReply answer])

/-- The microtask of exchange `k`, once its promise is settled. -/
def settle (s : App) (k : Nat) : Option App :=
  match s.exchanges[k]? with
  | none => none
  | some x =>
      if x.waiting then
        (x.session.bind (fun i => s.process.sessions[i]?.bind settledReply)).map (fun reply =>
          { s with exchanges :=
              s.exchanges.set k { x with replies := x.replies ++ [reply], waiting := false } })
      else none

def step (s : App) (a : AppAction) : Option App :=
  if s.process.crashed then none
  else match a with
    | .request r uuid readdirSync => s.receive numberText host r uuid readdirSync
    | .process a =>
        if a.internal then (s.process.step a).map (fun process => { s with process := process })
        else none
    | .settled k => s.settle k

/-- Every run of the service: requests in any number and order, and the
manager's process in between. -/
def machine : Machine App AppAction where
  init := { process := .empty, exchanges := [] }
  step := step numberText host

def someRequest : HttpRequest :=
  .start (.object [(js "appid", .string (js "a")), (js "channel", .string (js "c"))])

end App

end AgoraRecording.Server
