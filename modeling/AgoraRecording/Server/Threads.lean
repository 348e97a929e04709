/-
AgoraRecording.Server.Threads — the server with the threads of its engines.

`Process` puts a task on the native queue in one step and runs it in one
step. Here a callback of an engine goes through `async_call` as the code
does, in three atomic steps on a thread of its own, and the JavaScript
thread drains the queue in `on_event`: `QueueState` between the engines and
the manager. The manager's part is `Process` as it is; its `queue` is empty
between steps and holds a task only while it is handed over.

The callbacks of one engine come one after the other, those of different
engines at the same time; what a callback does before its `async_call` is
one step, as in `Process`. While a task runs the JavaScript thread does
nothing else, and only promise reactions may run between two tasks of one
`on_event`.
-/
import AgoraRecording.Native.AsyncQueue
import AgoraRecording.Server.RecordManager

namespace AgoraRecording.Server

open AgoraRecording.Lib AgoraRecording.Js AgoraRecording.Native

structure Threads where
  process : Process
  /-- the queue of `node_async_call`; session `i`'s callbacks are producer
  `i` -/
  queue : QueueState SessionId (SessionId × Event)

inductive ThreadAction where
  /-- the JavaScript thread, outside a task -/
  | js (a : Action)
  /-- the engine of session `i` runs a callback, up to its `async_call` -/
  | raise (i : SessionId) (ev : Event) (storageDir : Option String)
  /-- a step of `async_call` or `on_event` -/
  | serve (a : QueueAction SessionId (SessionId × Event))

/-- The process with these tasks queued. -/
def Process.withQueue (p : Process) (queue : List (SessionId × Event)) : Process :=
  { p with queue := queue }

namespace Threads

/-- The JavaScript thread is free for this. -/
def free (s : Threads) : Action → Bool
  | .raise _ _ _ | .runTask => false
  | .runReaction => s.queue.running.isNone
  | _ => s.queue.loop.isIdle

/-- A callback calls `async_call` once or not at all. -/
def post (s : Threads) (process : Process) : Option Threads :=
  match process.queue with
  | [] => some { s with process := process }
  | [e] =>
      (s.queue.step (.call e.1 e)).map (fun queue =>
        { process := process.withQueue [], queue := queue })
  | _ => none

/-- The running task returns: its body was `MAKE_JS_CALL`. -/
def finish (s : Threads) (e : SessionId × Event) : Option Threads :=
  (s.queue.step .finish).bind (fun queue =>
    ((s.process.withQueue [e]).step .runTask).map (fun process =>
      { process := process, queue := queue }))

def step (s : Threads) : ThreadAction → Option Threads
  | .js a => if s.free a then (s.process.step a).bind s.post else none
  | .raise i ev storageDir =>
      if s.queue.producers i = none then (s.process.step (.raise i ev storageDir)).bind s.post
      else none
  | .serve a =>
      if s.process.crashed then none
      else if a = .finish then s.queue.running.bind s.finish
      else if a.serves then (s.queue.step a).map (fun queue => { s with queue := queue })
      else none

/-- Every run of the server with its engines' threads. -/
def machine : Machine Threads ThreadAction where
  init := { process := .empty, queue := (QueueState.machine SessionId (SessionId × Event)).init }
  step := step

/-- No thread is inside `async_call` and no signal is pending, and the
JavaScript thread has nothing to do. -/
structure AtRest (s : Threads) : Prop where
  producers : ∀ i, s.queue.producers i = none
  pending : s.queue.queue.pending = false
  loop : s.queue.loop = .idle
  immediates : s.process.immediates = []
  reactions : s.process.reactions = []

/-! ## A run -/

/-- The engine of session `i` reports, and the report is handled. -/
def deliver (i : SessionId) (ev : Event) : List ThreadAction :=
  [.raise i ev none, .serve (.advance i), .serve (.advance i), .serve (.advance i), .serve .wake,
   .serve .poll, .serve .finish, .serve .poll, .js .runImmediate]

/-- A start is answered, and a user joins. -/
def joinedRun : List ThreadAction :=
  Process.joinRun.map .js ++ deliver 0 (.joinchannel [99] 0) ++ [.js .runReaction] ++
    deliver 0 (.userjoin 7)

end Threads

end AgoraRecording.Server
