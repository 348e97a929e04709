/-
AgoraRecording.Server.Pipeline — from the engine's threads to `this.emit`,
for any number of wrappers on the one task queue.

Any thread may run any callback of any wrapper's engine; `async_call` is
the three atomic steps of `QueueState`, so threads interleave between the
read of `closed_`, the push and the send. The JavaScript thread is either
in `on_event`, where each task looks its event up in the wrapper's
`m_callbacks`, or runs the next immediate. A handler is a listener of
`initEventHandler` or a function the application subscribed through the
wrapper's `onEvent`; what such a function does is not modelled, except that
it may make a wrapper report an error from inside the task.

`raised` is a history: every callback that was run, in order. It, the tasks
and the emissions carry the thread they come from (`none` for a report from
inside a task), so that the order one thread sees can be stated.
-/
import AgoraRecording.Native.AsyncQueue
import AgoraRecording.Server.AgoraRecordSdk
import AgoraRecording.Server.Relay

namespace AgoraRecording.Server

open AgoraRecording.Lib AgoraRecording.Js AgoraRecording.Native

/-! ## Handlers -/

/-- What `m_callbacks` holds. -/
inductive Handler where
  | relay (r : Relay)
  /-- a function the application subscribed -/
  | other (f : Nat)
  deriving DecidableEq, Repr

abbrev Callbacks := List (String × Handler)

namespace Callbacks

/-- `AgoraSdk::addEventHandler`: `emplace` keeps an existing entry. -/
def addEventHandler (callbacks : Callbacks) (eventName : String) (h : Handler) : Callbacks :=
  if (callbacks.lookup eventName).isSome then callbacks else callbacks ++ [(eventName, h)]

/-- `m_callbacks` after `initEventHandler`. -/
def subscribed : Callbacks :=
  initEventHandler.foldl (fun callbacks r => callbacks.addEventHandler r.event (.relay r)) []

/-- What a task's call makes the wrapper emit. -/
def makeJsCall (callbacks : Callbacks) (call : JsCall) : Option Emission :=
  match callbacks.lookup call.event with
  | some (.relay r) => some (r.fire call.argv)
  | some (.other _) | none => none

end Callbacks

/-! ## State -/

/-- Something of wrapper `sdk` that goes back to a callback run by
`thread`. -/
structure From (τ α : Type) where
  thread : Option τ
  sdk : Nat
  what : α

/-- What goes back to one thread and one wrapper. -/
def From.of {τ α : Type} [DecidableEq τ] (l : List (From τ α)) (thread : Option τ) (sdk : Nat) :
    List α :=
  (l.filter (fun x => x.thread = thread ∧ x.sdk = sdk)).map From.what

structure Pipeline (τ : Type) where
  queue : QueueState τ (From τ JsCall)
  /-- the `m_callbacks` of each wrapper -/
  sdks : List Callbacks
  immediates : List (From τ Emission)
  emitted : List (From τ Emission)
  raised : List (From τ Callback)

inductive PipelineAction (τ : Type) where
  /-- `new AgoraRecordSdk()` -/
  | construct
  /-- `sdk.onEvent(event, f)` -/
  | onEvent (sdk : Nat) (event : String) (f : Nat)
  /-- a thread runs a callback, up to its `async_call` -/
  | raise (thread : τ) (sdk : Nat) (cb : Callback)
  /-- so does a function that the running task called -/
  | raiseInside (sdk : Nat) (cb : Callback)
  /-- a step of `async_call` or `on_event` -/
  | serve (a : QueueAction τ (From τ JsCall))
  | runImmediate

namespace Pipeline

variable {τ : Type} [DecidableEq τ]

/-- A callback posts its task through `call`, or posts nothing. -/
def report (s : Pipeline τ) (thread : Option τ) (sdk : Nat) (cb : Callback)
    (call : From τ JsCall → QueueAction τ (From τ JsCall)) : Option (Pipeline τ) :=
  let raised := s.raised ++ [{ thread := thread, sdk := sdk, what := cb }]
  match cb.post with
  | none => some { s with raised := raised }
  | some js =>
      (s.queue.step (call { thread := thread, sdk := sdk, what := js })).map (fun queue =>
        { s with queue := queue, raised := raised })

/-- What the body of a task leaves to the event loop. -/
def fired (s : Pipeline τ) (e : From τ JsCall) : Option (From τ Emission) :=
  (s.sdks[e.sdk]?.bind (fun callbacks => callbacks.makeJsCall e.what)).map (fun m =>
    { thread := e.thread, sdk := e.sdk, what := m })

/-- The immediate a step of `on_event` leaves: when a task returns, its
handler has run. -/
def left (s : Pipeline τ) : QueueAction τ (From τ JsCall) → Option (From τ Emission)
  | .finish => s.queue.running.bind s.fired
  | _ => none

def step (s : Pipeline τ) : PipelineAction τ → Option (Pipeline τ)
  | .construct => some { s with sdks := s.sdks ++ [.subscribed] }
  | .onEvent sdk event f =>
      some { s with sdks := s.sdks.modify sdk (fun callbacks =>
        callbacks.addEventHandler event (.other f)) }
  | .raise thread sdk cb =>
      if sdk < s.sdks.length ∧ s.queue.producers thread = none then
        s.report (some thread) sdk cb (.call thread)
      else none
  | .raiseInside sdk cb =>
      match s.queue.loop with
      | .running _ none =>
          if sdk < s.sdks.length then s.report none sdk cb .callInside else none
      | _ => none
  | .serve a =>
      if a.serves then
        (s.queue.step a).map (fun queue =>
          { s with queue := queue, immediates := s.immediates ++ (s.left a).toList })
      else none
  | .runImmediate =>
      match s.queue.loop, s.immediates with
      | .idle, m :: rest => some { s with immediates := rest, emitted := s.emitted ++ [m] }
      | _, _ => none

/-- Every interleaving of the engines' threads with the JavaScript thread. -/
def machine (τ : Type) [DecidableEq τ] : Machine (Pipeline τ) (PipelineAction τ) where
  init := { queue := (QueueState.machine τ (From τ JsCall)).init, sdks := [], immediates := [],
            emitted := [], raised := [] }
  step := step

/-- Nobody is inside `async_call`, and the JavaScript thread has nothing
to do. -/
structure AtRest (s : Pipeline τ) : Prop where
  producers : ∀ p, s.queue.producers p = none
  pending : s.queue.queue.pending = false
  loop : s.queue.loop = .idle
  immediates : s.immediates = []

end Pipeline

end AgoraRecording.Server
