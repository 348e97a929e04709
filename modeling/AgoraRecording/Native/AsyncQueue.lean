/-
AgoraRecording.Native.AsyncQueue — `async_queue` of
`node_async_queue.h`, the one path from the engine's threads to the
JavaScript thread.

`node_async_call::async_call` hands every native callback to ONE
process-wide `async_queue<task_type>`; the loop thread drains it in
`on_event`. The model keeps the source's atomic sections apart, because
the property at stake is about what happens between them:

* `async_call` is three steps — the read of `closed_`, the locked push
  (with its eviction), the `uv_async_send`;
* `on_event` alternates a locked step (test for empty, pop the front)
  with the unlocked `cb_(e)`, which may itself call `async_call`.

libuv is one flag: a send sets it, several sends merge into one, and it
is cleared before `async_callback` starts. Callers are indexed by an
arbitrary type `ι`, so nothing bounds how many there are. The `int`
returned by `async_call` is left out: `node_async_call` drops it.
-/
import AgoraRecording.Lib.Machine
import Mathlib.Logic.Function.Basic

namespace AgoraRecording.Native

open AgoraRecording.Lib

/-! ## Program counters -/

/-- Where a caller stands inside `async_call(e)`. -/
inductive CallPc (Elem : Type) where
  /-- before `if (closed_) return -1` -/
  | entered (e : Elem)
  /-- before the locked push -/
  | open_ (e : Elem)
  /-- before `uv_async_send` -/
  | pushed
  deriving DecidableEq, Repr

/-- Where the loop thread stands. -/
inductive LoopPc (Elem : Type) where
  /-- outside `on_event` -/
  | idle
  /-- holding the lock at `while (!q_.empty())` -/
  | polling
  /-- in `cb_(e)`, possibly inside an `async_call` the task makes -/
  | running (e : Elem) (call : Option (CallPc Elem))
  deriving DecidableEq, Repr

/-- The loop thread is outside `on_event`. -/
def LoopPc.isIdle {Elem : Type} : LoopPc Elem → Bool
  | .idle => true
  | _ => false

/-! ## The queue -/

/-- `async_queue<Elem>`. `pending` is the flag of the `uv_async_t`; the
two histories record what was pushed and what `on_event` started. -/
structure AsyncQueue (Elem : Type) where
  pending : Bool
  closed : Bool
  q : List Elem
  capacity : Nat
  pushed : List Elem
  started : List Elem
  deriving DecidableEq, Repr

namespace AsyncQueue

variable {Elem : Type}

/-- The constructor: open, unbounded, empty. -/
def new : AsyncQueue Elem :=
  { pending := false, closed := false, q := [], capacity := 0, pushed := [], started := [] }

/-- The locked section of `async_call`. The test compares the size BEFORE
the push and is strict. -/
def push (s : AsyncQueue Elem) (e : Elem) : AsyncQueue Elem :=
  let q := if s.capacity ≠ 0 ∧ s.q.length > s.capacity then s.q.tail else s.q
  { s with q := q ++ [e], pushed := s.pushed ++ [e] }

/-- The locked section of `on_event`: `none` when the queue is empty. -/
def pop (s : AsyncQueue Elem) : Option (Elem × AsyncQueue Elem) :=
  match s.q with
  | [] => none
  | e :: rest => some (e, { s with q := rest, started := s.started ++ [e] })

def close (s : AsyncQueue Elem) : AsyncQueue Elem := { s with closed := true }

def setCapacity (s : AsyncQueue Elem) (capacity : Nat) : AsyncQueue Elem :=
  { s with capacity := capacity }

def clear (s : AsyncQueue Elem) : AsyncQueue Elem := { s with q := [] }

/-- The next atomic step of `async_call`, and where it leaves the caller. -/
def asyncCall (s : AsyncQueue Elem) : CallPc Elem → AsyncQueue Elem × Option (CallPc Elem)
  | .entered e => if s.closed then (s, none) else (s, some (.open_ e))
  | .open_ e => (s.push e, some .pushed)
  | .pushed => ({ s with pending := true }, none)

end AsyncQueue

/-! ## Producers and the loop thread -/

/-- The queue with everyone who is using it. -/
structure QueueState (ι Elem : Type) where
  queue : AsyncQueue Elem
  producers : ι → Option (CallPc Elem)
  loop : LoopPc Elem

inductive QueueAction (ι Elem : Type) where
  /-- producer `p` calls `async_call(e)` -/
  | call (p : ι) (e : Elem)
  /-- producer `p` executes its next atomic step -/
  | advance (p : ι)
  /-- the loop clears the flag and enters `on_event` -/
  | wake
  /-- the locked step of `on_event` -/
  | poll
  /-- the running task calls `async_call(e)` -/
  | callInside (e : Elem)
  /-- the running task's call executes its next atomic step -/
  | advanceInside
  /-- the running task returns -/
  | finish
  | close
  | clear
  | setCapacity (capacity : Nat)
  deriving DecidableEq, Repr

/-- The uses `node_async_call` makes of its queue: it never closes, clears
or bounds it. -/
def QueueAction.plain {ι Elem : Type} : QueueAction ι Elem → Bool
  | .close | .clear | .setCapacity _ => false
  | _ => true

/-- The steps of `async_call` after its first line is reached, and those of
`on_event`. -/
def QueueAction.serves {ι Elem : Type} : QueueAction ι Elem → Bool
  | .advance _ | .wake | .poll | .advanceInside | .finish => true
  | _ => false

namespace QueueState

/-- The task whose body the loop thread is in. -/
def running {ι Elem : Type} (s : QueueState ι Elem) : Option Elem :=
  match s.loop with
  | .running e _ => some e
  | _ => none

variable {ι Elem : Type} [DecidableEq ι]

def step (s : QueueState ι Elem) : QueueAction ι Elem → Option (QueueState ι Elem)
  | .call p e =>
      match s.producers p with
      | none => some { s with producers := Function.update s.producers p (some (.entered e)) }
      | some _ => none
  | .advance p =>
      match s.producers p with
      | none => none
      | some pc =>
          let (queue, pc') := s.queue.asyncCall pc
          some { s with queue := queue, producers := Function.update s.producers p pc' }
  | .wake =>
      match s.loop with
      | .idle =>
          if s.queue.pending then
            some { s with queue := { s.queue with pending := false }, loop := .polling }
          else none
      | _ => none
  | .poll =>
      match s.loop with
      | .polling =>
          match s.queue.pop with
          | none => some { s with loop := .idle }
          | some (e, queue) => some { s with queue := queue, loop := .running e none }
      | _ => none
  | .callInside e =>
      match s.loop with
      | .running t none => some { s with loop := .running t (some (.entered e)) }
      | _ => none
  | .advanceInside =>
      match s.loop with
      | .running t (some pc) =>
          let (queue, pc') := s.queue.asyncCall pc
          some { s with queue := queue, loop := .running t pc' }
      | _ => none
  | .finish =>
      match s.loop with
      | .running _ none => some { s with loop := .polling }
      | _ => none
  | .close => some { s with queue := s.queue.close }
  | .clear => some { s with queue := s.queue.clear }
  | .setCapacity capacity => some { s with queue := s.queue.setCapacity capacity }

/-- Every interleaving of any number of callers with the loop thread. -/
def machine (ι Elem : Type) [DecidableEq ι] : Machine (QueueState ι Elem) (QueueAction ι Elem) where
  init := { queue := .new, producers := fun _ => none, loop := .idle }
  step := step

end QueueState

end AgoraRecording.Native
