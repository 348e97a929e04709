/-
AgoraRecording.Lib.Traced — computations over a state that log events and
may stop for good.

What was logged before a computation stopped stays logged, so a law about
the events covers the runs that die half way as well. Two projections say
all there is to say about a computation, `events` and `result`, and each
has one lemma for every operation: a bind logs what its first part logs
and, if that part has a result, what the second part logs from there.
-/
import Mathlib.Data.List.Basic

namespace AgoraRecording.Lib

/-- From a state: the events, and the result with the state after it,
`none` for a computation that stopped. -/
def Traced (ε σ α : Type) := σ → List ε × Option (α × σ)

namespace Traced

variable {ε σ α β : Type}

def events (x : Traced ε σ α) (s : σ) : List ε := (x s).1

def result (x : Traced ε σ α) (s : σ) : Option (α × σ) := (x s).2

instance : Monad (Traced ε σ) where
  pure a := fun s => ([], some (a, s))
  bind x f := fun s =>
    match (x s).2 with
    | none => ((x s).1, none)
    | some (a, s') => ((x s).1 ++ (f a s').1, (f a s').2)

def stop : Traced ε σ α := fun _ => ([], none)

def log (e : ε) : Traced ε σ Unit := fun s => ([e], some ((), s))

/-- A step of the state that may stop, and logs nothing. -/
def lift (f : σ → Option (α × σ)) : Traced ε σ α := fun s => ([], f s)

/-- A look at the state. -/
def look (f : σ → α) : Traced ε σ α := fun s => ([], some (f s, s))

@[simp] theorem events_pure (a : α) (s : σ) : events (pure a : Traced ε σ α) s = [] := rfl
@[simp] theorem events_stop (s : σ) : events (stop : Traced ε σ α) s = [] := rfl
@[simp] theorem events_log (e : ε) (s : σ) : events (log e) s = [e] := rfl
@[simp] theorem events_lift (f : σ → Option (α × σ)) (s : σ) :
    events (lift f : Traced ε σ α) s = [] := rfl
@[simp] theorem events_look (f : σ → α) (s : σ) : events (look f : Traced ε σ α) s = [] := rfl

@[simp] theorem result_pure (a : α) (s : σ) :
    result (pure a : Traced ε σ α) s = some (a, s) := rfl
@[simp] theorem result_stop (s : σ) : result (stop : Traced ε σ α) s = none := rfl
@[simp] theorem result_log (e : ε) (s : σ) : result (log e) s = some ((), s) := rfl
@[simp] theorem result_lift (f : σ → Option (α × σ)) (s : σ) :
    result (lift f : Traced ε σ α) s = f s := rfl
@[simp] theorem result_look (f : σ → α) (s : σ) :
    result (look f : Traced ε σ α) s = some (f s, s) := rfl

theorem result_bind (x : Traced ε σ α) (f : α → Traced ε σ β) (s : σ) :
    (x >>= f).result s = (x.result s).bind (fun p => (f p.1).result p.2) := by
  unfold result
  simp only [bind]
  cases (x s).2 <;> rfl

theorem events_bind_of_some {x : Traced ε σ α} {s s' : σ} {a : α} (h : x.result s = some (a, s'))
    (f : α → Traced ε σ β) : (x >>= f).events s = x.events s ++ (f a).events s' := by
  unfold result at h
  unfold events
  simp only [bind]
  rw [h]

theorem events_bind_of_none {x : Traced ε σ α} {s : σ} (h : x.result s = none)
    (f : α → Traced ε σ β) : (x >>= f).events s = x.events s := by
  unfold result at h
  unfold events
  simp only [bind]
  rw [h]

theorem result_bind_of_some {x : Traced ε σ α} {s s' : σ} {a : α} (h : x.result s = some (a, s'))
    (f : α → Traced ε σ β) : (x >>= f).result s = (f a).result s' := by
  rw [result_bind, h, Option.bind_some]

theorem result_bind_of_none {x : Traced ε σ α} {s : σ} (h : x.result s = none)
    (f : α → Traced ε σ β) : (x >>= f).result s = none := by
  rw [result_bind, h, Option.bind_none]

/-- Computations that log nothing compose to one that logs nothing. -/
theorem events_bind_eq_nil {x : Traced ε σ α} {f : α → Traced ε σ β}
    (hx : ∀ s, x.events s = []) (hf : ∀ a s, (f a).events s = []) (s : σ) :
    (x >>= f).events s = [] := by
  cases h : x.result s with
  | none => rw [events_bind_of_none h, hx]
  | some p => rw [events_bind_of_some h, hx, hf, List.append_nil]

end Traced

end AgoraRecording.Lib
