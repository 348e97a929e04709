/-
AgoraRecording.Server.LoopProgress — the loop of the manager runs dry.

A task may be followed by an immediate, an immediate by a promise reaction,
and a reaction by one more. `Process.work` prices what waits in the three
queues accordingly, so that every step that serves one of them lowers it
(`Wired.work_step`), in whatever order they are served. Such a step makes no
engine report and no session, and where none is left nothing is pending
(`idle_of_stuck`).
-/
import AgoraRecording.Server.StartTheorems

namespace AgoraRecording.Server

open AgoraRecording.Lib AgoraRecording.Js AgoraRecording.Native

/-! ## What a turn leaves to do -/

/-- A reaction and those that follow from it. -/
def Reaction.work : Reaction → Nat
  | .joinFailed => 2
  | .storage | .joined | .caught => 1

def reactionsWork : List Reaction → Nat
  | [] => 0
  | r :: rest => r.work + reactionsWork rest

@[simp] theorem reactionsWork_nil : reactionsWork [] = 0 := rfl

@[simp] theorem reactionsWork_cons (r : Reaction) (rs : List Reaction) :
    reactionsWork (r :: rs) = r.work + reactionsWork rs := rfl

theorem reactionsWork_append (rs rs' : List Reaction) :
    reactionsWork (rs ++ rs') = reactionsWork rs + reactionsWork rs' := by
  induction rs with
  | nil => simp
  | cons r rs ih =>
    simp only [List.cons_append, reactionsWork_cons, ih]
    omega

/-- An immediate may be followed by two reactions, a task by an immediate. -/
def Turn.work (t : Turn) : Nat :=
  4 * t.posted.length + 3 * t.fired.length + reactionsWork t.reactions

/-- A turn of the loop: the process and the reports of the engine stay as
they are, and what it leaves to do is less than what it was. -/
structure Turn.Serves (g : Session) (cost : Nat) (t : Turn) : Prop where
  crashed : t.crashed = false
  posted : t.session.posted = g.posted
  work : t.work < cost

namespace Session

theorem serves_task (g : Session) (ev : Event) : (g.task ev).Serves g 4 := by
  refine ⟨(plain_task g ev).crashed, ?_, ?_⟩
  · unfold task
    split <;> rfl
  · unfold task
    split <;> simp [Turn.work]

theorem serves_once (g : Session) (ev : Event) : (g.once ev).Serves g 3 := by
  refine ⟨(plain_once g ev).crashed, ?_, ?_⟩
  · obtain ⟨_, _, _, _, honce⟩ := g.once_eq ev
    rw [honce]
  · unfold once
    split
    · split
      · simp only [Turn.work]
        split <;> simp [Reaction.work]
      · simp [Turn.work]
    · split
      · simp only [Turn.work]
        split <;> simp [Reaction.work]
      · simp [Turn.work]
    · simp [Turn.work]

theorem serves_emit (g : Session) (registered : Bool) (ev : Event) :
    (g.emit registered ev).Serves g 3 := by
  by_cases huser : user ev = none
  · rw [emit_eq_once g registered huser]
    have honce := serves_once (g.emitted registered ev) ev
    exact ⟨honce.crashed, honce.posted.trans (g.emitted_posted registered ev), honce.work⟩
  · refine ⟨(plain_emit g registered ev).crashed, ?_, ?_⟩
    · rw [emit_eq_onUser g registered huser]
      split
      · exact g.emitted_posted registered ev
      · exact g.emitted_posted registered ev
    · rw [emit_eq_onUser g registered huser]
      simp [Turn.work]

theorem serves_react (g : Session) (r : Reaction) : (g.react r).Serves g r.work := by
  refine ⟨(plain_react g r).crashed, ?_, ?_⟩
  · cases r <;> rfl
  · cases r <;> simp [react, storage, Turn.work, Reaction.work]

end Session

/-! ## What is left to do -/

/-- The loop takes something from one of its queues. -/
def Action.serves : Action → Bool
  | .runTask | .runImmediate | .runReaction => true
  | _ => false

namespace Process

def work (s : Process) : Nat :=
  4 * s.queue.length + 3 * s.immediates.length + reactionsWork (s.reactions.map Prod.snd)

theorem work_take (s : Process) (i : SessionId) (t : Turn) :
    (s.take i t).work = s.work + t.work := by
  have hown : (t.reactions.map (Prod.mk i)).map Prod.snd = t.reactions := by
    simp [Function.comp_def]
  simp only [take, work, Turn.work, List.length_append, List.length_map, List.map_append,
    reactionsWork_append, hown]
  omega

theorem Turns.serves {s s₀ : Process} {a : Action} {i : SessionId} {g : Session} {m : Move}
    {t : Turn} (h : s.Turns a i g m t s₀) (ha : a.serves = true) :
    ∃ cost ≤ 4, t.Serves g cost ∧ s₀.work + cost = s.work := by
  cases h with
  | runTask hg hq =>
    refine ⟨4, Nat.le_refl 4, g.serves_task _, ?_⟩
    simp only [work, hq, List.length_cons]
    omega
  | runImmediate hg hq =>
    refine ⟨3, by omega, g.serves_emit _ _, ?_⟩
    simp only [work, hq, List.length_cons]
    omega
  | runReaction hg hq =>
    rename_i r rest
    refine ⟨r.work, by cases r <;> simp [Reaction.work], g.serves_react _, ?_⟩
    simp only [work, hq, List.map_cons, reactionsWork_cons]
    omega
  | _ => cases ha

/-- A step that serves is the turn of some session. -/
theorem Wired.serve_cases {s s' : Process} {a : Action} (h : s.Wired) (ha : a.serves = true)
    (hstep : s.step a = some s') :
    ∃ i g m t s₀ cost, s.Turns a i g m t s₀ ∧ s' = s₀.take i t ∧ cost ≤ 4 ∧ t.Serves g cost ∧
      s₀.work + cost = s.work := by
  obtain ⟨-, ⟨_, _, _, _, rfl, -⟩ | ⟨_, rfl, -⟩ | ⟨i, g, m, t, s₀, ht, rfl⟩⟩ :=
    h.step_cases hstep
  · cases ha
  · cases ha
  · obtain ⟨cost, hle, hserves, hcost⟩ := ht.serves ha
    exact ⟨i, g, m, t, s₀, cost, ht, rfl, hle, hserves, hcost⟩

/-- Serving does not end the process, and lowers what is left. -/
theorem Wired.work_step {s s' : Process} {a : Action} (h : s.Wired) (ha : a.serves = true)
    (hstep : s.step a = some s') : s'.crashed = false ∧ s'.work < s.work := by
  obtain ⟨i, g, m, t, s₀, cost, -, rfl, -, hserves, hcost⟩ := h.serve_cases ha hstep
  refine ⟨hserves.crashed, ?_⟩
  have hless := hserves.work
  rw [work_take]
  omega

/-- Serving makes no engine report. -/
theorem Wired.posted_step {s s' : Process} {a : Action} (h : s.Wired) (ha : a.serves = true)
    (hstep : s.step a = some s') {i : SessionId} {g : Session}
    (hg : s.sessions[i]? = some g) :
    ∃ g', s'.sessions[i]? = some g' ∧ g.Same g' ∧ g'.posted = g.posted := by
  obtain ⟨j, gj, m, t, s₀, cost, ht, rfl, -, hserves, -⟩ := h.serve_cases ha hstep
  obtain ⟨hsessions, -, -, -⟩ := ht.popped
  by_cases hij : j = i
  · subst hij
    have hgj : gj = g := Option.some.inj (ht.get.symm.trans hg)
    subst hgj
    exact ⟨t.session, take_sessions (hsessions ▸ hg) t, ht.same, hserves.posted⟩
  · exact ⟨g, by rw [take_sessions_other _ hij, hsessions, hg], .refl g, rfl⟩

/-- Serving begins no session, and posts no task. -/
theorem Wired.kept_of_serve {s s' : Process} {a : Action} (h : s.Wired) (ha : a.serves = true)
    (hstep : s.step a = some s') :
    s'.sessions.length = s.sessions.length ∧ (a ≠ .runTask → s'.queue = s.queue) := by
  obtain ⟨i, g, m, t, s₀, cost, ht, rfl, hle, hserves, -⟩ := h.serve_cases ha hstep
  have hposted : t.posted = [] := by
    have hless := hserves.work
    refine List.length_eq_zero_iff.mp ?_
    simp only [Turn.work] at hless
    omega
  refine ⟨by simp [Process.take, ht.popped.1], fun hne => ?_⟩
  cases ht with
  | runTask => exact absurd rfl hne
  | _ => simp [Process.take, hposted]

/-- What waits in a queue can be served. -/
theorem idle_of_stuck {s : Process} (ho : s.Owned) (halive : s.crashed = false)
    (h : ∀ a : Action, a.serves = true → s.step a = none) : s.Idle := by
  have hget : ∀ i, i < s.sessions.length → ∃ g, s.sessions[i]? = some g :=
    fun i hi => ⟨s.sessions[i], List.getElem?_eq_getElem hi⟩
  refine ⟨?_, ?_, ?_⟩
  · cases hq : s.queue with
    | nil => rfl
    | cons p rest =>
      obtain ⟨g, hg⟩ := hget p.1 (ho.queue p (by simp [hq]))
      have hnone := h .runTask rfl
      simp [step, halive, hq, own, hg] at hnone
  · cases hq : s.immediates with
    | nil => rfl
    | cons p rest =>
      obtain ⟨g, hg⟩ := hget p.1 (ho.immediates p (by simp [hq]))
      have hnone := h .runImmediate rfl
      simp [step, halive, hq, hg] at hnone
  · cases hq : s.reactions with
    | nil => rfl
    | cons p rest =>
      obtain ⟨g, hg⟩ := hget p.1 (ho.reactions p (by simp [hq]))
      have hnone := h .runReaction rfl
      simp [step, halive, hq, own, hg] at hnone

end Process

/-! ## A session with nothing pending -/

/-- Its start is answered as its engine reported. -/
theorem Local.Inv.started_of_quiet {l : Local} (h : l.Inv) (hq : l.Quiet) :
    l.session.started = verdict l.session.posted := by
  rcases h.blank_or_joined with hb | ⟨-, hj⟩
  · rw [hb.started, hb.posted]
    rfl
  · have hafter := hj.aftermath
    rw [hq.reactions] at hafter
    rw [hafter.quiet.1, hj.verdict_posted hq]

end AgoraRecording.Server
