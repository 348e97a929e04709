/-
AgoraRecording.Server.ThreadsTheorems — with its engines' threads, the
server is to each session what it was without them.

`Process` is an idealisation: a callback's task is queued at once. On a
thread of its own it is not; while one thread stands inside `async_call` the
others push, the JavaScript thread runs tasks, and the order of the queue is
not the order of the reports. No session can tell: what it sees of its tasks
is those in the queue followed by the one its engine is about to push
(`Threads.waiting`), and to that list every step adds at the end, takes from
the front, or does nothing. So each session goes through a run of its own
machine (`simulates_session`), and what was proved of that machine holds here too.
-/
import AgoraRecording.Native.CallOrderTheorems
import AgoraRecording.Server.SessionInvariant
import AgoraRecording.Server.Threads

namespace AgoraRecording.Server

open AgoraRecording.Lib AgoraRecording.Js AgoraRecording.Native

/-! ## A session with other tasks before its own -/

namespace Local

def withQueue (l : Local) (queue : List Event) : Local := { l with queue := queue }

theorem take_withQueue (l : Local) (queue : List Event) (t : Turn) :
    (l.withQueue queue).take t = (l.take t).withQueue (queue ++ t.posted) := rfl

/-- A step that takes no task leaves those that wait, and adds its own. -/
theorem step_withQueue {l l' : Local} {m : Move} (hnil : l.queue = []) (h : l.step m = some l')
    (queue : List Event) :
    (l.withQueue queue).step m = some (l'.withQueue (queue ++ l'.queue)) := by
  have hposted : ∀ t : Turn, (l.take t).queue = t.posted := by
    intro t
    rw [take, hnil, List.nil_append]
  cases m with
  | mkdirDone ok =>
    obtain ⟨t, ht, rfl⟩ := Option.map_eq_some_iff.mp h
    rw [hposted, ← take_withQueue]
    exact Option.map_eq_some_iff.mpr ⟨t, ht, rfl⟩
  | accessDone ok =>
    obtain ⟨t, ht, rfl⟩ := Option.map_eq_some_iff.mp h
    rw [hposted, ← take_withQueue]
    exact Option.map_eq_some_iff.mpr ⟨t, ht, rfl⟩
  | writeDone ok out =>
    obtain ⟨t, ht, rfl⟩ := Option.map_eq_some_iff.mp h
    rw [hposted, ← take_withQueue]
    exact Option.map_eq_some_iff.mpr ⟨t, ht, rfl⟩
  | raise ev dir =>
    obtain ⟨t, ht, rfl⟩ := Option.map_eq_some_iff.mp h
    rw [hposted, ← take_withQueue]
    exact Option.map_eq_some_iff.mpr ⟨t, ht, rfl⟩
  | runTask =>
    simp only [step, hnil] at h
    cases h
  | runImmediate =>
    simp only [step] at h
    split at h <;> cases h
    rename_i ev rest himmediates
    simp only [step, withQueue, himmediates, take, hnil, List.nil_append]
  | runReaction =>
    simp only [step] at h
    split at h <;> cases h
    rename_i r rest hreactions
    simp only [step, withQueue, hreactions, take, hnil, List.nil_append]

/-- A step that takes the only task takes it from any queue it is first in. -/
theorem runTask_withQueue {l l' : Local} {ev : Event} (hqueue : l.queue = [ev])
    (h : l.step .runTask = some l') (queue : List Event) :
    (l.withQueue (ev :: queue)).step .runTask = some (l'.withQueue queue) := by
  simp only [step, hqueue] at h
  cases h
  have hposted : (l.session.task ev).posted = [] := by
    unfold Session.task
    split <;> rfl
  simp only [step, withQueue, take, hposted, List.append_nil]

/-- What a session's machine keeps. -/
theorem reachable_keeps {I : Local → Prop}
    (hstart : ∀ sid key appid channel, I (Local.start sid key appid channel))
    (hmove : ∀ l m l', I l → l.step m = some l' → I l') {o : Option Local}
    (ho : localMachine.Reachable o) : ∀ l, o = some l → I l := by
  refine ho.induct (I := fun o => ∀ l, o = some l → I l) (fun l h => by cases h) ?_
  intro o a o' _ hi hstep l' hl'
  subst hl'
  cases o with
  | none =>
    cases a with
    | start sid key appid channel =>
      cases hstep
      exact hstart sid key appid channel
    | move m => cases hstep
  | some l =>
    cases a with
    | start sid key appid channel => cases hstep
    | move m =>
      obtain ⟨l'', hl'', heq⟩ := Option.map_eq_some_iff.mp hstep
      cases heq
      exact hmove l m l' (hi l rfl) hl''

end Local

namespace Process

theorem sessions_le_step {s s' : Process} {a : Action} (hw : s.Wired) (h : s.step a = some s') :
    s.sessions.length ≤ s'.sessions.length := by
  obtain ⟨-, ⟨_, _, _, _, -, -, rfl⟩ | ⟨_, -, rfl⟩ | ⟨i, g, m, t, s₀, ht, rfl⟩⟩ := hw.step_cases h
  · simp
  · exact Nat.le_refl _
  · simp [take, ht.popped.1]

theorem Wired.withQueue {s : Process} (h : s.Wired) (queue : List (SessionId × Event)) :
    (s.withQueue queue).Wired := ⟨h.sids, h.plain, h.entries⟩

theorem Owned.withQueue {s : Process} (h : s.Owned) {queue : List (SessionId × Event)}
    (hqueue : ∀ e ∈ queue, e.1 < s.sessions.length) : (s.withQueue queue).Owned :=
  ⟨hqueue, h.immediates, h.reactions⟩

/-- With nothing queued, a step leaves a session as it was, begins it, or is
a move of its own that takes no task. -/
theorem view_hand {s s' : Process} {a : Action} (hw : s.Wired) (ho : s.Owned)
    (hnil : s.queue = []) (h : s.step a = some s') (i : SessionId) :
    (s'.view i = s.view i ∧ share i s'.queue = []) ∨
    (s.view i = none ∧ i = s.sessions.length ∧ s'.queue = [] ∧
      ∃ sid key appid channel, s'.view i = some (Local.start sid key appid channel)) ∨
    ∃ l m l', s.view i = some l ∧ l.queue = [] ∧ l.step m = some l' ∧ s'.view i = some l' ∧
      l'.queue = share i s'.queue := by
  have hqueue : ∀ {l}, s.view i = some l → l.queue = [] := by
    intro l hl
    rw [(view_eq_some hl).2.2.1, hnil, share_nil]
  obtain ⟨-, ⟨sid, key, appid, channel, -, hfresh, rfl⟩ | ⟨sid, -, rfl⟩ |
    ⟨j, g, m, t, s₀, ht, rfl⟩⟩ := hw.step_cases h
  · cases hl : s.view i with
    | some l => exact Or.inl ⟨view_start hl _, by rw [hnil, share_nil]⟩
    | none =>
      have hlen : s.sessions.length ≤ i :=
        List.getElem?_eq_none_iff.mp (Option.map_eq_none_iff.mp hl)
      rcases Nat.eq_or_lt_of_le hlen with rfl | hgt
      · refine Or.inr (Or.inl ⟨rfl, rfl, hnil, sid, key, appid, channel, ?_⟩)
        have hreg : s.recorders.lookup sid ≠ some s.sessions.length := by
          intro hlookup
          obtain ⟨g, hg, -⟩ := hw.entries sid _ hlookup
          exact absurd (List.getElem?_eq_some_iff.mp hg).1 (Nat.lt_irrefl _)
        simp only [view]
        rw [List.getElem?_concat_length]
        simp [Local.start, registered, Session.start, share_of_owned ho.queue,
          share_of_owned ho.immediates, share_of_owned ho.reactions, hreg]
      · refine Or.inl ⟨?_, by rw [hnil, share_nil]⟩
        have hpast : s.sessions.length + 1 ≤ i := hgt
        simp only [view]
        rw [List.getElem?_eq_none (by simpa using hpast)]
        rfl
  · exact Or.inl ⟨rfl, by rw [hnil, share_nil]⟩
  · have hposted : (s₀.take j t).queue = t.posted.map (Prod.mk j) := by
      cases ht with
      | runTask _ hq =>
        rw [hnil] at hq
        cases hq
      | _ => simp [take, hnil]
    by_cases hji : j = i
    · subst hji
      obtain ⟨l, hl, -⟩ := exists_view ht.get
      obtain ⟨l', hmove, hl'⟩ := ht.view_same hl
      exact Or.inr (Or.inr ⟨l, m, l', hl, hqueue hl, hmove, hl', (view_eq_some hl').2.2.1⟩)
    · exact Or.inl ⟨ht.view_other hw hji, by rw [hposted, share_map_other hji]⟩

/-- With one task queued, running it is a move of its session. -/
theorem view_runTask {s s' : Process} {j : SessionId} {ev : Event} (hw : s.Wired)
    (hqueue : s.queue = [(j, ev)]) (h : s.step .runTask = some s') :
    s'.queue = [] ∧ (∀ i, i ≠ j → s'.view i = s.view i) ∧
      ∃ l l', s.view j = some l ∧ l.queue = [ev] ∧ l.step .runTask = some l' ∧
        s'.view j = some l' := by
  obtain ⟨-, ⟨_, _, _, _, hbad, -⟩ | ⟨_, hbad, -⟩ | ⟨i, g, m, t, s₀, ht, rfl⟩⟩ := hw.step_cases h
  · cases hbad
  · cases hbad
  · cases ht with
    | runTask hg hq =>
      rename_i ev' rest
      rw [hqueue, List.cons.injEq, Prod.mk.injEq] at hq
      obtain ⟨⟨rfl, rfl⟩, rfl⟩ := hq
      have ht := Turns.runTask hg hqueue
      obtain ⟨l, hl, -⟩ := exists_view hg
      obtain ⟨l', hmove, hl'⟩ := ht.view_same hl
      have hposted : (g.task ev).posted = [] := by
        unfold Session.task
        split <;> rfl
      refine ⟨by simp [take, hposted], fun i hij => ht.view_other hw (Ne.symm hij), l, l', hl,
        ?_, hmove, hl'⟩
      rw [(view_eq_some hl).2.2.1, hqueue, share_cons_same, share_nil]

end Process

/-! ## What a session sees -/

namespace Threads

/-- The tasks of session `i`: those in the queue, and then the one its
engine is about to push. -/
def waiting (s : Threads) (i : SessionId) : List Event :=
  share i (s.queue.tasks ++ (s.queue.unpushed (some i)).toList)

def view (s : Threads) (i : SessionId) : Option Local :=
  (s.process.view i).map (fun l => l.withQueue (s.waiting i))

/-- What the process's own queue holds is overwritten. -/
theorem view_withQueue (p : Process) (queue : List (SessionId × Event)) (i : SessionId)
    (waiting : List Event) :
    ((p.withQueue queue).view i).map (fun l => l.withQueue waiting) =
      (p.view i).map (fun l => l.withQueue waiting) := by
  simp only [Process.view, Option.map_map]
  rfl

structure Inv (s : Threads) : Prop where
  handed : s.process.queue = []
  wired : s.process.Wired
  owned : s.process.Owned
  queue : QueueInv s.queue
  /-- producer `i` pushes tasks of session `i` -/
  called : ∃ called, QueueState.InCallOrder (fun e => some e.1) called s.queue
  known : ∀ e, e ∈ s.queue.tasks ∨ (∃ c, s.queue.unpushed c = some e) →
    e.1 < s.process.sessions.length
  callers : ∀ i, s.queue.producers i ≠ none → i < s.process.sessions.length

theorem inv_init : machine.init.Inv where
  handed := rfl
  wired := Process.wired_empty
  owned := ⟨fun p hp => (by cases hp), fun p hp => (by cases hp), fun p hp => (by cases hp)⟩
  queue := queueInv_init
  called := ⟨[], QueueState.inCallOrder_init _⟩
  known := by
    rintro e (he | ⟨c, hc⟩)
    · cases he
    · cases c <;> cases hc
  callers := fun i hi => absurd rfl hi

/-! ## A callback posts its task -/

theorem post_eq_some {s s' : Threads} {p : Process} (h : s.post p = some s') :
    (p.queue = [] ∧ s' = { s with process := p }) ∨
    ∃ e, p.queue = [e] ∧ s.queue.producers e.1 = none ∧
      s' = { process := p.withQueue []
             queue := { s.queue with
               producers := Function.update s.queue.producers e.1 (some (.entered e)) } } := by
  unfold post at h
  split at h
  · rename_i hqueue
    cases h
    exact Or.inl ⟨hqueue, rfl⟩
  · rename_i e hqueue
    obtain ⟨queue, hstep, rfl⟩ := Option.map_eq_some_iff.mp h
    simp only [QueueState.step] at hstep
    split at hstep <;> cases hstep
    rename_i hfree
    exact Or.inr ⟨e, hqueue, hfree, rfl⟩
  · cases h

/-- The producer's task is the last that its session waits for. -/
theorem Inv.post {s s' : Threads} {p : Process} (h : s.Inv) (hw : p.Wired) (ho : p.Owned)
    (hlen : s.process.sessions.length ≤ p.sessions.length) (hpost : s.post p = some s') :
    s'.Inv ∧ s'.process = p.withQueue [] ∧
      ∀ i, s'.waiting i = s.waiting i ++ share i p.queue := by
  rcases post_eq_some hpost with ⟨hqueue, rfl⟩ | ⟨e, hqueue, hfree, rfl⟩
  · refine ⟨⟨hqueue, hw, ho, h.queue, h.called, fun e he => ?_, fun i hi => ?_⟩, ?_, fun i => ?_⟩
    · exact Nat.lt_of_lt_of_le (h.known e he) hlen
    · exact Nat.lt_of_lt_of_le (h.callers i hi) hlen
    · rw [← hqueue]
      rfl
    · rw [hqueue, share_nil, List.append_nil]
      rfl
  · have hcaller := QueueState.caller_producers s.queue s.queue.queue e.1 (some (.entered e))
    have hunpushed : QueueState.unpushed { s.queue with
        producers := Function.update s.queue.producers e.1 (some (.entered e)) } =
          Function.update s.queue.unpushed (some e.1) (some e) := by
      funext c
      by_cases hc : c = some e.1
      · subst hc
        simp [QueueState.unpushed, CallPc.unpushed]
      · simp only [QueueState.unpushed, hcaller, Function.update_of_ne hc]
    have hnone : s.queue.unpushed (some e.1) = none := by simp [QueueState.unpushed, hfree]
    have hown : e.1 < p.sessions.length := ho.queue e (by simp [hqueue])
    refine ⟨⟨rfl, hw.withQueue [], ho.withQueue (by simp), ?_, ?_, ?_, fun i hi => ?_⟩, rfl,
      fun i => ?_⟩
    · exact h.queue.step (a := .call e.1 e) rfl (by simp [QueueState.step, hfree])
    · obtain ⟨called, hcalled⟩ := h.called
      exact ⟨called ++ [e], hcalled.enter rfl hfree rfl hcaller⟩
    · rintro e' (he' | ⟨c, hc⟩)
      · exact Nat.lt_of_lt_of_le (h.known e' (Or.inl he')) hlen
      · simp only [hunpushed] at hc
        by_cases hce : c = some e.1
        · subst hce
          rw [Function.update_self] at hc
          cases hc
          exact hown
        · rw [Function.update_of_ne hce] at hc
          exact Nat.lt_of_lt_of_le (h.known e' (Or.inr ⟨c, hc⟩)) hlen
    · by_cases hie : i = e.1
      · exact hie ▸ hown
      · simp only [Function.update_of_ne hie] at hi
        exact Nat.lt_of_lt_of_le (h.callers i hi) hlen
    · obtain ⟨j, ev⟩ := e
      simp only [waiting, hunpushed, hqueue]
      by_cases hij : j = i
      · subst hij
        rw [Function.update_self, hnone]
        simp [QueueState.tasks, QueueState.running]
      · have hne : some i ≠ some j := fun heq => hij (Option.some.inj heq).symm
        rw [Function.update_of_ne hne, share_cons_other hij, share_nil, List.append_nil]
        rfl

/-! ## The steps -/

/-- A session's own step, or none of its steps. -/
abbrev Sees (s s' : Threads) (i : SessionId) : Prop :=
  s'.view i = s.view i ∨ ∃ b, localMachine.step (s.view i) b = some (s'.view i)

theorem view_of_process {s : Threads} {i : SessionId} {l : Local} (hl : s.process.view i = some l) :
    s.view i = some (l.withQueue (s.waiting i)) := by
  rw [view, hl, Option.map_some]

/-- The manager takes a step, and hands over what it posted. -/
theorem Inv.hand {s s' : Threads} {a : Action} (h : s.Inv)
    (hstep : (s.process.step a).bind s.post = some s') : s'.Inv ∧ ∀ i, s.Sees s' i := by
  obtain ⟨p, hp, hpost⟩ := Option.bind_eq_some_iff.mp hstep
  obtain ⟨hw, ho⟩ := Process.wired_step ⟨h.wired, h.owned⟩ hp
  obtain ⟨hinv, hprocess, hwaiting⟩ :=
    h.post hw ho (Process.sessions_le_step h.wired hp) hpost
  refine ⟨hinv, fun i => ?_⟩
  have hview : s'.view i =
      (p.view i).map (fun l => l.withQueue (s.waiting i ++ share i p.queue)) := by
    rw [view, hprocess, view_withQueue, hwaiting]
  rcases Process.view_hand h.wired h.owned h.handed hp i with ⟨hsame, hnone⟩ |
    ⟨hnone, rfl, hqueue, sid, key, appid, channel, hnew⟩ | ⟨l, m, l', hl, hnil, hmove, hl', hposted⟩
  · refine Or.inl ?_
    rw [hview, hsame, hnone, List.append_nil]
    rfl
  · refine Or.inr ⟨.start sid key appid channel, ?_⟩
    have hempty : s.waiting s.process.sessions.length = [] := by
      rw [waiting]
      refine Process.share_of_owned (fun e he => h.known e ?_)
      rcases List.mem_append.mp he with htask | hpc
      · exact Or.inl htask
      · exact Or.inr ⟨_, Option.mem_toList.mp hpc⟩
    rw [hview, hnew, hqueue, hempty, view, hnone]
    rfl
  · refine Or.inr ⟨.move m, ?_⟩
    rw [view_of_process hl, hview, hl', Option.map_some, ← hposted]
    exact congrArg (Option.map some) (Local.step_withQueue hnil hmove (s.waiting i))

/-- The running task returns. -/
theorem Inv.finish {s s' : Threads} {e : SessionId × Event} (h : s.Inv)
    (hrunning : s.queue.running = some e) (hstep : s.finish e = some s') :
    s'.Inv ∧ ∀ i, s.Sees s' i := by
  obtain ⟨queue, hqueue, hrest⟩ := Option.bind_eq_some_iff.mp hstep
  obtain ⟨p, hp, rfl⟩ := Option.map_eq_some_iff.mp hrest
  obtain ⟨e', hrunning', htasks, hunpushed⟩ := QueueState.tasks_of_finish hqueue
  have hee : e' = e := Option.some.inj (hrunning'.symm.trans hrunning)
  subst hee
  have hknown : e'.1 < s.process.sessions.length := h.known e' (Or.inl (by simp [htasks]))
  have hw₀ := h.wired.withQueue [e']
  have ho₀ : (s.process.withQueue [e']).Owned :=
    h.owned.withQueue (by simpa using hknown)
  obtain ⟨hw, ho⟩ := Process.wired_step ⟨hw₀, ho₀⟩ hp
  have hlen := Process.sessions_le_step hw₀ hp
  obtain ⟨j, ev⟩ := e'
  obtain ⟨hnil, hother, l, l', hl, hone, hmove, hl'⟩ := Process.view_runTask hw₀ rfl hp
  have hwaiting : ∀ i, s.waiting i = share i [(j, ev)] ++ waiting ⟨p, queue⟩ i := by
    intro i
    rw [waiting, waiting, htasks, hunpushed, ← share_append]
    rfl
  refine ⟨⟨hnil, hw, ho, h.queue.step rfl hqueue, ?_, fun e' he' => ?_, fun i hi => ?_⟩,
    fun i => ?_⟩
  · obtain ⟨called, hcalled⟩ := h.called
    exact ⟨called, hcalled.serve rfl hqueue⟩
  · refine Nat.lt_of_lt_of_le (h.known e' ?_) hlen
    rcases he' with htask | hpc
    · exact Or.inl (htasks ▸ List.mem_cons_of_mem _ htask)
    · exact Or.inr (hunpushed ▸ hpc)
  · exact Nat.lt_of_lt_of_le (h.callers i (QueueState.caller_of_serve (c := some i) rfl hqueue hi))
      hlen
  · by_cases hij : i = j
    · subst hij
      refine Or.inr ⟨.move .runTask, ?_⟩
      have hbefore : s.view i = some (l.withQueue (ev :: waiting ⟨p, queue⟩ i)) := by
        rw [view, ← view_withQueue s.process [(i, ev)], hl, hwaiting]
        simp
      have hafter : view ⟨p, queue⟩ i = some (l'.withQueue (waiting ⟨p, queue⟩ i)) :=
        view_of_process hl'
      rw [hbefore, hafter]
      exact congrArg (Option.map some) (Local.runTask_withQueue hone hmove _)
    · refine Or.inl ?_
      have hsame : waiting ⟨p, queue⟩ i = s.waiting i := by
        rw [hwaiting, share_cons_other (Ne.symm hij), share_nil, List.nil_append]
      rw [view, hsame, hother i hij, view_withQueue]
      rfl

/-- A step of `async_call` or of `on_event` that no session sees. -/
theorem Inv.serve {s : Threads} {a : QueueAction SessionId (SessionId × Event)}
    {queue : QueueState SessionId (SessionId × Event)} (h : s.Inv) (ha : a.serves = true)
    (hne : a ≠ .finish) (hstep : s.queue.step a = some queue) :
    Inv { s with queue := queue } ∧ ∀ i, view { s with queue := queue } i = s.view i := by
  obtain ⟨called, hcalled⟩ := h.called
  have hqueue := h.queue.step (serves_plain ha) hstep
  have hcalled' := hcalled.serve ha hstep
  have hcallers : ∀ i, queue.producers i ≠ none → i < s.process.sessions.length :=
    fun i hi => h.callers i (QueueState.caller_of_serve (c := some i) ha hstep hi)
  cases QueueState.handsOver_of_step h.queue hqueue hcalled.opened ha hne hstep with
  | kept tasks unpushed =>
    refine ⟨⟨h.handed, h.wired, h.owned, hqueue, ⟨called, hcalled'⟩, ?_, hcallers⟩,
      fun i => ?_⟩
    · rw [tasks, unpushed]
      exact h.known
    · rw [view, view, waiting, waiting, tasks, unpushed]
  | pushed c e was unpushed tasks =>
    have hwho : some e.1 = c := hcalled.who_unpushed c e was
    subst hwho
    refine ⟨⟨h.handed, h.wired, h.owned, hqueue, ⟨called, hcalled'⟩, ?_, hcallers⟩,
      fun i => ?_⟩
    · rintro e' (he' | ⟨c', hc'⟩)
      · simp only [tasks] at he'
        rcases List.mem_append.mp he' with hold | hnew
        · exact h.known e' (Or.inl hold)
        · exact List.mem_singleton.mp hnew ▸ h.known e (Or.inr ⟨_, was⟩)
      · simp only [unpushed] at hc'
        by_cases hce : c' = some e.1
        · subst hce
          rw [Function.update_self] at hc'
          cases hc'
        · rw [Function.update_of_ne hce] at hc'
          exact h.known e' (Or.inr ⟨c', hc'⟩)
    · have hsame : waiting { s with queue := queue } i = s.waiting i := by
        obtain ⟨j, ev⟩ := e
        simp only [waiting, tasks, unpushed]
        by_cases hij : j = i
        · subst hij
          rw [Function.update_self, was]
          simp
        · have hne : some i ≠ some j := fun heq => hij (Option.some.inj heq).symm
          rw [Function.update_of_ne hne]
          simp [share_cons_other hij]
      rw [view, hsame]
      rfl

/-- **The step lemma**, and what each session sees of the step. -/
theorem Inv.step {s s' : Threads} {a : ThreadAction} (h : s.Inv) (hstep : s.step a = some s') :
    s'.Inv ∧ ∀ i, s.Sees s' i := by
  cases a with
  | js a =>
    simp only [Threads.step] at hstep
    split at hstep
    · exact h.hand hstep
    · cases hstep
  | raise i ev dir =>
    simp only [Threads.step] at hstep
    split at hstep
    · exact h.hand hstep
    · cases hstep
  | serve a =>
    simp only [Threads.step] at hstep
    split at hstep
    · cases hstep
    split at hstep
    · obtain ⟨e, hrunning, hfinish⟩ := Option.bind_eq_some_iff.mp hstep
      exact h.finish hrunning hfinish
    · rename_i hne
      split at hstep
      · rename_i hserves
        obtain ⟨queue, hqueue, rfl⟩ := Option.map_eq_some_iff.mp hstep
        obtain ⟨hinv, hview⟩ := h.serve hserves hne hqueue
        exact ⟨hinv, fun i => Or.inl (hview i)⟩
      · cases hstep

theorem inv_reachable {s : Threads} (hs : machine.Reachable s) : s.Inv :=
  Machine.Reachable.induct (I := Inv) inv_init
    (fun _ _ _ _ hi hstep => (hi.step hstep).1) hs

/-- **Every session goes through a run of its own machine**, whatever the
threads of the engines and the event loop are doing: the model in which a
report is queued at once is right about each of them. -/
theorem simulates_session (i : SessionId) :
    machine.Simulates localMachine (fun s => s.view i) where
  init := rfl
  step := fun _ _ _ hs hstep => ((inv_reachable hs).step hstep).2 i

end Threads

end AgoraRecording.Server
