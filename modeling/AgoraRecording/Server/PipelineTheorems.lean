/-
AgoraRecording.Server.PipelineTheorems — what every thread reports of every
wrapper is emitted once, in order, and nowhere else.

Three hand-overs lie between a callback and `this.emit`: the thread's calls
to the queue (`InCallOrder`), the queue to the tasks (`QueueInv`), and the
tasks through `m_callbacks` to the immediates (`Inv.relays`: no subscription
of the application displaces a listener of `initEventHandler`, because
`emplace` keeps what is there). `emitted_in_order` composes them for every
interleaving.
-/
import AgoraRecording.Native.CallOrderTheorems
import AgoraRecording.Server.Pipeline

namespace AgoraRecording.Server

open AgoraRecording.Lib AgoraRecording.Js AgoraRecording.Native

variable {τ α β : Type}

/-! ## What goes back to one thread and one wrapper -/

namespace From

/-- Apply a partial function to what is carried. -/
def lift (f : α → Option β) (x : From τ α) : Option (From τ β) :=
  (f x.what).map (fun b => { thread := x.thread, sdk := x.sdk, what := b })

variable [DecidableEq τ]

theorem of_append (l l' : List (From τ α)) (c : Option τ) (k : Nat) :
    of (l ++ l') c k = of l c k ++ of l' c k := by
  simp [of]

theorem of_cons (x : From τ α) (l : List (From τ α)) (c : Option τ) (k : Nat) :
    of (x :: l) c k = if x.thread = c ∧ x.sdk = k then x.what :: of l c k else of l c k := by
  unfold of
  split
  · rename_i h
    rw [List.filter_cons_of_pos (by simpa using h), List.map_cons]
  · rename_i h
    rw [List.filter_cons_of_neg (by simpa using h)]

theorem of_filterMap_lift (f : α → Option β) (l : List (From τ α)) (c : Option τ) (k : Nat) :
    of (l.filterMap (lift f)) c k = (of l c k).filterMap f := by
  induction l with
  | nil => rfl
  | cons x l ih =>
    rw [of_cons, List.filterMap_cons]
    cases hf : f x.what with
    | none =>
      simp only [lift, hf, Option.map_none]
      split
      · rw [List.filterMap_cons_none hf, ← ih]
      · rw [← ih]
    | some b =>
      simp only [lift, hf, Option.map_some]
      rw [of_cons]
      split
      · rw [List.filterMap_cons_some hf, ← ih]
      · rw [← ih]

theorem of_filter_thread (l : List (From τ α)) (c : Option τ) (k : Nat) :
    of (l.filter (fun x => x.thread = c)) c k = of l c k := by
  simp only [of, List.filter_filter]
  congr 2
  funext x
  by_cases h : x.thread = c <;> simp [h]

end From

/-! ## Subscriptions -/

namespace Callbacks

theorem lookup_map_relay (relays : List Relay) (event : String) :
    (relays.map (fun r => (r.event, Handler.relay r))).lookup event =
      (relays.find? (fun r => r.event == event)).map Handler.relay := by
  induction relays with
  | nil => rfl
  | cons r relays ih =>
    rw [List.map_cons, List.lookup_cons, List.find?_cons, ih, BEq.comm (a := event)]
    cases r.event == event <;> rfl

/-- The listeners of `initEventHandler` are what is found first. -/
theorem makeJsCall_subscribed (call : JsCall) : subscribed.makeJsCall call = relayed call := by
  have hsubscribed : subscribed = initEventHandler.map (fun r => (r.event, Handler.relay r)) := by
    decide
  rw [makeJsCall, hsubscribed, lookup_map_relay, relayed, relayOf]
  cases initEventHandler.find? (fun r => r.event == call.event) <;> rfl

/-- Subscribing a function changes nothing that is emitted. -/
theorem makeJsCall_addEventHandler (callbacks : Callbacks) (event : String) (f : Nat)
    (call : JsCall) :
    (callbacks.addEventHandler event (.other f)).makeJsCall call = callbacks.makeJsCall call := by
  unfold addEventHandler
  split
  · rfl
  · rename_i hnone
    unfold makeJsCall
    rw [List.lookup_append]
    cases hold : callbacks.lookup call.event with
    | some h => rfl
    | none =>
      rw [Option.none_or, List.lookup_cons, List.lookup_nil]
      cases call.event == event <;> rfl

end Callbacks

/-! ## The events the manager follows -/

theorem initEventHandler_events : initEventHandler.map Relay.event = eventNames := by decide

/-- `Session.task` fires an event exactly when the wrapper emits it, under
its own name. -/
theorem emission_of_event {cb : Callback} {ev : Event} (h : cb.event = some ev) :
    (emission cb).map Emission.name = if ev.name ∈ eventNames then some ev.name else none := by
  rw [emission, post_of_event h, Option.bind_some]
  cases ev <;> rfl

namespace Pipeline

theorem left_of_ne {s : Pipeline τ} {a : QueueAction τ (From τ JsCall)} (h : a ≠ .finish) :
    s.left a = none := by
  cases a with
  | finish => exact absurd rfl h
  | _ => rfl

variable [DecidableEq τ]

/-! ## The invariant -/

/-- The tasks of the callbacks run so far. -/
def tasks (s : Pipeline τ) : List (From τ JsCall) := s.raised.filterMap (From.lift Callback.post)

structure Inv (s : Pipeline τ) : Prop where
  queue : QueueInv s.queue
  called : QueueState.InCallOrder From.thread s.tasks s.queue
  known : ∀ r ∈ s.raised, r.sdk < s.sdks.length
  relays : ∀ callbacks ∈ s.sdks, ∀ call, callbacks.makeJsCall call = relayed call
  /-- `done` are the tasks whose bodies have returned -/
  handled : ∃ done, s.queue.queue.started = done ++ s.queue.running.toList ∧
    s.emitted ++ s.immediates = done.filterMap (From.lift relayed)

/-- A queued task is some callback's. -/
theorem Inv.task_known {s : Pipeline τ} (h : s.Inv) {e : From τ JsCall}
    (he : e ∈ s.queue.queue.started) : e.sdk < s.sdks.length := by
  have hpushed : e ∈ s.queue.queue.pushed := by
    rw [← h.queue.inOrder]
    exact List.mem_append_left _ he
  have hcalled : e ∈ s.tasks := by
    have hmem : e ∈ s.tasks.filter (fun x => x.thread = e.thread) := by
      rw [← h.called.order e.thread]
      exact List.mem_append_left _ (List.mem_filter.mpr ⟨hpushed, by simp⟩)
    exact List.mem_of_mem_filter hmem
  obtain ⟨r, hr, hlift⟩ := List.mem_filterMap.mp hcalled
  obtain ⟨call, -, rfl⟩ := Option.map_eq_some_iff.mp hlift
  exact h.known r hr

/-- So its body leaves what the wrapper relays. -/
theorem Inv.fired_eq {s : Pipeline τ} (h : s.Inv) {e : From τ JsCall}
    (he : e ∈ s.queue.queue.started) : s.fired e = From.lift relayed e := by
  have hlt := h.task_known he
  have hget : s.sdks[e.sdk]? = some s.sdks[e.sdk] := List.getElem?_eq_getElem hlt
  rw [fired, hget, Option.bind_some, h.relays _ (List.getElem_mem hlt)]
  rfl

/-! ## The steps -/

/-- A callback is run, and enters `async_call` or posts nothing. -/
theorem Inv.report {s s' : Pipeline τ} (h : s.Inv) {thread : Option τ} {sdk : Nat} {cb : Callback}
    {call : From τ JsCall → QueueAction τ (From τ JsCall)} (hsdk : sdk < s.sdks.length)
    (hcall : ∀ e queue, s.queue.step (call e) = some queue → (call e).plain = true ∧
      s.queue.caller thread = none ∧ queue.queue = s.queue.queue ∧
      queue.caller = Function.update s.queue.caller thread (some (.entered e)) ∧
      queue.running = s.queue.running)
    (hstep : s.report thread sdk cb call = some s') : s'.Inv := by
  have hknown : ∀ r ∈ s.raised ++ [({ thread := thread, sdk := sdk, what := cb } :
      From τ Callback)], r.sdk < s.sdks.length := by
    intro r hr
    rcases List.mem_append.mp hr with hold | hnew
    · exact h.known r hold
    · rw [List.mem_singleton.mp hnew]
      exact hsdk
  unfold Pipeline.report at hstep
  cases hpost : cb.post with
  | none =>
    rw [hpost] at hstep
    cases hstep
    refine ⟨h.queue, ?_, hknown, h.relays, h.handled⟩
    have hsame : (s.raised ++ [({ thread := thread, sdk := sdk, what := cb } :
        From τ Callback)]).filterMap (From.lift Callback.post) = s.tasks := by
      simp [tasks, From.lift, hpost]
    exact (congrArg (QueueState.InCallOrder From.thread · s.queue) hsame).mpr h.called
  | some js =>
    rw [hpost] at hstep
    obtain ⟨queue, hqueue, rfl⟩ := Option.map_eq_some_iff.mp hstep
    obtain ⟨hplain, hfree, hsame, hcaller, hrunning⟩ := hcall _ queue hqueue
    refine ⟨h.queue.step hplain hqueue, ?_, hknown, h.relays, ?_⟩
    · have hgrown : (s.raised ++ [({ thread := thread, sdk := sdk, what := cb } :
          From τ Callback)]).filterMap (From.lift Callback.post) =
            s.tasks ++ [{ thread := thread, sdk := sdk, what := js }] := by
        simp [tasks, From.lift, hpost]
      exact (congrArg (QueueState.InCallOrder From.thread · queue) hgrown).mpr
        (h.called.enter rfl hfree hsame hcaller)
    · simp only [hsame, hrunning]
      exact h.handled

/-- The queue is served. -/
theorem Inv.serve {s s' : Pipeline τ} (h : s.Inv) {a : QueueAction τ (From τ JsCall)}
    (hstep : s.step (.serve a) = some s') : s'.Inv := by
  simp only [step] at hstep
  split at hstep
  · rename_i hserves
    obtain ⟨queue, hqueue, rfl⟩ := Option.map_eq_some_iff.mp hstep
    refine ⟨h.queue.step (serves_plain hserves) hqueue, h.called.serve hserves hqueue, h.known,
      h.relays, ?_⟩
    obtain ⟨done, hstarted, hrelayed⟩ := h.handled
    cases QueueState.advances_of_step hserves hqueue with
    | advance _ hne c pc at_ queue_eq caller running =>
      refine ⟨done, ?_, by simp [left_of_ne hne, hrelayed]⟩
      rw [queue_eq, asyncCall_started, running]
      exact hstarted
    | wait _ hne caller queue_eq running =>
      refine ⟨done, ?_, by simp [left_of_ne hne, hrelayed]⟩
      rw [queue_eq.2.2, running]
      exact hstarted
    | poll e caller queue_eq idle running =>
      refine ⟨done, ?_, by simp [left, hrelayed]⟩
      rw [idle, Option.toList_none, List.append_nil] at hstarted
      rw [queue_eq.2.2, running, hstarted]
      rfl
    | finish e caller queue_eq running idle =>
      rw [running] at hstarted
      refine ⟨done ++ [e], by rw [queue_eq, idle, hstarted]; simp, ?_⟩
      have hmem : e ∈ s.queue.queue.started := by rw [hstarted]; simp
      rw [left, running, Option.bind_some, h.fired_eq hmem, ← List.append_assoc, hrelayed,
        List.filterMap_append]
      cases hl : From.lift relayed e <;> simp [hl]
  · cases hstep

/-- **The step lemma.** -/
theorem Inv.step {s s' : Pipeline τ} {a : PipelineAction τ} (h : s.Inv)
    (hstep : s.step a = some s') : s'.Inv := by
  cases a with
  | construct =>
    cases hstep
    refine ⟨h.queue, h.called, fun r hr => ?_, fun callbacks hmem call => ?_, h.handled⟩
    · rw [List.length_append]
      exact Nat.lt_add_right _ (h.known r hr)
    · rcases List.mem_append.mp hmem with hold | hnew
      · exact h.relays callbacks hold call
      · rw [List.mem_singleton.mp hnew, Callbacks.makeJsCall_subscribed]
  | onEvent sdk event f =>
    cases hstep
    refine ⟨h.queue, h.called, fun r hr => ?_, fun callbacks hmem call => ?_, h.handled⟩
    · rw [List.length_modify]
      exact h.known r hr
    · obtain ⟨n, hn⟩ := List.mem_iff_getElem?.mp hmem
      rw [List.getElem?_modify] at hn
      obtain ⟨old, hold, rfl⟩ := Option.map_eq_some_iff.mp hn
      have hrelays := h.relays old (List.mem_of_getElem? hold) call
      split
      · rw [Callbacks.makeJsCall_addEventHandler, hrelays]
      · exact hrelays
  | raise thread sdk cb =>
    simp only [Pipeline.step] at hstep
    split at hstep
    · rename_i hguard
      refine h.report hguard.1 (fun e queue hqueue => ?_) hstep
      simp only [QueueState.step, hguard.2] at hqueue
      cases hqueue
      exact ⟨rfl, hguard.2, rfl, QueueState.caller_producers s.queue s.queue.queue thread _, rfl⟩
    · cases hstep
  | raiseInside sdk cb =>
    simp only [Pipeline.step] at hstep
    split at hstep
    · rename_i t hloop
      split at hstep
      · rename_i hsdk
        refine h.report hsdk (fun e queue hqueue => ?_) hstep
        simp only [QueueState.step, hloop] at hqueue
        cases hqueue
        exact ⟨rfl, by simp [QueueState.caller, hloop], rfl,
          QueueState.caller_running s.queue s.queue.queue t _,
          by simp [QueueState.running, hloop]⟩
      · cases hstep
    · cases hstep
  | serve a => exact h.serve hstep
  | runImmediate =>
    simp only [Pipeline.step] at hstep
    split at hstep
    · rename_i m rest hloop himmediates
      cases hstep
      obtain ⟨done, hstarted, hrelayed⟩ := h.handled
      refine ⟨h.queue, h.called, h.known, h.relays, done, hstarted, ?_⟩
      rw [← hrelayed, himmediates, List.append_assoc]
      rfl
    · cases hstep

theorem inv_reachable {s : Pipeline τ} (hs : (machine τ).Reachable s) : s.Inv :=
  Machine.Reachable.induct (I := Inv)
    ⟨queueInv_init, QueueState.inCallOrder_init From.thread, by simp [machine],
      by simp [machine], [], rfl, rfl⟩
    (fun _ _ _ _ hi hstep => hi.step hstep) hs

/-! ## What is emitted -/

/-- What a thread has reported of a wrapper is what was emitted for it,
what waits in an immediate, and what the rest of the way still holds. -/
theorem Inv.emission_eq {s : Pipeline τ} (h : s.Inv) (c : Option τ) (k : Nat) :
    (From.of s.raised c k).filterMap emission =
      From.of s.emitted c k ++ From.of s.immediates c k ++
        (From.of (s.queue.running.toList ++ s.queue.queue.q ++ (s.queue.unpushed c).toList)
          c k).filterMap relayed := by
  obtain ⟨done, hstarted, hrelayed⟩ := h.handled
  have htasks : From.of s.tasks c k = From.of s.queue.queue.pushed c k ++
      From.of (s.queue.unpushed c).toList c k := by
    rw [← From.of_filter_thread s.tasks, ← h.called.order c, From.of_append,
      From.of_filter_thread]
  have hpushed : s.queue.queue.pushed = done ++ (s.queue.running.toList ++ s.queue.queue.q) := by
    rw [← h.queue.inOrder, hstarted, List.append_assoc]
  calc (From.of s.raised c k).filterMap emission
      = ((From.of s.raised c k).filterMap Callback.post).filterMap relayed := by
        rw [List.filterMap_filterMap]
        rfl
    _ = (From.of s.tasks c k).filterMap relayed := by
        rw [tasks, From.of_filterMap_lift]
    _ = (From.of done c k).filterMap relayed ++ (From.of (s.queue.running.toList ++
          s.queue.queue.q ++ (s.queue.unpushed c).toList) c k).filterMap relayed := by
        rw [htasks, hpushed]
        simp only [From.of_append, List.filterMap_append, List.append_assoc]
    _ = _ := by
        rw [← From.of_filterMap_lift relayed done, ← hrelayed, From.of_append]

/-- At rest nothing is on the way. -/
theorem Inv.emitted_of_rest {s : Pipeline τ} (h : s.Inv) (hrest : s.AtRest) (c : Option τ)
    (k : Nat) : From.of s.emitted c k = (From.of s.raised c k).filterMap emission := by
  have hq : s.queue.queue.q = [] := by
    by_contra hne
    rcases h.queue.awake hne with ⟨p, hp⟩ | hpending | hloop
    · rw [hrest.producers p] at hp
      cases hp
    · rw [hrest.pending] at hpending
      cases hpending
    · exact hloop hrest.loop
  have hrunning : s.queue.running = none := by simp [QueueState.running, hrest.loop]
  have hunpushed : s.queue.unpushed c = none := by
    cases c with
    | none => simp [QueueState.unpushed, QueueState.caller, hrest.loop]
    | some p => simp [QueueState.unpushed, hrest.producers p]
  rw [h.emission_eq c k, hrest.immediates, hq, hrunning, hunpushed]
  simp [From.of]

/-- **No report is lost, duplicated, reordered or told by another
wrapper**: under every interleaving, what a wrapper has emitted for a thread
is an initial part of what that thread reported of it, as `emission` puts it,
and once everything is at rest it is all of it. -/
theorem emitted_in_order {s : Pipeline τ} (hs : (machine τ).Reachable s) (c : Option τ) (k : Nat) :
    From.of s.emitted c k <+: (From.of s.raised c k).filterMap emission ∧
      (s.AtRest → From.of s.emitted c k = (From.of s.raised c k).filterMap emission) := by
  have hinv := inv_reachable hs
  refine ⟨?_, fun hrest => hinv.emitted_of_rest hrest c k⟩
  rw [hinv.emission_eq c k, List.append_assoc]
  exact List.prefix_append _ _

/-- One thread reports that a user joined, a warning, and that the user left;
the report of another thread comes between. To the first event the application
subscribed a function too. -/
def joinedRun : List (PipelineAction Bool) :=
  [.construct, .onEvent 0 "userjoin" 7, .raise true 0 (.onUserJoined 99 none),
   .serve (.advance true), .raise false 0 (.onActiveSpeaker 99), .serve (.advance true),
   .serve (.advance false), .serve (.advance true), .raise true 0 (.onWarning 1),
   .raise true 0 (.onUserOffline 99 0), .serve (.advance false), .serve (.advance true),
   .serve (.advance true), .serve (.advance true), .serve (.advance false), .serve .wake,
   .serve .poll, .serve .finish, .serve .poll, .serve .finish, .serve .poll, .serve .finish,
   .serve .poll, .runImmediate, .runImmediate, .runImmediate]

theorem emitted_in_order_joinedRun :
    ∃ s, (machine Bool).run joinedRun = some s ∧
      (From.of s.emitted (some true) 0).map Emission.name = ["userjoin", "userleave"] := by
  have hrun : ((machine Bool).run joinedRun).any (fun s =>
      (s.queue.producers true).isNone && (s.queue.producers false).isNone &&
        !s.queue.queue.pending && s.immediates.isEmpty && s.queue.loop.isIdle &&
        ((From.of s.raised (some true) 0).filterMap emission).map Emission.name ==
          ["userjoin", "userleave"]) = true := by decide
  obtain ⟨s, hs, hall⟩ := (Option.any_eq_true _ _).mp hrun
  simp only [Bool.and_eq_true, Option.isNone_iff_eq_none, Bool.not_eq_true', List.isEmpty_iff,
    beq_iff_eq] at hall
  obtain ⟨⟨⟨⟨⟨htrue, hfalse⟩, hpending⟩, himmediates⟩, hloop⟩, hnames⟩ := hall
  have hrest : s.AtRest := by
    refine ⟨fun p => ?_, hpending, ?_, himmediates⟩
    · cases p
      · exact hfalse
      · exact htrue
    · cases hl : s.queue.loop with
      | idle => rfl
      | _ => simp [hl, LoopPc.isIdle] at hloop
  refine ⟨s, hs, ?_⟩
  rw [(emitted_in_order ⟨joinedRun, hs⟩ (some true) 0).2 hrest, hnames]

end Pipeline

end AgoraRecording.Server
