/-
AgoraRecording.Server.Simulation — what one session can observe of the
server.

`Process.view i` is session `i` with its registry bit and its share of
the three queues. Whatever the other sessions do, each step of the server
leaves a view as it was or is a step of that session's own machine
(`simulates`), so an invariant of `localMachine` holds of every session
of every run (`view_keeps`).

That rests on `Wired`: sids are unique, none of them is an inherited
property, and an entry of the registry leads from a sid to the session
with that sid. It is why the recorder a handler finds by lookup is the
one it has by closure (`Wired.onUser_eq`).
-/
import AgoraRecording.Lib.Tagged
import AgoraRecording.Server.Local

namespace AgoraRecording.Server

open AgoraRecording.Lib AgoraRecording.Js AgoraRecording.Native

/-! ## Wiring -/

namespace Process

structure Wired (s : Process) : Prop where
  sids : ∀ (i j : SessionId) (g h : Session), s.sessions[i]? = some g →
    s.sessions[j]? = some h → g.sid = h.sid → i = j
  plain : ∀ g ∈ s.sessions, g.sid ∉ objectPrototype
  entries : ∀ (sid : JsString) (i : SessionId), s.recorders.lookup sid = some i →
    ∃ g : Session, s.sessions[i]? = some g ∧ g.sid = sid

/-- No inherited property has the shape of a uuid. -/
theorem not_mem_objectPrototype {sid : JsString} (h : isUuidV4 sid = true) :
    sid ∉ objectPrototype := by
  intro hmem
  have hall : ∀ name ∈ objectPrototype, isUuidV4 name = false := by decide
  rw [hall sid hmem] at h
  cases h

theorem wired_empty : empty.Wired := by
  refine ⟨fun i j g h hg => ?_, fun g hg => ?_, fun sid i h => ?_⟩
  · simp [empty] at hg
  · simp [empty] at hg
  · simp [empty] at h

/-- Replacing a session by one with its sid keeps the wiring. -/
theorem Wired.take {s : Process} {i : SessionId} {g : Session} {t : Turn} (h : s.Wired)
    (hg : s.sessions[i]? = some g) (hsid : t.session.sid = g.sid) : (s.take i t).Wired := by
  have hi : i < s.sessions.length := (List.getElem?_eq_some_iff.mp hg).1
  have hget : ∀ (j : SessionId) (g' : Session), (s.sessions.set i t.session)[j]? = some g' →
      ∃ g'' : Session, s.sessions[j]? = some g'' ∧ g'.sid = g''.sid := by
    intro j g' hj
    rw [List.getElem?_set] at hj
    by_cases hij : i = j
    · subst hij
      rw [if_pos rfl, if_pos hi] at hj
      cases hj
      exact ⟨g, hg, hsid⟩
    · rw [if_neg hij] at hj
      exact ⟨g', hj, rfl⟩
  constructor
  · intro j k g₁ g₂ h₁ h₂ heq
    obtain ⟨g₁', h₁', hsid₁⟩ := hget j g₁ h₁
    obtain ⟨g₂', h₂', hsid₂⟩ := hget k g₂ h₂
    exact h.sids j k g₁' g₂' h₁' h₂' (hsid₁.symm.trans (heq.trans hsid₂))
  · intro g' hmem
    obtain ⟨j, hj⟩ := List.mem_iff_getElem?.mp hmem
    obtain ⟨g'', hg'', hsid'⟩ := hget j g' hj
    rw [hsid']
    exact h.plain g'' (List.mem_of_getElem? hg'')
  · intro sid j hj
    have hold : s.recorders.lookup sid = some j ∨ (sid = t.session.sid ∧ j = i) := by
      unfold Process.take at hj
      simp only at hj
      split at hj
      · rw [List.lookup_cons] at hj
        split at hj
        · rename_i hbeq
          exact Or.inr ⟨eq_of_beq hbeq, (Option.some.inj hj).symm⟩
        · exact Or.inl hj
      · exact Or.inl hj
    rcases hold with hold | ⟨rfl, rfl⟩
    · obtain ⟨g', hg', rfl⟩ := h.entries sid j hold
      by_cases hij : i = j
      · subst hij
        rw [hg] at hg'
        cases hg'
        exact ⟨t.session, by simp [Process.take, hi], hsid⟩
      · exact ⟨g', by simp [Process.take, hij, hg'], rfl⟩
    · exact ⟨t.session, by simp [Process.take, hi], rfl⟩

/-! ## Views -/

/-- The registry leads from session `i`'s sid to session `i`. -/
def registered (s : Process) (i : SessionId) (sid : JsString) : Bool :=
  s.recorders.lookup sid == some i

/-- What session `i` sees. -/
def view (s : Process) (i : SessionId) : Option Local :=
  s.sessions[i]?.map (fun g =>
    { session := g
      registered := s.registered i g.sid
      queue := share i s.queue
      immediates := share i s.immediates
      reactions := share i s.reactions })

theorem view_eq_some {s : Process} {i : SessionId} {l : Local} (h : s.view i = some l) :
    s.sessions[i]? = some l.session ∧ l.registered = s.registered i l.session.sid ∧
      l.queue = share i s.queue ∧ l.immediates = share i s.immediates ∧
      l.reactions = share i s.reactions := by
  obtain ⟨g, hg, rfl⟩ := Option.map_eq_some_iff.mp h
  exact ⟨hg, rfl, rfl, rfl, rfl⟩

theorem exists_view {s : Process} {i : SessionId} {g : Session} (h : s.sessions[i]? = some g) :
    ∃ l, s.view i = some l ∧ l.session = g := by
  unfold view
  rw [h]
  exact ⟨_, rfl, rfl⟩

/-- The entry under a session's sid is the session's own or missing. -/
theorem Wired.find_eq {s : Process} {i : SessionId} {g : Session} (h : s.Wired)
    (hg : s.sessions[i]? = some g) :
    s.find g.sid = if s.registered i g.sid then .own i else .missing := by
  unfold find registered
  cases hl : s.recorders.lookup g.sid with
  | none =>
    simp only [beq_iff_eq, reduceCtorEq, if_false]
    exact if_neg (h.plain g (List.mem_of_getElem? hg))
  | some j =>
    obtain ⟨g', hg', hsid⟩ := h.entries g.sid j hl
    have hij : j = i := h.sids j i g' g hg' hg hsid
    simp [hij]

theorem take_sessions {s : Process} {i : SessionId} {g : Session} (hg : s.sessions[i]? = some g)
    (t : Turn) : (s.take i t).sessions[i]? = some t.session := by
  have hi : i < s.sessions.length := (List.getElem?_eq_some_iff.mp hg).1
  simp [take, hi]

theorem take_sessions_other (s : Process) {i j : SessionId} (hij : i ≠ j) (t : Turn) :
    (s.take i t).sessions[j]? = s.sessions[j]? := by
  simp [take, hij]

/-- A turn that only changes the session is overwritten by the next one. -/
theorem take_take (s : Process) (i : SessionId) (g : Session) (t : Turn) :
    (s.take i { session := g }).take i t = s.take i t := by
  simp [take]

/-- A turn that changes nothing changes nothing. -/
theorem take_self {s : Process} {i : SessionId} {g : Session} (hg : s.sessions[i]? = some g)
    (hrun : s.crashed = false) : s.take i { session := g } = s := by
  obtain ⟨hi, heq⟩ := List.getElem?_eq_some_iff.mp hg
  have hset : s.sessions.set i g = s.sessions := by
    rw [← heq]
    exact List.set_getElem_self hi
  cases s
  simp only [take] at *
  simp [hset, hrun]

/-- Under the wiring, a handler's lookup and its closure lead to one
recorder. -/
theorem Wired.onUser_eq {s : Process} {i : SessionId} {g : Session} (h : s.Wired)
    (hg : s.sessions[i]? = some g) (hrun : s.crashed = false) (ev : Event) :
    s.onUser i g.sid ev =
      s.take i { session := if s.registered i g.sid then g.onUser ev else g } := by
  unfold onUser
  rw [h.find_eq hg]
  cases hreg : s.registered i g.sid with
  | false => simp [take_self hg hrun]
  | true =>
    obtain ⟨hi, heq⟩ := List.getElem?_eq_some_iff.mp hg
    have hboth : (s.sessions.modify i
        (fun r => { r with layout := Session.relayout g.layout ev })).modify i
          (fun r => r.mix (Session.relayout g.layout ev)) = s.sessions.set i (g.onUser ev) := by
      apply List.ext_getElem?
      intro j
      rw [List.modify_modify_eq, List.getElem?_modify, List.getElem?_set]
      by_cases hij : i = j
      · subst hij
        rw [hg, if_pos rfl, if_pos hi]
        simp only [if_true, Option.map_eq_map, Option.map_some]
        rfl
      · simp [hij]
    simp only [if_true, hg]
    rw [hboth]
    simp [Process.take, hrun]

/-- So an `emit` is a turn of its session. -/
theorem Wired.emit_eq {s : Process} {i : SessionId} {g : Session} (h : s.Wired)
    (hg : s.sessions[i]? = some g) (ev : Event) :
    s.emit i g ev = s.take i (g.emit (s.registered i g.sid) ev) := by
  have hfind := h.find_eq hg
  have hne : decide (s.find g.sid ≠ .missing) = s.registered i g.sid := by
    rw [hfind]
    cases s.registered i g.sid <;> rfl
  have huser : ∀ g' : Session, g'.sid = g.sid →
      (s.take i { session := g' }).onUser i g'.sid ev =
        s.take i { session := if s.registered i g.sid then g'.onUser ev else g' } := by
    intro g' hsid
    have hw : (s.take i { session := g' }).Wired := h.take hg hsid
    rw [hw.onUser_eq (take_sessions hg _) rfl, take_take]
    have hreg : (s.take i { session := g' }).registered i g'.sid = s.registered i g.sid := by
      rw [hsid]
      rfl
    rw [hreg]
  unfold emit Session.emit
  rw [hne]
  cases ev with
  | joinchannel channel uid => rfl
  | error err stat => rfl
  | leavechannel => rfl
  | userjoin uid => exact huser _ (g.same_emitted _ _).sid
  | userleave uid => exact huser _ (g.same_emitted _ _).sid

/-! ## Turns -/

/-- A step of the server that is a turn `t` of session `i`, taken from the
state `s₀` in which its event has been popped. -/
inductive Turns (s : Process) : Action → SessionId → Session → Move → Turn → Process → Prop
  | mkdirDone {i g t ok} (hg : s.sessions[i]? = some g) (h : g.mkdirDone ok = some t) :
      Turns s (.mkdirDone i ok) i g (.mkdirDone ok) t s
  | accessDone {i g t ok} (hg : s.sessions[i]? = some g) (h : g.accessDone ok = some t) :
      Turns s (.accessDone i ok) i g (.accessDone ok) t s
  | writeDone {i g t ok out} (hg : s.sessions[i]? = some g) (h : g.writeDone ok out = some t) :
      Turns s (.writeDone i ok out) i g (.writeDone ok out) t s
  | raise {i g t ev dir} (hg : s.sessions[i]? = some g) (h : g.raise ev dir = some t) :
      Turns s (.raise i ev dir) i g (.raise ev dir) t s
  | runTask {i g ev rest} (hg : s.sessions[i]? = some g) (h : s.queue = (i, ev) :: rest) :
      Turns s .runTask i g .runTask (g.task ev) { s with queue := rest }
  | runImmediate {i g ev rest} (hg : s.sessions[i]? = some g) (h : s.immediates = (i, ev) :: rest) :
      Turns s .runImmediate i g .runImmediate (g.emit (s.registered i g.sid) ev)
        { s with immediates := rest }
  | runReaction {i g r rest} (hg : s.sessions[i]? = some g) (h : s.reactions = (i, r) :: rest) :
      Turns s .runReaction i g .runReaction (g.react r) { s with reactions := rest }

theorem Turns.get {s s₀ : Process} {a : Action} {i : SessionId} {g : Session} {m : Move} {t : Turn}
    (h : s.Turns a i g m t s₀) : s.sessions[i]? = some g := by
  cases h <;> assumption

theorem Turns.same {s s₀ : Process} {a : Action} {i : SessionId} {g : Session} {m : Move}
    {t : Turn} (h : s.Turns a i g m t s₀) : g.Same t.session := by
  cases h with
  | mkdirDone hg h => exact Session.same_mkdirDone h
  | accessDone hg h => exact Session.same_accessDone h
  | writeDone hg h => exact Session.same_writeDone h
  | raise hg h => exact Session.same_raise h
  | runTask hg h => exact Session.same_task _ _
  | runImmediate hg h => exact Session.same_emit _ _ _
  | runReaction hg h => exact Session.same_react _ _

/-- Popping touches neither the registry nor the sessions. -/
theorem Turns.popped {s s₀ : Process} {a : Action} {i : SessionId} {g : Session} {m : Move}
    {t : Turn} (h : s.Turns a i g m t s₀) :
    s₀.sessions = s.sessions ∧ s₀.recorders = s.recorders ∧ s₀.files = s.files ∧
      s₀.crashed = s.crashed := by
  cases h <;> exact ⟨rfl, rfl, rfl, rfl⟩

theorem own_eq_some {s s' : Process} {i : SessionId} {f : Session → Option Turn}
    (h : s.own i f = some s') :
    ∃ g t, s.sessions[i]? = some g ∧ f g = some t ∧ s' = s.take i t := by
  obtain ⟨t, ht, rfl⟩ := Option.map_eq_some_iff.mp h
  obtain ⟨g, hg, hf⟩ := Option.bind_eq_some_iff.mp ht
  exact ⟨g, t, hg, hf, rfl⟩

/-- **The inversion lemma**: a step begins a session, answers a stop
request without changing anything, or is a turn of a session. -/
theorem Wired.step_cases {s s' : Process} {a : Action} (h : s.Wired) (hstep : s.step a = some s') :
    s.crashed = false ∧
    ((∃ sid key appid channel, a = .start sid key appid channel ∧ s.fresh sid = true ∧
        s' = { s with sessions := s.sessions ++ [Session.start sid key appid channel] }) ∨
      (∃ sid, a = .stop sid ∧ s' = s) ∨
      ∃ i g m t s₀, s.Turns a i g m t s₀ ∧ s' = s₀.take i t) := by
  unfold step at hstep
  split at hstep
  · cases hstep
  rename_i hcrashed
  have hrun : s.crashed = false := by simpa using hcrashed
  refine ⟨hrun, ?_⟩
  cases a with
  | start sid key appid channel =>
    simp only at hstep
    split at hstep
    · rename_i hfresh
      cases hstep
      exact Or.inl ⟨sid, key, appid, channel, rfl, hfresh, rfl⟩
    · cases hstep
  | stop sid =>
    refine Or.inr (Or.inl ⟨sid, rfl, ?_⟩)
    simp only [stop, onCleanup] at hstep
    split at hstep
    · rename_i hok
      split at hok <;> cases hok <;> exact (Option.some.inj hstep).symm
    · exact (Option.some.inj hstep).symm
  | mkdirDone i ok =>
    obtain ⟨g, t, hg, ht, rfl⟩ := own_eq_some hstep
    exact Or.inr (Or.inr ⟨i, g, _, t, s, .mkdirDone hg ht, rfl⟩)
  | accessDone i ok =>
    obtain ⟨g, t, hg, ht, rfl⟩ := own_eq_some hstep
    exact Or.inr (Or.inr ⟨i, g, _, t, s, .accessDone hg ht, rfl⟩)
  | writeDone i ok out =>
    obtain ⟨g, t, hg, ht, rfl⟩ := own_eq_some hstep
    exact Or.inr (Or.inr ⟨i, g, _, t, s, .writeDone hg ht, rfl⟩)
  | raise i ev dir =>
    obtain ⟨g, t, hg, ht, rfl⟩ := own_eq_some hstep
    exact Or.inr (Or.inr ⟨i, g, _, t, s, .raise hg ht, rfl⟩)
  | runTask =>
    simp only at hstep
    split at hstep
    · cases hstep
    · rename_i i ev rest hqueue
      obtain ⟨g, t, hg, ht, rfl⟩ := own_eq_some hstep
      cases ht
      exact Or.inr (Or.inr ⟨i, g, _, _, _, .runTask hg hqueue, rfl⟩)
  | runImmediate =>
    simp only at hstep
    split at hstep
    · cases hstep
    · rename_i i ev rest himm
      obtain ⟨g, hg, rfl⟩ := Option.map_eq_some_iff.mp hstep
      have hw : Wired { s with immediates := rest } := ⟨h.sids, h.plain, h.entries⟩
      exact Or.inr (Or.inr ⟨i, g, _, _, _, .runImmediate hg himm, hw.emit_eq hg ev⟩)
  | runReaction =>
    simp only at hstep
    split at hstep
    · cases hstep
    · rename_i i r rest hreactions
      obtain ⟨g, t, hg, ht, rfl⟩ := own_eq_some hstep
      cases ht
      exact Or.inr (Or.inr ⟨i, g, _, _, _, .runReaction hg hreactions, rfl⟩)

/-! ## Every run is wired -/

/-- Nothing waits for a session that was never requested. -/
structure Owned (s : Process) : Prop where
  queue : ∀ p ∈ s.queue, p.1 < s.sessions.length
  immediates : ∀ p ∈ s.immediates, p.1 < s.sessions.length
  reactions : ∀ p ∈ s.reactions, p.1 < s.sessions.length

theorem owned_append {α : Type} {n : Nat} {i : SessionId} {l : List (SessionId × α)} {as : List α}
    (h : ∀ p ∈ l, p.1 < n) (hi : i < n) : ∀ p ∈ l ++ as.map (Prod.mk i), p.1 < n := by
  intro p hp
  rcases List.mem_append.mp hp with hp | hp
  · exact h p hp
  · obtain ⟨a, -, rfl⟩ := List.mem_map.mp hp
    exact hi

theorem Owned.take {s : Process} {i : SessionId} (h : s.Owned) (hi : i < s.sessions.length)
    (t : Turn) : (s.take i t).Owned := by
  constructor
  · simpa [Process.take] using owned_append h.queue hi
  · simpa [Process.take] using owned_append h.immediates hi
  · simpa [Process.take] using owned_append h.reactions hi

theorem Owned.popped {s s₀ : Process} {a : Action} {i : SessionId} {g : Session} {m : Move}
    {t : Turn} (h : s.Owned) (ht : s.Turns a i g m t s₀) : s₀.Owned := by
  cases ht with
  | mkdirDone | accessDone | writeDone | raise => exact h
  | runTask hg hq =>
    exact ⟨fun p hp => h.queue p (hq ▸ List.mem_cons_of_mem _ hp), h.immediates, h.reactions⟩
  | runImmediate hg hq =>
    exact ⟨h.queue, fun p hp => h.immediates p (hq ▸ List.mem_cons_of_mem _ hp), h.reactions⟩
  | runReaction hg hq =>
    exact ⟨h.queue, h.immediates, fun p hp => h.reactions p (hq ▸ List.mem_cons_of_mem _ hp)⟩

/-- What `fresh` promises. -/
theorem fresh_spec {s : Process} {sid : JsString} (h : s.fresh sid = true) :
    sid ∉ objectPrototype ∧ ∀ g ∈ s.sessions, g.sid ≠ sid := by
  unfold fresh at h
  obtain ⟨huuid, hall⟩ := Bool.and_eq_true_iff.mp h
  refine ⟨not_mem_objectPrototype huuid, fun g hg => ?_⟩
  simpa using List.all_eq_true.mp hall g hg

theorem Wired.start {s : Process} {sid : JsString} (h : s.Wired) (hfresh : s.fresh sid = true)
    (key : Option Json) (appid channel : Json) :
    Wired { s with sessions := s.sessions ++ [Session.start sid key appid channel] } := by
  obtain ⟨hplain, hnew⟩ := fresh_spec hfresh
  have hget : ∀ (i : SessionId) (g : Session),
      (s.sessions ++ [Session.start sid key appid channel])[i]? = some g →
        s.sessions[i]? = some g ∨ (i = s.sessions.length ∧ g.sid = sid) := by
    intro i g hi
    rcases Nat.lt_trichotomy i s.sessions.length with hlt | heq | hgt
    · rw [List.getElem?_append_left hlt] at hi
      exact Or.inl hi
    · subst heq
      rw [List.getElem?_concat_length] at hi
      cases hi
      exact Or.inr ⟨rfl, rfl⟩
    · have hpast : s.sessions.length + 1 ≤ i := hgt
      rw [List.getElem?_eq_none (by simpa using hpast)] at hi
      cases hi
  constructor
  · intro i j g₁ g₂ h₁ h₂ heq
    rcases hget i g₁ h₁ with hold₁ | ⟨rfl, hsid₁⟩
    · rcases hget j g₂ h₂ with hold₂ | ⟨rfl, hsid₂⟩
      · exact h.sids i j g₁ g₂ hold₁ hold₂ heq
      · exact absurd (heq.trans hsid₂) (hnew g₁ (List.mem_of_getElem? hold₁))
    · rcases hget j g₂ h₂ with hold₂ | ⟨rfl, -⟩
      · exact absurd (heq.symm.trans hsid₁) (hnew g₂ (List.mem_of_getElem? hold₂))
      · rfl
  · intro g hg
    rcases List.mem_append.mp hg with hg | hg
    · exact h.plain g hg
    · rw [List.mem_singleton.mp hg]
      exact hplain
  · intro sid' i hi
    obtain ⟨g, hg, hsid⟩ := h.entries sid' i hi
    have hlt : i < s.sessions.length := (List.getElem?_eq_some_iff.mp hg).1
    exact ⟨g, (List.getElem?_append_left hlt).trans hg, hsid⟩

/-- A turn keeps the wiring. -/
theorem Wired.turn {s s₀ : Process} {a : Action} {i : SessionId} {g : Session} {m : Move}
    {t : Turn} (h : s.Wired) (ht : s.Turns a i g m t s₀) : (s₀.take i t).Wired := by
  obtain ⟨hsessions, hrecorders, -, -⟩ := ht.popped
  have hw : s₀.Wired := by
    refine ⟨?_, ?_, ?_⟩
    · rw [hsessions]
      exact h.sids
    · rw [hsessions]
      exact h.plain
    · rw [hsessions, hrecorders]
      exact h.entries
  exact hw.take (hsessions ▸ ht.get) ht.same.sid

theorem wired_step {s s' : Process} {a : Action} (h : s.Wired ∧ s.Owned)
    (hstep : s.step a = some s') : s'.Wired ∧ s'.Owned := by
  obtain ⟨-, ⟨sid, key, appid, channel, -, hfresh, rfl⟩ | ⟨sid, -, rfl⟩ |
    ⟨i, g, m, t, s₀, ht, rfl⟩⟩ := h.1.step_cases hstep
  · refine ⟨h.1.start hfresh key appid channel, ?_, ?_, ?_⟩
    · exact fun p hp => by simpa using Nat.lt_succ_of_lt (h.2.queue p hp)
    · exact fun p hp => by simpa using Nat.lt_succ_of_lt (h.2.immediates p hp)
    · exact fun p hp => by simpa using Nat.lt_succ_of_lt (h.2.reactions p hp)
  · exact h
  · have hi : i < s₀.sessions.length := by
      rw [ht.popped.1]
      exact (List.getElem?_eq_some_iff.mp ht.get).1
    exact ⟨h.1.turn ht, (h.2.popped ht).take hi t⟩

theorem reachable_wired {s : Process} (hs : machine.Reachable s) : s.Wired ∧ s.Owned := by
  refine hs.induct (I := fun s => s.Wired ∧ s.Owned) ⟨wired_empty, ?_⟩ ?_
  · exact ⟨fun p hp => (by cases hp), fun p hp => (by cases hp), fun p hp => (by cases hp)⟩
  · intro s a s' _ h hstep
    exact wired_step h hstep

/-! ## The simulation -/

theorem share_of_owned {α : Type} {n : Nat} {l : List (SessionId × α)} (h : ∀ p ∈ l, p.1 < n) :
    share n l = [] := by
  rw [List.eq_nil_iff_forall_not_mem]
  intro a ha
  exact Nat.lt_irrefl n (h (n, a) (mem_share.mp ha))

/-- A turn is a move of its own session. -/
theorem Turns.view_same {s s₀ : Process} {a : Action} {i : SessionId} {g : Session} {m : Move}
    {t : Turn} {l : Local} (ht : s.Turns a i g m t s₀) (hl : s.view i = some l) :
    ∃ l', l.step m = some l' ∧ (s₀.take i t).view i = some l' := by
  obtain ⟨hg, hreg, hqueue, himm, hreact⟩ := view_eq_some hl
  have hgl : l.session = g := Option.some.inj (hg.symm.trans ht.get)
  subst hgl
  have hview : ∀ l₀ : Local, s₀.view i = some l₀ → (s₀.take i t).view i = some (l₀.take t) := by
    intro l₀ h₀
    obtain ⟨hg₀, hreg₀, hqueue₀, himm₀, hreact₀⟩ := view_eq_some h₀
    have hsid : t.session.sid = l₀.session.sid := by
      rw [ht.popped.1, hg] at hg₀
      rw [← Option.some.inj hg₀]
      exact ht.same.sid
    have hregistered : (s₀.take i t).registered i t.session.sid =
        (t.registers || s₀.registered i l₀.session.sid) := by
      unfold registered Process.take
      cases t.registers with
      | true => simp
      | false => simp [hsid]
    unfold view
    rw [take_sessions hg₀, Option.map_some, hregistered]
    simp [Process.take, Local.take, hreg₀, hqueue₀, himm₀, hreact₀]
  cases ht with
  | mkdirDone _ h => exact ⟨_, by simp [Local.step, h], hview l hl⟩
  | accessDone _ h => exact ⟨_, by simp [Local.step, h], hview l hl⟩
  | writeDone _ h => exact ⟨_, by simp [Local.step, h], hview l hl⟩
  | raise _ h => exact ⟨_, by simp [Local.step, h], hview l hl⟩
  | runTask _ h =>
    rename_i ev rest _
    rw [h, share_cons_same] at hqueue
    have hpop : Process.view { s with queue := rest } i =
        some { l with queue := share i rest } := by
      unfold view
      rw [hg, Option.map_some, himm, hreact, hreg]
      rfl
    refine ⟨_, ?_, hview _ hpop⟩
    simp only [Local.step, hqueue]
  | runImmediate _ h =>
    rename_i ev rest _
    rw [h, share_cons_same] at himm
    have hpop : Process.view { s with immediates := rest } i =
        some { l with immediates := share i rest } := by
      unfold view
      rw [hg, Option.map_some, hqueue, hreact, hreg]
      rfl
    refine ⟨_, ?_, hview _ hpop⟩
    simp only [Local.step, himm, hreg]
  | runReaction _ h =>
    rename_i r rest _
    rw [h, share_cons_same] at hreact
    have hpop : Process.view { s with reactions := rest } i =
        some { l with reactions := share i rest } := by
      unfold view
      rw [hg, Option.map_some, hqueue, himm, hreg]
      rfl
    refine ⟨_, ?_, hview _ hpop⟩
    simp only [Local.step, hreact]

/-- A turn of another session is invisible. -/
theorem Turns.view_other {s s₀ : Process} {a : Action} {i j : SessionId} {g : Session} {m : Move}
    {t : Turn} (hw : s.Wired) (ht : s.Turns a i g m t s₀) (hij : i ≠ j) :
    (s₀.take i t).view j = s.view j := by
  obtain ⟨hsessions, hrecorders, -, -⟩ := ht.popped
  have hshare : share j s₀.queue = share j s.queue ∧
      share j s₀.immediates = share j s.immediates ∧
      share j s₀.reactions = share j s.reactions := by
    cases ht with
    | mkdirDone | accessDone | writeDone | raise => exact ⟨rfl, rfl, rfl⟩
    | runTask _ h => exact ⟨by rw [h, share_cons_other hij], rfl, rfl⟩
    | runImmediate _ h => exact ⟨rfl, by rw [h, share_cons_other hij], rfl⟩
    | runReaction _ h => exact ⟨rfl, rfl, by rw [h, share_cons_other hij]⟩
  unfold view
  rw [take_sessions_other s₀ hij, hsessions]
  cases hgj : s.sessions[j]? with
  | none => rfl
  | some gj =>
    have hreg : (s₀.take i t).registered j gj.sid = s.registered j gj.sid := by
      have hne : gj.sid ≠ t.session.sid := by
        intro heq
        exact hij (hw.sids i j g gj ht.get hgj (ht.same.sid.symm.trans heq.symm))
      unfold registered
      simp only [Process.take, hrecorders]
      split
      · rw [List.lookup_cons, beq_eq_false_iff_ne.mpr hne]
      · rfl
    simp only [Option.map_some, hreg]
    simp [Process.take, share_map_other hij, hshare]

/-- A new session is invisible to those there are. -/
theorem view_start {s : Process} {i : SessionId} {l : Local} (hl : s.view i = some l)
    (g : Session) : view { s with sessions := s.sessions ++ [g] } i = some l := by
  have hlt : i < s.sessions.length := (List.getElem?_eq_some_iff.mp (view_eq_some hl).1).1
  rw [← hl]
  simp only [view]
  rw [List.getElem?_append_left hlt]
  rfl

/-- What a session sees of a step: nothing, or a move of its own. -/
theorem Wired.view_step {s s' : Process} {a : Action} {i : SessionId} {l : Local} (hw : s.Wired)
    (hl : s.view i = some l) (hstep : s.step a = some s') :
    (s'.view i = some l ∧ ∀ ev dir, a ≠ .raise i ev dir) ∨
      ∃ g m t s₀ l', s.Turns a i g m t s₀ ∧ l.step m = some l' ∧ s'.view i = some l' := by
  obtain ⟨-, ⟨sid, key, appid, channel, rfl, -, rfl⟩ | ⟨sid, rfl, rfl⟩ |
    ⟨j, g, m, t, s₀, ht, rfl⟩⟩ := hw.step_cases hstep
  · exact Or.inl ⟨view_start hl _, fun _ _ h => nomatch h⟩
  · exact Or.inl ⟨hl, fun _ _ h => nomatch h⟩
  · by_cases hij : j = i
    · subst hij
      obtain ⟨l', hmove, hl'⟩ := ht.view_same hl
      exact Or.inr ⟨g, m, t, s₀, l', ht, hmove, hl'⟩
    · refine Or.inl ⟨(ht.view_other hw hij).trans hl, ?_⟩
      rintro ev dir rfl
      cases ht
      exact hij rfl

/-- A session sees its own machine, and sees the others do nothing. -/
theorem simulates (i : SessionId) : machine.Simulates localMachine (fun s => s.view i) where
  init := rfl
  step := by
    intro s a s' hs hstep
    obtain ⟨hw, ho⟩ := reachable_wired hs
    cases hl : s.view i with
    | some l =>
      rcases hw.view_step hl hstep with ⟨hl', -⟩ | ⟨g, m, t, s₀, l', -, hmove, hl'⟩
      · exact Or.inl hl'
      · refine Or.inr ⟨.move m, ?_⟩
        simp only [hl', localMachine, hmove, Option.map_some]
    | none =>
      have hlen : s.sessions.length ≤ i :=
        List.getElem?_eq_none_iff.mp (Option.map_eq_none_iff.mp hl)
      obtain ⟨-, ⟨sid, key, appid, channel, -, hfresh, rfl⟩ | ⟨sid, -, rfl⟩ |
        ⟨j, g, m, t, s₀, ht, rfl⟩⟩ := hw.step_cases hstep
      · rcases Nat.eq_or_lt_of_le hlen with heq | hgt
        · subst heq
          refine Or.inr ⟨.start sid key appid channel, ?_⟩
          have hreg : s.recorders.lookup sid ≠ some s.sessions.length := by
            intro hlookup
            obtain ⟨g, hg, -⟩ := hw.entries sid _ hlookup
            exact absurd (List.getElem?_eq_some_iff.mp hg).1 (Nat.lt_irrefl _)
          simp only [view]
          rw [List.getElem?_concat_length]
          simp [localMachine, Local.start, registered, Session.start, share_of_owned ho.queue,
            share_of_owned ho.immediates, share_of_owned ho.reactions, hreg]
        · refine Or.inl ?_
          have hpast : s.sessions.length + 1 ≤ i := hgt
          simp only [view]
          rw [List.getElem?_eq_none (by simpa using hpast)]
          rfl
      · exact Or.inl hl
      · have hlt : j < s.sessions.length := (List.getElem?_eq_some_iff.mp ht.get).1
        exact Or.inl ((ht.view_other hw (Nat.ne_of_lt (Nat.lt_of_lt_of_le hlt hlen))).trans hl)

/-- **An invariant of one session's machine holds of every session.** -/
theorem view_keeps {I : Local → Prop} (hstart : ∀ sid key appid channel,
      I (Local.start sid key appid channel))
    (hmove : ∀ l m l', I l → l.step m = some l' → I l')
    {s : Process} (hs : machine.Reachable s) {i : SessionId} {l : Local}
    (hl : s.view i = some l) : I l := by
  have hlocal : localMachine.Reachable (s.view i) := (simulates i).reachable hs
  have hall : ∀ o : Option Local, localMachine.Reachable o → ∀ l, o = some l → I l := by
    intro o ho
    refine ho.induct (I := fun o => ∀ l, o = some l → I l) ?_ ?_
    · intro l h
      cases h
    · intro o a o' _ hi hstep l' hl'
      subst hl'
      cases o with
      | none =>
        cases a with
        | start sid key appid channel =>
          cases hstep
          exact hstart sid key appid channel
        | move m => cases hstep
      | some l =>
        cases a with
        | start sid key appid channel => cases hstep
        | move m =>
          obtain ⟨l'', hl'', heq⟩ := Option.map_eq_some_iff.mp hstep
          cases heq
          exact hmove l m l' (hi l rfl) hl''
  exact hall (s.view i) hlocal l hl

end Process

end AgoraRecording.Server
