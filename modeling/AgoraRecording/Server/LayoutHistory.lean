/-
AgoraRecording.Server.LayoutHistory — every layout a session has mixed,
read off the events emitted since its registration.

`hear` is what one emitted event does to the layout of a registered
session and to the list of layouts its sdk was given. `heard_eq` says that
in every state of every run the two are the fold of `hear` over `late`,
from the empty layout that the storage step mixed first; so the layouts
are those of the prefixes of `late` (`mem_mixCalls_iff`).

What a prefix leaves is described by who sits where: a `userjoin` takes
the seat numbered by how many are seated, a `userleave` frees every seat
of its user and moves nobody (`layoutAfter_eq`).
-/
import AgoraRecording.Server.SessionInvariant

namespace AgoraRecording.Server

open AgoraRecording.Lib AgoraRecording.Js AgoraRecording.Native

/-! ## One event -/

/-- What the handlers make of an event: the layout of the recorder, and
the layouts passed to its `setMixLayout`. -/
def hear (heard : JsLayout × List JsLayout) (ev : Event) : JsLayout × List JsLayout :=
  match user ev with
  | none => heard
  | some _ => (Session.relayout heard.1 ev, heard.2 ++ [Session.relayout heard.1 ev])

def Session.heard (g : Session) : JsLayout × List JsLayout := (g.layout, g.mixCalls)

/-- An event emitted while the session is registered is heard. -/
theorem Session.emit_registered (g : Session) (ev : Event) :
    (g.emit true ev).session.posted = g.posted ∧ (g.emit true ev).session.early = g.early ∧
      (g.emit true ev).session.late = g.late ++ [ev] ∧
      (g.emit true ev).session.heard = hear g.heard ev := by
  cases huser : user ev with
  | none =>
    obtain ⟨_, _, _, _, honce⟩ := (g.emitted true ev).once_eq ev
    rw [emit_eq_once g true huser, honce, hear, huser]
    exact ⟨rfl, rfl, rfl, rfl⟩
  | some uid =>
    have hne : user ev ≠ none := by simp [huser]
    rw [emit_eq_onUser g true hne, hear, huser]
    exact ⟨rfl, rfl, rfl, rfl⟩

/-- An event emitted before the registration is not. -/
theorem Session.emit_unregistered (g : Session) (ev : Event) :
    (g.emit false ev).session.late = g.late ∧ (g.emit false ev).session.heard = g.heard := by
  cases huser : user ev with
  | none =>
    obtain ⟨_, _, _, _, honce⟩ := (g.emitted false ev).once_eq ev
    rw [emit_eq_once g false huser, honce]
    exact ⟨rfl, rfl⟩
  | some uid =>
    have hne : user ev ≠ none := by simp [huser]
    rw [emit_eq_onUser g false hne]
    exact ⟨rfl, rfl⟩

/-! ## One step -/

/-- The storage step, which mixes the first layout, is done. -/
def Stage.stored : Stage → Bool
  | .mkdir | .storage => false
  | .access | .write | .native => true

namespace Local

/-- What a step can do to the history and the layouts: nothing, an event
that the session hears, or the first layout. -/
theorem heard_step {l l' : Local} {m : Move} (hstep : l.step m = some l') :
    (l'.session.late = l.session.late ∧ l'.session.heard = l.session.heard ∧
      l'.session.stage.stored = l.session.stage.stored) ∨
    (m = .runImmediate ∧ l.registered = true ∧ ∃ ev rest, l.immediates = ev :: rest ∧
      l'.session.late = l.session.late ++ [ev] ∧ l'.session.heard = hear l.session.heard ev ∧
      l'.session.stage.stored = l.session.stage.stored) ∨
    (∃ rest, l.reactions = .storage :: rest ∧ l'.session.late = l.session.late ∧
      l'.session.heard = (initialLayout, l.session.mixCalls ++ [initialLayout]) ∧
      l'.session.stage.stored = true) := by
  cases m with
  | mkdirDone ok =>
    obtain ⟨t, ht, rfl⟩ := Option.map_eq_some_iff.mp hstep
    have hstage := mkdirDone_stage ht
    unfold Session.mkdirDone at ht
    rw [if_pos hstage] at ht
    cases ok <;> cases ht
    · exact Or.inl ⟨rfl, rfl, rfl⟩
    · exact Or.inl ⟨rfl, rfl, by simp [take, hstage, Stage.stored]⟩
  | accessDone ok =>
    obtain ⟨t, ht, rfl⟩ := Option.map_eq_some_iff.mp hstep
    have hstage := accessDone_stage ht
    unfold Session.accessDone at ht
    rw [if_pos hstage] at ht
    cases ok <;> cases ht
    · exact Or.inl ⟨rfl, rfl, rfl⟩
    · exact Or.inl ⟨rfl, rfl, by simp [take, hstage, Stage.stored]⟩
  | writeDone ok out =>
    obtain ⟨t, ht, rfl⟩ := Option.map_eq_some_iff.mp hstep
    have hstage := writeDone_stage ht
    unfold Session.writeDone at ht
    rw [if_pos hstage] at ht
    simp only at ht
    split at ht <;> cases ht <;>
      exact Or.inl ⟨rfl, rfl, by simp [take, hstage, Stage.stored]⟩
  | raise ev dir =>
    obtain ⟨t, ht, rfl⟩ := Option.map_eq_some_iff.mp hstep
    unfold Session.raise at ht
    split at ht
    · cases ht
    · split at ht <;> cases ht <;> exact Or.inl ⟨rfl, rfl, rfl⟩
  | runTask =>
    simp only [step] at hstep
    split at hstep
    · cases hstep
    · cases hstep
      unfold Session.task
      split <;> exact Or.inl ⟨rfl, rfl, rfl⟩
  | runImmediate =>
    simp only [step] at hstep
    split at hstep
    · cases hstep
    · rename_i ev rest himm
      cases hstep
      have hstage := Session.stage_emit l.session l.registered ev
      cases hreg : l.registered with
      | false =>
        obtain ⟨hlate, hheard⟩ := l.session.emit_unregistered ev
        rw [hreg] at hstage
        exact Or.inl ⟨hlate, hheard, congrArg Stage.stored hstage⟩
      | true =>
        obtain ⟨-, -, hlate, hheard⟩ := l.session.emit_registered ev
        rw [hreg] at hstage
        exact Or.inr (Or.inl ⟨rfl, rfl, ev, rest, himm, hlate, hheard,
          congrArg Stage.stored hstage⟩)
  | runReaction =>
    simp only [step] at hstep
    split at hstep
    · cases hstep
    · rename_i r rest hr
      cases hstep
      cases r with
      | storage => exact Or.inr (Or.inr ⟨rest, hr, rfl, rfl, rfl⟩)
      | _ => exact Or.inl ⟨rfl, rfl, rfl⟩

/-- The layouts are those the history tells. -/
def Told (l : Local) : Prop :=
  l.session.heard =
    if l.session.stage.stored then
      l.session.late.foldl hear (initialLayout, [initialLayout])
    else (initialLayout, [])

/-- The reaction to the storage step is pending in one stage only. -/
theorem Inv.storage_of_reactions {l : Local} {rest : List Reaction} (h : l.Inv)
    (hr : l.reactions = .storage :: rest) : l.session.stage = .storage ∧ l.Blank := by
  unfold Inv at h
  cases hstage : l.session.stage <;> rw [hstage] at h
  case storage => exact ⟨rfl, h.1⟩
  case native =>
    have hafter := h.aftermath
    rw [hr] at hafter
    generalize l.session.joined = joined at hafter
    generalize l.session.started = started at hafter
    generalize l.registered = registered at hafter
    cases hafter
  all_goals simp [h.2.1] at hr

theorem told_step {l l' : Local} {m : Move} (hinv : l.Inv) (h : l.Told)
    (hstep : l.step m = some l') : l'.Told := by
  unfold Told at h ⊢
  rcases heard_step hstep with ⟨hlate, hheard, hstage⟩ |
    ⟨-, hreg, ev, rest, -, hlate, hheard, hstage⟩ | ⟨rest, hr, hlate, hheard, hstage⟩
  · rw [hlate, hheard, hstage, h]
  · have hnative : l.session.stage.stored = true := by
      rcases hinv.blank_or_joined with hb | ⟨hnative, -⟩
      · rw [hb.registered] at hreg
        cases hreg
      · rw [hnative]
        rfl
    rw [hnative, if_pos rfl] at h
    rw [hlate, hheard, hstage, hnative, if_pos rfl, h, List.foldl_append]
    rfl
  · obtain ⟨hstorage, hblank⟩ := hinv.storage_of_reactions hr
    rw [hstorage] at h
    have hnone : l.session.mixCalls = [] := congrArg Prod.snd h
    rw [hlate, hheard, hstage, hblank.late, hnone]
    rfl

end Local

/-- **In every state of every run** the layouts of a session that was
registered are told by the events emitted since. -/
theorem Process.heard_eq {s : Process} (hs : Process.machine.Reachable s) {i : SessionId}
    {l : Local} (hl : s.view i = some l) (hreg : l.registered = true) :
    l.session.heard = l.session.late.foldl hear (initialLayout, [initialLayout]) := by
  have hboth : l.Inv ∧ l.Told := by
    refine Process.view_keeps (I := fun l => l.Inv ∧ l.Told) ?_ ?_ hs hl
    · exact fun sid key appid channel => ⟨Local.inv_start sid key appid channel, rfl⟩
    · exact fun _ _ _ h hstep => ⟨Local.inv_step h.1 hstep, Local.told_step h.1 h.2 hstep⟩
  obtain ⟨hinv, htold⟩ := hboth
  rcases hinv.blank_or_joined with hb | ⟨hnative, -⟩
  · rw [hb.registered] at hreg
    cases hreg
  · rw [htold, hnative]
    rfl

/-! ## A list of events -/

/-- The layout a session has after the events. -/
def layoutAfter (evs : List Event) : JsLayout := evs.foldl Session.relayout initialLayout

theorem layoutAfter_concat (evs : List Event) (ev : Event) :
    layoutAfter (evs ++ [ev]) = Session.relayout (layoutAfter evs) ev := by
  rw [layoutAfter, List.foldl_append]
  rfl

/-- A prefix of a longer list ends before the last event or is all of it. -/
theorem append_singleton_eq_append_iff {evs as bs : List Event} {ev : Event} :
    evs ++ [ev] = as ++ bs ↔ (∃ cs, evs = as ++ cs ∧ bs = cs ++ [ev]) ∨
      (as = evs ++ [ev] ∧ bs = []) := by
  rw [List.append_eq_append_iff]
  constructor
  · rintro (⟨cs, has, hbs⟩ | ⟨cs, hevs, hcs⟩)
    · rcases List.append_eq_singleton_iff.mp hbs.symm with ⟨rfl, rfl⟩ | ⟨rfl, rfl⟩
      · exact Or.inl ⟨[], by simp [has], rfl⟩
      · exact Or.inr ⟨has, rfl⟩
    · exact Or.inl ⟨cs, hevs, hcs⟩
  · rintro (⟨cs, hevs, hbs⟩ | ⟨has, hbs⟩)
    · exact Or.inr ⟨cs, hevs, hbs⟩
    · exact Or.inl ⟨[ev], has, by simp [hbs]⟩

theorem hear_spec (heard : JsLayout × List JsLayout) (ev : Event) :
    (hear heard ev).1 = Session.relayout heard.1 ev ∧
      ((hear heard ev).2 = heard.2 ++ [Session.relayout heard.1 ev] ∨
        (hear heard ev).2 = heard.2 ∧ Session.relayout heard.1 ev = heard.1) := by
  cases ev with
  | userjoin uid | userleave uid => exact ⟨rfl, Or.inl rfl⟩
  | _ => exact ⟨rfl, Or.inr ⟨rfl, rfl⟩⟩

theorem foldl_hear_fst (evs : List Event) :
    (evs.foldl hear (initialLayout, [initialLayout])).1 = layoutAfter evs := by
  induction evs using List.reverseRecOn with
  | nil => rfl
  | append_singleton evs ev ih =>
    rw [List.foldl_append, layoutAfter_concat, ← ih]
    exact (hear_spec _ ev).1

/-- The layouts mixed are those of the prefixes. -/
theorem mem_foldl_hear_iff {layout : JsLayout} (evs : List Event) :
    layout ∈ (evs.foldl hear (initialLayout, [initialLayout])).2 ↔
      ∃ as bs, evs = as ++ bs ∧ layout = layoutAfter as := by
  induction evs using List.reverseRecOn with
  | nil =>
    simp only [List.foldl_nil, List.mem_singleton, List.nil_eq_append_iff]
    constructor
    · intro h
      exact ⟨[], [], ⟨rfl, rfl⟩, h⟩
    · rintro ⟨_, _, ⟨rfl, rfl⟩, h⟩
      exact h
  | append_singleton evs ev ih =>
    have hlast : Session.relayout (evs.foldl hear (initialLayout, [initialLayout])).1 ev =
        layoutAfter (evs ++ [ev]) := by rw [foldl_hear_fst, layoutAfter_concat]
    have hmem : layout ∈ (hear (evs.foldl hear (initialLayout, [initialLayout])) ev).2 ↔
        layout ∈ (evs.foldl hear (initialLayout, [initialLayout])).2 ∨
          layout = layoutAfter (evs ++ [ev]) := by
      rcases (hear_spec (evs.foldl hear (initialLayout, [initialLayout])) ev).2 with h | ⟨h, hsame⟩
      · rw [h, hlast, List.mem_append, List.mem_singleton]
      · -- an event about no user: the layout it leaves is the one it found
        rw [h, ← hlast, hsame, foldl_hear_fst]
        refine ⟨Or.inl, fun hor => hor.elim id (fun heq => ih.mpr ⟨evs, [], ?_, heq⟩)⟩
        exact (List.append_nil evs).symm
    rw [List.foldl_append, List.foldl_cons, List.foldl_nil, hmem, ih]
    constructor
    · rintro (⟨as, bs, rfl, rfl⟩ | rfl)
      · exact ⟨as, bs ++ [ev], by simp, rfl⟩
      · exact ⟨evs ++ [ev], [], by simp, rfl⟩
    · rintro ⟨as, bs, heq, rfl⟩
      rcases append_singleton_eq_append_iff.mp heq with ⟨cs, rfl, -⟩ | ⟨rfl, -⟩
      · exact Or.inl ⟨as, cs, rfl, rfl⟩
      · exact Or.inr rfl

/-! ## Seats -/

/-- A user who joins takes the seat numbered by how many are seated; one
who leaves moves nobody. -/
def seat (seated : List (Uid × Nat)) : Event → List (Uid × Nat)
  | .userjoin uid => seated ++ [(uid, seated.length)]
  | .userleave uid => seated.filter (fun p => p.1 ≠ uid)
  | _ => seated

def seats (evs : List Event) : List (Uid × Nat) := evs.foldl seat []

theorem seats_concat (evs : List Event) (ev : Event) :
    seats (evs ++ [ev]) = seat (seats evs) ev := by
  rw [seats, List.foldl_append]
  rfl

/-- The top-left corner of a seat. -/
def corner : Nat → Int × Int
  | 0 => (0, 0)
  | 1 => (320, 0)
  | 2 => (0, 240)
  | 3 => (320, 240)
  | _ => (0, 0)

def seatRegion (p : Uid × Nat) : JsRegion :=
  { x := (corner p.2).1, y := (corner p.2).2, width := 640, height := 480, zOrder := 1, alpha := 1,
    uid := p.1 }

theorem joinRegion_eq (regions : List JsRegion) (uid : Uid) :
    Session.joinRegion regions uid = seatRegion (uid, regions.length) := by
  unfold Session.joinRegion
  generalize regions.length = count
  match count with
  | 0 | 1 | 2 | 3 | _ + 4 => rfl

/-- **The layout of a list of events**: a region for each seat taken. -/
theorem layoutAfter_eq (evs : List Event) :
    layoutAfter evs = { initialLayout with regions := (seats evs).map seatRegion } := by
  induction evs using List.reverseRecOn with
  | nil => rfl
  | append_singleton evs ev ih =>
    rw [layoutAfter_concat, seats_concat, ih]
    cases ev with
    | userjoin uid => simp [Session.relayout, seat, joinRegion_eq]
    | userleave uid =>
      simp only [Session.relayout, seat, List.filter_map]
      rfl
    | _ => rfl

/-- The seats are those of the users present, in the order they came. -/
theorem map_fst_seats (evs : List Event) : (seats evs).map Prod.fst = present evs := by
  induction evs using List.reverseRecOn with
  | nil => rfl
  | append_singleton evs ev ih =>
    rw [seats_concat, present_concat, ← ih]
    cases ev with
    | userjoin uid => simp [seat, attend]
    | userleave uid => simp [seat, attend, List.filter_map, Function.comp_def]
    | _ => rfl

theorem length_seats (evs : List Event) : (seats evs).length = (present evs).length := by
  rw [← map_fst_seats, List.length_map]

theorem map_uid_layoutAfter (evs : List Event) :
    (layoutAfter evs).regions.map JsRegion.uid = present evs := by
  rw [layoutAfter_eq, ← map_fst_seats]
  simp [seatRegion, Function.comp_def]

/-- Who has a seat joined when that many were present, and has not left
since. -/
theorem mem_seats_iff {u : Uid} {k : Nat} (evs : List Event) :
    (u, k) ∈ seats evs ↔
      ∃ as bs, evs = as ++ .userjoin u :: bs ∧ .userleave u ∉ bs ∧ k = (present as).length := by
  induction evs using List.reverseRecOn with
  | nil => simp [seats]
  | append_singleton evs ev ih =>
    have hkept : (∃ as bs, evs ++ [ev] = as ++ .userjoin u :: bs ∧ .userleave u ∉ bs ∧
        k = (present as).length) ↔
        ((u, k) ∈ seats evs ∧ ev ≠ .userleave u) ∨
          (ev = .userjoin u ∧ k = (present evs).length) := by
      rw [ih]
      constructor
      · rintro ⟨as, bs, heq, hleave, hk⟩
        rcases append_singleton_eq_append_iff.mp heq with ⟨cs, hevs, hbs⟩ | ⟨-, hnil⟩
        · cases cs with
          | nil =>
            cases hbs
            exact Or.inr ⟨rfl, by rw [hk, hevs, List.append_nil]⟩
          | cons c cs =>
            rw [List.cons_append, List.cons.injEq] at hbs
            obtain ⟨rfl, rfl⟩ := hbs
            rw [List.mem_append, List.mem_singleton, not_or] at hleave
            exact Or.inl ⟨⟨as, cs, hevs, hleave.1, hk⟩, Ne.symm hleave.2⟩
        · cases hnil
      · rintro (⟨⟨as, bs, rfl, hleave, hk⟩, hev⟩ | ⟨rfl, hk⟩)
        · refine ⟨as, bs ++ [ev], by simp, ?_, hk⟩
          rw [List.mem_append, List.mem_singleton, not_or]
          exact ⟨hleave, Ne.symm hev⟩
        · exact ⟨evs, [], rfl, List.not_mem_nil, hk⟩
    rw [hkept, seats_concat]
    cases ev with
    | userjoin uid =>
      rw [seat, List.mem_append, List.mem_singleton, Prod.mk.injEq, length_seats]
      simp [@eq_comm _ uid]
    | userleave uid =>
      rw [seat, List.mem_filter]
      simp [@eq_comm _ uid]
    | _ => simp [seat]

end AgoraRecording.Server
