/-
AgoraRecording.Server.LayoutTheorems — which layouts the user handlers
make.

The `userjoin` handler counts the regions and takes the corner of that
number; the `userleave` handler takes regions out and moves nobody. Three
laws one would want of the result hold exactly on a class of histories:

* no two users share a corner, if and only if nobody joins when as many
  are present as were when someone still present joined
  (`corners_distinct_iff`). A user leaving anywhere but from the last seat
  breaks that with the next join;
* each user present has one region, if and only if nobody is announced who
  is present (`one_region_each_along_iff`): the handler does not look for
  a region the user already has;
* every region is on the canvas, if and only if each user who joins finds
  nobody present (`onCanvas_iff`): the regions keep the size of the canvas
  wherever they are put.
-/
import AgoraRecording.Server.Delivery
import Mathlib.Data.List.Infix
import Mathlib.Data.List.Nodup
import Mathlib.Tactic.NormNum

namespace AgoraRecording.Server

open AgoraRecording.Lib AgoraRecording.Js AgoraRecording.Native

/-- A registered session's layouts are those of the prefixes of what it
heard. -/
theorem Process.mem_mixCalls_iff {s : Process} (hs : Process.machine.Reachable s) {sid : JsString}
    {i : SessionId} {g : Session} (hfind : s.find sid = .own i) (hg : s.sessions[i]? = some g)
    (layout : JsLayout) :
    layout ∈ g.mixCalls ↔ ∃ as bs, g.late = as ++ bs ∧ layout = layoutAfter as := by
  obtain ⟨l, hl, rfl, hreg, -⟩ := Process.exists_registered_view hs hfind hg
  have hheard : l.session.mixCalls =
      (l.session.late.foldl hear (initialLayout, [initialLayout])).2 :=
    congrArg Prod.snd (Process.heard_eq hs hl hreg)
  rw [hheard, mem_foldl_hear_iff]

/-! ## Shared corners -/

/-- Regions of different users have different top-left corners. -/
def JsLayout.DistinctCorners (layout : JsLayout) : Prop :=
  ∀ r ∈ layout.regions, ∀ r' ∈ layout.regions, r.uid ≠ r'.uid → (r.x, r.y) ≠ (r'.x, r'.y)

instance (layout : JsLayout) : Decidable layout.DistinctCorners :=
  inferInstanceAs (Decidable (∀ r ∈ layout.regions, ∀ r' ∈ layout.regions,
    r.uid ≠ r'.uid → (r.x, r.y) ≠ (r'.x, r'.y)))

/-- Nobody is announced who is present. -/
def NoRejoin (evs : List Event) : Prop :=
  ∀ as uid bs, evs = as ++ .userjoin uid :: bs → uid ∉ present as

/-- So it is when joins and leaves alternate. -/
theorem not_mem_of_alternates {uid : Uid} {bs : List Event} :
    ∀ {as : List Event} {here : List Uid}, alternates here (as ++ .userjoin uid :: bs) = true →
      uid ∉ as.foldl attend here
  | [], here, h => by
      rw [List.nil_append, alternates, Bool.and_eq_true] at h
      simpa using h.1
  | ev :: as, here, h => by
      rw [List.cons_append] at h
      unfold alternates at h
      rw [Bool.and_eq_true] at h
      rw [List.foldl_cons]
      exact not_mem_of_alternates h.2

theorem noRejoin_of_alternates {evs : List Event} (h : alternates [] evs = true) :
    NoRejoin evs := by
  rintro as uid bs rfl
  exact not_mem_of_alternates h

theorem corner_inj : ∀ k < 4, ∀ l < 4, corner k = corner l → k = l := by decide

/-- Among four seats, corners differ when seats do. -/
theorem distinctCorners_layoutAfter_iff {evs : List Event}
    (hseats : ∀ p ∈ seats evs, p.2 < 4) :
    (layoutAfter evs).DistinctCorners ↔
      ∀ p ∈ seats evs, ∀ q ∈ seats evs, p.1 ≠ q.1 → p.2 ≠ q.2 := by
  simp only [JsLayout.DistinctCorners, layoutAfter_eq, List.forall_mem_map]
  refine forall₂_congr fun p hp => forall₂_congr fun q hq => forall_congr' fun _ => ?_
  constructor
  · intro h heq
    exact h (by simp [seatRegion, heq])
  · intro h heq
    exact h (corner_inj _ (hseats p hp) _ (hseats q hq) heq)

namespace Process

/-- **The exact condition**: while nobody joins twice and at most four are
present, no layout lets two users share a corner if and only if, whenever
a user joins, nobody present joined when as many were present. -/
theorem corners_distinct_iff {s : Process} (hs : machine.Reachable s) {sid : JsString}
    {i : SessionId} {g : Session} (hfind : s.find sid = .own i) (hg : s.sessions[i]? = some g)
    (hjoins : NoRejoin g.late)
    (hroom : ∀ as bs, g.late = as ++ bs → (present as).length ≤ 4) :
    (∀ layout ∈ g.mixCalls, layout.DistinctCorners) ↔
      ∀ as u bs v cs, g.late = as ++ .userjoin u :: (bs ++ .userjoin v :: cs) →
        .userleave u ∉ bs → (present as).length ≠ (present (as ++ .userjoin u :: bs)).length := by
  -- a join finds at most three, since there is room for the user it announces
  have hfew : ∀ as uid bs, g.late = as ++ .userjoin uid :: bs → (present as).length < 4 := by
    intro as uid bs hlate
    have hafter := hroom (as ++ [.userjoin uid]) bs (by simp [hlate])
    rw [present_concat, attend, List.length_append, List.length_singleton] at hafter
    omega
  have hseats : ∀ as bs, g.late = as ++ bs → ∀ p ∈ seats as, p.2 < 4 := by
    intro as bs hlate p hp
    obtain ⟨cs, ds, rfl, -, hk⟩ := (mem_seats_iff as).mp hp
    rw [hk]
    exact hfew cs p.1 (ds ++ bs) (by simp [hlate])
  have hlayouts : (∀ layout ∈ g.mixCalls, layout.DistinctCorners) ↔
      ∀ as bs, g.late = as ++ bs →
        ∀ p ∈ seats as, ∀ q ∈ seats as, p.1 ≠ q.1 → p.2 ≠ q.2 := by
    constructor
    · intro h as bs hlate
      exact (distinctCorners_layoutAfter_iff (hseats as bs hlate)).mp
        (h _ ((mem_mixCalls_iff hs hfind hg _).mpr ⟨as, bs, hlate, rfl⟩))
    · intro h layout hmem
      obtain ⟨as, bs, hlate, rfl⟩ := (mem_mixCalls_iff hs hfind hg layout).mp hmem
      exact (distinctCorners_layoutAfter_iff (hseats as bs hlate)).mpr (h as bs hlate)
  rw [hlayouts]
  constructor
  · intro h as u bs v cs hlate hleave heq
    have hprefix : g.late = (as ++ .userjoin u :: bs) ++ .userjoin v :: cs := by simp [hlate]
    have hu : u ∈ present (as ++ .userjoin u :: bs) := by
      rw [mem_present_append, ← List.singleton_append, mem_present_append]
      exact Or.inl (Or.inr ⟨by simp [present, attend], hleave⟩)
    have huv : u ≠ v := fun huv => hjoins _ v cs hprefix (huv ▸ hu)
    have hseatu : (u, (present as).length) ∈ seats (as ++ .userjoin u :: bs ++ [.userjoin v]) := by
      refine (mem_seats_iff _).mpr ⟨as, bs ++ [.userjoin v], by simp, ?_, rfl⟩
      rw [List.mem_append, List.mem_singleton, not_or]
      exact ⟨hleave, fun heq => by cases heq⟩
    have hseatv : (v, (present (as ++ .userjoin u :: bs)).length) ∈
        seats (as ++ .userjoin u :: bs ++ [.userjoin v]) :=
      (mem_seats_iff _).mpr ⟨as ++ .userjoin u :: bs, [], rfl, List.not_mem_nil, rfl⟩
    exact h (as ++ .userjoin u :: bs ++ [.userjoin v]) cs (by simp [hlate]) _ hseatu _ hseatv huv
      heq
  · intro h as bs hlate p hp q hq hne heq
    obtain ⟨as₁, bs₁, has₁, hleave₁, hk₁⟩ := (mem_seats_iff as).mp hp
    obtain ⟨as₂, bs₂, has₂, hleave₂, hk₂⟩ := (mem_seats_iff as).mp hq
    -- one of the two joined first
    rcases List.append_eq_append_iff.mp (has₁.symm.trans has₂) with
      ⟨cs, has, hbs⟩ | ⟨cs, has, hbs⟩
    · cases cs with
      | nil =>
        rw [List.nil_append, List.cons.injEq] at hbs
        exact hne (Event.userjoin.inj hbs.1)
      | cons c cs =>
        rw [List.cons_append, List.cons.injEq] at hbs
        obtain ⟨rfl, rfl⟩ := hbs
        rw [List.mem_append, not_or] at hleave₁
        refine h as₁ p.1 cs q.1 (bs₂ ++ bs) (by simp [hlate, has₁]) hleave₁.1 ?_
        rw [← hk₁, heq, hk₂, has]
    · cases cs with
      | nil =>
        rw [List.nil_append, List.cons.injEq] at hbs
        exact hne (Event.userjoin.inj hbs.1).symm
      | cons c cs =>
        rw [List.cons_append, List.cons.injEq] at hbs
        obtain ⟨rfl, rfl⟩ := hbs
        rw [List.mem_append, not_or] at hleave₂
        refine h as₂ q.1 cs p.1 (bs₁ ++ bs) (by simp [hlate, has₂]) hleave₂.1 ?_
        rw [← hk₂, ← heq, hk₁, has]

/-- The second user leaves and another comes. -/
def lastLeaves : List Event := [.userjoin 1, .userjoin 2, .userleave 2, .userjoin 3]

theorem corners_distinct_lastLeaves :
    ∃ s g, machine.run (userRun lastLeaves) = some s ∧ s.sessions[0]? = some g ∧
      g.late = lastLeaves ∧
      ((∀ layout ∈ g.mixCalls, layout.DistinctCorners) ↔
        ∀ as u bs v cs, g.late = as ++ .userjoin u :: (bs ++ .userjoin v :: cs) →
          .userleave u ∉ bs →
          (present as).length ≠ (present (as ++ .userjoin u :: bs)).length) := by
  obtain ⟨s, g, hs, hwaits, hlate⟩ := exists_history lastLeaves (by decide)
  have hjoins : NoRejoin g.late := by
    rw [hlate]
    exact noRejoin_of_alternates (by decide)
  have hroom : ∀ as bs, g.late = as ++ bs → (present as).length ≤ 4 := by
    have hall : ∀ as ∈ lastLeaves.inits, (present as).length ≤ 4 := by decide
    intro as bs happ
    exact hall as ((List.mem_inits _ _).mpr ⟨bs, happ.symm.trans hlate⟩)
  exact ⟨s, g, hs, hwaits.session, hlate,
    corners_distinct_iff hwaits.reachable hwaits.find hwaits.session hjoins hroom⟩

/-- The first of two users leaves and another comes. -/
def firstLeaves : List Event := [.userjoin 1, .userjoin 2, .userleave 1, .userjoin 3]

/-- The new user is put where the second one is. -/
theorem not_corners_distinct_firstLeaves :
    ¬ ∀ s sid i g, machine.Reachable s → s.find sid = .own i → s.sessions[i]? = some g →
      alternates [] g.late = true →
      (∀ as bs, g.late = as ++ bs → (present as).length ≤ 4) →
      ∀ layout ∈ g.mixCalls, layout.DistinctCorners := by
  intro h
  obtain ⟨s, g, -, hwaits, hlate⟩ := exists_history firstLeaves (by decide)
  have halternates : alternates [] g.late = true := by
    rw [hlate]
    decide
  have hroom : ∀ as bs, g.late = as ++ bs → (present as).length ≤ 4 := by
    have hall : ∀ as ∈ firstLeaves.inits, (present as).length ≤ 4 := by decide
    intro as bs happ
    exact hall as ((List.mem_inits _ _).mpr ⟨bs, happ.symm.trans hlate⟩)
  have hmixed : layoutAfter firstLeaves ∈ g.mixCalls :=
    (mem_mixCalls_iff hwaits.reachable hwaits.find hwaits.session _).mpr
      ⟨firstLeaves, [], by simp [hlate], rfl⟩
  have hinside := h s someSid 0 g hwaits.reachable hwaits.find hwaits.session halternates hroom _
    hmixed
  exact absurd hinside (by decide)

end Process

/-! ## One region each -/

/-- The last event about the user is a join. -/
def LastJoined (u : Uid) (evs : List Event) : Prop :=
  ∃ as bs, evs = as ++ .userjoin u :: bs ∧ ∀ ev ∈ bs, user ev ≠ some u

theorem lastJoined_concat {u : Uid} {evs : List Event} {ev : Event} :
    LastJoined u (evs ++ [ev]) ↔
      ev = .userjoin u ∨ (LastJoined u evs ∧ user ev ≠ some u) := by
  constructor
  · rintro ⟨as, bs, heq, hbs⟩
    rcases append_singleton_eq_append_iff.mp heq with ⟨cs, hevs, hcs⟩ | ⟨-, hnil⟩
    · cases cs with
      | nil =>
        rw [List.nil_append, List.cons.injEq] at hcs
        exact Or.inl hcs.1.symm
      | cons c cs =>
        rw [List.cons_append, List.cons.injEq] at hcs
        obtain ⟨rfl, rfl⟩ := hcs
        refine Or.inr ⟨⟨as, cs, hevs, fun e he => hbs e (List.mem_append_left _ he)⟩, ?_⟩
        exact hbs ev (List.mem_append_right _ (List.mem_singleton.mpr rfl))
    · cases hnil
  · rintro (rfl | ⟨⟨as, bs, rfl, hbs⟩, hev⟩)
    · exact ⟨evs, [], rfl, fun _ h => absurd h List.not_mem_nil⟩
    · refine ⟨as, bs ++ [ev], by simp, fun e he => ?_⟩
      rcases List.mem_append.mp he with he | he
      · exact hbs e he
      · rw [List.mem_singleton.mp he]
        exact hev

theorem mem_present_iff {u : Uid} (evs : List Event) : u ∈ present evs ↔ LastJoined u evs := by
  induction evs using List.reverseRecOn with
  | nil => simp [present, LastJoined]
  | append_singleton evs ev ih =>
    rw [present_concat, mem_attend, lastJoined_concat, ih]
    cases ev with
    | userjoin uid =>
      by_cases h : uid = u
      · simp [h]
      · simp [h, user]
    | userleave uid => simp [user]
    | _ => simp [user]

/-- What an event about `uid` should make of a layout, `evs` being all
that was handled with it. -/
structure OneRegionEach (before after : JsLayout) (evs : List Event) (uid : Uid) : Prop where
  nodup : (after.regions.map JsRegion.uid).Nodup
  joined : ∀ u, u ∈ after.regions.map JsRegion.uid ↔ LastJoined u evs
  others : after.regions.filter (·.uid ≠ uid) = before.regions.filter (·.uid ≠ uid)

theorem oneRegionEach_iff {evs : List Event} {ev : Event} {uid : Uid} (huser : user ev = some uid)
    (hnodup : (present evs).Nodup) :
    OneRegionEach (layoutAfter evs) (layoutAfter (evs ++ [ev])) (evs ++ [ev]) uid ↔
      (ev = .userjoin uid → uid ∉ present evs) := by
  have hjoined : ∀ u, u ∈ (layoutAfter (evs ++ [ev])).regions.map JsRegion.uid ↔
      LastJoined u (evs ++ [ev]) := by
    intro u
    rw [map_uid_layoutAfter, mem_present_iff]
  have hothers : (layoutAfter (evs ++ [ev])).regions.filter (·.uid ≠ uid) =
      (layoutAfter evs).regions.filter (·.uid ≠ uid) := by
    rw [layoutAfter_concat]
    cases ev with
    | userjoin u =>
      cases huser
      simp [Session.relayout, joinRegion_eq, seatRegion]
    | userleave u =>
      cases huser
      simp [Session.relayout]
    | _ => cases huser
  have hsplit : OneRegionEach (layoutAfter evs) (layoutAfter (evs ++ [ev])) (evs ++ [ev]) uid ↔
      (present (evs ++ [ev])).Nodup := by
    rw [← map_uid_layoutAfter]
    exact ⟨fun h => h.nodup, fun h => ⟨h, hjoined, hothers⟩⟩
  rw [hsplit, present_concat]
  cases ev with
  | userjoin u =>
    cases huser
    have hlast : (present evs ++ [uid]).Nodup ↔ uid ∉ present evs := by
      rw [← List.concat_eq_append, List.nodup_concat]
      exact and_iff_left hnodup
    rw [attend, hlast]
    simp
  | userleave u =>
    have hfilter : ((present evs).filter (· ≠ u)).Nodup := hnodup.filter _
    rw [attend]
    exact iff_of_true hfilter (fun heq => by cases heq)
  | _ => cases huser

namespace Process

/-- The step hands the event to session `i`, which is registered. -/
structure Hears (s : Process) (a : Action) (i : SessionId) (l : Local) (ev : Event) : Prop where
  action : a = .runImmediate
  view : s.view i = some l
  registered : l.registered = true
  next : ∃ rest, s.immediates = (i, ev) :: rest

theorem Hears.step {s s' : Process} {a : Action} {i : SessionId} {l : Local} {ev : Event}
    (h : s.Hears a i l ev) (hs : machine.Reachable s) (hstep : s.step a = some s') :
    ∃ l', s'.view i = some l' ∧ l'.session.late = l.session.late ++ [ev] ∧
      l.session.layout = layoutAfter l.session.late ∧
      l'.session.layout = layoutAfter (l.session.late ++ [ev]) := by
  obtain ⟨haction, hl, hreg, rest, hnext⟩ := h
  have hw := (reachable_wired hs).1
  obtain ⟨-, ⟨sid, key, appid, channel, hstart, -, -⟩ | ⟨sid, hstop, -⟩ |
    ⟨j, g, m, t, s₀, ht, rfl⟩⟩ := hw.step_cases hstep
  · rw [haction] at hstart
    cases hstart
  · rw [haction] at hstop
    cases hstop
  · have hlayout : l.session.layout = layoutAfter l.session.late := by
      rw [← foldl_hear_fst, ← heard_eq hs hl hreg]
      rfl
    cases ht with
    | @runImmediate _ _ ev' rest' hg hpop =>
      rw [hnext, List.cons.injEq, Prod.mk.injEq] at hpop
      obtain ⟨⟨rfl, rfl⟩, rfl⟩ := hpop
      obtain ⟨l', hmove, hl'⟩ := (Turns.runImmediate hg hnext).view_same hl
      have himm : l.immediates = ev :: share i rest := by
        rw [(view_eq_some hl).2.2.2.1, hnext, share_cons_same]
      simp only [Local.step, himm, hreg, Option.some.injEq] at hmove
      obtain ⟨-, -, hlate, hheard⟩ := l.session.emit_registered ev
      refine ⟨l', hl', by rw [← hmove]; exact hlate, hlayout, ?_⟩
      rw [layoutAfter_concat, ← hlayout, ← hmove]
      exact (congrArg Prod.fst hheard).trans (hear_spec l.session.heard ev).1
    | _ => cases haction

/-- Only what a registered session is handed adds to its history. -/
theorem late_step {s s' : Process} {a : Action} {i : SessionId} {l' : Local}
    (hs : machine.Reachable s) (hstep : s.step a = some s') (hl' : s'.view i = some l') :
    (∃ l, s.view i = some l ∧ l'.session.late = l.session.late) ∨ l'.session.late = [] ∨
      ∃ l ev, s.Hears a i l ev := by
  cases hl : s.view i with
  | none =>
    rcases (simulates i).step s a s' hs hstep with hsame | ⟨b, hb⟩
    · rw [hl, hl'] at hsame
      cases hsame
    · rw [hl, hl'] at hb
      cases b with
      | start sid key appid channel =>
        cases hb
        exact Or.inr (Or.inl rfl)
      | move m => cases hb
  | some l =>
    rcases (reachable_wired hs).1.view_step hl hstep with
      ⟨hsame, -⟩ | ⟨g, m, t, s₀, l₂, ht, hmove, hl₂⟩
    · rw [hl'] at hsame
      cases hsame
      exact Or.inl ⟨l', rfl, rfl⟩
    · obtain rfl : l' = l₂ := Option.some.inj (hl'.symm.trans hl₂)
      rcases Local.heard_step hmove with ⟨hlate, -⟩ | ⟨rfl, hreg, ev, rest, himm, -⟩ |
        ⟨rest, -, hlate, -⟩
      · exact Or.inl ⟨l, rfl, hlate⟩
      · cases ht with
        | @runImmediate _ _ ev' rest' hg hpop =>
          exact Or.inr (Or.inr ⟨l, ev', rfl, hl, hreg, rest', hpop⟩)
      · exact Or.inl ⟨l, rfl, hlate⟩

/-- What the handling of each event should make of session `i`'s layout. -/
def KeepsOneEach (i : SessionId) (s : Process) (a : Action) (s' : Process) : Prop :=
  ∀ l l' ev uid, s.Hears a i l ev → user ev = some uid → s'.view i = some l' →
    OneRegionEach l.session.layout l'.session.layout l'.session.late uid

/-- Nobody is present twice. -/
def NodupPresent (i : SessionId) (s : Process) : Prop :=
  machine.Reachable s ∧ ∀ l, s.view i = some l → (present l.session.late).Nodup

theorem nodupPresent_step {i : SessionId} {s s' : Process} {a : Action} (h : NodupPresent i s)
    (hstep : s.step a = some s') (hkeeps : KeepsOneEach i s a s') : NodupPresent i s' := by
  obtain ⟨hs, hnodup⟩ := h
  refine ⟨hs.step hstep, fun l' hl' => ?_⟩
  rcases late_step hs hstep hl' with ⟨l, hl, hlate⟩ | hnil | ⟨l, ev, hhears⟩
  · rw [hlate]
    exact hnodup l hl
  · rw [hnil]
    exact List.nodup_nil
  · obtain ⟨l₂, hl₂, hlate, -, hlayout⟩ := hhears.step hs hstep
    obtain rfl : l' = l₂ := Option.some.inj (hl'.symm.trans hl₂)
    cases huser : user ev with
    | none =>
      have hsame : attend (present l.session.late) ev = present l.session.late := by
        cases ev <;> first | rfl | cases huser
      rw [hlate, present_concat, hsame]
      exact hnodup l hhears.view
    | some uid =>
      have heach := hkeeps l l' ev uid hhears huser hl'
      rw [hlate, ← map_uid_layoutAfter, ← hlayout]
      exact heach.nodup

theorem keepsOneEach_iff {i : SessionId} {s s' : Process} {a : Action} (h : NodupPresent i s)
    (hstep : s.step a = some s') :
    KeepsOneEach i s a s' ↔
      ∀ l uid, s.Hears a i l (.userjoin uid) → uid ∉ present l.session.late := by
  obtain ⟨hs, hnodup⟩ := h
  constructor
  · intro hkeeps l uid hhears
    obtain ⟨l', hl', hlate, hbefore, hafter⟩ := hhears.step hs hstep
    have heach := hkeeps l l' _ uid hhears rfl hl'
    rw [hbefore, hafter, hlate] at heach
    exact (oneRegionEach_iff rfl (hnodup l hhears.view)).mp heach rfl
  · intro hfresh l l' ev uid hhears huser hl'
    obtain ⟨l₂, hl₂, hlate, hbefore, hafter⟩ := hhears.step hs hstep
    obtain rfl : l' = l₂ := Option.some.inj (hl'.symm.trans hl₂)
    rw [hbefore, hafter, hlate]
    refine (oneRegionEach_iff huser (hnodup l hhears.view)).mpr (fun hev => ?_)
    subst hev
    exact hfresh l uid hhears

theorem nodupPresent_init (i : SessionId) : NodupPresent i machine.init :=
  ⟨Machine.Reachable.init, fun l hl => by cases hl⟩

/-- **The exact condition**: each event leaves session `i` one region for
each user whose last event was a join, and the other users' regions as
they were, if and only if no join it hears is of a user who is present. -/
theorem one_region_each_along_iff (i : SessionId) (as : List Action) :
    machine.Along (KeepsOneEach i) machine.init as ↔
      machine.Along (fun s a _ => ∀ l uid, s.Hears a i l (.userjoin uid) →
        uid ∉ present l.session.late) machine.init as :=
  Machine.along_iff_along (fun _ _ _ h hstep hkeeps => nodupPresent_step h hstep hkeeps)
    (fun _ _ _ h hstep => keepsOneEach_iff h hstep) (nodupPresent_init i)

/-- A user is announced twice: the layout has two regions for it. -/
theorem not_one_region_each_twice :
    ¬ ∀ (i : SessionId) (as : List Action), machine.Along (KeepsOneEach i) machine.init as := by
  intro h
  obtain ⟨s, g, hs, hwaits, hlate⟩ := exists_history [.userjoin 7, .userjoin 7] (by decide)
  obtain ⟨l, hl, hg⟩ := exists_view hwaits.session
  have hkept : NodupPresent 0 s :=
    Machine.Along.keeps (M := machine) (I := NodupPresent 0)
      (fun _ _ _ h hstep hkeeps => nodupPresent_step h hstep hkeeps) (nodupPresent_init 0)
      (h 0 _) hs
  have hnodup := hkept.2 l hl
  rw [hg, hlate] at hnodup
  exact absurd hnodup (by decide)

end Process

/-! ## On the canvas -/

/-- The region lies in the unit square, the canvas in relative
coordinates. -/
structure OnCanvas (r : Region) : Prop where
  x : 0 ≤ r.x
  y : 0 ≤ r.y
  width : 0 < r.width
  height : 0 < r.height
  right : r.x + r.width ≤ 1
  bottom : r.y + r.height ≤ 1

theorem corner_cases (k : Nat) :
    corner k = (0, 0) ∨ corner k = (320, 0) ∨ corner k = (0, 240) ∨ corner k = (320, 240) := by
  unfold corner
  split <;> simp

/-- Every region is as large as the canvas, so only the top left corner
keeps one on it. -/
theorem onCanvas_seat_iff (p : Uid × Nat) :
    OnCanvas ((seatRegion p).toNative 640 480) ↔ corner p.2 = (0, 0) := by
  rcases corner_cases p.2 with h | h | h | h
  · refine iff_of_true ⟨?_, ?_, ?_, ?_, ?_, ?_⟩ h
    all_goals norm_num [JsRegion.toNative, seatRegion, h]
  · refine iff_of_false (fun hon => absurd hon.right ?_) (by simp [h])
    norm_num [JsRegion.toNative, seatRegion, h]
  · refine iff_of_false (fun hon => absurd hon.bottom ?_) (by simp [h])
    norm_num [JsRegion.toNative, seatRegion, h]
  · refine iff_of_false (fun hon => absurd hon.right ?_) (by simp [h])
    norm_num [JsRegion.toNative, seatRegion, h]

theorem regions_toNative_layoutAfter (evs : List Event) :
    (layoutAfter evs).toNative.layout.regions =
      (seats evs).map (fun p => (seatRegion p).toNative 640 480) := by
  rw [layoutAfter_eq]
  simp [JsLayout.toNative, initialLayout]

/-- Everyone sits at the top left while every join finds nobody: the first
join that finds a user finds one, and takes the second seat. -/
theorem corners_eq_zero_iff (evs : List Event) :
    (∀ as bs, evs = as ++ bs → ∀ p ∈ seats as, corner p.2 = (0, 0)) ↔
      ∀ as uid bs, evs = as ++ .userjoin uid :: bs → present as = [] := by
  constructor
  · intro h
    have hsecond : ∀ as uid bs, evs = as ++ .userjoin uid :: bs → (present as).length ≠ 1 := by
      intro as uid bs heq hlen
      have hseat : (uid, 1) ∈ seats (as ++ [.userjoin uid]) :=
        (mem_seats_iff _).mpr ⟨as, [], rfl, List.not_mem_nil, hlen.symm⟩
      exact absurd (h (as ++ [.userjoin uid]) bs (by simp [heq]) _ hseat) (by simp [corner])
    have hone : ∀ as bs, evs = as ++ bs → (present as).length ≤ 1 := by
      intro as
      induction as using List.reverseRecOn with
      | nil => simp [present]
      | append_singleton as ev ih =>
        intro bs heq
        have hold := ih (ev :: bs) (by simp [heq])
        rw [present_concat]
        cases ev with
        | userjoin uid =>
          have hne := hsecond as uid bs (by simp [heq])
          rw [attend, List.length_append, List.length_singleton]
          omega
        | userleave uid => exact (List.length_filter_le _ _).trans hold
        | _ => exact hold
    intro as uid bs heq
    have hle := hone as _ heq
    have hne := hsecond as uid bs heq
    exact List.length_eq_zero_iff.mp (by omega)
  · intro h as bs heq p hp
    obtain ⟨cs, ds, rfl, -, hk⟩ := (mem_seats_iff as).mp hp
    rw [hk, h cs p.1 (ds ++ bs) (by simp [heq])]
    rfl

namespace Process

/-- **The exact condition**: every region the native layer is given is on
the canvas if and only if each user who joins finds nobody present. -/
theorem onCanvas_iff {s : Process} (hs : machine.Reachable s) {sid : JsString} {i : SessionId}
    {g : Session} (hfind : s.find sid = .own i) (hg : s.sessions[i]? = some g) :
    (∀ layout ∈ g.mixCalls, ∀ r ∈ layout.toNative.layout.regions, OnCanvas r) ↔
      ∀ as uid bs, g.late = as ++ .userjoin uid :: bs → present as = [] := by
  have hlayouts : (∀ layout ∈ g.mixCalls, ∀ r ∈ layout.toNative.layout.regions, OnCanvas r) ↔
      ∀ as bs, g.late = as ++ bs → ∀ p ∈ seats as, corner p.2 = (0, 0) := by
    constructor
    · intro h as bs hlate p hp
      refine (onCanvas_seat_iff p).mp
        (h _ ((mem_mixCalls_iff hs hfind hg _).mpr ⟨as, bs, hlate, rfl⟩) _ ?_)
      rw [regions_toNative_layoutAfter]
      exact List.mem_map_of_mem hp
    · intro h layout hmem r hr
      obtain ⟨as, bs, hlate, rfl⟩ := (mem_mixCalls_iff hs hfind hg layout).mp hmem
      rw [regions_toNative_layoutAfter] at hr
      obtain ⟨p, hp, rfl⟩ := List.mem_map.mp hr
      exact (onCanvas_seat_iff p).mpr (h as bs hlate p hp)
  rw [hlayouts, corners_eq_zero_iff]

/-- Users who come one at a time. -/
def oneAtATime : List Event := [.userjoin 1, .userleave 1, .userjoin 2]

theorem onCanvas_oneAtATime :
    ∃ s g, machine.run (userRun oneAtATime) = some s ∧ s.sessions[0]? = some g ∧
      g.late = oneAtATime ∧
      ((∀ layout ∈ g.mixCalls, ∀ r ∈ layout.toNative.layout.regions, OnCanvas r) ↔
        ∀ as uid bs, g.late = as ++ .userjoin uid :: bs → present as = []) := by
  obtain ⟨s, g, hs, hwaits, hlate⟩ := exists_history oneAtATime (by decide)
  exact ⟨s, g, hs, hwaits.session, hlate,
    onCanvas_iff hwaits.reachable hwaits.find hwaits.session⟩

/-- The second of two users is half off the canvas. -/
theorem not_onCanvas_second :
    ¬ ∀ s sid i g, machine.Reachable s → s.find sid = .own i → s.sessions[i]? = some g →
      ∀ layout ∈ g.mixCalls, ∀ r ∈ layout.toNative.layout.regions, OnCanvas r := by
  intro h
  obtain ⟨s, g, -, hwaits, hlate⟩ := exists_history [.userjoin 1, .userjoin 2] (by decide)
  have hmixed : layoutAfter [.userjoin 1, .userjoin 2] ∈ g.mixCalls :=
    (mem_mixCalls_iff hwaits.reachable hwaits.find hwaits.session _).mpr
      ⟨[.userjoin 1, .userjoin 2], [], by simp [hlate], rfl⟩
  have hregion : (seatRegion (2, 1)).toNative 640 480 ∈
      (layoutAfter [.userjoin 1, .userjoin 2]).toNative.layout.regions := by
    rw [regions_toNative_layoutAfter]
    exact List.mem_map_of_mem (by decide)
  have hon := h s someSid 0 g hwaits.reachable hwaits.find hwaits.session _ hmixed _ hregion
  exact absurd ((onCanvas_seat_iff _).mp hon) (by decide)

end Process

end AgoraRecording.Server
