/-
AgoraRecording.Server.PictureTheorems — what the engine of a session
mixes, from the events that reached its handlers.

Between the manager's `layout` and the recorded picture stand two calls:
`sdk.setMixLayout`, which stores the layout in `m_layout`, and
`setVideoMixLayout`, which forwards `m_layout` to the engine — from there
and again from the engine's own user callbacks, but never a layout without
regions. `AgoraSdk.Mixes` is what comes of any sequence of such calls: the
engine mixes the last layout it was given that had a region.

Through the session's machine this becomes a law of whole runs
(`picture_eq`): the engine of a registered session mixes the layout of the
last moment at which somebody was present. While somebody is, that is the
layout of the present users, each of them once for every join
(`picture_shows_present`); after the last one leaves, the picture stays.
-/
import AgoraRecording.Native.MixLayoutTheorems
import AgoraRecording.Server.Delivery

namespace AgoraRecording.Native

/-! ## The layouts given to one `AgoraSdk` -/

/-- The last layout with a region in it. -/
def lastShown (given : List VideoMixingLayout) : Option VideoMixingLayout :=
  (given.filter (fun layout => layout.regionCount ≠ 0)).getLast?

theorem lastShown_concat (given : List VideoMixingLayout) (layout : VideoMixingLayout) :
    lastShown (given ++ [layout]) =
      if layout.regionCount = 0 then lastShown given else some layout := by
  by_cases h : layout.regionCount = 0
  · simp [lastShown, h]
  · simp [lastShown, h]

namespace AgoraSdk

/-- `updateMixLayout` was called with these layouts: `m_layout` is the last
of them, and the engine mixes the last that has a region. -/
structure Mixes (sdk : AgoraSdk) (given : List VideoMixingLayout) : Prop where
  kept : sdk.mLayout = given.getLast?.getD {}
  shown : ∀ g, sdk.current = some g → g.layout = lastShown given

theorem mixes_of_congr {sdk sdk' : AgoraSdk} {given : List VideoMixingLayout}
    (h : sdk.Mixes given) (hlayout : sdk'.mLayout = sdk.mLayout)
    (hcurrent : ∀ g', sdk'.current = some g' → ∃ g, sdk.current = some g ∧ g'.layout = g.layout) :
    sdk'.Mixes given where
  kept := hlayout.trans h.kept
  shown := by
    intro g' hg'
    obtain ⟨g, hg, heq⟩ := hcurrent g' hg'
    exact heq.trans (h.shown g hg)

/-- A call on any engine that does not touch its layout. -/
theorem Mixes.onEngine {sdk : AgoraSdk} {given : List VideoMixingLayout} (h : sdk.Mixes given)
    (e : EngineId) {f : Engine → Engine} (hf : ∀ g, (f g).layout = g.layout) :
    (sdk.onEngine e f).Mixes given := by
  refine mixes_of_congr h rfl (fun g' hg' => ?_)
  rw [current, onEngine_mEngine] at hg'
  obtain ⟨p, hp, hget⟩ := Option.bind_eq_some_iff.mp hg'
  rw [onEngine_getElem?] at hget
  by_cases he : e = p
  · rw [if_pos he] at hget
    obtain ⟨g, hg, rfl⟩ := Option.map_eq_some_iff.mp hget
    exact ⟨g, by rw [current, hp, Option.bind_some, hg], hf g⟩
  · rw [if_neg he] at hget
    exact ⟨g', by rw [current, hp, Option.bind_some, hget], rfl⟩

/-- Forwarding again changes nothing: the engine has that layout, or it
has none of its regions. -/
theorem Mixes.setVideoMixLayout {sdk : AgoraSdk} {given : List VideoMixingLayout}
    (h : sdk.Mixes given) : sdk.setVideoMixLayout.Mixes given where
  kept := (setVideoMixLayout_mLayout sdk).trans h.kept
  shown := by
    intro g hg
    rw [current_setVideoMixLayout] at hg
    split at hg
    · exact h.shown g hg
    · rename_i hcount
      obtain ⟨g', -, rfl⟩ := Option.map_eq_some_iff.mp hg
      show some sdk.mLayout = lastShown given
      rw [h.kept] at hcount ⊢
      induction given using List.reverseRecOn with
      | nil => exact absurd rfl hcount
      | append_singleton given layout =>
        simp only [List.getLast?_concat, Option.getD_some] at hcount ⊢
        rw [lastShown_concat, if_neg hcount]

theorem Mixes.updateMixLayout {sdk : AgoraSdk} {given : List VideoMixingLayout}
    (h : sdk.Mixes given) (layout : VideoMixingLayout) :
    (sdk.updateMixLayout layout).Mixes (given ++ [layout]) where
  kept := by simp
  shown := by
    intro g hg
    rw [AgoraSdk.updateMixLayout, current_setVideoMixLayout] at hg
    rw [lastShown_concat]
    split at hg
    · rename_i hcount
      rw [if_pos hcount]
      exact h.shown g hg
    · rename_i hcount
      obtain ⟨g', -, rfl⟩ := Option.map_eq_some_iff.mp hg
      rw [if_neg hcount]
      rfl

/-- An engine raises an event: the user callbacks forward once more. -/
theorem Mixes.onEvent {sdk sdk' : AgoraSdk} {given : List VideoMixingLayout}
    (h : sdk.Mixes given) {e : EngineId} {ev : Event} {dir : Option String}
    (hev : sdk.onEvent e ev dir = some sdk') : sdk'.Mixes given := by
  have hraised : (sdk.onEngine e (fun g => g.raise ev)).Mixes given :=
    h.onEngine e (fun g => by cases ev <;> rfl)
  cases ev with
  | joinchannel channel uid =>
    cases hev
    exact hraised
  | leavechannel =>
    cases hev
    exact hraised
  | error err stat =>
    simp only [AgoraSdk.onEvent, onErrorImpl, onEngine_mEngine] at hev
    split at hev <;> cases hev
    rename_i p _
    exact hraised.onEngine p (fun _ => rfl)
  | userjoin uid =>
    cases hev
    obtain ⟨pre, hlayout, hcurrent, -, -, heq⟩ :=
      onUserJoinedImpl_eq (sdk.onEngine e (fun g => g.raise (.userjoin uid))) uid dir
    rw [heq]
    exact (mixes_of_congr hraised hlayout
      (fun g' hg' => ⟨g', hcurrent.symm.trans hg', rfl⟩)).setVideoMixLayout
  | userleave uid =>
    cases hev
    have hpeers : AgoraSdk.Mixes { sdk.onEngine e (fun g => g.raise (.userleave uid)) with
        mPeers := sdk.mPeers.filter (· ≠ uid) } given :=
      mixes_of_congr hraised rfl (fun g' hg' => ⟨g', hg', rfl⟩)
    exact hpeers.setVideoMixLayout

/-- A new engine mixes nothing, which is right as long as no layout with a
region was given. -/
theorem Mixes.createChannel {sdk : AgoraSdk} {given : List VideoMixingLayout}
    (h : sdk.Mixes given) (hnone : lastShown given = none) (appid : Bytes)
    (config : RecordingConfig) (out : CreateOutcome) :
    (sdk.createChannel appid config out).1.Mixes given where
  kept := (createChannel_mLayout sdk appid config out).trans h.kept
  shown := by
    intro g hg
    rw [hnone]
    cases out with
    | null => cases hg
    | engine joinResult =>
      rw [current_createChannel] at hg
      cases hg
      rfl

end AgoraSdk

end AgoraRecording.Native

namespace AgoraRecording.Server

open AgoraRecording.Lib AgoraRecording.Js AgoraRecording.Native

/-! ## One session -/

/-- The layouts a session has passed down, as the native call makes
them. -/
def Session.given (g : Session) : List VideoMixingLayout :=
  g.mixCalls.map (fun layout => layout.toNative.layout)

/-- The engine mixes what the session passed down. -/
def Local.Pictured (l : Local) : Prop := l.session.sdk.Mixes l.session.given

theorem mixes_new : AgoraSdk.new.Mixes [] where
  kept := rfl
  shown := fun g hg => by cases hg

/-- Subscribing changes neither. -/
theorem mixes_newRecordSdk : newRecordSdk.Mixes [] := by
  have hfold : ∀ (names : List String) (sdk : AgoraSdk), sdk.Mixes [] →
      (names.foldl AgoraSdk.addEventHandler sdk).Mixes [] := by
    intro names
    induction names with
    | nil => exact fun _ h => h
    | cons name names ih =>
      intro sdk h
      refine ih _ ?_
      unfold AgoraSdk.addEventHandler
      split
      · exact h
      · exact AgoraSdk.mixes_of_congr h rfl (fun g' hg' => ⟨g', hg', rfl⟩)
  exact hfold eventNames AgoraSdk.new mixes_new

theorem Session.mixes_mix {g : Session} {layout : JsLayout} (h : g.sdk.Mixes g.given) :
    (g.mix layout).sdk.Mixes (g.mix layout).given := by
  have hmixed := h.updateMixLayout layout.toNative.layout
  simpa [Session.mix, Session.given, setMixLayout] using hmixed

theorem Session.mixes_emit {g : Session} (registered : Bool) (ev : Event)
    (h : g.sdk.Mixes g.given) :
    (g.emit registered ev).session.sdk.Mixes (g.emit registered ev).session.given := by
  have hemitted : (g.emitted registered ev).sdk.Mixes (g.emitted registered ev).given := by
    cases registered <;> exact h
  cases huser : user ev with
  | none =>
    obtain ⟨_, _, _, _, honce⟩ := (g.emitted registered ev).once_eq ev
    rw [emit_eq_once g registered huser, honce]
    exact hemitted
  | some uid =>
    rw [emit_eq_onUser g registered (by simp [huser])]
    cases registered with
    | false => exact hemitted
    | true =>
      show ((g.emitted true ev).onUser ev).sdk.Mixes ((g.emitted true ev).onUser ev).given
      have hlayout : Session.given { g.emitted true ev with
          layout := Session.relayout (g.emitted true ev).layout ev } =
          (g.emitted true ev).given := rfl
      exact Session.mixes_mix (hlayout ▸ hemitted)

namespace Local

/-- Before the native join only the first layout, which is empty, was
passed down. -/
theorem Told.mixCalls_of_late {l : Local} (h : l.Told) (hlate : l.session.late = []) :
    lastShown l.session.given = none := by
  have hcalls : l.session.mixCalls = [] ∨ l.session.mixCalls = [initialLayout] := by
    unfold Told at h
    rw [hlate] at h
    split at h
    · exact Or.inr (congrArg Prod.snd h)
    · exact Or.inl (congrArg Prod.snd h)
  rcases hcalls with heq | heq
  · simp [Session.given, heq, lastShown]
  · simp [Session.given, heq, lastShown, JsLayout.toNative, initialLayout]

/-- **The step lemma.** -/
theorem pictured_step {l l' : Local} {m : Move} (hinv : l.Inv) (htold : l.Told)
    (h : l.Pictured) (hstep : l.step m = some l') : l'.Pictured := by
  unfold Pictured at h ⊢
  cases m with
  | mkdirDone ok =>
    obtain ⟨t, ht, rfl⟩ := Option.map_eq_some_iff.mp hstep
    unfold Session.mkdirDone at ht
    rw [if_pos (mkdirDone_stage ht)] at ht
    cases ok <;> cases ht <;> exact h
  | accessDone ok =>
    obtain ⟨t, ht, rfl⟩ := Option.map_eq_some_iff.mp hstep
    unfold Session.accessDone at ht
    rw [if_pos (accessDone_stage ht)] at ht
    cases ok <;> cases ht <;> exact h
  | writeDone ok out =>
    obtain ⟨t, ht, rfl⟩ := Option.map_eq_some_iff.mp hstep
    have hstage := writeDone_stage ht
    have hblank : l.Blank := by
      rcases hinv.blank_or_joined with hb | ⟨hnative, -⟩
      · exact hb
      · rw [hstage] at hnative
        cases hnative
    have hnone := htold.mixCalls_of_late hblank.late
    unfold Session.writeDone at ht
    rw [if_pos hstage] at ht
    simp only at ht
    split at ht <;> cases ht
    · exact h
    · exact h
    · exact h.createChannel hnone _ _ out
  | raise ev dir =>
    obtain ⟨t, ht, rfl⟩ := Option.map_eq_some_iff.mp hstep
    unfold Session.raise at ht
    split at ht
    · cases ht
    · split at ht <;> cases ht
      · exact h
      · rename_i sdk hev
        exact h.onEvent hev
  | runTask =>
    simp only [step] at hstep
    split at hstep <;> cases hstep
    unfold Session.task
    split <;> exact h
  | runImmediate =>
    simp only [step] at hstep
    split at hstep <;> cases hstep
    exact Session.mixes_emit _ _ h
  | runReaction =>
    simp only [step] at hstep
    split at hstep
    · cases hstep
    · rename_i r rest hr
      cases hstep
      cases r with
      | storage =>
        obtain ⟨hstage, hblank⟩ := hinv.storage_of_reactions hr
        have hcalls : l.session.mixCalls = [] := by
          unfold Told at htold
          rw [hstage] at htold
          exact congrArg Prod.snd htold
        refine Session.mixes_mix ?_
        simp only [Session.given, hcalls, List.map_nil]
        exact mixes_newRecordSdk
      | _ => exact h

/-- What holds of a session in every state of every run. -/
structure Sound (l : Local) : Prop where
  inv : l.Inv
  told : l.Told
  pictured : l.Pictured

theorem sound_start (sid : JsString) (key : Option Json) (appid channel : Json) :
    (start sid key appid channel).Sound :=
  ⟨inv_start sid key appid channel, rfl, mixes_new⟩

theorem sound_step (l : Local) (m : Move) (l' : Local) (h : l.Sound) (hstep : l.step m = some l') :
    l'.Sound :=
  ⟨inv_step h.inv hstep, told_step h.inv h.told hstep,
    pictured_step h.inv h.told h.pictured hstep⟩

end Local

theorem Process.reachable_sound {s : Process} (hs : Process.machine.Reachable s) {i : SessionId}
    {l : Local} (hl : s.view i = some l) : l.Sound :=
  Process.view_keeps Local.sound_start Local.sound_step hs hl

/-! ## The last moment somebody was present -/

/-- The events up to the last one after which somebody was present. -/
def lastPeopled (evs : List Event) : List Event :=
  (evs.foldl (fun (seen, peopled) ev =>
    (seen ++ [ev], if present (seen ++ [ev]) = [] then peopled else seen ++ [ev])) ([], [])).2

theorem lastPeopled_concat (evs : List Event) (ev : Event) :
    lastPeopled (evs ++ [ev]) =
      if present (evs ++ [ev]) = [] then lastPeopled evs else evs ++ [ev] := by
  have hseen : ∀ evs : List Event, (evs.foldl (fun (seen, peopled) ev =>
      (seen ++ [ev], if present (seen ++ [ev]) = [] then peopled else seen ++ [ev]))
        (([], []) : List Event × List Event)).1 = evs := by
    intro evs
    induction evs using List.reverseRecOn with
    | nil => rfl
    | append_singleton evs ev ih => simp [List.foldl_append, ih]
  rw [lastPeopled, List.foldl_append]
  simp only [List.foldl_cons, List.foldl_nil, hseen evs]
  rfl

/-- While somebody is present it is all of them. -/
theorem lastPeopled_eq_self {evs : List Event} (h : present evs ≠ []) : lastPeopled evs = evs := by
  induction evs using List.reverseRecOn with
  | nil => rfl
  | append_singleton evs ev => rw [lastPeopled_concat, if_neg h]

/-- The layout of a list of events as the engine gets it: no regions if
nobody was ever present. -/
theorem lastShown_foldl_hear (evs : List Event) :
    ((lastShown ((evs.foldl hear (initialLayout, [initialLayout])).2.map
      (fun layout => layout.toNative.layout))).elim [] VideoMixingLayout.regionList) =
        (layoutAfter (lastPeopled evs)).toNative.layout.regionList := by
  have hcount : ∀ evs, (layoutAfter evs).toNative.layout.regionCount = (present evs).length := by
    intro evs
    rw [← length_seats, layoutAfter_eq]
    simp [JsLayout.toNative]
  induction evs using List.reverseRecOn with
  | nil => rfl
  | append_singleton evs ev ih =>
    rw [List.foldl_append, List.foldl_cons, List.foldl_nil, lastPeopled_concat]
    have hlast : Session.relayout (evs.foldl hear (initialLayout, [initialLayout])).1 ev =
        layoutAfter (evs ++ [ev]) := by rw [foldl_hear_fst, layoutAfter_concat]
    rcases (hear_spec (evs.foldl hear (initialLayout, [initialLayout])) ev).2 with h | ⟨h, hsame⟩
    · rw [h, hlast, List.map_append, List.map_singleton, lastShown_concat, hcount]
      by_cases hnobody : present (evs ++ [ev]) = []
      · rw [if_pos hnobody, if_pos (by rw [hnobody]; rfl)]
        exact ih
      · rw [if_neg hnobody, if_neg (by simpa using hnobody)]
        rfl
    · -- an event about no user leaves the layout as it is
      have hkept : layoutAfter (evs ++ [ev]) = layoutAfter evs := by
        rw [← hlast, hsame, foldl_hear_fst]
      have hpresent : present (evs ++ [ev]) = present evs := by
        rw [← map_uid_layoutAfter, hkept, map_uid_layoutAfter]
      rw [h, ih, hpresent]
      by_cases hnobody : present evs = []
      · rw [if_pos hnobody]
      · rw [if_neg hnobody, lastPeopled_eq_self hnobody, hkept]

/-! ## The recorded picture -/

namespace Local

/-- A registered session has an engine in use. -/
theorem Joined.exists_current {l : Local} (h : l.Joined) (hreg : l.registered = true) :
    ∃ engine, l.session.sdk.current = some engine := by
  have hposted := h.posted_ne_nil (by simp [h.resolved hreg])
  have hone := h.engine
  generalize l.session.created = created at hone
  cases hone with
  | absent ptr engines silent => exact absurd silent hposted
  | null ptr engines silent => exact absurd silent hposted
  | engine joinResult one errors =>
    obtain ⟨engine, hengines, -⟩ := one.engine
    exact ⟨engine, by rw [AgoraSdk.current, one.ptr, hengines]; rfl⟩

/-- Its engine mixes the layout of the last moment somebody was present. -/
theorem Sound.picture {l : Local} (h : l.Sound) (hreg : l.registered = true) :
    ∃ engine, l.session.sdk.current = some engine ∧ engine.regionList =
      (layoutAfter (lastPeopled l.session.late)).toNative.layout.regionList := by
  have hjoined := h.inv.joined_of_registered hreg
  obtain ⟨engine, hengine⟩ := hjoined.exists_current hreg
  have hstage : l.session.stage = .native := by
    rcases h.inv.blank_or_joined with hb | ⟨hnative, -⟩
    · rw [hb.registered] at hreg
      cases hreg
    · exact hnative
  have hcalls : l.session.mixCalls =
      (l.session.late.foldl hear (initialLayout, [initialLayout])).2 := by
    have htold := h.told
    rw [Told, hstage] at htold
    exact congrArg Prod.snd htold
  refine ⟨engine, hengine, ?_⟩
  rw [← lastShown_foldl_hear, ← hcalls, ← Session.given, ← h.pictured.shown engine hengine,
    Engine.regionList]
  cases engine.layout <;> rfl

/-- While somebody is present, and nothing is pending, it mixes them. -/
theorem Sound.shows_present {l : Local} (h : l.Sound) (hq : l.Quiet) (hreg : l.registered = true)
    (hearly : ∀ ev ∈ l.session.early, user ev = none) (hsome : present l.session.posted ≠ []) :
    ∃ engine, l.session.sdk.current = some engine ∧
      engine.regionList.map Region.uid = present l.session.posted := by
  obtain ⟨engine, hengine, hpicture⟩ := h.picture hreg
  have hnobody : present l.session.early = [] := by
    refine List.eq_nil_iff_forall_not_mem.mpr (fun u hu => ?_)
    have hnone := hearly _ (userjoin_mem_of_present hu)
    cases hnone
  have hpresent : present l.session.posted = present l.session.late := by
    rw [← present_filter_handled, (h.inv.joined_of_registered hreg).posted_eq hq]
    rw [present, List.foldl_append, ← present, hnobody]
    rfl
  refine ⟨engine, hengine, ?_⟩
  rw [hpresent] at hsome ⊢
  rw [hpicture, lastPeopled_eq_self hsome, MixLayout.regionList_eq, ← map_uid_layoutAfter]
  simp [JsLayout.toNative, JsRegion.toNative, Function.comp_def]

end Local

namespace Process

/-- **The recorded picture shows exactly the present users**, in the order
they joined, whenever nothing is pending, no user was reported before the
registration, and somebody is present by the engine's own reports. -/
theorem picture_shows_present {s : Process} (hs : machine.Reachable s) (hidle : s.Idle)
    {sid : JsString} {i : SessionId} {g : Session} (hfind : s.find sid = .own i)
    (hg : s.sessions[i]? = some g) (hearly : ∀ ev ∈ g.early, user ev = none)
    (hsome : present g.posted ≠ []) :
    ∃ engine, g.sdk.current = some engine ∧
      engine.regionList.map Region.uid = present g.posted := by
  obtain ⟨l, hl, rfl, hreg, -⟩ := exists_registered_view hs hfind hg
  exact (reachable_sound hs hl).shows_present (hidle.quiet hl) hreg hearly hsome

/-- A user joins a started session. -/
theorem picture_shows_present_userRun :
    ∃ s g, machine.run (userRun [.userjoin 7]) = some s ∧ s.sessions[0]? = some g ∧
      ∃ engine, g.sdk.current = some engine ∧
        engine.regionList.map Region.uid = present g.posted := by
  obtain ⟨s, g, hs, hwaits, -⟩ := exists_history [.userjoin 7] (by decide)
  have hrun : ((machine.run (userRun [.userjoin 7])).bind (fun s => s.sessions[0]?)).map
      (fun g => (g.early, g.posted)) =
        some ([.joinchannel [99] 0], [.joinchannel [99] 0, .userjoin 7]) := by decide
  rw [hs, Option.bind_some, hwaits.session, Option.map_some, Option.some.injEq,
    Prod.mk.injEq] at hrun
  obtain ⟨hearly, hposted⟩ := hrun
  exact ⟨s, g, hs, hwaits.session, picture_shows_present hwaits.reachable hwaits.idle hwaits.find
    hwaits.session (by rw [hearly]; decide) (by rw [hposted]; decide)⟩

end Process

end AgoraRecording.Server
