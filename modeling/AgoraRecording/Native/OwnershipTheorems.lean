/-
AgoraRecording.Native.OwnershipTheorems — when an `AgoraSdk` owns exactly
one engine.

`m_engine` is the only pointer to the engine an `AgoraSdk` creates, so the
engines created and not yet released should be exactly the one it points
to. `createChannel` assigns the pointer BEFORE its two failure exits and
without looking at what it held: called on an owner it loses the old
engine, and when the engine's `joinChannel` fails it returns `false` with
a new engine in place.

`ownership_along_iff` gives the exact condition: ownership survives a run
precisely when every `createChannel` of the run finds no engine and does
not create one that then refuses to join.

`NodeRecordingSdk::release` and `~NodeRecordingSdk` are both the `release`
action (the wrapper never deletes its `AgoraSdk`); `destruct` is
`~AgoraSdk`, after which no call is made.
-/
import AgoraRecording.Lib.Machine
import AgoraRecording.Native.AgoraSdkTheorems

namespace AgoraRecording.Native

open AgoraRecording.Lib

/-! ## The operations -/

structure Owner where
  sdk : AgoraSdk
  destructed : Bool
  deriving DecidableEq, Repr

inductive OwnerAction where
  | createChannel (appid : Bytes) (config : RecordingConfig) (out : CreateOutcome)
  | leaveChannel
  | release
  | destruct
  deriving DecidableEq, Repr

def Owner.step (o : Owner) (a : OwnerAction) : Option Owner :=
  if o.destructed then none
  else match a with
    | .createChannel appid config out =>
        some { o with sdk := (o.sdk.createChannel appid config out).1 }
    | .leaveChannel => some { o with sdk := o.sdk.leaveChannel }
    | .release => some { o with sdk := o.sdk.release }
    | .destruct => some { sdk := o.sdk.destruct, destructed := true }

def ownerMachine : Machine Owner OwnerAction where
  init := { sdk := .new, destructed := false }
  step := Owner.step

/-! ## What ownership means -/

/-- The engine a live owner points to. -/
def Owner.pointer (o : Owner) : Option EngineId :=
  if o.destructed then none else o.sdk.mEngine

/-- One owner, its one engine, and no engine released twice. -/
structure Owner.Owns (o : Owner) : Prop where
  exactly : ∀ e, o.sdk.Unreleased e ↔ o.pointer = some e
  once : ∀ g ∈ o.sdk.engines, g.released ≤ 1

/-- What a step must keep: ownership, and after a `createChannel` that
returns `false` also the pointer and the unreleased engines. -/
structure Owner.StepOwns (o : Owner) (a : OwnerAction) (o' : Owner) : Prop where
  owns : o'.Owns
  failed : ∀ appid config out, a = .createChannel appid config out →
    (o.sdk.createChannel appid config out).2 = false →
      o'.sdk.mEngine = o.sdk.mEngine ∧ ∀ e, o'.sdk.Unreleased e ↔ o.sdk.Unreleased e

/-- `createChannel` finds no engine, and does not create one that then
refuses to join. -/
def OwnerAction.Clean (o : Owner) : OwnerAction → Prop
  | .createChannel _ _ out => o.sdk.mEngine = none ∧ (out = .null ∨ out.ok = true)
  | .leaveChannel | .release | .destruct => True

/-! ## Calls on engines -/

theorem once_onEngine {sdk : AgoraSdk} {e : EngineId} {f : Engine → Engine}
    (hf : ∀ g, sdk.engines[e]? = some g → (f g).released ≤ 1)
    (h : ∀ g ∈ sdk.engines, g.released ≤ 1) :
    ∀ g ∈ (sdk.onEngine e f).engines, g.released ≤ 1 := by
  intro g hg
  obtain ⟨i, hi⟩ := List.mem_iff_getElem?.mp hg
  rw [AgoraSdk.onEngine_getElem?] at hi
  by_cases he : e = i
  · subst he
    rw [if_pos rfl] at hi
    obtain ⟨g', hg', rfl⟩ := Option.map_eq_some_iff.mp hi
    exact hf g' hg'
  · rw [if_neg he] at hi
    exact h g (List.mem_of_getElem? hi)

/-- Releasing the owned engine leaves nothing unreleased. -/
theorem Owner.Owns.release {o : Owner} (h : o.Owns) (hlive : o.destructed = false)
    {e : EngineId} (he : o.sdk.mEngine = some e) :
    (∀ e', ¬ (o.sdk.onEngine e Engine.release).Unreleased e') ∧
      ∀ g ∈ (o.sdk.onEngine e Engine.release).engines, g.released ≤ 1 := by
  have hptr : o.pointer = some e := by rw [Owner.pointer, hlive]; exact he
  constructor
  · intro e' hun
    obtain ⟨hold, hne⟩ := (AgoraSdk.unreleased_release _ _ _).mp hun
    have heq : some e = some e' := hptr.symm.trans ((h.exactly e').mp hold)
    exact hne (Option.some.inj heq)
  · refine once_onEngine (fun g hg => ?_) h.once
    obtain ⟨g', hg', hzero⟩ := (h.exactly e).mpr hptr
    rw [hg] at hg'
    cases hg'
    simp [Engine.release, hzero]

/-! ## One step -/

/-- `leaveChannel`, `release` and the destructor keep ownership. -/
theorem Owner.Owns.keep {o o' : Owner} {a : OwnerAction} (h : o.Owns)
    (ha : ∀ appid config out, a ≠ .createChannel appid config out)
    (hstep : o.step a = some o') : o'.Owns := by
  unfold Owner.step at hstep
  split at hstep
  · cases hstep
  rename_i hlive
  have hlive : o.destructed = false := by simpa using hlive
  have hptr : o.pointer = o.sdk.mEngine := by rw [Owner.pointer, hlive]; rfl
  cases a with
  | createChannel appid config out => exact absurd rfl (ha appid config out)
  | leaveChannel =>
    cases hstep
    unfold AgoraSdk.leaveChannel
    cases he : o.sdk.mEngine with
    | none => exact h
    | some e =>
      have hsame : ∀ e', (o.sdk.onEngine e Engine.leaveChannel).Unreleased e' ↔
          o.sdk.Unreleased e' := AgoraSdk.unreleased_onEngine Engine.leaveChannel (fun _ => rfl)
      refine ⟨fun e' => (hsame e').trans (h.exactly e'), once_onEngine (fun g hg => ?_) h.once⟩
      exact h.once g (List.mem_of_getElem? hg)
  | release =>
    cases hstep
    unfold AgoraSdk.release
    cases he : o.sdk.mEngine with
    | none => exact h
    | some e =>
      obtain ⟨hnone, honce⟩ := h.release hlive he
      refine ⟨fun e' => iff_of_false (hnone e') ?_, honce⟩
      simp [Owner.pointer]
  | destruct =>
    cases hstep
    unfold AgoraSdk.destruct
    cases he : o.sdk.mEngine with
    | none =>
      refine ⟨fun e' => ?_, h.once⟩
      rw [h.exactly e', hptr, he]
      simp [Owner.pointer]
    | some e =>
      -- the leave before the release changes no count
      have hleft : Owner.Owns { o with sdk := o.sdk.onEngine e Engine.leaveChannel } := by
        refine ⟨fun e' => ?_, once_onEngine (fun g hg => ?_) h.once⟩
        · have hsame : (o.sdk.onEngine e Engine.leaveChannel).Unreleased e' ↔
              o.sdk.Unreleased e' :=
            AgoraSdk.unreleased_onEngine Engine.leaveChannel (fun _ => rfl) e'
          exact hsame.trans (h.exactly e')
        · exact h.once g (List.mem_of_getElem? hg)
      obtain ⟨hnone, honce⟩ := hleft.release hlive he
      refine ⟨fun e' => iff_of_false (hnone e') ?_, honce⟩
      simp [Owner.pointer]

/-- **The step lemma**: from an owning state, a step keeps what it must
exactly when it is clean. -/
theorem Owner.Owns.step_iff {o o' : Owner} {a : OwnerAction} (h : o.Owns)
    (hstep : o.step a = some o') : o.StepOwns a o' ↔ a.Clean o := by
  have hkeep : (∀ appid config out, a ≠ .createChannel appid config out) → o.StepOwns a o' :=
    fun ha => ⟨h.keep ha hstep, fun _ _ _ heq => absurd heq (ha _ _ _)⟩
  cases a with
  | leaveChannel => exact iff_of_true (hkeep (fun _ _ _ heq => by cases heq)) trivial
  | release => exact iff_of_true (hkeep (fun _ _ _ heq => by cases heq)) trivial
  | destruct => exact iff_of_true (hkeep (fun _ _ _ heq => by cases heq)) trivial
  | createChannel appid config out =>
    unfold Owner.step at hstep
    split at hstep
    · cases hstep
    rename_i hlive
    cases hstep
    have hlive : o.destructed = false := by simpa using hlive
    have hptr : o.pointer = o.sdk.mEngine := by rw [Owner.pointer, hlive]; rfl
    cases out with
    | null =>
      constructor
      · intro hs
        have hsame := (hs.failed appid config .null rfl rfl).1
        exact ⟨hsame.symm, Or.inl rfl⟩
      · rintro ⟨hnone, -⟩
        have hid : (o.sdk.createChannel appid config .null).1 = o.sdk := by
          rw [AgoraSdk.createChannel, ← hnone]
        refine ⟨?_, fun _ _ _ _ _ => ?_⟩
        · rw [hid]
          exact h
        · rw [hid]
          exact ⟨rfl, fun _ => Iff.rfl⟩
    | engine joinResult =>
      obtain ⟨hnew, hengines⟩ := o.sdk.createChannel_engine appid config joinResult
      constructor
      · intro hs
        have hnone : o.sdk.mEngine = none := by
          by_contra hne
          obtain ⟨e, he⟩ := Option.ne_none_iff_exists'.mp hne
          -- the engine that was owned is still unreleased but no longer pointed to
          have hun : o.sdk.Unreleased e := (h.exactly e).mpr (hptr.trans he)
          have hnow := (hs.owns.exactly e).mp
            ((AgoraSdk.unreleased_createChannel _ appid config joinResult e).mpr (Or.inl hun))
          rw [Owner.pointer, hlive] at hnow
          have heq : o.sdk.engines.length = e := Option.some.inj (hnew.symm.trans hnow)
          exact absurd (heq ▸ AgoraSdk.unreleased_lt hun) (Nat.lt_irrefl _)
        refine ⟨hnone, Or.inr ?_⟩
        rw [← o.sdk.createChannel_snd appid config]
        by_contra hfail
        have hsame := (hs.failed appid config _ rfl (by simpa using hfail)).1
        rw [hnone] at hsame
        exact absurd (hnew.symm.trans hsame) (by simp)
      · rintro ⟨hnone, hok⟩
        have hok : (CreateOutcome.engine joinResult).ok = true := by simpa using hok
        refine ⟨⟨fun e => ?_, fun g hg => ?_⟩, fun appid' config' out' heq hfalse => ?_⟩
        · have hold : ¬ o.sdk.Unreleased e := by
            rw [h.exactly e, hptr, hnone]
            simp
          have hpointer : Owner.pointer
              { o with sdk := (o.sdk.createChannel appid config (.engine joinResult)).1 } =
                some o.sdk.engines.length := by
            rw [Owner.pointer, hlive]
            exact hnew
          rw [AgoraSdk.unreleased_createChannel, hpointer, Option.some.injEq, eq_comm]
          simp [hold]
        · rw [hengines] at hg
          rcases List.mem_append.mp hg with hg | hg
          · exact h.once g hg
          · rw [List.mem_singleton.mp hg]
            exact Nat.zero_le 1
        · cases heq
          rw [AgoraSdk.createChannel_snd, hok] at hfalse
          cases hfalse

/-! ## Whole runs -/

theorem owns_init : ownerMachine.init.Owns := by
  refine ⟨fun e => iff_of_false ?_ (by simp [Owner.pointer, ownerMachine, AgoraSdk.new]), ?_⟩
  · rintro ⟨g, hg, -⟩
    simp [ownerMachine, AgoraSdk.new] at hg
  · intro g hg
    simp [ownerMachine, AgoraSdk.new] at hg

/-- **Exactly the clean runs keep ownership**, at every step: one engine
per owner, none lost, none released twice, and a failed `createChannel`
changes nothing. -/
theorem ownership_along_iff (as : List OwnerAction) :
    ownerMachine.Along Owner.StepOwns ownerMachine.init as ↔
      ownerMachine.Along (fun o a _ => a.Clean o) ownerMachine.init as :=
  Machine.along_iff_along (I := Owner.Owns)
    (fun _ _ _ _ _ hs => hs.owns) (fun _ _ _ h hstep => h.step_iff hstep) owns_init

/-- Ownership does not survive every run: a second `joinChannel` from
JavaScript loses the first engine. -/
theorem not_owns_after_second_create :
    ¬ ∀ as, ownerMachine.Along Owner.StepOwns ownerMachine.init as := by
  intro h
  have hfirst := h
    [.createChannel [97] {} (.engine errOk), .createChannel [97] {} (.engine errOk)] _ rfl
  have hsecond := (hfirst.2 _ rfl).1
  have hclean := (hfirst.1.owns.step_iff rfl).mp hsecond
  exact absurd hclean.1 (by decide)

end AgoraRecording.Native
