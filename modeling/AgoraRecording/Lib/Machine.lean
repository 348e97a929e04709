/-
AgoraRecording.Lib.Machine — guarded step machines, their runs, and the
rules by which a property of one step becomes a property of every run.

A machine's step is PARTIAL: `step s a = none` says the action `a` is not
enabled in `s`, so one executable function is both the guard and the
effect, and a concrete run evaluates.

Five rules are proved here once:

* `Reachable.induct` — an invariant kept by every step holds in every
  reachable state;
* `length_add_rank_le` — a rank that every step lowers bounds the length
  of every run, and where it is used up nothing can go on
  (`step_eq_none_of_rank`);
* `along_iff_along` — two step properties that agree wherever an
  invariant holds agree over whole runs. It turns "this step keeps the
  law exactly when …" into "this RUN keeps the law exactly when …";
* `runFrom_view` — if every step changes a view of the state only
  through the part of the action an observer sees, a run's view is the
  fold of what was seen. Two runs that look alike end alike
  (`view_eq_of_filterMap_eq`);
* `Simulates.reachable` — a step-wise simulation up to stuttering
  carries reachability to the simulating machine.
-/
import Mathlib.Data.List.Basic

namespace AgoraRecording.Lib

universe u v w x

/-- A machine: where it starts, and what an enabled action does. -/
structure Machine (σ : Type u) (α : Type v) where
  init : σ
  step : σ → α → Option σ

namespace Machine

variable {σ : Type u} {α : Type v} (M : Machine σ α)

/-! ## Runs -/

/-- Execute the actions in order; `none` as soon as one is not enabled. -/
def runFrom (s : σ) : List α → Option σ
  | [] => some s
  | a :: as =>
      match M.step s a with
      | none => none
      | some t => runFrom t as

def run (as : List α) : Option σ := M.runFrom M.init as

/-- Some run from the initial state ends here. -/
def Reachable (s : σ) : Prop := ∃ as, M.run as = some s

@[simp] theorem runFrom_nil (s : σ) : M.runFrom s [] = some s := rfl

theorem runFrom_cons (s : σ) (a : α) (as : List α) :
    M.runFrom s (a :: as) = (M.step s a).bind (fun t => M.runFrom t as) := by
  rw [runFrom]
  cases M.step s a <;> rfl

theorem runFrom_cons_some {s s' : σ} {a : α} {as : List α} :
    M.runFrom s (a :: as) = some s' ↔
      ∃ t, M.step s a = some t ∧ M.runFrom t as = some s' := by
  rw [runFrom_cons, Option.bind_eq_some_iff]

theorem runFrom_append (s : σ) (as bs : List α) :
    M.runFrom s (as ++ bs) = (M.runFrom s as).bind (fun t => M.runFrom t bs) := by
  induction as generalizing s with
  | nil => rfl
  | cons a as ih =>
    rw [List.cons_append, runFrom_cons, runFrom_cons]
    cases M.step s a with
    | none => rfl
    | some t => exact ih t

variable {M}

/-- A run that was cut in two and evaluated, with a test of the state where
it was cut and the state where it ends. -/
theorem exists_of_cut {as : List α} {n : Nat} {q : σ → σ → Bool}
    (h : (M.run (as.take n)).any (fun s => (M.runFrom s (as.drop n)).any (q s)) = true) :
    ∃ s s', M.run (as.take n) = some s ∧ M.runFrom s (as.drop n) = some s' ∧
      M.run as = some s' ∧ q s s' = true := by
  obtain ⟨s, hs, hrest⟩ := (Option.any_eq_true _ _).mp h
  obtain ⟨s', hs', hq⟩ := (Option.any_eq_true _ _).mp hrest
  have hall : M.run as = (M.run (as.take n)).bind (fun t => M.runFrom t (as.drop n)) := by
    rw [run, run, ← runFrom_append, List.take_append_drop]
  rw [hs, Option.bind_some] at hall
  exact ⟨s, s', hs, hs', hall.trans hs', hq⟩

theorem Reachable.init : M.Reachable M.init := ⟨[], rfl⟩

/-- Running on from a reachable state stays among the reachable ones. -/
theorem Reachable.runFrom {s s' : σ} {as : List α} (hs : M.Reachable s)
    (h : M.runFrom s as = some s') : M.Reachable s' := by
  obtain ⟨bs, hbs⟩ := hs
  exact ⟨bs ++ as, by rw [run, runFrom_append, show M.runFrom M.init bs = some s from hbs,
    Option.bind_some, h]⟩

theorem Reachable.step {s s' : σ} {a : α} (hs : M.Reachable s)
    (h : M.step s a = some s') : M.Reachable s' :=
  hs.runFrom (show M.runFrom s [a] = some s' from M.runFrom_cons_some.mpr ⟨s', h, rfl⟩)

/-! ## Invariants -/

/-- What every step of an allowed action keeps, a run of allowed actions
keeps. -/
theorem runFrom_keeps_of_forall {I : σ → Prop} {A : α → Prop}
    (hstep : ∀ s a s', I s → A a → M.step s a = some s' → I s') :
    ∀ {as : List α} {s s' : σ}, (∀ a ∈ as, A a) → I s → M.runFrom s as = some s' → I s'
  | [], s, s', _, hi, h => by
      rw [runFrom_nil, Option.some.injEq] at h
      exact h ▸ hi
  | a :: as, s, s', hall, hi, h => by
      obtain ⟨t, ht, hrest⟩ := M.runFrom_cons_some.mp h
      obtain ⟨ha, has⟩ := List.forall_mem_cons.mp hall
      exact runFrom_keeps_of_forall hstep has (hstep s a t hi ha ht) hrest

/-- What every step keeps, every run keeps. -/
theorem runFrom_keeps {I : σ → Prop}
    (hstep : ∀ s a s', I s → M.step s a = some s' → I s') {as : List α} {s s' : σ} (hi : I s)
    (h : M.runFrom s as = some s') : I s' :=
  runFrom_keeps_of_forall (A := fun _ => True) (fun s a s' hs _ => hstep s a s' hs)
    (fun _ _ => trivial) hi h

/-- **The invariant rule.** The step hypothesis may use that the state it
starts from is reachable. -/
theorem Reachable.induct {I : σ → Prop} (hinit : I M.init)
    (hstep : ∀ s a s', M.Reachable s → I s → M.step s a = some s' → I s')
    {s : σ} (h : M.Reachable s) : I s := by
  obtain ⟨as, has⟩ := h
  have hboth : M.Reachable s ∧ I s := by
    refine runFrom_keeps (I := fun t => M.Reachable t ∧ I t) ?_ ⟨Reachable.init, hinit⟩ has
    intro t a t' ht hstep'
    exact ⟨ht.1.step hstep', hstep t a t' ht.1 ht.2 hstep'⟩
  exact hboth.2

/-! ## Ranks -/

/-- **The rank rule.** Where every allowed step keeps an invariant and
lowers a rank, a run of allowed steps is no longer than the rank it uses
up. -/
theorem length_add_rank_le {I : σ → Prop} {A : α → Prop} {r : σ → Nat}
    (hstep : ∀ s a s', I s → A a → M.step s a = some s' → I s' ∧ r s' < r s) :
    ∀ {as : List α} {s s' : σ}, I s → (∀ a ∈ as, A a) → M.runFrom s as = some s' →
      as.length + r s' ≤ r s
  | [], s, s', _, _, h => by
      rw [runFrom_nil, Option.some.injEq] at h
      subst h
      simp
  | a :: as, s, s', hi, hall, h => by
      obtain ⟨t, ht, hrest⟩ := M.runFrom_cons_some.mp h
      obtain ⟨ha, has⟩ := List.forall_mem_cons.mp hall
      obtain ⟨hit, hlt⟩ := hstep s a t hi ha ht
      have hle := length_add_rank_le hstep hit has hrest
      rw [List.length_cons]
      omega

/-- Where the rank is used up, a step that lowers it is not enabled. -/
theorem step_eq_none_of_rank {r : σ → Nat} {s : σ} {a : α}
    (hlower : ∀ s', M.step s a = some s' → r s' < r s) (hzero : r s = 0) :
    M.step s a = none := by
  refine Option.eq_none_iff_forall_ne_some.mpr (fun s' hstep => ?_)
  have hlt := hlower s' hstep
  rw [hzero] at hlt
  exact Nat.not_lt_zero _ hlt

/-! ## Step properties along a run -/

/-- `P` holds of every step a run takes: the state before, the action and
the state after. -/
def Along (M : Machine σ α) (P : σ → α → σ → Prop) : σ → List α → Prop
  | _, [] => True
  | s, a :: as => ∀ t, M.step s a = some t → P s a t ∧ Along M P t as

/-- What a step keeps when it has property `G`, a run keeps along which
all steps have it. -/
theorem Along.keeps {I : σ → Prop} {G : σ → α → σ → Prop}
    (hkeep : ∀ s a s', I s → M.step s a = some s' → G s a s' → I s') :
    ∀ {as : List α} {s s' : σ}, I s → M.Along G s as → M.runFrom s as = some s' → I s'
  | [], s, s', hi, _, h => by
      rw [runFrom_nil, Option.some.injEq] at h
      exact h ▸ hi
  | a :: as, s, s', hi, hall, h => by
      obtain ⟨t, ht, hrest⟩ := M.runFrom_cons_some.mp h
      obtain ⟨hg, htail⟩ := hall t ht
      exact Along.keeps hkeep (hkeep s a t hi ht hg) htail hrest

/-- **The exactness rule.** If, wherever `I` holds, a step has property `G`
exactly when it has property `P`, and a step with property `G` keeps `I`,
then the runs whose steps all have `G` are those whose steps all have `P`. -/
theorem along_iff_along {I : σ → Prop} {G P : σ → α → σ → Prop}
    (hkeep : ∀ s a s', I s → M.step s a = some s' → G s a s' → I s')
    (hiff : ∀ s a s', I s → M.step s a = some s' → (G s a s' ↔ P s a s')) :
    ∀ {as : List α} {s : σ}, I s → (M.Along G s as ↔ M.Along P s as)
  | [], _, _ => Iff.rfl
  | a :: as, s, hi => by
      constructor
      · intro h t ht
        obtain ⟨hg, hrest⟩ := h t ht
        exact ⟨(hiff s a t hi ht).mp hg,
          (along_iff_along hkeep hiff (hkeep s a t hi ht hg)).mp hrest⟩
      · intro h t ht
        obtain ⟨hp, hrest⟩ := h t ht
        have hg := (hiff s a t hi ht).mpr hp
        exact ⟨hg, (along_iff_along hkeep hiff (hkeep s a t hi ht hg)).mpr hrest⟩

/-! ## Views -/

section View

variable {β : Type w} {γ : Type x} {view : σ → β} {see : α → Option γ} {f : β → γ → β}
  {I : σ → Prop}

/-- **The view rule.** When each step acts on the view only through what is
seen of its action, a run acts on it as the fold of what was seen. -/
theorem runFrom_view (hkeep : ∀ s a s', I s → M.step s a = some s' → I s')
    (hview : ∀ s a s', I s → M.step s a = some s' →
      view s' = (see a).elim (view s) (f (view s))) :
    ∀ {as : List α} {s s' : σ}, I s → M.runFrom s as = some s' →
      view s' = (as.filterMap see).foldl f (view s)
  | [], s, s', _, h => by
      rw [runFrom_nil, Option.some.injEq] at h
      simp [h]
  | a :: as, s, s', hi, h => by
      obtain ⟨t, ht, hrest⟩ := M.runFrom_cons_some.mp h
      rw [runFrom_view hkeep hview (hkeep s a t hi ht) hrest, hview s a t hi ht]
      cases hsee : see a with
      | none => rw [List.filterMap_cons_none hsee]; rfl
      | some c => rw [List.filterMap_cons_some hsee]; rfl

/-- **Two runs that look alike end alike.** -/
theorem view_eq_of_filterMap_eq (hkeep : ∀ s a s', I s → M.step s a = some s' → I s')
    (hview : ∀ s a s', I s → M.step s a = some s' →
      view s' = (see a).elim (view s) (f (view s)))
    {s t₁ t₂ : σ} {as₁ as₂ : List α} (hi : I s)
    (h₁ : M.runFrom s as₁ = some t₁) (h₂ : M.runFrom s as₂ = some t₂)
    (hsee : as₁.filterMap see = as₂.filterMap see) : view t₁ = view t₂ := by
  rw [runFrom_view hkeep hview hi h₁, runFrom_view hkeep hview hi h₂, hsee]

end View

/-! ## Simulation -/

section Simulation

variable {τ : Type w} {β : Type x}

/-- `N` simulates `M` through `abs`: a step of `M` from a reachable state is
invisible to `N` or is one of its steps. -/
structure Simulates (M : Machine σ α) (N : Machine τ β) (abs : σ → τ) : Prop where
  init : abs M.init = N.init
  step : ∀ s a s', M.Reachable s → M.step s a = some s' →
    abs s' = abs s ∨ ∃ b, N.step (abs s) b = some (abs s')

/-- The states of `M` abstract to states `N` reaches. -/
theorem Simulates.reachable {N : Machine τ β} {abs : σ → τ} (h : M.Simulates N abs)
    {s : σ} (hs : M.Reachable s) : N.Reachable (abs s) := by
  refine Reachable.induct (I := fun t => N.Reachable (abs t)) ?_ ?_ hs
  · rw [h.init]
    exact Reachable.init
  · intro t a t' ht hr hstep
    rcases h.step t a t' ht hstep with heq | ⟨b, hb⟩
    · rw [heq]
      exact hr
    · exact hr.step hb

end Simulation

end Machine

end AgoraRecording.Lib
