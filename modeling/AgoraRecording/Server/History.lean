/-
AgoraRecording.Server.History — what a list of events says.

These are the notions the server's results are stated in, read off a list
of events alone: who is present (`present`), how a start was answered
(`verdict`), whether the engine is in its channel (`inChannelAfter`) and
whether its session has ended since it joined (`Live`).

Each comes with its law for appending, which is the step lemma of every
proof about a run: a run adds one event at a time.
-/
import AgoraRecording.Server.Session
import Mathlib.Data.List.Induction

namespace AgoraRecording.Server

open AgoraRecording.Native

/-! ## Kinds of events -/

/-- The wrapper has a callback for it. -/
def handled (ev : Event) : Bool := ev.name ∈ eventNames

@[simp] theorem handled_joinchannel (channel : Bytes) (uid : Uid) :
    handled (.joinchannel channel uid) = true := rfl

@[simp] theorem handled_leavechannel : handled .leavechannel = false := rfl

@[simp] theorem handled_error (err stat : Int) : handled (.error err stat) = true := rfl

@[simp] theorem handled_userjoin (uid : Uid) : handled (.userjoin uid) = true := rfl

@[simp] theorem handled_userleave (uid : Uid) : handled (.userleave uid) = true := rfl

/-- The user an event is about. -/
def user : Event → Option Uid
  | .userjoin uid | .userleave uid => some uid
  | _ => none

/-- The session of the engine ends. -/
def ends : Event → Bool
  | .error _ _ | .leavechannel => true
  | _ => false

/-! ## Presence -/

def attend (us : List Uid) : Event → List Uid
  | .userjoin uid => us ++ [uid]
  | .userleave uid => us.filter (· ≠ uid)
  | _ => us

/-- The users who joined and have not left since. -/
def present (evs : List Event) : List Uid := evs.foldl attend []

theorem present_concat (evs : List Event) (ev : Event) :
    present (evs ++ [ev]) = attend (present evs) ev := by
  rw [present, List.foldl_append]
  rfl

theorem mem_attend {u : Uid} {us : List Uid} {ev : Event} :
    u ∈ attend us ev ↔ ev = .userjoin u ∨ (u ∈ us ∧ ev ≠ .userleave u) := by
  cases ev with
  | userjoin uid =>
    rw [attend, List.mem_append, List.mem_singleton, Event.userjoin.injEq]
    simp [or_comm, @eq_comm _ u]
  | userleave uid =>
    rw [attend, List.mem_filter]
    simp [@eq_comm _ uid]
  | _ => simp [attend]

/-- Nobody joins who is here, and nobody leaves who is not: for each user,
joins and leaves alternate, and a join comes first. -/
def alternates (here : List Uid) : List Event → Bool
  | [] => true
  | ev :: rest =>
      (match ev with
        | .userjoin uid => decide (uid ∉ here)
        | .userleave uid => decide (uid ∈ here)
        | _ => true) && alternates (attend here ev) rest

theorem mem_present_append {u : Uid} (as : List Event) : ∀ bs : List Event,
    u ∈ present (as ++ bs) ↔ u ∈ present bs ∨ (u ∈ present as ∧ .userleave u ∉ bs) := by
  intro bs
  induction bs using List.reverseRecOn with
  | nil => simp [present]
  | append_singleton bs ev ih =>
    rw [← List.append_assoc, present_concat, present_concat, mem_attend, mem_attend, ih]
    simp only [List.mem_append, List.mem_singleton, not_or]
    constructor
    · rintro (hjoin | ⟨hbs | ⟨has, hno⟩, hev⟩)
      · exact Or.inl (Or.inl hjoin)
      · exact Or.inl (Or.inr ⟨hbs, hev⟩)
      · exact Or.inr ⟨has, hno, Ne.symm hev⟩
    · rintro ((hjoin | ⟨hbs, hev⟩) | ⟨has, hno, hev⟩)
      · exact Or.inl hjoin
      · exact Or.inr ⟨Or.inl hbs, hev⟩
      · exact Or.inr ⟨Or.inr ⟨has, hno⟩, Ne.symm hev⟩

/-- Who is present has joined. -/
theorem userjoin_mem_of_present {u : Uid} {evs : List Event} (h : u ∈ present evs) :
    .userjoin u ∈ evs := by
  induction evs using List.reverseRecOn with
  | nil => cases h
  | append_singleton evs ev ih =>
    rw [present_concat, mem_attend] at h
    rcases h with rfl | ⟨hold, -⟩
    · exact List.mem_append_right _ (List.mem_singleton.mpr rfl)
    · exact List.mem_append_left _ (ih hold)

/-- Who joined and never left is present. -/
theorem present_of_userjoin {u : Uid} {evs : List Event} (hjoin : .userjoin u ∈ evs)
    (hno : .userleave u ∉ evs) : u ∈ present evs := by
  induction evs using List.reverseRecOn with
  | nil => cases hjoin
  | append_singleton evs ev ih =>
    rw [present_concat, mem_attend]
    simp only [List.mem_append, List.mem_singleton, not_or] at hjoin hno
    rcases hjoin with hjoin | hjoin
    · exact Or.inr ⟨ih hjoin hno.1, Ne.symm hno.2⟩
    · exact Or.inl hjoin.symm

/-- Who was present before and is not heard of again is what a fresh count
misses. -/
theorem present_append_iff {as bs : List Event} :
    (∀ u, u ∈ present bs ↔ u ∈ present (as ++ bs)) ↔
      ∀ u ∈ present as, ∃ ev ∈ bs, user ev = some u := by
  constructor
  · intro h u has
    by_contra hnone
    have hno : ∀ ev ∈ bs, user ev ≠ some u := fun ev hev heq => hnone ⟨ev, hev, heq⟩
    have hleave : .userleave u ∉ bs := fun hmem => hno _ hmem rfl
    have hbs := (h u).mpr ((mem_present_append as bs).mpr (Or.inr ⟨has, hleave⟩))
    exact hno _ (userjoin_mem_of_present hbs) rfl
  · intro h u
    rw [mem_present_append]
    refine ⟨Or.inl, ?_⟩
    rintro (hbs | ⟨has, hleave⟩)
    · exact hbs
    · obtain ⟨ev, hev, heq⟩ := h u has
      cases ev with
      | userjoin uid =>
        cases heq
        exact present_of_userjoin hev hleave
      | userleave uid =>
        cases heq
        exact absurd hev hleave
      | _ => cases heq

/-- Only the user events count, and they are all handled. -/
theorem present_filter_handled (evs : List Event) : present (evs.filter handled) = present evs := by
  induction evs using List.reverseRecOn with
  | nil => rfl
  | append_singleton evs ev ih =>
    rw [List.filter_append, present_concat]
    by_cases h : handled ev = true
    · rw [List.filter_cons_of_pos h, List.filter_nil, present_concat, ih]
    · rw [List.filter_cons_of_neg h, List.filter_nil, List.append_nil, ih]
      cases ev with
      | leavechannel => rfl
      | _ => exact absurd rfl h

/-! ## The answer to a start -/

/-- The first report of the engine: it joined, or it failed. -/
def verdict : List Event → Settle
  | [] => .pending
  | .joinchannel _ _ :: _ => .resolved
  | .error _ _ :: _ => .rejected
  | _ :: rest => verdict rest

theorem verdict_append (as bs : List Event) :
    verdict (as ++ bs) = (verdict as).to (verdict bs) := by
  induction as with
  | nil => rfl
  | cons ev as ih =>
    cases ev with
    | joinchannel channel uid => rfl
    | error err stat => rfl
    | _ => exact ih

theorem verdict_filter_handled (evs : List Event) :
    verdict (evs.filter handled) = verdict evs := by
  induction evs with
  | nil => rfl
  | cons ev evs ih =>
    cases ev with
    | joinchannel channel uid => rfl
    | error err stat => rfl
    | leavechannel => exact ih
    | userjoin uid | userleave uid => exact ih

/-! ## The channel -/

def reportChannel (inChannel : Bool) : Event → Bool
  | .joinchannel _ _ => true
  | .error _ _ | .leavechannel => false
  | _ => inChannel

/-- It reported joining, and no end of its session since. -/
def inChannelAfter (evs : List Event) : Bool := evs.foldl reportChannel false

theorem inChannelAfter_concat (evs : List Event) (ev : Event) :
    inChannelAfter (evs ++ [ev]) = reportChannel (inChannelAfter evs) ev := by
  rw [inChannelAfter, List.foldl_append]
  rfl

/-- Errors put no engine in its channel. -/
theorem inChannelAfter_of_errors {evs : List Event}
    (h : ∀ ev ∈ evs, ∃ err stat, ev = .error err stat) : inChannelAfter evs = false := by
  induction evs using List.reverseRecOn with
  | nil => rfl
  | append_singleton evs ev ih =>
    obtain ⟨err, stat, rfl⟩ := h ev (List.mem_append_right _ (List.mem_singleton.mpr rfl))
    rw [inChannelAfter_concat]
    rfl

theorem raise_inChannel (g : Engine) (ev : Event) :
    (g.raise ev).inChannel = reportChannel g.inChannel ev := by
  cases ev <;> rfl

/-- Neither an error nor a leave since the engine reported joining. -/
def Live : List Event → Prop
  | [] => True
  | .joinchannel _ _ :: rest => ∀ ev ∈ rest, ends ev = false
  | _ :: rest => Live rest

end AgoraRecording.Server
