/-
AgoraRecording.Lib.Tagged — one owner's share of a queue that many owners
use.

A shared queue holds pairs of an owner and an item. `share i` is what an
owner sees of it: appending and popping at either end act on the owner's
share as on a queue of its own, and not at all on anybody else's.
-/
import Mathlib.Data.List.Basic

namespace AgoraRecording.Lib

universe u v

variable {ι : Type u} {α : Type v} [DecidableEq ι]

/-- The items of `i`, in order. -/
def share (i : ι) (l : List (ι × α)) : List α :=
  l.filterMap (fun p => if p.1 = i then some p.2 else none)

@[simp] theorem share_nil (i : ι) : share i ([] : List (ι × α)) = [] := rfl

@[simp] theorem share_append (i : ι) (l m : List (ι × α)) :
    share i (l ++ m) = share i l ++ share i m := List.filterMap_append

@[simp] theorem share_cons_same (i : ι) (a : α) (l : List (ι × α)) :
    share i ((i, a) :: l) = a :: share i l :=
  List.filterMap_cons_some (if_pos rfl)

theorem share_cons_other {i j : ι} (h : i ≠ j) (a : α) (l : List (ι × α)) :
    share j ((i, a) :: l) = share j l :=
  List.filterMap_cons_none (if_neg h)

@[simp] theorem share_map_same (i : ι) (as : List α) : share i (as.map (Prod.mk i)) = as := by
  induction as with
  | nil => rfl
  | cons a as ih => rw [List.map_cons, share_cons_same, ih]

theorem share_map_other {i j : ι} (h : i ≠ j) (as : List α) :
    share j (as.map (Prod.mk i)) = [] := by
  induction as with
  | nil => rfl
  | cons a as ih => rw [List.map_cons, share_cons_other h, ih]

theorem mem_share {i : ι} {a : α} {l : List (ι × α)} : a ∈ share i l ↔ (i, a) ∈ l := by
  induction l with
  | nil => simp
  | cons p l ih =>
    obtain ⟨j, b⟩ := p
    by_cases h : j = i
    · subst h
      simp [ih]
    · rw [share_cons_other h, ih]
      simp [Ne.symm h]

end AgoraRecording.Lib
