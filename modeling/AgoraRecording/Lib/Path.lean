/-
AgoraRecording.Lib.Path — walking a directory tree by names and parent
steps.

A path is a list of steps, each down to a named child or up to the parent;
the parent of the root is the root. `resolve` walks it from a directory.
`Relative` is its normal form, which no directory enters into: how many
levels up, then which names. `resolve_eq` says that the normal form is all
a path does.

So whether a path ends strictly below the directory it starts from can be
read off its normal form (`below_resolve_iff`). A path that climbs out is
not lost: it may come back by the names of the directory itself.
-/
import Mathlib.Data.List.Infix

namespace AgoraRecording.Lib.Path

universe u

inductive Step (α : Type u) where
  | up
  | down (name : α)
  deriving DecidableEq, Repr

/-- How many levels a path goes up, and the names it then goes down by. -/
structure Relative (α : Type u) where
  ups : Nat
  names : List α
  deriving DecidableEq, Repr

variable {α : Type u}

/-! ## Walking -/

def walk (dir : List α) : Step α → List α
  | .up => dir.dropLast
  | .down name => dir ++ [name]

def resolve (dir : List α) (steps : List (Step α)) : List α := steps.foldl walk dir

theorem resolve_append (dir : List α) (steps more : List (Step α)) :
    resolve dir (steps ++ more) = resolve (resolve dir steps) more := List.foldl_append

theorem resolve_concat (dir : List α) (steps : List (Step α)) (step : Step α) :
    resolve dir (steps ++ [step]) = walk (resolve dir steps) step := resolve_append dir steps [step]

/-! ## The normal form -/

/-- A step up takes the last name back, if there is one. -/
def Relative.walk (r : Relative α) : Step α → Relative α
  | .up => if r.names.isEmpty then ⟨r.ups + 1, []⟩ else ⟨r.ups, r.names.dropLast⟩
  | .down name => ⟨r.ups, r.names ++ [name]⟩

def relative (steps : List (Step α)) : Relative α := steps.foldl Relative.walk ⟨0, []⟩

theorem relative_concat (steps : List (Step α)) (step : Step α) :
    relative (steps ++ [step]) = (relative steps).walk step := by
  rw [relative, List.foldl_append]
  rfl

/-- **A path does what its normal form says.** -/
theorem resolve_eq (dir : List α) (steps : List (Step α)) :
    resolve dir steps =
      dir.take (dir.length - (relative steps).ups) ++ (relative steps).names := by
  induction steps using List.reverseRecOn with
  | nil => simp [resolve, relative]
  | append_singleton steps step ih =>
    rw [resolve_concat, relative_concat, ih]
    cases step with
    | down name => rw [walk, Relative.walk, List.append_assoc]
    | up =>
      rw [walk, Relative.walk]
      by_cases hnames : (relative steps).names = []
      · have hshorter : (dir.take (dir.length - (relative steps).ups)).dropLast =
            dir.take (dir.length - ((relative steps).ups + 1)) := by
          rw [List.dropLast_eq_take, List.take_take, List.length_take]
          congr 1
          omega
        simp [hnames, hshorter]
      · rw [if_neg (by simpa using hnames), List.dropLast_append_of_ne_nil hnames]

/-! ## Staying below -/

/-- Strictly below a directory. -/
def Below (dir path : List α) : Prop := ∃ rest, rest ≠ [] ∧ path = dir ++ rest

/-- **Below, read off the normal form**: having gone up, the path comes
down again by the last names of the directory, and goes on. -/
theorem below_resolve_iff (dir : List α) (steps : List (Step α)) :
    Below dir (resolve dir steps) ↔
      ∃ rest, rest ≠ [] ∧ (relative steps).names =
        dir.drop (dir.length - (relative steps).ups) ++ rest := by
  rw [resolve_eq]
  refine exists_congr fun rest => and_congr_right fun _ => ?_
  generalize dir.length - (relative steps).ups = k
  have hsplit : dir ++ rest = dir.take k ++ (dir.drop k ++ rest) := by
    rw [← List.append_assoc, List.take_append_drop]
  rw [hsplit, List.append_right_inj]

end AgoraRecording.Lib.Path
