/-
AgoraRecording.Js.Value — the JavaScript values a request can carry.

A body is whatever JSON text the client sent: `Json` has one constructor
for each kind, with numbers as the finite or infinite double they denote
(JSON has no NaN, and `1e999` parses to infinity; only truthiness reads a
number, so 0 and -0 are one value). A string is any sequence of 16-bit
code units.

`Option Json` is a value that may be absent: `none` is `undefined`.
-/
import AgoraRecording.Lib.Utf
import Mathlib.Data.Rat.Defs

namespace AgoraRecording.Js

open AgoraRecording.Lib

/-- A JavaScript string. -/
abbrev JsString := List UInt16

/-- A string literal of the source. -/
def js (literal : String) : JsString := Utf.utf16 literal.toList

inductive JsNumber where
  | finite (value : Rat)
  | infinite (negative : Bool)
  deriving DecidableEq, Repr

inductive Json where
  | null
  | bool (b : Bool)
  | number (n : JsNumber)
  | string (s : JsString)
  | array (elements : List Json)
  /-- the members in the order of the text -/
  | object (members : List (JsString × Json))

namespace Json

/-- `ToBoolean`. -/
def truthy : Json → Bool
  | null => false
  | bool b => b
  | number (.finite value) => decide (value ≠ 0)
  | number (.infinite _) => true
  | string s => decide (s ≠ [])
  | array _ | object _ => true

/-- `value || other`. -/
def orElse (value : Option Json) (other : Json) : Json :=
  match value with
  | some v => if v.truthy then v else other
  | none => other

/-- `body.name` for a name no prototype has. Of several members of one
name the last one counts. -/
def field (body : Json) (name : JsString) : Option Json :=
  match body with
  | object members => members.reverse.lookup name
  | _ => none

/-- The text a value carries, when it is a string that UTF-8 can carry
without loss and a C string without being cut. -/
def Text (value : Json) : Prop :=
  ∃ s, value = string s ∧ Utf.WellFormed s ∧ 0 ∉ s

theorem truthy_string {s : JsString} : (string s).truthy = true ↔ s ≠ [] := by
  simp [truthy]

end Json

end AgoraRecording.Js
