/-
AgoraRecording.Js.Text — the string JavaScript makes of a value that is
used as a property name.

`toText` is `ToPropertyKey` on parsed JSON: `ToPrimitive` with the hint
"string", then `ToString`. An array is joined with commas, its elements
converted in turn and `null` left out; an object is `[object Object]`
unless a member named `toString` hides the inherited method. Such a member
is never callable, and what `valueOf` then returns is no primitive value:
a `TypeError`, here `none`.

The text of a number is a parameter: what follows from it holds for any
way of writing numbers.
-/
import AgoraRecording.Js.Value

namespace AgoraRecording.Js.Json

variable (numberText : JsNumber → JsString)

mutual

def toText : Json → Option JsString
  | null => some (js "null")
  | bool true => some (js "true")
  | bool false => some (js "false")
  | number n => some (numberText n)
  | string s => some s
  | array elements => joinText elements
  | object members =>
      if members.any (fun m => m.1 == js "toString") then none else some (js "[object Object]")

/-- `Array.prototype.join` with its default separator. -/
def joinText : List Json → Option JsString
  | [] => some []
  | [null] => some []
  | [e] => toText e
  | null :: es => (joinText es).map (fun rest => js "," ++ rest)
  | e :: es =>
      match toText e with
      | none => none
      | some text => (joinText es).map (fun rest => text ++ js "," ++ rest)

end

/-- An array of one string is that string. -/
theorem toText_singleton (s : JsString) : toText numberText (.array [.string s]) = some s := rfl

example : toText numberText (.array [.null, .bool true, .array [.string (js "a"), .object []]]) =
    some (js ",true,a,[object Object]") := rfl

end AgoraRecording.Js.Json
