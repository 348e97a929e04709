/-
AgoraRecording.Js.Heap — JavaScript values as native code finds them: by
asking an object for one property at a time.

A read can run code, a getter or a proxy's trap, so it takes the heap of
the program from one `World` to the next, and it can throw. Nothing is
assumed of what that code does. The length of an array is read without
running any.

Data is the case of a world with nothing in it (`Unit`): every read of an
object gives the same.
-/
import AgoraRecording.Js.Number

namespace AgoraRecording.Js

inductive JsValue (Obj : Type) where
  | undefined
  | null
  | bool (b : Bool)
  | number (n : JsDouble)
  | string (s : JsString)
  | symbol
  | object (o : Obj)
  deriving DecidableEq

/-- What native code can ask of the objects of a program; `none` is a read
that throws. -/
structure Heap (World Obj : Type) where
  /-- `Value::IsArray` -/
  isArray : Obj → Bool
  /-- `Array::Length` -/
  length : Obj → World → UInt32
  /-- `Object::Get` of a name -/
  get : Obj → JsString → World → Option (JsValue Obj × World)
  /-- `Object::Get` of an index -/
  index : Obj → Nat → World → Option (JsValue Obj × World)

namespace Heap

variable {World Obj : Type}

/-- The property of an object that is data. -/
def field (heap : Heap Unit Obj) (o : Obj) (key : JsString) : Option (JsValue Obj) :=
  (heap.get o key ()).map Prod.fst

/-- The element of an array that is data. -/
def element (heap : Heap Unit Obj) (o : Obj) (i : Nat) : Option (JsValue Obj) :=
  (heap.index o i ()).map Prod.fst

/-- Read properties of an object one after another: the world after the
last, `none` if a read throws. -/
def readAll (heap : Heap World Obj) (o : Obj) : List JsString → World → Option World
  | [], w => some w
  | key :: keys, w => (heap.get o key w).bind (fun p => heap.readAll o keys p.2)

theorem get_of_field {heap : Heap Unit Obj} {o : Obj} {key : JsString} {value : JsValue Obj}
    (h : heap.field o key = some value) : heap.get o key () = some (value, ()) := by
  obtain ⟨p, hp, rfl⟩ := Option.map_eq_some_iff.mp h
  exact hp

theorem index_of_element {heap : Heap Unit Obj} {o : Obj} {i : Nat} {value : JsValue Obj}
    (h : heap.element o i = some value) : heap.index o i () = some (value, ()) := by
  obtain ⟨p, hp, rfl⟩ := Option.map_eq_some_iff.mp h
  exact hp

/-! ## Data -/

/-- An object that is data: its named properties and, for an array, its
elements. -/
structure DataObject (Obj : Type) where
  members : List (JsString × JsValue Obj) := []
  elements : Option (List (JsValue Obj)) := none

/-- The heap of such objects. -/
def ofObjects (objects : Obj → DataObject Obj) : Heap Unit Obj where
  isArray o := (objects o).elements.isSome
  length o _ := UInt32.ofNat ((objects o).elements.getD []).length
  get o key _ := some (((objects o).members.lookup key).getD .undefined, ())
  index o i _ := some (((objects o).elements.getD [])[i]?.getD .undefined, ())

theorem field_ofObjects (objects : Obj → DataObject Obj) (o : Obj) (key : JsString) :
    (ofObjects objects).field o key =
      some (((objects o).members.lookup key).getD .undefined) := rfl

theorem element_ofObjects (objects : Obj → DataObject Obj) (o : Obj) (i : Nat) :
    (ofObjects objects).element o i =
      some (((objects o).elements.getD [])[i]?.getD .undefined) := rfl

end Heap

end AgoraRecording.Js
