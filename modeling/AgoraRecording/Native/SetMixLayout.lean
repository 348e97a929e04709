/-
AgoraRecording.Native.SetMixLayout — `NodeRecordingSdk::setMixLayout`, from
the JavaScript object to the call on `m_agorasdk`.

A check that fails is only logged (`CHECK_NAPI_STATUS`), and the call goes
on with the variable the read should have filled left unset. So what a
layout is made of are cells here, `none` for a variable nothing was stored
in, and a quotient with an unset cell is unset.

The accesses to the buffers the call allocates are logged with the size of
the buffer. The call dies, with what it has done until then, at a read
that throws (`ToLocalChecked`, or the empty handle `Get` returns), at the
length of a `regions` handle that was never filled, and where a
`std::string` is built from `nullptr`.

What is left out: the console output, `zOrder` once it is read (its
assignment is commented out), and running out of memory.
-/
import AgoraRecording.Js.Heap
import AgoraRecording.Lib.Traced
import AgoraRecording.Native.AgoraSdkTheorems
import AgoraRecording.Native.NodeRecordingSdk

namespace AgoraRecording.Native

open AgoraRecording.Lib AgoraRecording.Js

/-- A variable or a member: `none` while nothing was stored in it. -/
abbrev Cell (α : Type) := Option α

/-! ## Buffers -/

/-- An access, with the size of the buffer that was allocated. -/
inductive Access where
  /-- `regionList[index] = …` -/
  | write (index size : Nat)
  /-- `strcpy` of that many bytes, the NUL included -/
  | copy (bytes size : Nat)
  /-- `m_layout = layout`: the count and the elements stored with it -/
  | store (regionCount size : Nat)
  deriving DecidableEq

def Access.Inside : Access → Prop
  | .write index size => index < size
  | .copy bytes size => bytes ≤ size
  | .store regionCount size => regionCount ≤ size

/-- What a native function does to the program's heap, and its accesses. -/
abbrev Call (World α : Type) := Traced Access World α

variable {World Obj : Type}

/-! ## node_napi_api.cpp -/

/-- `napi_get_value_int32_`. -/
def napiGetValueInt32 : JsValue Obj → Cell Int
  | .number n => n.asInt32
  | _ => none

/-- `napi_get_value_uint32_`. -/
def napiGetValueUint32 : JsValue Obj → Cell Uid
  | .number n => n.asUint32
  | _ => none

/-- `napi_get_value_double_`. -/
def napiGetValueDouble : JsValue Obj → Cell JsDouble
  | .number n => some n
  | _ => none

/-- `napi_get_value_nodestring_`; a `NodeString` starts as `nullptr`. -/
def napiGetValueString : JsValue Obj → NodeString
  | .string s => napiGetValueNodestring (.string s)
  | _ => none

/-- The check of `napi_get_value_array_object_`. -/
def napiGetValueArray (heap : Heap World Obj) : JsValue Obj → Cell Obj
  | .object o => if heap.isArray o then some o else none
  | _ => none

/-- The shape of the `napi_get_value_*_object_` functions. -/
def napiGetValueObject {β : Type} (heap : Heap World Obj) (convert : JsValue Obj → β)
    (object : Obj) (strKey : JsString) : Call World β := do
  let value ← Traced.lift (heap.get object strKey)
  return convert value

/-- `napi_get_value_int32_object_`. -/
def napiGetValueInt32Object (heap : Heap World Obj) (object : Obj) (strKey : JsString) :
    Call World (Cell Int) :=
  napiGetValueObject heap napiGetValueInt32 object strKey

/-- `napi_get_value_uint32_object_`. -/
def napiGetValueUint32Object (heap : Heap World Obj) (object : Obj) (strKey : JsString) :
    Call World (Cell Uid) :=
  napiGetValueObject heap napiGetValueUint32 object strKey

/-- `napi_get_value_double_object_`. -/
def napiGetValueDoubleObject (heap : Heap World Obj) (object : Obj) (strKey : JsString) :
    Call World (Cell JsDouble) :=
  napiGetValueObject heap napiGetValueDouble object strKey

/-- `napi_get_value_string_object_`. -/
def napiGetValueStringObject (heap : Heap World Obj) (object : Obj) (strKey : JsString) :
    Call World NodeString :=
  napiGetValueObject heap napiGetValueString object strKey

/-- `napi_get_value_array_object_`. -/
def napiGetValueArrayObject (heap : Heap World Obj) (object : Obj) (strKey : JsString) :
    Call World (Cell Obj) :=
  napiGetValueObject heap (napiGetValueArray heap) object strKey

/-! ## Layouts of cells -/

/-- `VideoMixingLayout::Region`, with the defaults of its constructor. -/
structure RawRegion where
  uid : Cell Uid := some 0
  x : Cell JsDouble := some (.finite 0)
  y : Cell JsDouble := some (.finite 0)
  width : Cell JsDouble := some (.finite 0)
  height : Cell JsDouble := some (.finite 0)
  alpha : Cell JsDouble := some (.finite 1)
  renderMode : Int := 1
  deriving DecidableEq

/-- `VideoMixingLayout`. -/
structure RawLayout where
  canvasWidth : Cell Int := some 0
  canvasHeight : Cell Int := some 0
  backgroundColor : Option Bytes := none
  regionCount : Nat := 0
  regions : List RawRegion := []
  deriving DecidableEq

/-- No member holds an unset value. -/
structure RawRegion.AllSet (r : RawRegion) : Prop where
  uid : r.uid ≠ none
  x : r.x ≠ none
  y : r.y ≠ none
  width : r.width ≠ none
  height : r.height ≠ none
  alpha : r.alpha ≠ none

structure RawLayout.AllSet (l : RawLayout) : Prop where
  canvasWidth : l.canvasWidth ≠ none
  canvasHeight : l.canvasHeight ≠ none
  regions : ∀ r ∈ l.regions, r.AllSet

/-! ## The region loop -/

/-- The variables of one turn. -/
structure RegionLocals where
  x : Cell JsDouble
  y : Cell JsDouble
  zOrder : Cell Int
  alpha : Cell JsDouble
  width : Cell JsDouble
  height : Cell JsDouble
  uid : Cell Uid

/-- The seven reads of a turn. -/
def readRegion (heap : Heap World Obj) (region : Obj) : Call World RegionLocals := do
  let x ← napiGetValueDoubleObject heap region (js "x")
  let y ← napiGetValueDoubleObject heap region (js "y")
  let zOrder ← napiGetValueInt32Object heap region (js "zOrder")
  let alpha ← napiGetValueDoubleObject heap region (js "alpha")
  let width ← napiGetValueDoubleObject heap region (js "width")
  let height ← napiGetValueDoubleObject heap region (js "height")
  let uid ← napiGetValueUint32Object heap region (js "uid")
  return { x, y, zOrder, alpha, width, height, uid }

/-- A `double` cell divided by an `int` cell. -/
def quotient (value : Cell JsDouble) (canvas : Cell Int) : Cell JsDouble :=
  value.bind (fun v => canvas.map v.divInt)

/-- The assignments of a turn. -/
def RegionLocals.toRegion (l : RegionLocals) (canvasWidth canvasHeight : Cell Int) : RawRegion :=
  { uid := l.uid
    x := quotient l.x canvasWidth
    y := quotient l.y canvasHeight
    width := quotient l.width canvasWidth
    height := quotient l.height canvasHeight
    alpha := l.alpha
    renderMode := 0 }

/-- The loop from turn `i` on. A write outside the buffer changes memory
that is not part of the layout. -/
def regionLoop (heap : Heap World Obj) (regions : Obj) (canvasWidth canvasHeight : Cell Int)
    (i : Nat) (regionList : List RawRegion) : Call World (List RawRegion) := do
  let length ← Traced.look (heap.length regions)
  if _h : i < length.toNat then
    let regionValue ← Traced.lift (heap.index regions i)
    match regionValue with
    | .object region =>
        let locals ← readRegion heap region
        Traced.log (.write i regionList.length)
        regionLoop heap regions canvasWidth canvasHeight (i + 1)
          (regionList.set i (locals.toRegion canvasWidth canvasHeight))
    | _ => return regionList
  else return regionList
termination_by 2 ^ 32 - i
decreasing_by
  have hlt := length.toNat_lt
  omega

/-! ## setMixLayout -/

/-- `setMixLayout` from `new Region[…]` on: the layout it makes. -/
def fillLayout (heap : Heap World Obj) (canvasWidth canvasHeight : Cell Int)
    (backgroundColor : NodeString) (regions : Obj) : Call World RawLayout := do
  let allocated ← Traced.look (heap.length regions)
  let regionList ← regionLoop heap regions canvasWidth canvasHeight 0
    (List.replicate allocated.toNat {})
  match backgroundColor.toStdString with
  | none => Traced.stop
  | some backgroundColorStr =>
      let copied := Utf.cString backgroundColorStr
      Traced.log (.copy (copied.length + 1) backgroundColorStr.length)
      let regionCount ← Traced.look (heap.length regions)
      return { canvasWidth := canvasWidth
               canvasHeight := canvasHeight
               backgroundColor := some copied
               regionCount := regionCount.toNat
               regions := regionList }

/-- `setMixLayout` up to its call of `updateMixLayout`. -/
def mixLayout (heap : Heap World Obj) (layoutData : Obj) : Call World RawLayout := do
  let canvasWidth ← napiGetValueInt32Object heap layoutData (js "canvasWidth")
  let canvasHeight ← napiGetValueInt32Object heap layoutData (js "canvasHeight")
  let backgroundColor ← napiGetValueStringObject heap layoutData (js "backgroundColor")
  let regions ← napiGetValueArrayObject heap layoutData (js "regions")
  match regions with
  | none => Traced.stop
  | some regions => fillLayout heap canvasWidth canvasHeight backgroundColor regions

/-- The two layouts a call can change: `m_layout`, and that of the engine
if there is one, which may never have been given any. -/
structure MixState where
  mLayout : RawLayout
  engine : Option (Option RawLayout)

/-- `AgoraSdk::setVideoMixLayout`. -/
def MixState.setVideoMixLayout (sdk : MixState) : MixState :=
  if sdk.mLayout.regionCount = 0 then sdk
  else { sdk with engine := sdk.engine.map (fun _ => some sdk.mLayout) }

/-- `AgoraSdk::updateMixLayout`. -/
def MixState.updateMixLayout (sdk : MixState) (layout : RawLayout) : MixState :=
  MixState.setVideoMixLayout { sdk with mLayout := layout }

/-- `NodeRecordingSdk::setMixLayout`. -/
def setMixLayout (heap : Heap World Obj) (layoutData : Obj) (sdk : MixState) :
    Call World MixState := do
  let layout ← mixLayout heap layoutData
  Traced.log (.store layout.regionCount layout.regions.length)
  return sdk.updateMixLayout layout

@[simp] theorem MixState.updateMixLayout_mLayout (sdk : MixState) (layout : RawLayout) :
    (sdk.updateMixLayout layout).mLayout = layout := by
  unfold updateMixLayout setVideoMixLayout
  split <;> rfl

/-- The call is the update with what `mixLayout` made, if it made one. -/
theorem result_setMixLayout (heap : Heap World Obj) (layoutData : Obj) (sdk : MixState)
    (w : World) :
    (setMixLayout heap layoutData sdk).result w =
      ((mixLayout heap layoutData).result w).map (fun p => (sdk.updateMixLayout p.1, p.2)) := by
  rw [setMixLayout, Traced.result_bind]
  cases (mixLayout heap layoutData).result w with
  | none => rfl
  | some p => rfl

/-! ## The layouts of `AgoraSdk` -/

/-- A region as cells. -/
def Region.raw (r : Region) : RawRegion :=
  { uid := some r.uid, x := some (.finite r.x), y := some (.finite r.y),
    width := some (.finite r.width), height := some (.finite r.height),
    alpha := some (.finite r.alpha), renderMode := r.renderMode }

/-- A layout as cells. -/
def VideoMixingLayout.raw (l : VideoMixingLayout) : RawLayout :=
  { canvasWidth := some l.canvasWidth, canvasHeight := some l.canvasHeight,
    backgroundColor := l.backgroundColor, regionCount := l.regionCount,
    regions := l.regions.map Region.raw }

/-- The layouts of an `AgoraSdk`. -/
def AgoraSdk.mixState (sdk : AgoraSdk) : MixState :=
  { mLayout := sdk.mLayout.raw
    engine := sdk.current.map (fun g => g.layout.map VideoMixingLayout.raw) }

/-- The two `updateMixLayout` are one method. -/
theorem AgoraSdk.mixState_updateMixLayout (sdk : AgoraSdk) (layout : VideoMixingLayout) :
    (sdk.updateMixLayout layout).mixState = sdk.mixState.updateMixLayout layout.raw := by
  have hcurrent := AgoraSdk.current_setVideoMixLayout { sdk with mLayout := layout }
  have hsame : AgoraSdk.current { sdk with mLayout := layout } = sdk.current := rfl
  rw [hsame] at hcurrent
  unfold AgoraSdk.mixState MixState.updateMixLayout MixState.setVideoMixLayout
  rw [AgoraSdk.updateMixLayout_mLayout, AgoraSdk.updateMixLayout, hcurrent]
  by_cases hcount : layout.regionCount = 0
  · have hraw : layout.raw.regionCount = 0 := hcount
    simp only [hcount, hraw, if_true]
  · have hraw : ¬ layout.raw.regionCount = 0 := hcount
    simp only [hcount, hraw, if_false, Option.map_map]
    rfl

end AgoraRecording.Native
