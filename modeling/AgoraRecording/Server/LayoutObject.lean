/-
AgoraRecording.Server.LayoutObject — the layouts of the manager as the
JavaScript objects they are.

The session model calls `setMixLayout` with a record, `JsLayout`, and takes
what becomes of it from `toNative`. Here the record is laid out as an
object with an array of objects (`objects`), and the native call reads it
one property at a time: `setMixLayout_layoutAfter` says it does with every
layout of a session what the session model says.
-/
import AgoraRecording.Native.SetMixLayoutTheorems
import AgoraRecording.Server.LayoutHistory

namespace AgoraRecording.Server

open AgoraRecording.Lib AgoraRecording.Js AgoraRecording.Native

/-! ## The objects -/

/-- The objects of one layout. -/
inductive LayoutRef where
  | layout
  | regions
  | region (i : Nat)

def int (z : Int) : JsValue LayoutRef := .number (.finite z)

def JsRegion.members (r : JsRegion) : List (JsString × JsValue LayoutRef) :=
  [(js "x", int r.x), (js "y", int r.y), (js "width", int r.width), (js "height", int r.height),
   (js "zOrder", int r.zOrder), (js "alpha", int r.alpha), (js "uid", int r.uid.toNat)]

def JsLayout.objects (l : JsLayout) : LayoutRef → Heap.DataObject LayoutRef
  | .layout =>
      { members := [(js "canvasWidth", int l.canvasWidth), (js "canvasHeight", int l.canvasHeight),
          (js "backgroundColor", .string l.backgroundColor), (js "regions", .object .regions)] }
  | .regions =>
      { elements := some ((List.range l.regions.length).map (fun i => .object (.region i))) }
  | .region i => { members := (l.regions[i]?.map JsRegion.members).getD [] }

def JsRegion.data (r : JsRegion) : RegionData :=
  { x := .finite r.x, y := .finite r.y, zOrder := r.zOrder, alpha := .finite r.alpha,
    width := .finite r.width, height := .finite r.height, uid := r.uid }

def JsLayout.data (l : JsLayout) : LayoutData :=
  { canvasWidth := l.canvasWidth, canvasHeight := l.canvasHeight,
    backgroundColor := l.backgroundColor, regions := l.regions.map JsRegion.data }

/-- A layout the native call accepts. -/
structure JsLayout.Valid (l : JsLayout) : Prop where
  canvasWidth_pos : 0 < l.canvasWidth
  canvasWidth_lt : l.canvasWidth < 2 ^ 31
  canvasHeight_pos : 0 < l.canvasHeight
  canvasHeight_lt : l.canvasHeight < 2 ^ 31
  backgroundColor : l.backgroundColor ≠ []
  zOrder : ∀ r ∈ l.regions, -2 ^ 31 ≤ r.zOrder ∧ r.zOrder < 2 ^ 31
  length : l.regions.length < 2 ^ 32

theorem isRegion_objects {l : JsLayout} (h : l.Valid) {i : Nat} (hi : i < l.regions.length) :
    IsRegion (Heap.ofObjects l.objects) (.region i) (l.regions[i]).data := by
  have hmembers : (l.objects (.region i)).members = (l.regions[i]).members := by
    simp only [JsLayout.objects, List.getElem?_eq_getElem hi, Option.map_some, Option.getD_some]
  have hz := h.zOrder _ (List.getElem_mem hi)
  have hfield : ∀ key value, (l.regions[i]).members.lookup key = some value →
      (Heap.ofObjects l.objects).field (.region i) key = some value := by
    intro key value hlookup
    rw [Heap.field_ofObjects, hmembers, hlookup, Option.getD_some]
  exact
    { x := hfield _ _ rfl, y := hfield _ _ rfl, zOrder := hfield _ _ rfl, zOrder_ge := hz.1,
      zOrder_lt := hz.2, alpha := hfield _ _ rfl, width := hfield _ _ rfl,
      height := hfield _ _ rfl, uid := hfield _ _ rfl }

theorem isLayout_objects {l : JsLayout} (h : l.Valid) :
    IsLayout (Heap.ofObjects l.objects) .layout l.data where
  canvasWidth := rfl
  canvasWidth_pos := h.canvasWidth_pos
  canvasWidth_lt := h.canvasWidth_lt
  canvasHeight := rfl
  canvasHeight_pos := h.canvasHeight_pos
  canvasHeight_lt := h.canvasHeight_lt
  backgroundColor := rfl
  backgroundColor_ne := h.backgroundColor
  regions := by
    refine ⟨.regions, rfl, rfl, ?_, fun i hi => ?_⟩
    · simp only [Heap.ofObjects, JsLayout.objects, Option.getD_some, List.length_map,
        List.length_range, JsLayout.data]
      exact UInt32.toNat_ofNat_of_lt' (by simpa using h.length)
    · have hlt : i < l.regions.length := by simpa [JsLayout.data] using hi
      refine ⟨.region i, ?_, ?_⟩
      · rw [Heap.element_ofObjects]
        simp [JsLayout.objects, hlt]
      · simp only [JsLayout.data, List.getElem_map]
        exact isRegion_objects h hlt

/-! ## The call -/

/-- The layout the record model passes is the one the native call makes. -/
theorem raw_toNative {l : JsLayout} (h : l.Valid) : l.toNative.layout.raw = l.data.toRaw := by
  have hstr := toStdString_eq_some_iff.mpr ⟨l.backgroundColor, rfl, h.backgroundColor, rfl⟩
  simp only [VideoMixingLayout.raw, JsLayout.toNative, LayoutData.toRaw, JsLayout.data, hstr,
    List.length_map, List.map_map]
  congr 1
  refine List.map_congr_left (fun r _ => ?_)
  simp only [Function.comp_apply, Region.raw, JsRegion.toNative, RegionData.toRaw, JsRegion.data,
    JsDouble.divInt_finite _ h.canvasWidth_pos, JsDouble.divInt_finite _ h.canvasHeight_pos]

/-- **The native call does what the session model says.** -/
theorem setMixLayout_objects {l : JsLayout} (h : l.Valid) (sdk : AgoraSdk) :
    (Native.setMixLayout (Heap.ofObjects l.objects) .layout sdk.mixState).result () =
      some ((setMixLayout sdk l).mixState, ()) := by
  rw [result_setMixLayout_of_isLayout (isLayout_objects h), setMixLayout,
    AgoraSdk.mixState_updateMixLayout, raw_toNative h]

theorem valid_initialLayout : initialLayout.Valid :=
  ⟨by decide, by decide, by decide, by decide, by decide, fun _ hr => absurd hr List.not_mem_nil,
    by decide⟩

/-- The layouts of a session are accepted, as long as an array can hold
their regions. -/
theorem valid_layoutAfter {evs : List Event} (h : (present evs).length < 2 ^ 32) :
    (layoutAfter evs).Valid := by
  rw [← length_seats] at h
  rw [layoutAfter_eq]
  have hcanvas := valid_initialLayout
  refine ⟨hcanvas.canvasWidth_pos, hcanvas.canvasWidth_lt, hcanvas.canvasHeight_pos,
    hcanvas.canvasHeight_lt, hcanvas.backgroundColor, fun r hr => ?_, ?_⟩
  · obtain ⟨p, -, rfl⟩ := List.mem_map.mp hr
    exact ⟨by simp [seatRegion], by simp [seatRegion]⟩
  · simpa using h

theorem setMixLayout_layoutAfter {evs : List Event} (h : (present evs).length < 2 ^ 32)
    (sdk : AgoraSdk) :
    (Native.setMixLayout (Heap.ofObjects (layoutAfter evs).objects) .layout
        sdk.mixState).result () = some ((setMixLayout sdk (layoutAfter evs)).mixState, ()) :=
  setMixLayout_objects (valid_layoutAfter h) sdk

end AgoraRecording.Server
