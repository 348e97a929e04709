/-
AgoraRecording.Native.SetMixLayoutTheorems — which layout objects
`setMixLayout` handles as it should.

A well-formed object (`IsLayout`) should become `m_layout`, and any other
should leave the layouts alone. The code has no way out between its first
read and the update at its end, so the second half never holds:
`handled_iff` says the well-formed objects whose colour UTF-8 carries
without loss are the ones it handles, and no others. What it does to the
rest is to store what it has got: cells nothing was read into, and
`regionCount` regions of which only those before the first bad element
were filled.

Objects are data here: a read may throw, but gives the same each time.
-/
import AgoraRecording.Native.RegionLoop

namespace AgoraRecording.Native

open AgoraRecording.Lib AgoraRecording.Js

variable {Obj : Type} {heap : Heap Unit Obj}

/-! ## Layout objects -/

structure RegionData where
  x : JsDouble
  y : JsDouble
  zOrder : Int
  alpha : JsDouble
  width : JsDouble
  height : JsDouble
  uid : Uid

structure LayoutData where
  canvasWidth : Int
  canvasHeight : Int
  backgroundColor : JsString
  regions : List RegionData

/-- An object with the fields of a region, each of its type. -/
structure IsRegion (heap : Heap Unit Obj) (o : Obj) (d : RegionData) : Prop where
  x : heap.field o (js "x") = some (.number d.x)
  y : heap.field o (js "y") = some (.number d.y)
  zOrder : heap.field o (js "zOrder") = some (.number (.finite d.zOrder))
  zOrder_ge : -2 ^ 31 ≤ d.zOrder
  zOrder_lt : d.zOrder < 2 ^ 31
  alpha : heap.field o (js "alpha") = some (.number d.alpha)
  width : heap.field o (js "width") = some (.number d.width)
  height : heap.field o (js "height") = some (.number d.height)
  uid : heap.field o (js "uid") = some (.number (.finite (d.uid.toNat : Int)))

/-- A canvas of positive `int32` values, a non-empty string for the colour
and an array of regions. -/
structure IsLayout (heap : Heap Unit Obj) (o : Obj) (d : LayoutData) : Prop where
  canvasWidth : heap.field o (js "canvasWidth") = some (.number (.finite d.canvasWidth))
  canvasWidth_pos : 0 < d.canvasWidth
  canvasWidth_lt : d.canvasWidth < 2 ^ 31
  canvasHeight : heap.field o (js "canvasHeight") = some (.number (.finite d.canvasHeight))
  canvasHeight_pos : 0 < d.canvasHeight
  canvasHeight_lt : d.canvasHeight < 2 ^ 31
  backgroundColor : heap.field o (js "backgroundColor") = some (.string d.backgroundColor)
  backgroundColor_ne : d.backgroundColor ≠ []
  regions : ∃ a, heap.field o (js "regions") = some (.object a) ∧ heap.isArray a = true ∧
    (heap.length a ()).toNat = d.regions.length ∧
    ∀ i (h : i < d.regions.length), ∃ r, heap.element a i = some (.object r) ∧
      IsRegion heap r d.regions[i]

/-- A region of the layout: positions and sizes divided by the canvas. -/
def RegionData.toRaw (d : RegionData) (canvasWidth canvasHeight : Int) : RawRegion :=
  { uid := some d.uid
    x := some (d.x.divInt canvasWidth)
    y := some (d.y.divInt canvasHeight)
    width := some (d.width.divInt canvasWidth)
    height := some (d.height.divInt canvasHeight)
    alpha := some d.alpha
    renderMode := 0 }

/-- The layout the object describes. -/
structure LayoutData.Becomes (d : LayoutData) (l : RawLayout) : Prop where
  canvasWidth : l.canvasWidth = some d.canvasWidth
  canvasHeight : l.canvasHeight = some d.canvasHeight
  backgroundColor : ∃ bytes, l.backgroundColor = some bytes ∧
    Denotes bytes (.string d.backgroundColor)
  regionCount : l.regionCount = d.regions.length
  regions : l.regions = d.regions.map (fun r => r.toRaw d.canvasWidth d.canvasHeight)

/-- The layout the call makes of it, with the colour as it is copied. -/
def LayoutData.toRaw (d : LayoutData) : RawLayout :=
  { canvasWidth := some d.canvasWidth
    canvasHeight := some d.canvasHeight
    backgroundColor := some (Utf.cString (Utf.utf8 (Utf.decodeUtf16 d.backgroundColor)))
    regionCount := d.regions.length
    regions := d.regions.map (fun r => r.toRaw d.canvasWidth d.canvasHeight) }

/-! ## The loop -/

theorem result_readRegion {o : Obj} {d : RegionData} (h : IsRegion heap o d) :
    (readRegion heap o).result () =
      some ({ x := some d.x, y := some d.y, zOrder := some d.zOrder, alpha := some d.alpha,
              width := some d.width, height := some d.height, uid := some d.uid }, ()) := by
  have hz : napiGetValueInt32 (.number (.finite d.zOrder) : JsValue Obj) = some d.zOrder :=
    JsDouble.asInt32_intCast h.zOrder_ge h.zOrder_lt
  have hu : napiGetValueUint32 (.number (.finite (d.uid.toNat : Int)) : JsValue Obj) =
      some d.uid := JsDouble.asUint32_toNat d.uid
  unfold readRegion napiGetValueDoubleObject napiGetValueInt32Object napiGetValueUint32Object
  rw [(bind_napiGetValueObject (Heap.get_of_field h.x) _).2,
    (bind_napiGetValueObject (Heap.get_of_field h.y) _).2,
    (bind_napiGetValueObject (Heap.get_of_field h.zOrder) _).2,
    (bind_napiGetValueObject (Heap.get_of_field h.alpha) _).2,
    (bind_napiGetValueObject (Heap.get_of_field h.width) _).2,
    (bind_napiGetValueObject (Heap.get_of_field h.height) _).2,
    (bind_napiGetValueObject (Heap.get_of_field h.uid) _).2, hz, hu]
  rfl

/-- A buffer filled up to `i` is filled up to `i + 1` by writing element `i`. -/
theorem set_take_append_replicate {α : Type} (l : List α) (a : α) {i : Nat} (h : i < l.length) :
    (l.take i ++ List.replicate (l.length - i) a).set i l[i] =
      l.take (i + 1) ++ List.replicate (l.length - (i + 1)) a := by
  have hlen : (l.take i).length = i := List.length_take_of_le (Nat.le_of_lt h)
  have hrest : l.length - i = (l.length - (i + 1)) + 1 := by omega
  rw [List.set_append_right _ _ (Nat.le_of_eq hlen), hlen, Nat.sub_self, hrest,
    List.replicate_succ, List.set_cons_zero, List.take_succ_eq_append_getElem h,
    List.append_assoc]
  rfl

/-- The loop fills the buffer from the left. -/
theorem regionLoop_fills {a : Obj} (canvasWidth canvasHeight : Cell Int) (rs : List RawRegion)
    (hlen : (heap.length a ()).toNat = rs.length)
    (hread : ∀ i (h : i < rs.length), ∃ o locals, heap.index a i () = some (.object o, ()) ∧
      (readRegion heap o).result () = some (locals, ()) ∧
      locals.toRegion canvasWidth canvasHeight = rs[i]) (n : Nat) :
    ∀ i, i + n = rs.length →
      (regionLoop heap a canvasWidth canvasHeight i
        (rs.take i ++ List.replicate (rs.length - i) ({} : RawRegion))).result () =
          some (rs, ()) := by
  induction n with
  | zero =>
    intro i hi
    have hend : ¬ i < (heap.length a ()).toNat := by omega
    have hall : rs.length - i = 0 := by omega
    rw [(regionLoop_over _ _ (Or.inl ⟨hend, rfl⟩) _).2, hall, List.replicate_zero,
      List.append_nil, List.take_of_length_le (by omega)]
  | succ n ih =>
    intro i hi
    have hlt : i < rs.length := by omega
    obtain ⟨o, locals, hindex, hlocals, hregion⟩ := hread i hlt
    rw [(regionLoop_turn _ _ (hlen ▸ hlt) hindex hlocals _).2, hregion,
      set_take_append_replicate rs _ hlt]
    exact ih (i + 1) (by omega)

/-! ## Well-formed objects -/

/-- **What becomes of a well-formed object.** -/
theorem result_mixLayout {o : Obj} {d : LayoutData} (h : IsLayout heap o d) :
    (mixLayout heap o).result () = some (d.toRaw, ()) := by
  obtain ⟨a, hregions, hisArray, hlen, hread⟩ := h.regions
  have hw : napiGetValueInt32 (.number (.finite d.canvasWidth) : JsValue Obj) =
      some d.canvasWidth := JsDouble.asInt32_intCast (by have := h.canvasWidth_pos; omega)
        h.canvasWidth_lt
  have hh : napiGetValueInt32 (.number (.finite d.canvasHeight) : JsValue Obj) =
      some d.canvasHeight := JsDouble.asInt32_intCast (by have := h.canvasHeight_pos; omega)
        h.canvasHeight_lt
  have harray : napiGetValueArray heap (.object a) = some a := if_pos hisArray
  have hstr := toStdString_eq_some_iff.mpr ⟨d.backgroundColor, rfl, h.backgroundColor_ne, rfl⟩
  have hloop := regionLoop_fills (some d.canvasWidth) (some d.canvasHeight)
    (d.regions.map (fun r => r.toRaw d.canvasWidth d.canvasHeight))
    (hlen.trans (List.length_map _).symm) (by
      intro i hi
      rw [List.length_map] at hi
      obtain ⟨r, helement, hregion⟩ := hread i hi
      refine ⟨r, _, Heap.index_of_element helement, result_readRegion hregion, ?_⟩
      rw [List.getElem_map]
      rfl) d.regions.length 0 (by rw [List.length_map, Nat.zero_add])
  rw [List.take_zero, List.nil_append, Nat.sub_zero, List.length_map] at hloop
  unfold mixLayout napiGetValueInt32Object napiGetValueStringObject napiGetValueArrayObject
  rw [(bind_napiGetValueObject (Heap.get_of_field h.canvasWidth) _).2,
    (bind_napiGetValueObject (Heap.get_of_field h.canvasHeight) _).2,
    (bind_napiGetValueObject (Heap.get_of_field h.backgroundColor) _).2,
    (bind_napiGetValueObject (Heap.get_of_field hregions) _).2, hw, hh, harray]
  simp only [fillLayout]
  rw [Traced.result_bind_of_some (Traced.result_look ..), hlen, Traced.result_bind_of_some hloop,
    napiGetValueString, hstr]
  simp only [Traced.result_bind, Traced.result_log, Traced.result_look, Traced.result_pure,
    Option.bind_some, hlen, LayoutData.toRaw, Utf.cString_cString]

theorem allSet_default : ({} : RawLayout).AllSet :=
  ⟨Option.some_ne_none _, Option.some_ne_none _, fun _ hr => absurd hr List.not_mem_nil⟩

theorem allSet_toRaw (d : LayoutData) : d.toRaw.AllSet := by
  refine ⟨nofun, nofun, fun r hr => ?_⟩
  obtain ⟨r', -, rfl⟩ := List.mem_map.mp hr
  exact ⟨nofun, nofun, nofun, nofun, nofun, nofun⟩

/-- The layout is the one described when the colour survives the copy. -/
theorem becomes_toRaw_iff (d : LayoutData) :
    d.Becomes d.toRaw ↔ Json.Text (.string d.backgroundColor) := by
  constructor
  · intro h
    obtain ⟨bytes, hbytes, hdenotes⟩ := h.backgroundColor
    cases hbytes
    exact denotes_cString_iff.mp hdenotes
  · intro h
    exact ⟨rfl, rfl, ⟨_, rfl, denotes_cString_iff.mpr h⟩, rfl, rfl⟩

/-! ## Every object -/

/-- What the call should do with an object: take its layout if it is one,
leave the layouts alone if not, and store no unset value. -/
structure Handled (heap : Heap Unit Obj) (o : Obj) : Prop where
  accepts : ∀ d, IsLayout heap o d → ∀ sdk, ∃ sdk',
    (setMixLayout heap o sdk).result () = some (sdk', ()) ∧ d.Becomes sdk'.mLayout
  rejects : (∀ d, ¬ IsLayout heap o d) → ∀ sdk,
    (setMixLayout heap o sdk).result () = some (sdk, ())
  allSet : ∀ sdk sdk', sdk.mLayout.AllSet →
    (setMixLayout heap o sdk).result () = some (sdk', ()) → sdk'.mLayout.AllSet

theorem result_setMixLayout_of_isLayout {o : Obj} {d : LayoutData} (h : IsLayout heap o d)
    (sdk : MixState) :
    (setMixLayout heap o sdk).result () = some (sdk.updateMixLayout d.toRaw, ()) := by
  rw [result_setMixLayout, result_mixLayout h, Option.map_some]

/-- No object leaves every `m_layout` as it is: the call dies, or stores
the same layout over all of them. -/
theorem not_rejects (heap : Heap Unit Obj) (o : Obj) :
    ¬ ∀ sdk, (setMixLayout heap o sdk).result () = some (sdk, ()) := by
  intro hall
  have hstored : ∀ sdk : MixState, ∃ l, (mixLayout heap o).result () = some (l, ()) ∧
      l = sdk.mLayout := by
    intro sdk
    have hresult := hall sdk
    rw [result_setMixLayout] at hresult
    obtain ⟨⟨l, w⟩, hl, heq⟩ := Option.map_eq_some_iff.mp hresult
    refine ⟨l, hl, ?_⟩
    rw [← (Prod.mk.inj heq).1, MixState.updateMixLayout_mLayout]
  obtain ⟨l, hl, h0⟩ := hstored ⟨{}, none⟩
  obtain ⟨l', hl', h1⟩ := hstored ⟨{ regionCount := 1 }, none⟩
  rw [hl] at hl'
  cases hl'
  rw [h0] at h1
  cases h1

/-- **Handled are the well-formed objects** whose colour is well-formed
UTF-16 without U+0000, and no others. -/
theorem handled_iff (heap : Heap Unit Obj) (o : Obj) :
    Handled heap o ↔
      ∃ d, IsLayout heap o d ∧ Json.Text (.string d.backgroundColor) := by
  constructor
  · intro h
    by_cases hlayout : ∃ d, IsLayout heap o d
    · obtain ⟨d, hd⟩ := hlayout
      obtain ⟨sdk', hresult, hbecomes⟩ := h.accepts d hd ⟨{}, none⟩
      rw [result_setMixLayout_of_isLayout hd] at hresult
      cases hresult
      rw [MixState.updateMixLayout_mLayout] at hbecomes
      exact ⟨d, hd, (becomes_toRaw_iff d).mp hbecomes⟩
    · exact absurd (h.rejects (fun d hd => hlayout ⟨d, hd⟩)) (not_rejects heap o)
  · rintro ⟨d, hd, htext⟩
    refine ⟨fun d' hd' sdk => ?_, fun hnone => absurd hd (hnone d), fun sdk sdk' _ hresult => ?_⟩
    · refine ⟨_, result_setMixLayout_of_isLayout hd' sdk, ?_⟩
      have hcolour : d.backgroundColor = d'.backgroundColor :=
        JsValue.string.inj (Option.some.inj (hd.backgroundColor.symm.trans hd'.backgroundColor))
      rw [MixState.updateMixLayout_mLayout, becomes_toRaw_iff, ← hcolour]
      exact htext
    · rw [result_setMixLayout_of_isLayout hd] at hresult
      cases hresult
      rw [MixState.updateMixLayout_mLayout]
      exact allSet_toRaw d

/-- A layout without a `canvasWidth`. -/
def noWidthObjects : Bool → Heap.DataObject Bool
  | false =>
      { members := [(js "canvasHeight", .number (.finite 480)),
          (js "backgroundColor", .string (js "#1e272e")), (js "regions", .object true)] }
  | true => { elements := some [] }

/-- What is stored of it. -/
def noWidthLayout : RawLayout :=
  { canvasWidth := none, canvasHeight := some 480,
    backgroundColor := some (Utf.utf8 "#1e272e".toList) }

theorem result_mixLayout_noWidth :
    (mixLayout (Heap.ofObjects noWidthObjects) false).result () = some (noWidthLayout, ()) := by
  have hwidth : (Heap.ofObjects noWidthObjects).field false (js "canvasWidth") =
      some .undefined := rfl
  have hheight : (Heap.ofObjects noWidthObjects).field false (js "canvasHeight") =
      some (.number (.finite 480)) := rfl
  have hcolour : (Heap.ofObjects noWidthObjects).field false (js "backgroundColor") =
      some (.string (js "#1e272e")) := rfl
  have hregions : (Heap.ofObjects noWidthObjects).field false (js "regions") =
      some (.object true) := rfl
  have harray : napiGetValueArray (Heap.ofObjects noWidthObjects) (.object true) = some true := rfl
  have hover : Over (Heap.ofObjects noWidthObjects) true 0 () () :=
    Or.inl ⟨Nat.not_lt_zero 0, rfl⟩
  unfold mixLayout napiGetValueInt32Object napiGetValueStringObject napiGetValueArrayObject
  rw [(bind_napiGetValueObject (Heap.get_of_field hwidth) _).2,
    (bind_napiGetValueObject (Heap.get_of_field hheight) _).2,
    (bind_napiGetValueObject (Heap.get_of_field hcolour) _).2,
    (bind_napiGetValueObject (Heap.get_of_field hregions) _).2, harray]
  simp only [fillLayout]
  rw [Traced.result_bind_of_some (Traced.result_look ..),
    Traced.result_bind_of_some (regionLoop_over _ _ hover _).2]
  rfl

/-- The layout without a `canvasWidth` is stored, and its width is unset. -/
theorem not_all_handled :
    ¬ ∀ (Obj : Type) (heap : Heap Unit Obj) (o : Obj), Handled heap o := by
  intro h
  have hhandled := h Bool (Heap.ofObjects noWidthObjects) false
  have hresult : (setMixLayout (Heap.ofObjects noWidthObjects) false ⟨{}, none⟩).result () =
      some (MixState.updateMixLayout ⟨{}, none⟩ noWidthLayout, ()) := by
    rw [result_setMixLayout, result_mixLayout_noWidth, Option.map_some]
  have hset := hhandled.allSet ⟨{}, none⟩ _ allSet_default hresult
  rw [MixState.updateMixLayout_mLayout] at hset
  exact hset.canvasWidth rfl

end AgoraRecording.Native
