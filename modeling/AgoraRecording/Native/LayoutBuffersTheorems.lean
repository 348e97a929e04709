/-
AgoraRecording.Native.LayoutBuffersTheorems — the buffers `setMixLayout`
allocates, and what it does to them.

Each of its three accesses rests on a length that was read at another
place:

* `regionList` has the length of the array before the loop, and the loop
  goes by the length the array has at each turn;
* `regionCount` is the length of the array after the loop;
* the copy of the colour is `new char[str_len]`, without a byte for the
  NUL that `strcpy` writes.

The last one is wrong whatever the argument is. So a call stays inside its
buffers only when it dies before the copy, and then only when the reads
have not made the loop outrun the array it began with
(`staysInside_iff`). `callEnds_setMixLayout` is the whole list of accesses
of every call.
-/
import AgoraRecording.Native.RegionLoop

namespace AgoraRecording.Native

open AgoraRecording.Lib AgoraRecording.Js

variable {World Obj : Type} {heap : Heap World Obj} {layoutData regions : Obj}
  {colour : JsString} {w w₀ : World}

/-! ## Arguments -/

/-- A layout argument with a string `backgroundColor` and an array
`regions`, and the world its four reads leave. -/
structure Opens (heap : Heap World Obj) (layoutData : Obj) (w : World) (colour : JsString)
    (regions : Obj) (w₀ : World) : Prop where
  isArray : heap.isArray regions = true
  reads : ∃ w₁ w₂, heap.readAll layoutData [js "canvasWidth", js "canvasHeight"] w = some w₁ ∧
    heap.get layoutData (js "backgroundColor") w₁ = some (.string colour, w₂) ∧
    heap.get layoutData (js "regions") w₂ = some (.object regions, w₀)

/-- After the reads the call goes on with some canvas. -/
theorem mixLayout_of_opens (h : Opens heap layoutData w colour regions w₀) :
    ∃ canvasWidth canvasHeight,
      (mixLayout heap layoutData).events w =
          (fillLayout heap canvasWidth canvasHeight (napiGetValueNodestring (.string colour))
            regions).events w₀ ∧
        (mixLayout heap layoutData).result w =
          (fillLayout heap canvasWidth canvasHeight (napiGetValueNodestring (.string colour))
            regions).result w₀ := by
  obtain ⟨w₁, w₂, hcanvas, hcolour, hregions⟩ := h.reads
  rw [Heap.readAll, Option.bind_eq_some_iff] at hcanvas
  obtain ⟨⟨width, v₁⟩, hwidth, hcanvas⟩ := hcanvas
  rw [Heap.readAll, Option.bind_eq_some_iff] at hcanvas
  obtain ⟨⟨height, v₂⟩, hheight, hcanvas⟩ := hcanvas
  cases hcanvas
  have harray : napiGetValueArray heap (.object regions) = some regions := if_pos h.isArray
  refine ⟨napiGetValueInt32 width, napiGetValueInt32 height, ?_⟩
  unfold mixLayout napiGetValueInt32Object napiGetValueStringObject napiGetValueArrayObject
  rw [(bind_napiGetValueObject hwidth _).1, (bind_napiGetValueObject hwidth _).2,
    (bind_napiGetValueObject hheight _).1, (bind_napiGetValueObject hheight _).2,
    (bind_napiGetValueObject hcolour _).1, (bind_napiGetValueObject hcolour _).2,
    (bind_napiGetValueObject hregions _).1, (bind_napiGetValueObject hregions _).2, harray]
  exact ⟨rfl, rfl⟩

/-! ## All accesses -/

/-- The string the copy is made of has no NUL. -/
theorem toStdString_eq {s : JsString} (h : s ≠ []) :
    ∃ str, (napiGetValueNodestring (.string s)).toStdString = some str ∧
      Utf.cString str = str := by
  refine ⟨_, toStdString_eq_some_iff.mpr ⟨s, rfl, h, rfl⟩, ?_⟩
  exact Utf.cString_cString _

/-- The accesses of a call, by how it ends: at a read that throws, at the
`std::string` of an empty colour, or with a layout. -/
inductive CallEnds (heap : Heap World Obj) (regions : Obj) (w₀ : World) (colour : JsString)
    (events : List Access) : Prop where
  | throws {j : Nat} {w₁ : World} (walk : Walk heap regions 0 w₀ j w₁)
      (last : ThrowsAt heap regions j w₁)
      (accesses : events = writes 0 j (heap.length regions w₀).toNat)
  | aborts {j : Nat} {w₁ w₂ : World} (walk : Walk heap regions 0 w₀ j w₁)
      (last : Over heap regions j w₁ w₂) (empty : colour = [])
      (accesses : events = writes 0 j (heap.length regions w₀).toNat)
  | stores {j n : Nat} {w₁ w₂ : World} (walk : Walk heap regions 0 w₀ j w₁)
      (last : Over heap regions j w₁ w₂) (nonempty : colour ≠ [])
      (accesses : events = writes 0 j (heap.length regions w₀).toNat ++
        [.copy (n + 1) n, .store (heap.length regions w₂).toNat (heap.length regions w₀).toNat])

theorem events_setMixLayout_of_none (sdk : MixState)
    (h : (mixLayout heap layoutData).result w = none) :
    (setMixLayout heap layoutData sdk).events w = (mixLayout heap layoutData).events w :=
  Traced.events_bind_of_none h _

theorem events_setMixLayout_of_some (sdk : MixState) {layout : RawLayout} {w' : World}
    (h : (mixLayout heap layoutData).result w = some (layout, w')) :
    (setMixLayout heap layoutData sdk).events w =
      (mixLayout heap layoutData).events w ++
        [.store layout.regionCount layout.regions.length] :=
  Traced.events_bind_of_some h _

/-- **Every call** whose argument has an array and a colour ends in one of
the three ways. -/
theorem callEnds_setMixLayout (h : Opens heap layoutData w colour regions w₀) (sdk : MixState) :
    CallEnds heap regions w₀ colour ((setMixLayout heap layoutData sdk).events w) := by
  obtain ⟨canvasWidth, canvasHeight, hevents, hresult⟩ := mixLayout_of_opens h
  have hloop := @regionLoop_ends World Obj heap regions canvasWidth canvasHeight 0 w₀
    (List.replicate (heap.length regions w₀).toNat {})
  rw [List.length_replicate] at hloop
  rw [fillLayout, Traced.events_bind_of_some (Traced.result_look ..), Traced.events_look,
    List.nil_append] at hevents
  rw [fillLayout, Traced.result_bind_of_some (Traced.result_look ..)] at hresult
  cases hloop with
  | throws walk last events result =>
    rw [Traced.events_bind_of_none result, events] at hevents
    rw [Traced.result_bind_of_none result] at hresult
    refine .throws walk last ?_
    rw [events_setMixLayout_of_none sdk hresult, hevents]
  | ended walk last events result length =>
    rw [Traced.events_bind_of_some result, events] at hevents
    rw [Traced.result_bind_of_some result] at hresult
    by_cases hempty : colour = []
    · subst hempty
      refine .aborts walk last rfl ?_
      rw [events_setMixLayout_of_none sdk hresult, hevents]
      exact List.append_nil _
    · obtain ⟨str, hstr, hcopied⟩ := toStdString_eq hempty
      simp only [hstr, hcopied] at hevents hresult
      refine .stores (n := str.length) walk last hempty ?_
      rw [events_setMixLayout_of_some sdk hresult, hevents]
      simp only [length, List.append_assoc]
      rfl

/-! ## Staying inside -/

/-- The writes are inside exactly if no turn is completed at an index the
buffer does not have. -/
theorem writes_inside_iff {j : Nat} {w₁ : World} (hwalk : Walk heap regions 0 w₀ j w₁)
    (hend : ∀ w', ¬ Turn heap regions j w₁ w') (size : Nat) :
    (∀ a ∈ writes 0 j size, a.Inside) ↔
      ∀ i w', Walk heap regions 0 w₀ (i + 1) w' → i < size := by
  constructor
  · intro hall i w' hi
    have hle := (hwalk.extends hend hi).start_le
    exact hall (.write i size) (mem_writes.mpr ⟨i, Nat.zero_le i, hle, rfl⟩)
  · intro hall a ha
    obtain ⟨k, -, hk, rfl⟩ := mem_writes.mp ha
    obtain ⟨w', hw'⟩ := hwalk.passes (Nat.zero_le (k + 1)) hk
    exact hall k w' hw'

/-- Of data only the copy goes wrong. -/
theorem inside_or_copy_of_data {heap : Heap Unit Obj}
    (h : Opens heap layoutData () colour regions ()) (sdk : MixState) :
    ∀ a ∈ (setMixLayout heap layoutData sdk).events (), a.Inside ∨ ∃ n, a = .copy (n + 1) n := by
  -- a turn at an index the array has now is one at an index it had before
  have hlt : ∀ i w', Walk heap regions 0 () (i + 1) w' → i < (heap.length regions ()).toNat := by
    intro i w' hi
    obtain ⟨v, hturn⟩ := hi.last (Nat.succ_pos i)
    exact hturn.1
  intro a ha
  cases callEnds_setMixLayout h sdk with
  | throws walk last accesses =>
    rw [accesses] at ha
    exact Or.inl ((writes_inside_iff walk (fun _ => last.not_turn) _).mpr hlt a ha)
  | aborts walk last empty accesses =>
    rw [accesses] at ha
    exact Or.inl ((writes_inside_iff walk (fun _ => last.not_turn) _).mpr hlt a ha)
  | @stores j n w₁ w₂ walk last nonempty accesses =>
    rw [accesses, List.mem_append, List.mem_cons, List.mem_singleton] at ha
    rcases ha with ha | rfl | rfl
    · exact Or.inl ((writes_inside_iff walk (fun _ => last.not_turn) _).mpr hlt a ha)
    · exact Or.inr ⟨n, rfl⟩
    · exact Or.inl (Nat.le_refl _)

/-- **The exact condition.** The accesses of a call are all inside their
buffers if and only if no turn is completed at an index the array did not
have before the loop, and the call does not come as far as the copy of the
colour: the colour is empty, or a read throws. -/
theorem staysInside_iff (h : Opens heap layoutData w colour regions w₀) (sdk : MixState) :
    (∀ a ∈ (setMixLayout heap layoutData sdk).events w, a.Inside) ↔
      (∀ i w', Walk heap regions 0 w₀ (i + 1) w' → i < (heap.length regions w₀).toNat) ∧
        (colour = [] ∨ Throws heap regions 0 w₀) := by
  cases callEnds_setMixLayout h sdk with
  | throws walk last accesses =>
    rw [accesses, writes_inside_iff walk (fun _ => last.not_turn)]
    exact ⟨fun hall => ⟨hall, Or.inr ⟨_, _, walk, last⟩⟩, And.left⟩
  | aborts walk last empty accesses =>
    rw [accesses, writes_inside_iff walk (fun _ => last.not_turn)]
    exact ⟨fun hall => ⟨hall, Or.inl empty⟩, And.left⟩
  | @stores j n w₁ w₂ walk last nonempty accesses =>
    rw [accesses]
    refine iff_of_false (fun hall => ?_) (fun hcond => ?_)
    · -- the NUL is one byte too many
      have hcopy := hall (.copy (n + 1) n) (List.mem_append_right _ List.mem_cons_self)
      exact Nat.not_succ_le_self n hcopy
    · exact hcond.2.elim nonempty (walk.not_throws last)

/-- The layout every session begins with. -/
def initialObjects : Bool → Heap.DataObject Bool
  | false =>
      { members := [(js "canvasWidth", .number (.finite 640)),
          (js "canvasHeight", .number (.finite 480)),
          (js "backgroundColor", .string (js "#1e272e")), (js "regions", .object true)] }
  | true => { elements := some [] }

theorem opens_initialObjects :
    Opens (Heap.ofObjects initialObjects) false () (js "#1e272e") true () where
  isArray := rfl
  reads := ⟨(), (), rfl, rfl, rfl⟩

inductive GrowingObject where
  | layout
  | regions
  | region
  deriving DecidableEq

/-- A layout without a colour whose one region has a getter: reading its `x`
makes the array two regions long. The world is the length of the array. -/
def growing : Heap Nat GrowingObject where
  isArray o := o = .regions
  length _ n := UInt32.ofNat n
  get o key n :=
    match o with
    | .layout =>
        if key = js "backgroundColor" then some (.string [], n)
        else if key = js "regions" then some (.object .regions, n)
        else some (.number (.finite 640), n)
    | .regions => some (.undefined, n)
    | .region => some (.number (.finite 0), if key = js "x" then 2 else n)
  index _ i n := some (if i < n then .object .region else .undefined, n)

theorem opens_growing : Opens growing .layout 1 [] .regions 1 where
  isArray := rfl
  reads := ⟨1, 1, by decide, by decide, by decide⟩

/-- Both regions are read, the second where the array had none before. -/
theorem walk_growing : Walk growing .regions 0 1 2 2 :=
  .turn (show Turn growing .regions 0 1 2 from ⟨by decide, .region, 1, by decide, by decide⟩)
    (.turn (show Turn growing .regions 1 2 2 from ⟨by decide, .region, 2, by decide, by decide⟩)
      (.refl 2 2))

/-- The first layout fails by the copy of its colour; the second dies before
the copy, and fails by a write behind its only region. -/
theorem not_staysInside_initial_growing :
    (¬ ∀ a ∈ (setMixLayout (Heap.ofObjects initialObjects) false ⟨{}, none⟩).events (),
      a.Inside) ∧
    ¬ ∀ a ∈ (setMixLayout growing .layout ⟨{}, none⟩).events 1, a.Inside := by
  rw [staysInside_iff opens_initialObjects, staysInside_iff opens_growing]
  constructor
  · rintro ⟨-, hempty | ⟨j, w', hwalk, hthrows⟩⟩
    · exact absurd hempty (by decide)
    · exact Nat.not_lt_zero j hthrows.1
  · rintro ⟨hbound, -⟩
    exact absurd (hbound 1 2 walk_growing) (by decide)

/-- The colour of that layout takes 8 bytes and has room for 7. -/
theorem not_all_staysInside :
    ¬ ∀ (World Obj : Type) (heap : Heap World Obj) (layoutData regions : Obj)
      (colour : JsString) (w w₀ : World) (sdk : MixState),
      Opens heap layoutData w colour regions w₀ →
        ∀ a ∈ (setMixLayout heap layoutData sdk).events w, a.Inside := by
  intro hall
  have hinside := hall _ _ _ _ _ _ _ _ ⟨{}, none⟩ opens_initialObjects
  cases callEnds_setMixLayout opens_initialObjects ⟨{}, none⟩ with
  | throws walk last accesses => exact Nat.not_lt_zero _ last.1
  | aborts walk last empty accesses => exact absurd empty (by decide)
  | @stores j n w₁ w₂ walk last nonempty accesses =>
    rw [accesses] at hinside
    have hcopy := hinside (.copy (n + 1) n) (List.mem_append_right _ List.mem_cons_self)
    exact Nat.not_succ_le_self n hcopy

end AgoraRecording.Native
