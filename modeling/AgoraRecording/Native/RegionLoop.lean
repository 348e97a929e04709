/-
AgoraRecording.Native.RegionLoop — the region loop of `setMixLayout`, one
turn at a time.

Seen from JavaScript a turn is a walk over one element: the element is
read, then seven properties of it (`Turn`). The walk is over where the
array is or where an element is not an object (`Over`), and a read that
throws ends the process (`ThrowsAt`). Exactly one of the three holds of
each index and world, and one lemma each says what the loop does there.

Reads can lengthen the array, but its length stays a `uint32`: every walk
comes to an end (`walk_induct`).
-/
import AgoraRecording.Native.SetMixLayout

namespace AgoraRecording.Native

open AgoraRecording.Lib AgoraRecording.Js

variable {World Obj : Type} {heap : Heap World Obj} {regions : Obj}

/-! ## Reads -/

theorem result_napiGetValueObject {β : Type} (heap : Heap World Obj) (convert : JsValue Obj → β)
    (object : Obj) (strKey : JsString) (w : World) :
    (napiGetValueObject heap convert object strKey).result w =
      (heap.get object strKey w).map (fun p => (convert p.1, p.2)) := by
  rw [napiGetValueObject, Traced.result_bind, Traced.result_lift]
  cases heap.get object strKey w <;> rfl

theorem events_napiGetValueObject {β : Type} (heap : Heap World Obj) (convert : JsValue Obj → β)
    (object : Obj) (strKey : JsString) (w : World) :
    (napiGetValueObject heap convert object strKey).events w = [] :=
  Traced.events_bind_eq_nil (fun _ => rfl) (fun _ _ => rfl) w

/-- A read that does not throw passes its cell on, and logs nothing. -/
theorem bind_napiGetValueObject {β γ : Type} {convert : JsValue Obj → β} {object : Obj}
    {strKey : JsString} {w w' : World} {value : JsValue Obj}
    (h : heap.get object strKey w = some (value, w')) (f : β → Call World γ) :
    (napiGetValueObject heap convert object strKey >>= f).events w =
        (f (convert value)).events w' ∧
      (napiGetValueObject heap convert object strKey >>= f).result w =
        (f (convert value)).result w' := by
  have hresult : (napiGetValueObject heap convert object strKey).result w =
      some (convert value, w') := by
    rw [result_napiGetValueObject, h, Option.map_some]
  rw [Traced.events_bind_of_some hresult, Traced.result_bind_of_some hresult,
    events_napiGetValueObject]
  exact ⟨rfl, rfl⟩

theorem events_readRegion (heap : Heap World Obj) (region : Obj) (w : World) :
    (readRegion heap region).events w = [] := by
  unfold readRegion
  refine Traced.events_bind_eq_nil (fun _ => events_napiGetValueObject ..) (fun _ => ?_) w
  refine Traced.events_bind_eq_nil (fun _ => events_napiGetValueObject ..) (fun _ => ?_)
  refine Traced.events_bind_eq_nil (fun _ => events_napiGetValueObject ..) (fun _ => ?_)
  refine Traced.events_bind_eq_nil (fun _ => events_napiGetValueObject ..) (fun _ => ?_)
  refine Traced.events_bind_eq_nil (fun _ => events_napiGetValueObject ..) (fun _ => ?_)
  refine Traced.events_bind_eq_nil (fun _ => events_napiGetValueObject ..) (fun _ => ?_)
  exact Traced.events_bind_eq_nil (fun _ => events_napiGetValueObject ..) (fun _ _ => rfl)

/-- The properties of a region, in the order they are read. -/
def regionKeys : List JsString :=
  [js "x", js "y", js "zOrder", js "alpha", js "width", js "height", js "uid"]

/-- The reads of a turn read those properties and no others. -/
theorem readAll_regionKeys (heap : Heap World Obj) (region : Obj) (w : World) :
    heap.readAll region regionKeys w = ((readRegion heap region).result w).map Prod.snd := by
  simp only [regionKeys, Heap.readAll, readRegion, napiGetValueDoubleObject,
    napiGetValueInt32Object, napiGetValueUint32Object, Traced.result_bind, Traced.result_pure,
    result_napiGetValueObject, Option.bind_map, Option.map_bind, Function.comp_def, Option.map_some]

/-! ## Turns -/

/-- Element `i` is an object whose seven properties can be read. -/
def Turn (heap : Heap World Obj) (regions : Obj) (i : Nat) (w w' : World) : Prop :=
  i < (heap.length regions w).toNat ∧
    ∃ o w₁, heap.index regions i w = some (.object o, w₁) ∧
      heap.readAll o regionKeys w₁ = some w'

/-- There is no element `i`, or it is not an object. -/
def Over (heap : Heap World Obj) (regions : Obj) (i : Nat) (w w' : World) : Prop :=
  (¬ i < (heap.length regions w).toNat ∧ w' = w) ∨
    (i < (heap.length regions w).toNat ∧
      ∃ value, heap.index regions i w = some (value, w') ∧ ∀ o, value ≠ .object o)

/-- Reading element `i`, or a property of it, throws. -/
def ThrowsAt (heap : Heap World Obj) (regions : Obj) (i : Nat) (w : World) : Prop :=
  i < (heap.length regions w).toNat ∧
    (heap.index regions i w = none ∨
      ∃ o w₁, heap.index regions i w = some (.object o, w₁) ∧
        heap.readAll o regionKeys w₁ = none)

theorem turn_cases (heap : Heap World Obj) (regions : Obj) (i : Nat) (w : World) :
    (∃ w', Turn heap regions i w w') ∨ (∃ w', Over heap regions i w w') ∨
      ThrowsAt heap regions i w := by
  by_cases hlt : i < (heap.length regions w).toNat
  · cases hindex : heap.index regions i w with
    | none => exact Or.inr (Or.inr ⟨hlt, Or.inl hindex⟩)
    | some p =>
      obtain ⟨value, w₁⟩ := p
      by_cases hobject : ∃ o, value = .object o
      · obtain ⟨o, rfl⟩ := hobject
        cases hread : heap.readAll o regionKeys w₁ with
        | none => exact Or.inr (Or.inr ⟨hlt, Or.inr ⟨o, w₁, hindex, hread⟩⟩)
        | some w' => exact Or.inl ⟨w', hlt, o, w₁, hindex, hread⟩
      · exact Or.inr (Or.inl ⟨w₁, Or.inr ⟨hlt, value, hindex, fun o ho => hobject ⟨o, ho⟩⟩⟩)
  · exact Or.inr (Or.inl ⟨w, Or.inl ⟨hlt, rfl⟩⟩)

theorem Turn.eq {i : Nat} {w w₁ w₂ : World} (h₁ : Turn heap regions i w w₁)
    (h₂ : Turn heap regions i w w₂) : w₁ = w₂ := by
  obtain ⟨-, o, v, hindex, hread⟩ := h₁
  obtain ⟨-, o', v', hindex', hread'⟩ := h₂
  rw [hindex] at hindex'
  cases hindex'
  exact Option.some.inj (hread.symm.trans hread')

theorem Over.not_turn {i : Nat} {w w₁ w₂ : World} (h : Over heap regions i w w₁) :
    ¬ Turn heap regions i w w₂ := by
  rintro ⟨hlt, o, v, hindex, -⟩
  rcases h with ⟨hnot, -⟩ | ⟨-, value, hvalue, hobject⟩
  · exact hnot hlt
  · rw [hindex] at hvalue
    cases hvalue
    exact hobject o rfl

theorem ThrowsAt.not_turn {i : Nat} {w w₂ : World} (h : ThrowsAt heap regions i w) :
    ¬ Turn heap regions i w w₂ := by
  rintro ⟨-, o, v, hindex, hread⟩
  rcases h.2 with hnone | ⟨o', v', hindex', hread'⟩
  · rw [hindex] at hnone
    cases hnone
  · rw [hindex] at hindex'
    cases hindex'
    rw [hread] at hread'
    cases hread'

theorem ThrowsAt.not_over {i : Nat} {w w' : World} (h : ThrowsAt heap regions i w) :
    ¬ Over heap regions i w w' := by
  rintro (⟨hnot, -⟩ | ⟨-, value, hvalue, hobject⟩)
  · exact hnot h.1
  · rcases h.2 with hnone | ⟨o, v, hindex, -⟩
    · rw [hvalue] at hnone
      cases hnone
    · rw [hvalue] at hindex
      cases hindex
      exact hobject o rfl

/-! ## What the loop does in a turn -/

variable (canvasWidth canvasHeight : Cell Int)

theorem regionLoop_over {i : Nat} {w w' : World} (h : Over heap regions i w w')
    (buf : List RawRegion) :
    (regionLoop heap regions canvasWidth canvasHeight i buf).events w = [] ∧
      (regionLoop heap regions canvasWidth canvasHeight i buf).result w = some (buf, w') := by
  rw [regionLoop, Traced.events_bind_of_some (Traced.result_look ..), Traced.events_look,
    Traced.result_bind_of_some (Traced.result_look ..), List.nil_append]
  rcases h with ⟨hnot, rfl⟩ | ⟨hlt, value, hvalue, hobject⟩
  · rw [dif_neg hnot]
    exact ⟨rfl, rfl⟩
  · rw [dif_pos hlt, Traced.events_bind_of_some ((Traced.result_lift _ w).trans hvalue),
      Traced.events_lift, Traced.result_bind_of_some ((Traced.result_lift _ w).trans hvalue)]
    cases value with
    | object o => exact absurd rfl (hobject o)
    | _ => exact ⟨rfl, rfl⟩

theorem regionLoop_throws {i : Nat} {w : World} (h : ThrowsAt heap regions i w)
    (buf : List RawRegion) :
    (regionLoop heap regions canvasWidth canvasHeight i buf).events w = [] ∧
      (regionLoop heap regions canvasWidth canvasHeight i buf).result w = none := by
  rw [regionLoop, Traced.events_bind_of_some (Traced.result_look ..), Traced.events_look,
    Traced.result_bind_of_some (Traced.result_look ..), List.nil_append, dif_pos h.1]
  rcases h.2 with hnone | ⟨o, v, hindex, hread⟩
  · rw [Traced.events_bind_of_none ((Traced.result_lift _ w).trans hnone),
      Traced.result_bind_of_none ((Traced.result_lift _ w).trans hnone)]
    exact ⟨rfl, rfl⟩
  · rw [Traced.events_bind_of_some ((Traced.result_lift _ w).trans hindex),
      Traced.events_lift, Traced.result_bind_of_some ((Traced.result_lift _ w).trans hindex)]
    rw [readAll_regionKeys, Option.map_eq_none_iff] at hread
    simp only
    rw [Traced.events_bind_of_none hread, Traced.result_bind_of_none hread, events_readRegion]
    exact ⟨rfl, rfl⟩

/-- A turn reads the region, writes it and goes on. -/
theorem regionLoop_turn {i : Nat} {w w₁ w₂ : World} {o : Obj} {locals : RegionLocals}
    (hlt : i < (heap.length regions w).toNat)
    (hindex : heap.index regions i w = some (.object o, w₁))
    (hread : (readRegion heap o).result w₁ = some (locals, w₂)) (buf : List RawRegion) :
    (regionLoop heap regions canvasWidth canvasHeight i buf).events w =
        .write i buf.length ::
          (regionLoop heap regions canvasWidth canvasHeight (i + 1)
            (buf.set i (locals.toRegion canvasWidth canvasHeight))).events w₂ ∧
      (regionLoop heap regions canvasWidth canvasHeight i buf).result w =
        (regionLoop heap regions canvasWidth canvasHeight (i + 1)
          (buf.set i (locals.toRegion canvasWidth canvasHeight))).result w₂ := by
  rw [regionLoop, Traced.events_bind_of_some (Traced.result_look ..), Traced.events_look,
    Traced.result_bind_of_some (Traced.result_look ..), List.nil_append, dif_pos hlt,
    Traced.events_bind_of_some ((Traced.result_lift _ w).trans hindex),
    Traced.events_lift, Traced.result_bind_of_some ((Traced.result_lift _ w).trans hindex)]
  simp only
  rw [Traced.events_bind_of_some hread, Traced.result_bind_of_some hread, events_readRegion,
    Traced.events_bind_of_some (Traced.result_log ..),
    Traced.result_bind_of_some (Traced.result_log ..), Traced.events_log]
  exact ⟨rfl, rfl⟩

/-! ## Walks -/

/-- Turns `i` to `j`, without `j`. -/
inductive Walk (heap : Heap World Obj) (regions : Obj) : Nat → World → Nat → World → Prop where
  | refl (i : Nat) (w : World) : Walk heap regions i w i w
  | turn {i j : Nat} {w w₁ w' : World} (h : Turn heap regions i w w₁)
      (rest : Walk heap regions (i + 1) w₁ j w') : Walk heap regions i w j w'

/-- A walk ends in a read that throws. -/
def Throws (heap : Heap World Obj) (regions : Obj) (i : Nat) (w : World) : Prop :=
  ∃ j w', Walk heap regions i w j w' ∧ ThrowsAt heap regions j w'

/-- **Every walk ends**: what holds where it is over and where it throws,
and before a turn if after it, holds at every index and world. -/
theorem walk_induct (heap : Heap World Obj) (regions : Obj) {motive : Nat → World → Prop}
    (ended : ∀ i w w', Over heap regions i w w' → motive i w)
    (throws : ∀ i w, ThrowsAt heap regions i w → motive i w)
    (turn : ∀ i w w', Turn heap regions i w w' → motive (i + 1) w' → motive i w)
    (i : Nat) (w : World) : motive i w := by
  rcases turn_cases heap regions i w with ⟨w', h⟩ | ⟨w', h⟩ | h
  · exact turn i w w' h (walk_induct heap regions ended throws turn (i + 1) w')
  · exact ended i w w' h
  · exact throws i w h
termination_by 2 ^ 32 - i
decreasing_by
  have hlt := (heap.length regions w).toNat_lt
  have hturn := h.1
  omega

theorem Walk.start_le {i j : Nat} {w w' : World} (h : Walk heap regions i w j w') : i ≤ j := by
  induction h with
  | refl => exact Nat.le_refl _
  | turn _ _ ih => exact Nat.le_of_succ_le ih

/-- A walk that cannot go on goes on from wherever another walk gets. -/
theorem Walk.extends {i j k : Nat} {w w₁ w₂ : World} (h : Walk heap regions i w j w₁)
    (hend : ∀ w', ¬ Turn heap regions j w₁ w') (hk : Walk heap regions i w k w₂) :
    Walk heap regions k w₂ j w₁ := by
  induction hk with
  | refl => exact h
  | turn hturn rest ih =>
    cases h with
    | refl => exact absurd hturn (hend _)
    | turn hturn' rest' =>
      cases hturn.eq hturn'
      exact ih rest'

/-- A walk passes every index on its way. -/
theorem Walk.passes {i j k : Nat} {w w' : World} (h : Walk heap regions i w j w') (hik : i ≤ k)
    (hkj : k ≤ j) : ∃ w₁, Walk heap regions i w k w₁ := by
  induction h with
  | refl i w =>
    obtain rfl := Nat.le_antisymm hik hkj
    exact ⟨w, .refl _ w⟩
  | @turn i j w w₁ w' hturn rest ih =>
    by_cases heq : i = k
    · subst heq
      exact ⟨w, .refl i w⟩
    · obtain ⟨w₂, hwalk⟩ := ih (by omega) hkj
      exact ⟨w₂, .turn hturn hwalk⟩

/-- The last turn of a walk. -/
theorem Walk.last {i j : Nat} {w w' : World} (h : Walk heap regions i w (j + 1) w')
    (hij : i < j + 1) : ∃ w₁, Turn heap regions j w₁ w' := by
  generalize hk : j + 1 = k at h
  induction h with
  | refl => omega
  | @turn i k w w₁ w' hturn rest ih =>
    by_cases heq : i = j
    · subst heq
      subst hk
      cases rest with
      | refl => exact ⟨w, hturn⟩
      | turn _ rest' =>
        have hle := rest'.start_le
        omega
    · exact ih (by omega) hk

/-- A loop that is over does not throw on the way. -/
theorem Walk.not_throws {i j : Nat} {w w₁ w₂ : World} (h : Walk heap regions i w j w₁)
    (hover : Over heap regions j w₁ w₂) : ¬ Throws heap regions i w := by
  rintro ⟨k, v, hk, hthrows⟩
  cases h.extends (fun _ => hover.not_turn) hk with
  | refl => exact hthrows.not_over hover
  | turn hturn _ => exact hthrows.not_turn hturn

/-- The writes of turns `i` to `j`, without `j`, to a buffer of `size`
elements. -/
def writes (i j size : Nat) : List Access :=
  (List.range' i (j - i)).map (fun k => .write k size)

theorem writes_self (i size : Nat) : writes i i size = [] := by
  rw [writes, Nat.sub_self]
  rfl

theorem writes_of_lt {i j size : Nat} (h : i < j) :
    writes i j size = .write i size :: writes (i + 1) j size := by
  have hcount : j - i = (j - (i + 1)) + 1 := by omega
  rw [writes, hcount, List.range'_succ, List.map_cons, writes]

theorem mem_writes {i j size : Nat} {a : Access} :
    a ∈ writes i j size ↔ ∃ k, i ≤ k ∧ k < j ∧ a = .write k size := by
  simp only [writes, List.mem_map, List.mem_range'_1]
  constructor
  · rintro ⟨k, hk, rfl⟩
    exact ⟨k, hk.1, by omega, rfl⟩
  · rintro ⟨k, hik, hkj, rfl⟩
    exact ⟨k, ⟨hik, by omega⟩, rfl⟩

/-- How a loop that begins with turn `i` and a buffer of `size` elements
ends: with the writes of a walk, and with a buffer of the same size unless
the walk ends in a throw. -/
inductive LoopEnds (heap : Heap World Obj) (regions : Obj) (i : Nat) (w : World) (size : Nat)
    (loop : Call World (List RawRegion)) : Prop where
  | ended {j : Nat} {w₁ w₂ : World} {buf : List RawRegion} (walk : Walk heap regions i w j w₁)
      (last : Over heap regions j w₁ w₂) (events : loop.events w = writes i j size)
      (result : loop.result w = some (buf, w₂)) (length : buf.length = size)
  | throws {j : Nat} {w₁ : World} (walk : Walk heap regions i w j w₁)
      (last : ThrowsAt heap regions j w₁) (events : loop.events w = writes i j size)
      (result : loop.result w = none)

/-- A turn in front. -/
theorem LoopEnds.turn {i size : Nat} {w w₁ : World} {loop next : Call World (List RawRegion)}
    (hturn : Turn heap regions i w w₁) (hevents : loop.events w = .write i size :: next.events w₁)
    (hresult : loop.result w = next.result w₁) (h : LoopEnds heap regions (i + 1) w₁ size next) :
    LoopEnds heap regions i w size loop := by
  cases h with
  | ended walk last events result length =>
    refine .ended (.turn hturn walk) last ?_ (hresult.trans result) length
    rw [hevents, events, writes_of_lt walk.start_le]
  | throws walk last events result =>
    refine .throws (.turn hturn walk) last ?_ (hresult.trans result)
    rw [hevents, events, writes_of_lt walk.start_le]

/-- **The loop** writes the elements of its walk, each once and in order. -/
theorem regionLoop_ends (i : Nat) (w : World) (buf : List RawRegion) :
    LoopEnds heap regions i w buf.length
      (regionLoop heap regions canvasWidth canvasHeight i buf) := by
  induction i, w using walk_induct heap regions generalizing buf with
  | ended i w w' hover =>
    obtain ⟨hevents, hresult⟩ := regionLoop_over canvasWidth canvasHeight hover buf
    exact .ended (.refl i w) hover (hevents.trans (writes_self i _).symm) hresult rfl
  | throws i w hthrows =>
    obtain ⟨hevents, hresult⟩ := regionLoop_throws canvasWidth canvasHeight hthrows buf
    exact .throws (.refl i w) hthrows (hevents.trans (writes_self i _).symm) hresult
  | turn i w w' hturn ih =>
    obtain ⟨hlt, o, w₁, hindex, hread⟩ := id hturn
    rw [readAll_regionKeys] at hread
    obtain ⟨⟨locals, w₂⟩, hread', rfl⟩ := Option.map_eq_some_iff.mp hread
    obtain ⟨hevents, hresult⟩ :=
      regionLoop_turn canvasWidth canvasHeight hlt hindex hread' buf
    have hrest := ih (buf.set i (locals.toRegion canvasWidth canvasHeight))
    rw [List.length_set] at hrest
    exact hrest.turn hturn hevents hresult

end AgoraRecording.Native
