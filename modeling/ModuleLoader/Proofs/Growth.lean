import ModuleLoader.Proofs.Regimes
import ModuleLoader.Proofs.Sights

/-! Scopes only grow. Frames are made, and names are bound in them, but no act of a run takes a
frame away, or a name out of one: what a name is bound to may change, that it is bound may not. -/
namespace ModuleLoader

open Script

namespace Script.Heap

/-- Every frame of the first heap is in the second, with all its names. -/
structure Grows (h h' : Heap) : Prop where
  frames : h.frames.size ≤ h'.frames.size
  names : ∀ id name, (h.frame id).contains name = true → (h'.frame id).contains name = true

variable {h h' h'' : Heap}

theorem Grows.refl (h : Heap) : h.Grows h :=
  ⟨Nat.le_refl _, fun _ _ hname => hname⟩

theorem Grows.trans (hh : h.Grows h') (hh' : h'.Grows h'') : h.Grows h'' :=
  ⟨Nat.le_trans hh.frames hh'.frames,
    fun id name hname => hh'.names id name (hh.names id name hname)⟩

theorem Grows.of_frames_eq (hframes : h'.frames = h.frames) : h.Grows h' := by
  refine ⟨hframes ▸ Nat.le_refl _, fun id name hname => ?_⟩
  unfold frame
  rwa [hframes]

theorem frame_newFrame {id : FrameId} (hid : id < h.frames.size) (f : Frame) :
    (h.newFrame f).2.frame id = h.frame id :=
  getD_push_of_lt hid _ _

theorem frame_eq_nil {id : FrameId} (hid : h.frames.size ≤ id) : h.frame id = [] := by
  rw [frame, Array.getD_eq_getD_getElem?, Array.getElem?_eq_none hid]
  rfl

theorem grows_newFrame (h : Heap) (f : Frame) : h.Grows (h.newFrame f).2 := by
  refine ⟨by simp [newFrame], fun id name hname => ?_⟩
  obtain hid | hid := Nat.lt_or_ge id h.frames.size
  · rwa [frame_newFrame hid]
  · rw [frame_eq_nil hid] at hname
    cases hname

theorem frame_declare {id : FrameId} (hid : id < h.frames.size) (name : String) (value : Value)
    (mutable : Bool) : (h.declare id name value mutable).frame id =
      (h.frame id).insert name ⟨value, mutable⟩ := by
  simp [declare, modifyFrame, frame, hid, Array.getElem_modify]

theorem frame_declare_of_ne {id id' : FrameId} (hne : id ≠ id') (name : String) (value : Value)
    (mutable : Bool) : (h.declare id name value mutable).frame id' = h.frame id' :=
  getD_modify_of_ne hne _ _

theorem grows_declare (h : Heap) (id : FrameId) (name : String) (value : Value) (mutable : Bool) :
    h.Grows (h.declare id name value mutable) := by
  refine ⟨by simp [declare, modifyFrame], fun id' name' hname => ?_⟩
  obtain rfl | hne := eq_or_ne id id'
  · obtain hid | hid := Nat.lt_or_ge id h.frames.size
    · rw [frame_declare hid, Dict.contains, Dict.get?_insert]
      split
      · rfl
      · exact hname
    · rw [frame_eq_nil hid] at hname
      cases hname
  · rwa [frame_declare_of_ne hne]

theorem grows_assign (h : Heap) (scope : Scope) (name : String) (value : Value) :
    h.Grows (h.assign scope name value) := by
  induction scope with
  | nil => exact .refl h
  | cons id outer ih =>
    unfold assign
    split
    · exact h.grows_declare id name value true
    · exact ih

end Script.Heap

/-- The heap has grown from what it was. -/
def Regime.growing (h₀ : Heap) : Regime where
  heap := h₀.Grows
  scope _ := True
  node _ := True
  target _ := True

theorem Regime.lawful_growing (h₀ : Heap) : (Regime.growing h₀).Lawful where
  part _ _ := trivial
  assigned _ := trivial
  updated _ := trivial
  program _ _ _ := trivial
  data hcode hh := hh.trans (.of_frames_eq (congrArg Prod.fst hcode))
  newFrame {h} hh _ f := ⟨hh.trans (h.grows_newFrame f), trivial⟩
  declare {h} hh id _ _ name value mutable := hh.trans (h.grows_declare id name value mutable)
  assign {h} hh scope _ name _ value := hh.trans (h.grows_assign scope name value)
  newClosure hh _ _ := hh.trans (.of_frames_eq rfl)
  closure _ _ _ _ := trivial

/-! ### Acts -/

/-- Whatever comes of the act, the heap grows. -/
def Run.Grows {α : Type} (x : Run α) : Prop :=
  ∀ m r m', Machine.run m x = some (r, m') → m.heap.Grows m'.heap

namespace Run

variable {α : Type} {x : Run α}

theorem grows_of_keeps {Q : Heap → α → Prop}
    (hx : ∀ h₀, x.Keeps (Regime.growing h₀).contract.holds (Q h₀)) : x.Grows :=
  fun m r m' hrun => (hx m.heap m r m' (Heap.Grows.refl _) hrun).1

theorem Inert.grows (hx : x.Inert) : x.Grows :=
  grows_of_keeps fun h₀ => keeps_inert (Regime.lawful_growing h₀) hx

theorem grows_newScope (outer : Scope) (f : Frame) : (newScope outer f).Grows :=
  grows_of_keeps fun h₀ => keeps_newScope (Regime.lawful_growing h₀) outer f

theorem grows_declare (scope : Scope) (name : String) (value : Value) (mutable : Bool) :
    (declare scope name value mutable).Grows :=
  grows_of_keeps fun h₀ => keeps_declare (Regime.lawful_growing h₀) trivial name value mutable

end Run

namespace Evaluate

open Run

theorem grows_putPlace (scope : Scope) (value : Value) (p : Place) :
    (putPlace scope value p).Grows :=
  grows_of_keeps fun h₀ => keeps_putPlace (Regime.lawful_growing h₀) trivial value p

theorem grows_hoist (scope : Scope) (statements : List Stmt) : (hoist scope statements).Grows :=
  grows_of_keeps fun h₀ =>
    keeps_hoist (Regime.lawful_growing h₀) trivial fun _ _ => trivial

theorem grows_functionValue (literal : FunctionDef) (scope : Scope) :
    (functionValue literal scope).Grows :=
  grows_of_keeps fun h₀ =>
    keeps_functionValue (Regime.lawful_growing h₀) (fun _ _ => trivial) scope

theorem grows_compile (source : String) : (compile source).Grows :=
  grows_of_keeps fun h₀ => keeps_compile (Regime.lawful_growing h₀) source

end Evaluate

end ModuleLoader
