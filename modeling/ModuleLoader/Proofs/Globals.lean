import ModuleLoader.Proofs.Depth
import ModuleLoader.Proofs.Regimes

/-! The globals of a realm. Scripts run in scopes that have a frame of their own before the globals,
and so do the functions that they call, so what they declare goes to another frame; and as all
globals are constant, no assignment gets through to them. -/
namespace ModuleLoader

open Script

theorem Dict.mem_of_get? {α : Type} {d : Dict α} {key : String} {a : α}
    (h : d.get? key = some a) : (key, a) ∈ d := by
  induction d with
  | nil => contradiction
  | cons pair rest ih =>
    obtain ⟨k, v⟩ := pair
    rw [get?] at h
    split at h
    · rename_i hk
      rw [hk, Option.some.inj h]
      exact List.mem_cons_self ..
    · exact List.mem_cons_of_mem _ (ih h)

/-! ### The frame of the globals -/

/-- What is declared in the scope is not declared among the globals. -/
def Script.Scope.Inner (scope : Scope) : Prop :=
  scope.head? ≠ some globalFrame

namespace Script.Heap

/-- The globals are those of a new realm. -/
def InRealm (h : Heap) : Prop :=
  h.frames[globalFrame]? = realm.frames[globalFrame]?

variable {h h' : Heap}

theorem inRealm_realm : realm.InRealm := rfl

theorem InRealm.of_frames_eq (hh : h.InRealm) (hframes : h'.frames = h.frames) : h'.InRealm := by
  unfold InRealm
  rwa [hframes]

theorem InRealm.frame (hh : h.InRealm) : h.frame globalFrame = realm.frame globalFrame := by
  unfold Heap.frame
  rw [Array.getD_eq_getD_getElem?, Array.getD_eq_getD_getElem?, hh]

theorem InRealm.size_pos (hh : h.InRealm) : 0 < h.frames.size := by
  obtain ⟨hsize, -⟩ := Array.getElem?_eq_some_iff.mp (hh.trans rfl)
  exact hsize

theorem InRealm.newFrame (hh : h.InRealm) (frame : Frame) : (h.newFrame frame).2.InRealm :=
  (Array.getElem?_push_lt hh.size_pos).trans ((Array.getElem?_eq_getElem _).symm.trans hh)

theorem InRealm.inner_newFrame (hh : h.InRealm) (frame : Frame) (outer : Scope) :
    Scope.Inner ((h.newFrame frame).1 :: outer) := by
  intro hhead
  exact Nat.ne_of_gt hh.size_pos (Option.some.inj hhead)

theorem InRealm.declare (hh : h.InRealm) {id : FrameId} (hid : id ≠ globalFrame) (name : String)
    (value : Value) (mutable : Bool) : (h.declare id name value mutable).InRealm := by
  refine Eq.trans ?_ hh
  exact (Array.getElem?_modify ..).trans (if_neg hid)

theorem mutable_of_global {name : String} {b : Binding}
    (hb : (realm.frame globalFrame).get? name = some b) : b.mutable = false := by
  have hconstant : ∀ p ∈ realm.frame globalFrame, p.2.mutable = false := by
    simp [realm, Heap.frame, globalFrame]
  exact hconstant _ (Dict.mem_of_get? hb)

/-- An assignment that does not fail is to a frame other than that of the globals. -/
theorem InRealm.assign (hh : h.InRealm) {scope : Scope} {name : String}
    (hfault : h.assignFault? scope name = none) (value : Value) :
    (h.assign scope name value).InRealm := by
  induction scope with
  | nil => exact hh
  | cons id outer ih =>
    unfold Heap.assign
    rw [assignFault?, binding?] at hfault
    cases hb : (h.frame id).get? name with
    | none =>
      rw [Dict.contains, hb, Option.isSome_none, if_neg Bool.false_ne_true]
      rw [hb] at hfault
      exact ih hfault
    | some b =>
      rw [Dict.contains, hb, Option.isSome_some, if_pos rfl]
      rw [hb] at hfault
      refine hh.declare ?_ name value true
      rintro rfl
      rw [hh.frame] at hb
      simp [mutable_of_global hb] at hfault

end Script.Heap

/-- The globals are as they were, and no task declares anything among them. -/
def Regime.globals : Regime where
  heap := Heap.InRealm
  scope := Scope.Inner
  node _ := True
  target _ := True

theorem Regime.lawful_globals : Regime.globals.Lawful where
  part _ _ := trivial
  assigned _ := trivial
  updated _ := trivial
  program _ _ _ := trivial
  data hcode hh := hh.of_frames_eq (congrArg Prod.fst hcode)
  newFrame hh outer frame := ⟨hh.newFrame frame, hh.inner_newFrame frame outer⟩
  declare hh _ _ hs name value mutable :=
    hh.declare (fun hid => hs (congrArg some hid)) name value mutable
  assign hh _ _ _ hfault value := hh.assign hfault value
  newClosure hh _ _ := hh.of_frames_eq rfl
  closure _ _ _ _ := trivial

/-! ### The life of a realm -/

/-- The task declares nothing among the globals itself. -/
def Task.Inner : Task → Prop
  | value _ scope | place _ scope | method _ scope | statement _ scope | body _ scope => scope.Inner
  | call _ _ _ | load _ _ | start _ _ => True

theorem Task.Inner.admits {t : Task} (h : t.Inner) : Regime.globals.Admits t := by
  cases t with
  | value e scope => exact ⟨trivial, h⟩
  | place e scope => exact ⟨trivial, trivial, h⟩
  | method e scope => exact ⟨trivial, h⟩
  | statement s scope => exact ⟨trivial, h⟩
  | body statements scope => exact ⟨fun _ _ => trivial, h⟩
  | call f this args => trivial
  | load reference dir => trivial
  | start u s => trivial

namespace Moment

/-- One moment comes directly after another in a realm. Between its requests the host may do what
it likes with everything but scopes; it may open scopes, and declare variables in those. -/
inductive Ensues : Moment → Moment → Prop where
  | step {a b : Moment} (h : a.step = some b) : Ensues a b
  | returned {t : Task} {r : Except Exception t.Result} {m : Machine} :
      Ensues (.leaving t r (.bottom t) m) (.resting m)
  | worked {m m' : Machine} (h : m'.heap.frames = m.heap.frames) :
      Ensues (.resting m) (.resting m')
  | opened {m : Machine} (frame : Frame) :
      Ensues (.resting m) (.resting { m with heap := (m.heap.newFrame frame).2 })
  | declared {m : Machine} {id : FrameId} (hid : id ≠ globalFrame) (name : String) (value : Value)
      (mutable : Bool) :
      Ensues (.resting m) (.resting { m with heap := m.heap.declare id name value mutable })
  | requested {n : Nat} {t : Task} {m : Machine} (ht : t.Inner) :
      Ensues (.resting m) (.entering n t (.bottom t) m)

/-- The moment is part of the life of a realm. -/
def InRealm (a : Moment) : Prop :=
  ∃ m : Machine, m.heap = realm ∧ Relation.ReflTransGen Ensues (.resting m) a

theorem Ensues.keeps {a b : Moment} (h : Ensues a b) (ha : a.Keeps Regime.globals.contract) :
    b.Keeps Regime.globals.contract := by
  cases h with
  | step h => exact ha.step Regime.lawful_globals.kept h
  | returned => exact ha.1
  | worked h => exact Heap.InRealm.of_frames_eq ha h
  | opened frame => exact Heap.InRealm.newFrame ha frame
  | declared hid name value mutable => exact Heap.InRealm.declare ha hid name value mutable
  | requested ht => exact ⟨ha, ht.admits, trivial⟩

theorem InRealm.heap {a : Moment} (h : a.InRealm) : a.machine.heap.InRealm := by
  obtain ⟨m, hm, hlife⟩ := h
  have hkeeps : a.Keeps Regime.globals.contract := by
    induction hlife with
    | refl => exact (congrArg Heap.InRealm hm).mpr Heap.inRealm_realm
    | tail _ hlast ih => exact hlast.keeps ih
  cases a with
  | resting m => exact hkeeps
  | entering n t stack m => exact hkeeps.1
  | leaving t r stack m => exact hkeeps.1

theorem InRealm.ensues {a b : Moment} (h : a.InRealm) (hab : Ensues a b) : b.InRealm := by
  obtain ⟨m, hm, hlife⟩ := h
  exact ⟨m, hm, hlife.tail hab⟩

/-- A request of the host that ends leaves the host in the same realm. -/
theorem InRealm.run {m m' : Machine} (h : InRealm (.resting m)) {n : Nat} {t : Task}
    (ht : t.Inner) {r : Except Exception t.Result}
    (hrun : m.run (Evaluate.perform n t) = some (r, m')) : InRealm (.resting m') := by
  obtain ⟨m₀, hm₀, hlife⟩ := h
  have hsteps := Relation.ReflTransGen.mono (fun _ _ => Ensues.step) _ _
    (steps_of_perform hrun (.bottom t))
  exact ⟨m₀, hm₀, ((hlife.tail (.requested ht)).trans hsteps).tail .returned⟩

theorem InRealm.loadIn {m m' : Machine} (h : InRealm (.resting m)) {n : Nat} {reference : String}
    {dir : Path} {r : Except LoadFault Value} (hload : m.loadIn n reference dir = some (r, m')) :
    InRealm (.resting m') := by
  have hrested : InRealm (.resting (m.rested m.loader.callDepth)) := h.ensues (.worked rfl)
  unfold Machine.loadIn at hload
  split at hload
  · contradiction
  · rename_i v m₁ hrun
    cases hload
    exact hrested.run (t := .load reference dir) trivial hrun
  · rename_i e m₁ hrun
    cases hload
    exact hrested.run (t := .load reference dir) trivial hrun

/-- At every moment in the life of a realm, in the middle of its runs and between them, the frame of
the globals is what it was at first: it has the same names bound to the same values, all constant.
So a name that is looked up among the globals is found there if and only if it was at first. Between
its requests the host may run programs in scopes that have a frame before the globals, compile
sources, call what they were compiled to and whatever else it has, and load modules; whether these
end with a value or with an exception, the life of the realm goes on. -/
theorem globals_never_rebound {a : Moment} (h : a.InRealm) :
    a.machine.heap.frame globalFrame = realm.frame globalFrame ∧
    (∀ {name b}, (a.machine.heap.frame globalFrame).get? name = some b → b.mutable = false) ∧
    (∀ name, a.machine.heap.binding? globalScope name = realm.binding? globalScope name) ∧
    ∀ {m}, a = .resting m →
      (∀ {n p id outer r m'}, id ≠ globalFrame →
        m.run (Evaluate.program n p (id :: outer)) = some (r, m') → InRealm (.resting m')) ∧
      (∀ {source r m'}, m.run (Evaluate.compile source) = some (r, m') → InRealm (.resting m')) ∧
      (∀ {n f this args r m'}, m.run (Evaluate.call n f this args) = some (r, m') →
        InRealm (.resting m')) ∧
      ∀ {n reference dir r m'}, m.loadIn n reference dir = some (r, m') →
        InRealm (.resting m') := by
  have hframe := h.heap.frame
  refine ⟨hframe, ?_, ?_, ?_⟩
  · intro name b hb
    rw [hframe] at hb
    exact Heap.mutable_of_global hb
  · intro name
    simp only [globalScope, Heap.binding?, hframe]
  · rintro m rfl
    refine ⟨?_, ?_, ?_, ?_⟩
    · intro n p id outer r m' hid hrun
      have hinner : Task.Inner (.body p.statements (id :: outer)) :=
        fun hhead => hid (Option.some.inj hhead)
      obtain ⟨e, hbody, -⟩ | ⟨c, m₁, hbody, hend⟩ := Machine.run_bind_eq_some hrun
      · exact h.run hinner hbody
      · cases hend
        exact h.run hinner hbody
    · intro source r m' hrun
      unfold Evaluate.compile at hrun
      split at hrun
      · cases hrun
        exact h
      · cases hrun
        exact h.ensues (.worked rfl)
    · intro n f this args r m' hrun
      exact h.run (t := .call f this args) trivial hrun
    · intro n reference dir r m' hload
      exact h.loadIn hload

end Moment

namespace Sample

/-- A script that declares names of globals in every way it has, and assigns to one. -/
def rebinding : String :=
  "function print() \x7b\x7d let JSON = 1; try \x7b NaN = 1; \x7d " ++
    "catch (Infinity) \x7b const console = Infinity.name; return console; \x7d"

/-- A machine that a scope was opened on before the globals. -/
def opened : Machine :=
  { machine with heap := (realm.newFrame []).2 }

end Sample

theorem Moment.globals_never_rebound_sample : ∃ p m',
    Program.ofSource Sample.rebinding = .ok p ∧
    Sample.opened.run (Evaluate.program 60 p [realm.frames.size, globalFrame]) =
      some (.ok (.string "TypeError"), m') ∧
    m'.heap.frame globalFrame = realm.frame globalFrame := by
  have hrun : ((Program.ofSource Sample.rebinding).toOption.any fun p =>
      (Sample.opened.run (Evaluate.program 60 p [realm.frames.size, globalFrame])).any fun q =>
        Sample.givesText "TypeError" q.1) = true := by
    decide +kernel
  obtain ⟨p, hp, hrun⟩ := (Option.any_eq_true ..).mp hrun
  obtain ⟨⟨r, m'⟩, hrun, hr⟩ := (Option.any_eq_true ..).mp hrun
  obtain rfl := Sample.eq_of_givesText hr
  have hopened : InRealm (.resting Sample.opened) :=
    ⟨Sample.machine, rfl, .single (.opened [])⟩
  obtain ⟨-, -, -, hrequests⟩ := globals_never_rebound hopened
  have hafter := (hrequests rfl).1 (by decide) hrun
  exact ⟨p, m', Sample.eq_ok_of_toOption hp, hrun, (globals_never_rebound hafter).1⟩

end ModuleLoader
