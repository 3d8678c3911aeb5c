import ModuleLoader.Proofs.Once
import ModuleLoader.Proofs.Outlooks

/-! Loadings that end before they begin. A module that an obstacle keeps from being run leaves
nothing behind but its entry among the failed ones: whoever asks for it later is given the empty
object that it was created with. -/
namespace ModuleLoader

open Script

/-! ### What a creation leaves alone -/

namespace Script.Heap

variable {h : Heap} {id : Path}

theorem size_create (h : Heap) (id : Path) :
    (Module.create h id).2.objects.size = h.objects.size + 2 := by
  simp [Module.create, newObject]

theorem create_object (h : Heap) (id : Path) :
    (Module.create h id).1.object = h.objects.size + 1 :=
  Array.size_push _

theorem object_create_of_lt {i : ObjectId} (hi : i < h.objects.size) :
    (Module.create h id).2.object i = h.object i := by
  have hexports := getD_push_of_lt hi ([] : Dict Value) []
  have hlt : i < (h.newObject []).2.objects.size := by
    rw [newObject, Array.size_push]
    exact Nat.lt_succ_of_lt hi
  exact (getD_push_of_lt hlt _ []).trans hexports

theorem object_create_exports (h : Heap) (id : Path) :
    (Module.create h id).2.object h.objects.size = [] := by
  have hlt : h.objects.size < (h.newObject []).2.objects.size := by
    rw [newObject, Array.size_push]
    exact Nat.lt_succ_self _
  exact (getD_push_of_lt hlt _ []).trans (getD_push_size h.objects [] [])

theorem object_create_module (h : Heap) (id : Path) :
    (Module.create h id).2.object (h.objects.size + 1) =
      [("id", .string id.text), ("exports", .object h.objects.size), ("filename", .string id.text),
        ("path", .string id.directory.text), ("loaded", .bool false)] := by
  have hsize : (h.newObject []).2.objects.size = h.objects.size + 1 := Array.size_push _
  rw [← hsize]
  exact getD_push_size (h.newObject []).2.objects _ []

theorem sees_create (h : Heap) (id : Path) :
    h.Sees (fun _ => False) ≤ (Module.create h id).2.Sees (· = h.objects.size + 1) := by
  rintro i ⟨hi, -⟩
  refine ⟨?_, ?_⟩
  · rw [size_create]
    exact Nat.lt_of_lt_of_le hi (Nat.le_add_right _ 2)
  · rintro rfl
    exact Nat.not_succ_lt_self hi

/-- Nothing refers to the module object of a module that was just created. -/
theorem hides_create (hh : h.Hides fun _ => False) :
    (Module.create h id).2.Hides (· = h.objects.size + 1) := by
  have hamong := hh.among.mono (sees_create h id)
  have hexports : (Module.create h id).2.Sees (· = h.objects.size + 1) h.objects.size := by
    refine ⟨?_, Nat.ne_of_lt (Nat.lt_succ_self _)⟩
    rw [size_create]
    exact Nat.lt_add_of_pos_right Nat.two_pos
  refine ⟨⟨hamong.frames, ?_, hamong.arrays⟩, ?_⟩
  · refine forall_mem_push (forall_mem_push hamong.objects Dict.each_nil) ?_
    exact .cons trivial <| .cons hexports <| .cons trivial <| .cons trivial <|
      .cons trivial Dict.each_nil
  · rintro i rfl
    rw [size_create]
    exact Nat.lt_succ_self _

end Script.Heap

/-- Whoever asks for a module is given this value, and the loader only counts the hit. -/
structure Machine.Supplies (m : Machine) (reference : String) (dir id : Path) (v : Value) :
    Prop where
  load : ∀ n, m.run (Evaluate.load (n + 1) reference dir) =
    some (.ok v, m.handOut reference dir id)
  loadIn : ∀ n, m.loadIn (n + 1) reference dir =
    some (.ok v, (m.rested m.loader.callDepth).handOut reference dir id)
  require : ∀ home : Path, home.directory = dir → m.loader.dropped = false → ∀ n this args,
    m.run (Evaluate.call (n + 2) (.native (.require home)) this (.string reference :: args)) =
      some (.ok v, m.handOut reference dir id)

theorem Machine.supplies_of_find? {m : Machine} {reference : String} {dir id : Path} {u : Module}
    (hres : m.loader.resolve reference dir = .ok id) (hu : m.loader.registry.find? id = some u) :
    m.Supplies reference dir id (u.exposed m.heap) where
  load := run_load_hit hres hu
  loadIn := loadIn_hit hres hu
  require := by
    rintro home rfl hd n this args
    exact run_require_hit hres hu hd n this args

/-! ### Lives in which something stays hidden -/

namespace Moment

/-- One moment comes directly after another, and the host knows nothing of the hidden objects:
between its requests it may do what it likes, as long as it leaves registry and journal alone,
removes no object and leaves the hidden ones as they are, and hidden. -/
inductive Proceeds (H : ObjectId → Prop) : Moment → Moment → Prop where
  | step {a b : Moment} (h : a.step = some b) : Proceeds H a b
  | returned {t : Task} {r : Except Exception t.Result} {m : Machine} :
      Proceeds H (.leaving t r (.bottom t) m) (.resting m)
  | worked {m m' : Machine} (hr : m'.loader.registry = m.loader.registry)
      (hj : m'.loader.journal = m.loader.journal) (hheap : m.heap.Shields H m'.heap) :
      Proceeds H (.resting m) (.resting m')
  | requested {n : Nat} {t : Task} {m : Machine} (ht : t.isStart = false)
      (hsight : t.InSight m.loader (m.heap.Sees H)) :
      Proceeds H (.resting m) (.entering n t (.bottom t) m)

abbrev Unfolds (H : ObjectId → Prop) : Moment → Moment → Prop :=
  Relation.ReflTransGen (Proceeds H)

/-- The moment is part of the life of a loader that began with nothing registered, in a heap where
all that is referred to is there. -/
def Lives (a : Moment) : Prop :=
  ∃ m : Machine, m.loader.registry.modules = [] ∧ m.loader.journal = [] ∧
    m.heap.Hides (fun _ => False) ∧ Unfolds (fun _ => False) (.resting m) a

variable {H : ObjectId → Prop} {a b : Moment}

theorem Proceeds.follows (h : Proceeds H a b) : Follows a b := by
  cases h with
  | step h => exact .step h
  | returned => exact .returned
  | worked hr hj hheap => exact .meddled hr hj
  | requested ht hsight => exact .requested ht

theorem Unfolds.leads (h : Unfolds H a b) : Leads a b :=
  Relation.ReflTransGen.mono (fun _ _ => Proceeds.follows) _ _ h

theorem Steps.unfolds (h : Steps a b) : Unfolds H a b :=
  Relation.ReflTransGen.mono (fun _ _ => Proceeds.step) _ _ h

theorem Proceeds.respects {l : Loader} (ha : a.Respects l H) (h : Proceeds H a b) :
    ∃ l', b.Respects l' H ∧ a.machine.heap.Shields H b.machine.heap := by
  cases h with
  | step h => exact ⟨l, ha.step h⟩
  | returned => exact ⟨l, ⟨ha.1, ha.2.1⟩, .refl ha.1⟩
  | worked hr hj hheap => exact ⟨_, ⟨hheap.hides, .refl _⟩, hheap⟩
  | @requested n t m ht hsight => exact ⟨m.loader, ⟨ha.1, .refl _, hsight, trivial⟩, .refl ha.1⟩

theorem Respects.hides {l : Loader} (ha : a.Respects l H) : a.machine.heap.Hides H := by
  cases a <;> exact ha.1

/-- In the whole life that follows, what is hidden stays as it is, and hidden. -/
theorem Unfolds.respects {l : Loader} (ha : a.Respects l H) (h : Unfolds H a b) :
    ∃ l', b.Respects l' H ∧ a.machine.heap.Shields H b.machine.heap := by
  induction h with
  | refl => exact ⟨l, ha, .refl ha.hides⟩
  | tail _ hlast ih =>
    obtain ⟨l₁, hb, hshields⟩ := ih
    obtain ⟨l', hc, hshields'⟩ := hlast.respects hb
    exact ⟨l', hc, hshields.trans hshields'⟩

theorem Lives.reachable (h : Lives a) : Reachable a := by
  obtain ⟨m, hm, hj, -, hunfolds⟩ := h
  exact ⟨m, hm, hj, hunfolds.leads⟩

theorem Lives.respects (h : Lives a) : ∃ l, a.Respects l fun _ => False := by
  obtain ⟨m, -, -, hh, hunfolds⟩ := h
  have hrest : Respects m.loader (fun _ => False) (.resting m) := ⟨hh, .refl _⟩
  obtain ⟨l, ha, -⟩ := hunfolds.respects hrest
  exact ⟨l, ha⟩

/-! ### The refusal of a module -/

variable {m m' : Machine} {reference : String} {dir id : Path} {fault : LoadFault} {n : Nat}

/-- A failure that tells of a module tells what is in its way. -/
theorem obstacle?_of_run (hh : m.heap.Hides fun _ => False)
    (hrun : m.run (Evaluate.load n reference dir) = some (.error (.load fault), m'))
    (hown : fault.subject? = some id) : m.loader.obstacle? id = some fault := by
  have hbegin : Respects m.loader (fun _ => False)
      (.entering n (.load reference dir) (.bottom _) m) := ⟨hh, .refl _, trivial, trivial⟩
  obtain ⟨⟨-, -, hfault, -⟩, -⟩ := (steps_of_perform hrun (.bottom _)).respects hbegin
  exact hfault id hown

theorem find?_eq_none_of_run (hres : m.loader.resolve reference dir = .ok id)
    (hrun : m.run (Evaluate.load n reference dir) = some (.error (.load fault), m')) :
    m.loader.registry.find? id = none := by
  cases n with
  | zero => contradiction
  | succ n =>
    cases hfind : m.loader.registry.find? id with
    | none => rfl
    | some u =>
      rw [Machine.run_load_hit hres hfind] at hrun
      cases hrun

/-- When a module was refused, nothing that goes on knows of its module object. -/
theorem Respects.refused {l : Loader} {stack : Stack (.load reference dir)}
    (ha : (Moment.entering n (.load reference dir) stack m).Respects l fun _ => False)
    (h : m.Refuses id m') (hobstacle : m.loader.obstacle? id = some fault)
    (hown : fault.subject? = some id) :
    (Moment.leaving (.load reference dir) (.error (.load fault)) stack m').Respects l
      (· = m.heap.objects.size + 1) := by
  obtain ⟨hh, hl, -, hstack⟩ := ha
  have hsees := Heap.sees_create m.heap id
  have hhides : (Module.create m.heap id).2.Hides _ := Heap.hides_create hh
  rw [← h.heap] at hsees hhides
  refine ⟨hhides, hl.trans h.options, fun id' hid => ?_, hstack.mono hsees⟩
  obtain rfl := Option.some.inj (hown.symm.trans hid)
  rwa [hl.obstacle?_eq]

/-- A module that was refused stays registered, with its module object as it was created. -/
theorem Respects.supplies {l : Loader} {stack : Stack (.load reference dir)}
    {r : Except Exception Value} {b : Moment}
    (ha : (Moment.leaving (.load reference dir) r stack m').Respects l
      (· = m.heap.objects.size + 1))
    (hsound : (Moment.leaving (.load reference dir) r stack m').Sound) (h : m.Refuses id m')
    (hb : Unfolds (· = m.heap.objects.size + 1) (.leaving (.load reference dir) r stack m') b)
    {reference' : String} {dir' id' : Path}
    (hres : b.machine.loader.resolve reference' dir' = .ok id') (hid : id.same id' = true) :
    b.machine.Supplies reference' dir' id' (.object m.heap.objects.size) := by
  obtain ⟨hbsound, hprec⟩ := hb.leads.sound hsound
  obtain ⟨-, -, hshields⟩ := hb.respects ha
  let u : Module := { (Module.create m.heap id).1 with state := .failed }
  have hu : u ∈ m'.loader.registry.modules := by
    rw [h.modules]
    exact List.mem_append_right _ (List.mem_singleton_self _)
  obtain ⟨u', hu', hid', hobject, -⟩ := hprec.kept u hu
  have hfind : b.machine.loader.registry.find? id' = some u' :=
    hbsound.ledger.find?_iff.mpr ⟨hu', by rwa [hid']⟩
  have hkept : b.machine.heap.object u'.object =
      (Module.create m.heap id).2.object (m.heap.objects.size + 1) := calc
    _ = b.machine.heap.object (m.heap.objects.size + 1) :=
      congrArg b.machine.heap.object (hobject.trans (Heap.create_object m.heap id))
    _ = m'.heap.object (m.heap.objects.size + 1) := hshields.kept _ rfl
    _ = _ := by rw [h.heap]
  have hexposed : u'.exposed b.machine.heap = .object m.heap.objects.size := by
    rw [Module.exposed, hkept, Heap.object_create_module]
    rfl
  rw [← hexposed]
  exact Machine.supplies_of_find? hres hfind

/-- A loading that fails because of its own module, and not of one that this asks for, runs no
script. All that was there is as it was; the module is registered as failed, and one miss is
counted. What it exposes is a new empty object, and in the life that follows whoever asks for the
module is given that object, as long as the host does not get at the module object by itself. -/
theorem refusals_leave_no_trace {stack : Stack (.load reference dir)}
    (h : Lives (.entering n (.load reference dir) stack m))
    (hres : m.loader.resolve reference dir = .ok id)
    (hrun : m.run (Evaluate.load n reference dir) = some (.error (.load fault), m'))
    (hown : fault.subject? = some id) :
    (∀ b, Steps (.entering n (.load reference dir) (.bottom _) m) b → ¬b.RunsScript) ∧
    m.Refuses id m' ∧
    (m'.heap.frames = m.heap.frames ∧ m'.heap.arrays = m.heap.arrays ∧
      m'.heap.closures = m.heap.closures ∧
      ∀ i, i < m.heap.objects.size → m'.heap.object i = m.heap.object i) ∧
    (m'.heap.object m.heap.objects.size = [] ∧
      (m'.heap.object (m.heap.objects.size + 1)).get? "exports" =
        some (.object m.heap.objects.size) ∧
      (m'.heap.object (m.heap.objects.size + 1)).get? "loaded" = some (.bool false)) ∧
    ∀ {b}, Unfolds (· = m.heap.objects.size + 1)
        (.leaving (.load reference dir) (.error (.load fault)) stack m') b →
      ∀ {reference' dir' id'}, b.machine.loader.resolve reference' dir' = .ok id' →
        id.same id' = true →
          b.machine.Supplies reference' dir' id' (.object m.heap.objects.size) := by
  obtain ⟨l, ha⟩ := h.respects
  have hnew := find?_eq_none_of_run hres hrun
  have hobstacle := obstacle?_of_run ha.hides hrun hown
  have hdeclines {b : Moment} (hb : Steps (.entering n (.load reference dir) (.bottom _) m) b) :=
    hb.of_obstacle hres hnew hobstacle
  obtain ⟨-, hrefuses⟩ := (hdeclines (steps_of_perform hrun (.bottom _))).2 _ _ rfl
  have hsound := (h.reachable.leads (steps_of_perform hrun stack).leads).sound
  refine ⟨fun b hb => (hdeclines hb).1, hrefuses, ?_, ?_, fun hb => ?_⟩
  · rw [hrefuses.heap]
    exact ⟨rfl, rfl, rfl, fun i hi => Heap.object_create_of_lt hi⟩
  · rw [hrefuses.heap, Heap.object_create_module]
    exact ⟨Heap.object_create_exports m.heap id, rfl, rfl⟩
  · exact (ha.refused hrefuses hobstacle hown).supplies hsound hrefuses hb

end Moment

namespace Sample

/-- What came of it is a failure that tells of this module. -/
def refuses {α : Type} (id : Path) : Except Exception α → Bool
  | .error (.load fault) => fault.subject? = some id
  | _ => false

/-- At the top, the reference is to this module. -/
def names (reference : String) (id : Path) (m : Machine) : Bool :=
  (m.loader.resolve reference ⟨"/"⟩).toOption = some id

theorem eq_of_refuses {α : Type} {id : Path} {r : Except Exception α} (h : refuses id r = true) :
    ∃ fault, r = .error (.load fault) ∧ fault.subject? = some id := by
  unfold refuses at h
  split at h
  · exact ⟨_, rfl, of_decide_eq_true h⟩
  · contradiction

end Sample

theorem Script.Heap.hides_realm : realm.Hides fun _ => False := by
  have hglobal (i : ObjectId) (hi : i < 4) (mutable : Bool) :
      Binding.Among (realm.Sees fun _ => False) ⟨.object i, mutable⟩ := ⟨hi, id⟩
  refine ⟨⟨fun f hf => ?_, fun d hd => ?_, nofun⟩, nofun⟩
  · obtain rfl := List.mem_singleton.mp (Array.mem_toList_iff.mpr hf)
    exact .cons (hglobal 0 (by decide) _) <| .cons (hglobal 0 (by decide) _) <| .cons trivial <|
      .cons (hglobal 1 (by decide) _) <| .cons (hglobal 2 (by decide) _) <|
      .cons (hglobal 3 (by decide) _) <| .cons trivial <| .cons trivial <| .cons trivial
        Dict.each_nil
  · replace hd := Array.mem_toList_iff.mpr hd
    simp only [realm, List.mem_cons, List.not_mem_nil, or_false] at hd
    obtain rfl | rfl | rfl | rfl := hd
    · exact Dict.each_nil
    · exact .cons trivial (.cons trivial Dict.each_nil)
    · exact .cons trivial (.cons trivial Dict.each_nil)
    · exact .cons trivial Dict.each_nil

namespace Moment

/-- After some scripts have run, a file that no strategy is for is asked for, twice. -/
theorem refusals_leave_no_trace_sample : ∃ r m fault m',
    Sample.machine.run (Evaluate.load 60 "./catches" ⟨"/"⟩) = some (r, m) ∧
    m.run (Evaluate.load 60 "./unknown" ⟨"/"⟩) = some (.error (.load fault), m') ∧
    m.Refuses ⟨"/unknown"⟩ m' ∧ m'.heap.object m.heap.objects.size = [] ∧
    m'.Supplies "./unknown" ⟨"/"⟩ ⟨"/unknown"⟩ (.object m.heap.objects.size) := by
  have hruns : (Sample.machine.run (Evaluate.load 60 "./catches" ⟨"/"⟩)).any (fun q =>
      Sample.names "./unknown" ⟨"/unknown"⟩ q.2 &&
        (q.2.run (Evaluate.load 60 "./unknown" ⟨"/"⟩)).any fun q =>
          Sample.refuses ⟨"/unknown"⟩ q.1 && Sample.names "./unknown" ⟨"/unknown"⟩ q.2) = true := by
    decide +kernel
  obtain ⟨⟨r, m⟩, hfirst, hrun⟩ := (Option.any_eq_true ..).mp hruns
  obtain ⟨hnames, hrun⟩ := Bool.and_eq_true_iff.mp hrun
  obtain ⟨⟨r', m'⟩, hrun, hr⟩ := (Option.any_eq_true ..).mp hrun
  obtain ⟨hr, hnames'⟩ := Bool.and_eq_true_iff.mp hr
  obtain ⟨fault, rfl, hown⟩ := Sample.eq_of_refuses hr
  have hres := Sample.eq_ok_of_toOption (of_decide_eq_true hnames)
  have hres' := Sample.eq_ok_of_toOption (of_decide_eq_true hnames')
  have hasked : Unfolds (fun _ => False) (.resting Sample.machine)
      (.entering 60 (.load "./catches" ⟨"/"⟩) (.bottom _) Sample.machine) :=
    .single (.requested rfl trivial)
  have hdone : Unfolds (fun _ => False)
      (.entering 60 (.load "./catches" ⟨"/"⟩) (.bottom _) Sample.machine)
      (.leaving (.load "./catches" ⟨"/"⟩) r (.bottom _) m) :=
    (steps_of_perform hfirst _).unfolds
  have hagain : Unfolds (fun _ => False) (.resting m)
      (.entering 60 (.load "./unknown" ⟨"/"⟩) (.bottom _) m) :=
    .single (.requested rfl trivial)
  have hlives : Lives (.entering 60 (.load "./unknown" ⟨"/"⟩) (.bottom _) m) :=
    ⟨_, rfl, rfl, Heap.hides_realm, hasked.trans (hdone.trans (.head .returned hagain))⟩
  obtain ⟨-, hrefuses, -, ⟨hempty, -⟩, hlater⟩ := refusals_leave_no_trace hlives hres hrun hown
  exact ⟨r, m, fault, m', hfirst, hrun, hrefuses, hempty,
    hlater (.single .returned) hres' (by decide +kernel)⟩

end Moment

end ModuleLoader
