import ModuleLoader.Proofs.Relocations

/-! What scripts can tell of twins. Texts, numbers and faults that come from twins are the same, and
values that come from them are twins again, so a script cannot tell under which identities it was
given what it works on. -/
namespace ModuleLoader

open Script

namespace Script

variable {k : Relocation} {h h' : Heap} {v v' w w' : Value}

/-! ### Text -/

/-- The container is the other one, in the other heap. -/
inductive Container.Twin (k : Relocation) : Container → Container → Prop where
  | array {i i' : ArrayId} (h : k.arrays.Twin i i') : Twin k (.array i) (.array i')
  | object {i i' : ObjectId} (h : k.objects.Twin i i') : Twin k (.object i) (.object i')

theorem Container.Twin.eq_iff {c c' d d' : Container} (hc : c.Twin k c') (hd : d.Twin k d') :
    c = d ↔ c' = d' := by
  cases hc with
  | array hi =>
    cases hd with
    | array hj => rw [Container.array.injEq, Container.array.injEq, hi.eq_iff hj]
    | object => simp only [reduceCtorEq]
  | object hi =>
    cases hd with
    | array => simp only [reduceCtorEq]
    | object hj => rw [Container.object.injEq, Container.object.injEq, hi.eq_iff hj]

namespace Heap.Twin

theorem functionName_eq (hh : h.Twin k h') {i i' : FunctionId} (hi : k.functions.Twin i i') :
    (h.closure i).literal.name = (h'.closure i').literal.name := by
  rw [(hh.closure hi).literal]

theorem displayIn_eq (hh : h.Twin k h') (left : Nat) {inside inside' : List ArrayId}
    (hin : List.Forall₂ k.arrays.Twin inside inside') (hv : v.Twin k v') :
    h.displayIn left inside v = h'.displayIn left inside' v' := by
  induction left using Nat.strongRecOn generalizing inside inside' v v' with
  | ind left ih =>
    cases hv with
    | @array i i' hi =>
      cases left with
      | zero => simp only [displayIn]
      | succ left =>
        have hitem (a a' : Value) (ha : a.Twin k a') :
            (if a.isAbsent then "" else h.displayIn left (i :: inside) a) =
              if a'.isAbsent then "" else h'.displayIn left (i' :: inside') a' := by
          rw [ha.isAbsent_eq, ih left left.lt_succ_self (.cons hi hin) ha]
        simp only [displayIn, contains_eq_of_forall₂ Window.Twin.eq_iff hin hi,
          map_eq_map_of_forall₂ (hh.array hi) hitem]
    | function hi => simp only [displayIn, hh.functionName_eq hi]
    | bool b => cases b <;> simp only [displayIn]
    | _ => simp only [displayIn]

theorem display_eq (hh : h.Twin k h') (hv : v.Twin k v') : h.display v = h'.display v' :=
  hh.displayIn_eq maxDepth .nil hv

theorem keyOf_eq (hh : h.Twin k h') (hv : v.Twin k v') : h.keyOf v = h'.keyOf v' := by
  have htext := hh.display_eq hv
  cases hv with
  | number | string => rfl
  | _ => exact htext

theorem inspectIn_eq (hh : h.Twin k h') (left : Nat) {inside inside' : List Container}
    (hin : List.Forall₂ (Container.Twin k) inside inside') (hv : v.Twin k v') :
    h.inspectIn left inside v = h'.inspectIn left inside' v' := by
  induction left using Nat.strongRecOn generalizing inside inside' v v' with
  | ind left ih =>
    have htext := hh.display_eq hv
    cases hv with
    | string s => simp only [inspectIn, isEmpty_eq_of_forall₂ hin]
    | @array i i' hi =>
      have hinside := contains_eq_of_forall₂ Container.Twin.eq_iff hin (.array hi)
      cases left with
      | zero => simp only [inspectIn, hinside]
      | succ left =>
        have hitem (a a' : Value) (ha : a.Twin k a') :
            h.inspectIn left (.array i :: inside) a = h'.inspectIn left (.array i' :: inside') a' :=
          ih left left.lt_succ_self (.cons (.array hi) hin) ha
        simp only [inspectIn, hinside, isEmpty_eq_of_forall₂ (hh.array hi),
          map_eq_map_of_forall₂ (hh.array hi) hitem]
    | @object i i' hi =>
      have hinside := contains_eq_of_forall₂ Container.Twin.eq_iff hin (.object hi)
      cases left with
      | zero => simp only [inspectIn, hinside]
      | succ left =>
        have hfield (p p' : String × Value) (hp : p.1 = p'.1 ∧ p.2.Twin k p'.2) :
            keyText p.1 ++ ": " ++ h.inspectIn left (.object i :: inside) p.2 =
              keyText p'.1 ++ ": " ++ h'.inspectIn left (.object i' :: inside') p'.2 := by
          rw [hp.1, ih left left.lt_succ_self (.cons (.object hi) hin) hp.2]
        simp only [inspectIn, hinside, isEmpty_eq_of_forall₂ (hh.object hi),
          map_eq_map_of_forall₂ (hh.object hi) hfield]
    | function hi => simp only [inspectIn, hh.functionName_eq hi]
    | native hn => simp only [inspectIn]
    | _ => simpa only [inspectIn] using htext

theorem inspect_eq (hh : h.Twin k h') (hv : v.Twin k v') : h.inspect v = h'.inspect v' :=
  hh.inspectIn_eq maxDepth .nil hv

theorem thrownText_eq (hh : h.Twin k h') (hv : v.Twin k v') :
    h.thrownText v = h'.thrownText v' := by
  have hinspect := hh.inspect_eq hv
  cases hv with
  | @object i i' hi =>
    have hmessage := (hh.object hi).get? "message"
    have hname := (hh.object hi).get? "name"
    simp only [thrownText]
    generalize (h.object i).get? "message" = m, (h'.object i').get? "message" = m' at hmessage
    generalize (h.object i).get? "name" = n, (h'.object i').get? "name" = n' at hname
    cases hmessage with
    | none => exact hinspect
    | some hm =>
      cases hm with
      | string message =>
        cases hname with
        | none => rfl
        | some hn => cases hn <;> rfl
      | _ => exact hinspect
  | _ => exact hinspect

end Heap.Twin

/-! ### Operators -/

namespace Value.Twin

theorem strictEq_eq (hv : v.Twin k v') (hw : w.Twin k w') : v.strictEq w = v'.strictEq w' := by
  cases hv with
  | array hi =>
    cases hw with
    | array hj => exact decide_eq_decide.mpr (hi.eq_iff hj)
    | _ => rfl
  | object hi =>
    cases hw with
    | object hj => exact decide_eq_decide.mpr (hi.eq_iff hj)
    | _ => rfl
  | function hi =>
    cases hw with
    | function hj => exact decide_eq_decide.mpr (hi.eq_iff hj)
    | _ => rfl
  | _ => cases hw <;> rfl

theorem looseEq_eq (hv : v.Twin k v') (hw : w.Twin k w') : v.looseEq w = v'.looseEq w' := by
  rw [looseEq, looseEq, hv.isAbsent_eq, hw.isAbsent_eq, hv.strictEq_eq hw]

theorem compare?_eq (hv : v.Twin k v') (hw : w.Twin k w') : v.compare? w = v'.compare? w' := by
  cases hv <;> cases hw <;> rfl

theorem apply (hv : v.Twin k v') (op : UnaryOp) : (op.apply v).Twin k (op.apply v') := by
  unfold UnaryOp.apply
  cases op with
  | not => exact hv.truthy_eq.symm ▸ .bool _
  | negate | plus => exact hv.toNumber_eq.symm ▸ .number _
  | «typeof» => exact hv.typeName_eq.symm ▸ .string _

theorem decides_eq (hv : v.Twin k v') (op : LogicalOp) : op.decides v = op.decides v' := by
  unfold LogicalOp.decides
  rw [hv.truthy_eq, hv.isAbsent_eq]

end Value.Twin

theorem Heap.Twin.binary (hh : h.Twin k h') (op : BinaryOp) (hv : v.Twin k v')
    (hw : w.Twin k w') : (h.binary op v w).Twin k (h'.binary op v' w') := by
  have hplain : h.binary op v w = h'.binary op v' w' := by
    unfold Heap.binary
    rw [hv.joinsText_eq, hw.joinsText_eq, hh.display_eq hv, hh.display_eq hw, hv.toNumber_eq,
      hw.toNumber_eq, hv.looseEq_eq hw, hv.strictEq_eq hw, hv.compare?_eq hw]
  rw [hplain]
  unfold Heap.binary
  split
  · split
    · exact .string _
    · exact .number _
  all_goals constructor

/-! ### Properties -/

namespace Heap.Twin

theorem arrayProperty (hh : h.Twin k h') {i i' : ArrayId} (hi : k.arrays.Twin i i')
    (key : String) : (h.arrayProperty i key).Twin k (h'.arrayProperty i' key) := by
  have hitems := hh.array hi
  unfold Heap.arrayProperty
  split
  · rw [hitems.size_eq]
    exact .number _
  · split
    · exact hitems.getD _
    · cases hn : arrayFunction? key with
      | none => exact .undefined
      | some n => exact .native hn

theorem functionProperty (hh : h.Twin k h') {i i' : FunctionId} (hi : k.functions.Twin i i')
    (key : String) : (h.functionProperty i key).Twin k (h'.functionProperty i' key) := by
  unfold Heap.functionProperty
  rw [(hh.closure hi).literal]
  dsimp only
  split
  · exact .string _
  · split
    · exact .number _
    · exact .undefined

/-- Both properties can be read, and are twins, or neither can, for the same reason. -/
theorem getProperty (hh : h.Twin k h') (hv : v.Twin k v') (key : String) :
    (∃ e, h.getProperty v key = .error e ∧ h'.getProperty v' key = .error e) ∨
      ∃ a a', h.getProperty v key = .ok a ∧ h'.getProperty v' key = .ok a' ∧ a.Twin k a' := by
  cases hv with
  | undefined | null => exact .inl ⟨_, rfl, rfl⟩
  | bool | number => exact .inr ⟨_, _, rfl, rfl, .undefined⟩
  | string s =>
    refine .inr ⟨_, _, rfl, rfl, ?_⟩
    unfold stringProperty
    split
    · exact .number _
    · split
      · exact .string _
      · exact .undefined
  | array hi => exact .inr ⟨_, _, rfl, rfl, hh.arrayProperty hi key⟩
  | object hi => exact .inr ⟨_, _, rfl, rfl, rel_getD ((hh.object hi).get? key) .undefined⟩
  | function hi => exact .inr ⟨_, _, rfl, rfl, hh.functionProperty hi key⟩
  | native =>
    refine .inr ⟨_, _, rfl, rfl, ?_⟩
    split
    · exact .string _
    · exact .undefined

theorem putFault?_eq (hh : h.Twin k h') (hv : v.Twin k v') (key : String) :
    h.putFault? v key = h'.putFault? v' key := by
  cases hv with
  | array hi =>
    simp only [putFault?, (hh.array hi).size_eq]
  | _ => rfl

theorem setItem (hh : h.Twin k h') {i i' : ArrayId} (hi : k.arrays.Twin i i') (index : Nat)
    (hv : v.Twin k v') : (h.setItem i index v).Twin k (h'.setItem i' index v') := by
  refine hh.modifyArray hi fun items items' hitems => ?_
  rw [hitems.size_eq]
  split
  · exact hitems.set index hv
  · exact (hitems.append (.blank _)).push hv

theorem putProperty (hh : h.Twin k h') (hv : v.Twin k v') (key : String) (hw : w.Twin k w') :
    (h.putProperty v key w).Twin k (h'.putProperty v' key w') := by
  cases hv with
  | object hi => exact hh.setProperty hi key hw
  | array hi =>
    unfold Heap.putProperty
    cases indexOfKey? key with
    | none => exact hh
    | some index => exact hh.setItem hi index hw
  | _ => exact hh

end Heap.Twin

/-! ### Variables -/

namespace Heap.Twin

variable {scope scope' : Scope} {name : String}

theorem binding? (hh : h.Twin k h') (hs : Scope.Twin k scope scope') (hname : name ∉ sharedNames) :
    Option.Rel (Binding.Twin k) (h.binding? scope name) (h'.binding? scope' name) := by
  induction hs with
  | nil => exact .none
  | @cons i i' outer outer' hi _ ih =>
    have hframe := hh.frame hi name hname
    unfold Heap.binding?
    generalize (h.frame i).get? name = b, (h'.frame i').get? name = b' at hframe
    cases hframe with
    | some hb => exact .some hb
    | none => exact ih

theorem lookup? (hh : h.Twin k h') (hs : Scope.Twin k scope scope') (hname : name ∉ sharedNames) :
    Option.Rel (Value.Twin k) (h.lookup? scope name) (h'.lookup? scope' name) :=
  rel_map (hh.binding? hs hname) fun _ _ hb => hb.value

theorem assignFault?_eq (hh : h.Twin k h') (hs : Scope.Twin k scope scope')
    (hname : name ∉ sharedNames) : h.assignFault? scope name = h'.assignFault? scope' name := by
  have hbinding := hh.binding? hs hname
  unfold assignFault?
  generalize h.binding? scope name = b, h'.binding? scope' name = b' at hbinding
  cases hbinding with
  | some hb => simp only [hb.mutable]
  | none => rfl

theorem assign (hh : h.Twin k h') (hs : Scope.Twin k scope scope') (hname : name ∉ sharedNames)
    (hv : v.Twin k v') : (h.assign scope name v).Twin k (h'.assign scope' name v') := by
  induction hs with
  | nil => exact hh
  | @cons i i' outer outer' hi _ ih =>
    have hcontains : (h.frame i).contains name = (h'.frame i').contains name := by
      have hframe := hh.frame hi name hname
      unfold Dict.contains
      generalize (h.frame i).get? name = b, (h'.frame i').get? name = b' at hframe
      cases hframe <;> rfl
    unfold Heap.assign
    rw [hcontains]
    split
    · exact hh.declare hi name hv true
    · exact ih

end Heap.Twin

end Script

end ModuleLoader
