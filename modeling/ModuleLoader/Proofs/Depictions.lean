import Mathlib.Data.List.Forall2
import ModuleLoader.Proofs.Integers
import ModuleLoader.Proofs.JsonLayouts
import ModuleLoader.Proofs.Nesting
import ModuleLoader.Proofs.Runs
import ModuleLoader.Run.Session

/-! Data in the heap and the JSON values that depict it. Turned into a JSON value and back, data
becomes data of the same structure. -/
namespace ModuleLoader.Script

namespace Heap

/-- A value is data, of so many containers one in another at most: nulls, booleans, strings, doubles
of integers below the bound, and arrays and objects of data. An object has each of its keys once. -/
inductive IsData (h : Heap) : Nat → Value → Prop where
  | null {n : Nat} : IsData h n .null
  | bool {n : Nat} (b : Bool) : IsData h n (.bool b)
  | number {n : Nat} {x : Float} {i : Int} (hi : i.natAbs < Number.exactBound)
      (hx : (x == (JsonNumber.integer i).toFloat) = true) : IsData h n (.number x)
  | string {n : Nat} (s : String) : IsData h n (.string s)
  | array {n : Nat} {id : ArrayId} (hitems : ∀ v ∈ h.members (.array id), IsData h n v) :
      IsData h (n + 1) (.array id)
  | object {n : Nat} {id : ObjectId} (hkeys : (h.object id).keys.Nodup)
      (hvalues : ∀ v ∈ h.members (.object id), IsData h n v) : IsData h (n + 1) (.object id)

/-- Two values, each in a heap of its own, are equal up to the identity of their containers. Objects
have the same keys in the same order. -/
inductive Alike (h h' : Heap) : Value → Value → Prop where
  | null : Alike h h' .null .null
  | bool (b : Bool) : Alike h h' (.bool b) (.bool b)
  | number {x y : Float} (hxy : (x == y) = true) : Alike h h' (.number x) (.number y)
  | string (s : String) : Alike h h' (.string s) (.string s)
  | array {a b : ArrayId}
      (hitems : List.Forall₂ (Alike h h') (h.members (.array a)) (h'.members (.array b))) :
      Alike h h' (.array a) (.array b)
  | object {a b : ObjectId} (hkeys : (h.object a).keys = (h'.object b).keys)
      (hvalues : List.Forall₂ (Alike h h') (h.members (.object a)) (h'.members (.object b))) :
      Alike h h' (.object a) (.object b)

/-- The JSON value shows the value as it is in the heap. -/
inductive Depicts (h : Heap) : Value → Json → Prop where
  | null : Depicts h .null .null
  | bool (b : Bool) : Depicts h (.bool b) (.bool b)
  | number {x : Float} {i : Int} (hx : Number.integer? x = some i) :
      Depicts h (.number x) (.number (.integer i))
  | string (s : String) : Depicts h (.string s) (.string s)
  | array {id : ArrayId} {items : List Json}
      (hitems : List.Forall₂ (Depicts h) (h.members (.array id)) items) :
      Depicts h (.array id) (.array items)
  | object {id : ObjectId} {fields : List (String × Json)}
      (hkeys : (h.object id).keys = Dict.keys fields)
      (hvalues : List.Forall₂ (Depicts h) (h.members (.object id)) (fields.map Prod.snd)) :
      Depicts h (.object id) (.object fields)

variable {h h' : Heap} {v w : Value} {n : Nat} {c d : Container} {path : List Container}

/-! ### Data has no cycles -/

theorem IsData.of_mem (hv : h.IsData n v) (hc : v.container? = some c) (hw : w ∈ h.members c) :
    ∃ k < n, h.IsData k w := by
  cases hv with
  | array hitems =>
    obtain rfl := Option.some.inj hc
    exact ⟨_, Nat.lt_succ_self _, hitems w hw⟩
  | object hkeys hvalues =>
    obtain rfl := Option.some.inj hc
    exact ⟨_, Nat.lt_succ_self _, hvalues w hw⟩
  | _ => contradiction

theorem IsData.length_le (hv : h.IsData n v) (hpath : h.Nest v path) : path.length ≤ n := by
  induction hpath generalizing n with
  | stop hc =>
    cases hv with
    | array | object => simp
    | _ => contradiction
  | enter hc hw _ ih =>
    obtain ⟨k, hk, hw⟩ := hv.of_mem hc hw
    have hlength := ih hw
    rw [List.length_cons]
    omega

theorem IsData.of_transGen (hv : h.IsData n v) (hc : v.container? = some c)
    (hcd : Relation.TransGen h.Holds c d) : ∃ k < n, ∃ w, w.container? = some d ∧ h.IsData k w := by
  induction hcd with
  | single hcd =>
    obtain ⟨w, hw, hd⟩ := hcd
    obtain ⟨k, hk, hdata⟩ := hv.of_mem hc hw
    exact ⟨k, hk, w, hd, hdata⟩
  | tail _ hde ih =>
    obtain ⟨k, hk, u, hu, hdata⟩ := ih
    obtain ⟨w, hw, he⟩ := hde
    obtain ⟨l, hl, hdata'⟩ := hdata.of_mem hu hw
    exact ⟨l, Nat.lt_trans hl hk, w, he, hdata'⟩

theorem IsData.not_cycle (hv : h.IsData n v) (hc : v.container? = some c) :
    ¬ Relation.TransGen h.Holds c c := by
  induction n using Nat.strongRecOn generalizing v with | ind n ih
  intro hcc
  obtain ⟨k, hk, w, hw, hdata⟩ := hv.of_transGen hc hcc
  exact ih k hk hdata hw hcc

theorem IsData.acyclic (hv : h.IsData n v) (hc : h.Reaches v c) :
    ¬ Relation.TransGen h.Holds c c := by
  obtain ⟨d, hd, hdc⟩ := hc
  obtain rfl | hdc := Relation.reflTransGen_iff_eq_or_transGen.mp hdc
  · exact hv.not_cycle hd
  · obtain ⟨k, -, w, hw, hdata⟩ := hv.of_transGen hd hdc
    exact hdata.not_cycle hw

theorem IsData.fits (hv : h.IsData n v) (hpath : h.Nest v path) : Fits n [] path :=
  ⟨hv.length_le hpath, (h.acyclic_iff_nodup v).mp (fun _ hc => hv.acyclic hc) path hpath,
    fun _ _ => List.not_mem_nil⟩

/-! ### From values to JSON -/

theorem map_ok {ε α β : Type} {f : α → β} {x : Except ε α} {b : β} (hx : f <$> x = .ok b) :
    ∃ a, x = .ok a ∧ b = f a := by
  cases x with
  | error e => contradiction
  | ok a => exact ⟨a, rfl, (Except.ok.inj hx).symm⟩

theorem mapM_cons_ok {ε α β : Type} {f : α → Except ε β} {a : α} {l : List α} {r : List β}
    (hr : (a :: l).mapM f = .ok r) : ∃ b bs, f a = .ok b ∧ l.mapM f = .ok bs ∧ r = b :: bs := by
  rw [List.mapM_cons] at hr
  cases ha : f a with
  | error e => rw [ha] at hr; contradiction
  | ok b =>
    cases hl : l.mapM f with
    | error e => rw [ha, hl] at hr; contradiction
    | ok bs =>
      rw [ha, hl] at hr
      exact ⟨b, bs, rfl, rfl, (Except.ok.inj hr).symm⟩

section

variable {left : Nat} {inside : List Container} {r : Option Json}

theorem toJsonIn_array_ok {id : ArrayId} (hr : h.toJsonIn left inside (.array id) = .ok r) :
    ∃ k rs, (h.members (.array id)).mapM (h.toJsonIn k (.array id :: inside)) = .ok rs ∧
      r = some (.array (rs.map fun j => j.getD .null)) := by
  by_cases hc : Container.array id ∈ inside
  · cases left <;> simp [toJsonIn, hc] at hr
  · cases left with
    | zero => simp [toJsonIn, hc] at hr
    | succ k =>
      simp only [toJsonIn, List.contains_eq_mem, hc, decide_false, Bool.false_eq_true, if_false,
        bind_pure_comp] at hr
      obtain ⟨rs, hrs, rfl⟩ := map_ok hr
      exact ⟨k, rs, hrs, rfl⟩

theorem toJsonIn_object_ok {id : ObjectId} (hr : h.toJsonIn left inside (.object id) = .ok r) :
    ∃ k rs, (h.object id).mapM (fun p => (p.1, ·) <$> h.toJsonIn k (.object id :: inside) p.2) =
      .ok rs ∧ r = some (.object (rs.filterMap fun (key, j) => j.map (key, ·))) := by
  by_cases hc : Container.object id ∈ inside
  · cases left <;> simp [toJsonIn, hc] at hr
  · cases left with
    | zero => simp [toJsonIn, hc] at hr
    | succ k =>
      simp only [toJsonIn, List.contains_eq_mem, hc, decide_false, Bool.false_eq_true, if_false,
        bind_pure_comp] at hr
      obtain ⟨rs, hrs, rfl⟩ := map_ok hr
      exact ⟨k, rs, hrs, rfl⟩

end

section

variable {f : Value → Except JsonFault (Option Json)}

theorem depicts_items {items : List Value} {rs : List (Option Json)}
    (hf : ∀ v ∈ items, ∀ r, f v = .ok r → ∃ j, r = some j ∧ h.Depicts v j)
    (hrs : items.mapM f = .ok rs) :
    List.Forall₂ h.Depicts items (rs.map fun j => j.getD .null) := by
  induction items generalizing rs with
  | nil =>
    obtain rfl := Except.ok.inj hrs
    exact .nil
  | cons v more ih =>
    obtain ⟨hv, hmore⟩ := List.forall_mem_cons.mp hf
    obtain ⟨r, rs, hr, hrest, rfl⟩ := mapM_cons_ok hrs
    obtain ⟨j, rfl, hj⟩ := hv r hr
    exact .cons hj (ih hmore hrest)

theorem depicts_fields {d : Dict Value} {rs : List (String × Option Json)}
    (hf : ∀ v ∈ d.map Prod.snd, ∀ r, f v = .ok r → ∃ j, r = some j ∧ h.Depicts v j)
    (hrs : d.mapM (fun p => (p.1, ·) <$> f p.2) = .ok rs) :
    d.keys = Dict.keys (rs.filterMap fun (key, j) => j.map (key, ·)) ∧
      List.Forall₂ h.Depicts (d.map Prod.snd)
        ((rs.filterMap fun (key, j) => j.map (key, ·)).map Prod.snd) := by
  induction d generalizing rs with
  | nil =>
    obtain rfl := Except.ok.inj hrs
    exact ⟨rfl, .nil⟩
  | cons p more ih =>
    obtain ⟨hv, hmore⟩ := List.forall_mem_cons.mp hf
    obtain ⟨q, rs, hq, hrest, rfl⟩ := mapM_cons_ok hrs
    obtain ⟨r, hr, rfl⟩ := map_ok hq
    obtain ⟨j, rfl, hj⟩ := hv r hr
    obtain ⟨hkeys, hvalues⟩ := ih hmore hrest
    exact ⟨congrArg (p.1 :: ·) hkeys, .cons hj hvalues⟩

end

/-- What the conversion of data ends in, if it ends well. -/
theorem IsData.depicts (hv : h.IsData n v) {left : Nat} {inside : List Container}
    {r : Option Json} (hr : h.toJsonIn left inside v = .ok r) :
    ∃ j, r = some j ∧ h.Depicts v j := by
  induction hv generalizing left inside r with
  | null =>
    cases left <;> exact ⟨_, (Except.ok.inj hr).symm, .null⟩
  | bool b =>
    cases left <;> exact ⟨_, (Except.ok.inj hr).symm, .bool b⟩
  | @number n x i hi hx =>
    have hx := Number.integer?_eq_some_iff.mpr ⟨hi, hx⟩
    have hj := Json.ofFloat_of_integer? hx
    refine ⟨.number (.integer i), ?_, .number hx⟩
    cases left <;> exact (Except.ok.inj hr).symm.trans (congrArg some hj)
  | string s =>
    cases left <;> exact ⟨_, (Except.ok.inj hr).symm, .string s⟩
  | array hitems ih =>
    obtain ⟨k, rs, hrs, rfl⟩ := toJsonIn_array_ok hr
    exact ⟨_, rfl, .array (depicts_items (fun v hv _ hr => ih v hv hr) hrs)⟩
  | object hkeys hvalues ih =>
    obtain ⟨k, rs, hrs, rfl⟩ := toJsonIn_object_ok hr
    obtain ⟨hkeys, hvalues⟩ := depicts_fields (fun v hv _ hr => ih v hv hr) hrs
    exact ⟨_, rfl, .object hkeys hvalues⟩

theorem forall_mem_iff_of_forall₂ {α β : Type} {R : α → β → Prop} {p : α → Prop} {q : β → Prop}
    {l : List α} {k : List β} (hl : List.Forall₂ R l k)
    (hpq : ∀ a ∈ l, ∀ b, R a b → (p a ↔ q b)) : (∀ a ∈ l, p a) ↔ ∀ b ∈ k, q b := by
  induction hl with
  | nil => simp
  | cons hab _ ih =>
    obtain ⟨ha, hmore⟩ := List.forall_mem_cons.mp hpq
    rw [List.forall_mem_cons, List.forall_mem_cons, ha _ hab, ih hmore]

theorem forall_mem_of_forall₂ {α β : Type} {R : α → β → Prop} {q : β → Prop} {l : List α}
    {k : List β} (hl : List.Forall₂ R l k) (hq : ∀ a ∈ l, ∀ {b}, R a b → q b) : ∀ b ∈ k, q b := by
  refine (forall_mem_iff_of_forall₂ (p := fun _ => True) hl fun a ha b hab => ?_).mp
    fun _ _ => trivial
  exact iff_of_true trivial (hq a ha hab)

theorem IsData.exact (hv : h.IsData n v) {j : Json} (hj : h.Depicts v j) : j.Exact := by
  induction hv generalizing j with
  | null => cases hj with | null => exact .null
  | bool b => cases hj with | bool => exact .bool b
  | number _ _ =>
    cases hj with
    | number hx => exact .number (Number.integer?_eq_some_iff.mp hx).1
  | string s => cases hj with | string => exact .string s
  | array _ ih =>
    cases hj with
    | array hitems => exact .array (forall_mem_of_forall₂ hitems ih)
  | object hnodup _ ih =>
    cases hj with
    | object hkeys hvalues =>
      have hexact := forall_mem_of_forall₂ hvalues ih
      exact .object (hkeys ▸ hnodup) (List.forall_mem_map.mp hexact)

/-- A value and what depicts it nest equally deep. -/
theorem IsData.within_iff (hv : h.IsData n v) {j : Json} (hj : h.Depicts v j) (k : Nat) :
    h.IsData k v ↔ j.Within k := by
  induction hv generalizing j k with
  | null =>
    cases hj
    exact iff_of_true .null (by cases k <;> trivial)
  | bool b =>
    cases hj
    exact iff_of_true (.bool b) (by cases k <;> trivial)
  | number hi hx =>
    cases hj
    exact iff_of_true (.number hi hx) (by cases k <;> trivial)
  | string s =>
    cases hj
    exact iff_of_true (.string s) (by cases k <;> trivial)
  | array _ ih =>
    cases hj with
    | array hitems =>
      cases k with
      | zero => exact iff_of_false (fun hdata => nomatch hdata) id
      | succ k =>
        rw [Json.Within, ← forall_mem_iff_of_forall₂ hitems fun v hv j hj => ih v hv hj k]
        exact ⟨fun hdata => by cases hdata; assumption, .array⟩
  | object hnodup _ ih =>
    cases hj with
    | object hkeys hvalues =>
      cases k with
      | zero => exact iff_of_false (fun hdata => nomatch hdata) id
      | succ k =>
        have hiff := forall_mem_iff_of_forall₂ hvalues fun v hv j hj => ih v hv hj k
        rw [List.forall_mem_map] at hiff
        rw [Json.Within, ← hiff]
        exact ⟨fun hdata => by cases hdata; assumption, .object hnodup⟩

/-- Data has a JSON value that shows it, up to the limit of the conversion. -/
theorem IsData.exists_toJson (hv : h.IsData maxDepth v) :
    ∃ j, h.toJson v = .ok (some j) ∧ h.Depicts v j := by
  obtain ⟨r, hr⟩ := faultOf?_eq_none.mp (fault_eq_none_iff.mpr fun path hpath => hv.fits hpath)
  obtain ⟨j, rfl, hj⟩ := hv.depicts hr
  exact ⟨j, hr, hj⟩

/-! ### From JSON to values -/

/-- What objects and arrays there were is still there; others may have been put behind them. -/
structure Spares (h h' : Heap) : Prop where
  objects : h.objects.toList <+: h'.objects.toList
  arrays : h.arrays.toList <+: h'.arrays.toList

theorem Spares.refl (h : Heap) : h.Spares h :=
  ⟨List.prefix_refl _, List.prefix_refl _⟩

theorem Spares.trans {h₁ h₂ h₃ : Heap} (h₁₂ : h₁.Spares h₂) (h₂₃ : h₂.Spares h₃) : h₁.Spares h₃ :=
  ⟨h₁₂.objects.trans h₂₃.objects, h₁₂.arrays.trans h₂₃.arrays⟩

theorem spares_newArray (h : Heap) (items : Array Value) : h.Spares (h.newArray items).2 :=
  ⟨List.prefix_refl _, by simp [newArray]⟩

theorem spares_newObject (h : Heap) (d : Dict Value) : h.Spares (h.newObject d).2 :=
  ⟨by simp [newObject], List.prefix_refl _⟩

theorem getD_of_push_prefix {α : Type} {xs ys : Array α} {a : α}
    (h : (xs.push a).toList <+: ys.toList) (d : α) : ys.getD xs.size d = a := by
  obtain ⟨zs, hzs⟩ := h
  have hys : ys = xs.push a ++ zs.toArray := Array.ext' (by simpa using hzs.symm)
  simp [hys]

theorem Spares.array_newArray {items : Array Value} (hs : (h.newArray items).2.Spares h') :
    h'.array h.arrays.size = items :=
  getD_of_push_prefix hs.arrays _

theorem Spares.object_newObject {d : Dict Value} (hs : (h.newObject d).2.Spares h') :
    h'.object h.objects.size = d :=
  getD_of_push_prefix hs.objects _

/-- The value made of a JSON value is shown by it, there and wherever what was there still is. -/
structure Makes (h : Heap) (j : Json) : Prop where
  spares : h.Spares (h.ofJson j).2
  depicts : ∀ {h' : Heap}, (h.ofJson j).2.Spares h' → h'.Depicts (h.ofJson j).1 j

theorem makes_items {items : List Json} (hitems : ∀ j ∈ items, ∀ h : Heap, h.Makes j) (h : Heap) :
    h.Spares (h.ofJsonItems items).2 ∧ ∀ {h' : Heap}, (h.ofJsonItems items).2.Spares h' →
      List.Forall₂ h'.Depicts (h.ofJsonItems items).1 items := by
  induction items generalizing h with
  | nil => exact ⟨.refl h, fun _ => .nil⟩
  | cons j more ih =>
    obtain ⟨hj, hmore⟩ := List.forall_mem_cons.mp hitems
    obtain ⟨hspares, hdepicts⟩ := hj h
    obtain ⟨hrest, hvalues⟩ := ih hmore (h.ofJson j).2
    exact ⟨hspares.trans hrest, fun hs => .cons (hdepicts (hrest.trans hs)) (hvalues hs)⟩

theorem makes_fields {fields : List (String × Json)}
    (hfields : ∀ f ∈ fields, ∀ h : Heap, h.Makes f.2) (h : Heap) :
    h.Spares (h.ofJsonFields fields).2 ∧
      Dict.keys (h.ofJsonFields fields).1 = Dict.keys fields ∧
      ∀ {h' : Heap}, (h.ofJsonFields fields).2.Spares h' →
        List.Forall₂ h'.Depicts ((h.ofJsonFields fields).1.map Prod.snd) (fields.map Prod.snd) := by
  induction fields generalizing h with
  | nil => exact ⟨.refl h, rfl, fun _ => .nil⟩
  | cons f more ih =>
    obtain ⟨hf, hmore⟩ := List.forall_mem_cons.mp hfields
    obtain ⟨hspares, hdepicts⟩ := hf h
    obtain ⟨hrest, hkeys, hvalues⟩ := ih hmore (h.ofJson f.2).2
    exact ⟨hspares.trans hrest, congrArg (f.1 :: ·) hkeys,
      fun hs => .cons (hdepicts (hrest.trans hs)) (hvalues hs)⟩

theorem makes_of_exact {j : Json} (hj : j.Exact) : ∀ h : Heap, h.Makes j := by
  induction hj with
  | null => exact fun h => ⟨.refl h, fun _ => .null⟩
  | bool b => exact fun h => ⟨.refl h, fun _ => .bool b⟩
  | number hi => exact fun h => ⟨.refl h, fun _ => .number (Number.integer?_toFloat hi)⟩
  | string s => exact fun h => ⟨.refl h, fun _ => .string s⟩
  | array _ ih =>
    intro h
    obtain ⟨hspares, hvalues⟩ := makes_items ih h
    refine ⟨hspares.trans (spares_newArray _ _), fun {h'} hs => .array ?_⟩
    have harray : h'.array _ = _ := hs.array_newArray
    rw [members, harray]
    exact hvalues ((spares_newArray _ _).trans hs)
  | object hnodup _ ih =>
    intro h
    obtain ⟨hspares, hkeys, hvalues⟩ := makes_fields ih h
    refine ⟨hspares.trans (spares_newObject _ _), fun {h'} hs => ?_⟩
    have hobject : h'.object _ = Dict.ofPairs (h.ofJsonFields _).1 := hs.object_newObject
    rw [Dict.ofPairs_of_nodup (hkeys ▸ hnodup)] at hobject
    refine .object (hobject ▸ hkeys) ?_
    rw [members, hobject]
    exact hvalues ((spares_newObject _ _).trans hs)

/-! ### Two values shown by one JSON value -/

theorem forall₂_of_common {α β γ : Type} {R : α → γ → Prop} {S : β → γ → Prop} {T : α → β → Prop}
    {as : List α} {bs : List β} {cs : List γ} (has : List.Forall₂ R as cs)
    (hbs : List.Forall₂ S bs cs) (hT : ∀ c ∈ cs, ∀ {a b}, R a c → S b c → T a b) :
    List.Forall₂ T as bs := by
  induction has generalizing bs with
  | nil =>
    cases hbs
    exact .nil
  | cons ha _ ih =>
    cases hbs with
    | cons hb hbs =>
      obtain ⟨hc, hmore⟩ := List.forall_mem_cons.mp hT
      exact .cons (hc ha hb) (ih hbs hmore)

theorem alike_of_depicts (j : Json) : ∀ {v w : Value}, h.Depicts v j → h'.Depicts w j →
    h.Alike h' v w := by
  induction j using Json.induct with
  | null =>
    rintro _ _ ⟨⟩ ⟨⟩
    exact .null
  | bool b =>
    rintro _ _ ⟨⟩ ⟨⟩
    exact .bool b
  | number n =>
    intro v w hv hw
    cases hv with
    | number hx =>
      cases hw with
      | number hy => exact .number (Number.beq_of_integer? hx hy)
  | string s =>
    rintro _ _ ⟨⟩ ⟨⟩
    exact .string s
  | array items ih =>
    intro v w hv hw
    cases hv with
    | array hv =>
      cases hw with
      | array hw => exact .array (forall₂_of_common hv hw ih)
  | object fields ih =>
    intro v w hv hw
    cases hv with
    | object hkeys hv =>
      cases hw with
      | object hkeys' hw =>
        exact .object (hkeys.trans hkeys'.symm)
          (forall₂_of_common hv hw (List.forall_mem_map.mpr ih))

end Heap

end ModuleLoader.Script

namespace ModuleLoader

namespace Machine

open Script

variable {m : Machine} {v : Value} {args : List Value}

theorem run_stringify {j : Json} (hargs : args.head? = some v)
    (hj : m.heap.toJson v = .ok (some j)) : m.run (Builtin.stringify args) =
      some (.ok (.string (if args[2]?.any Value.truthy then j.pretty else j.compact)), m) := by
  unfold Builtin.stringify
  rw [run_bind_ok run_heap]
  simp only [hargs, Option.getD_some, hj]
  rfl

theorem run_parse_ok {text : String} {j : Json} (hread : Json.read text = .ok j)
    (more : List Value) : m.run (Builtin.parse (.string text :: more)) =
      some (.ok (m.heap.ofJson j).1, { m with heap := (m.heap.ofJson j).2 }) := by
  unfold Builtin.parse
  rw [run_bind_ok run_heap]
  have htext : ((Value.string text :: more).head?.map m.heap.display).getD "undefined" = text := rfl
  simp only [htext, hread]
  rfl

theorem run_parse_error {text : String} {e : Json.ReadError} (hread : Json.read text = .error e)
    (more : List Value) : m.run (Builtin.parse (.string text :: more)) =
      some (.error (.thrown (.object m.heap.objects.size)), m.raised "SyntaxError" e.message) := by
  unfold Builtin.parse
  rw [run_bind_ok run_heap]
  have htext : ((Value.string text :: more).head?.map m.heap.display).getD "undefined" = text := rfl
  simp only [htext, hread]
  exact run_raise _ _

/-- Data of at most 256 containers one in another has a text, compact or indented as the arguments
say. On any machine, now or later, the text is read back: as a value of the same structure if there
are at most 127 containers one in another; else reading it throws a syntax error. -/
theorem json_round_trip (hargs : args.head? = some v) (hdata : m.heap.IsData 256 v) : ∃ text,
    (∀ n this, m.run (Evaluate.call (n + 1) (.native .stringify) this args) =
      some (.ok (.string text), m)) ∧
    (m.heap.IsData 127 v → ∀ (m₁ : Machine) n this more, ∃ w h,
      m₁.run (Evaluate.call (n + 1) (.native .parse) this (.string text :: more)) =
        some (.ok w, { m₁ with heap := h }) ∧
      m₁.heap.Spares h ∧ m.heap.Alike h v w) ∧
    (¬ m.heap.IsData 127 v → ∀ (m₁ : Machine) n this more, ∃ message,
      m₁.run (Evaluate.call (n + 1) (.native .parse) this (.string text :: more)) =
        some (.error (.thrown (.object m₁.heap.objects.size)),
          m₁.raised "SyntaxError" message)) := by
  obtain ⟨j, hj, hdepicts⟩ := hdata.exists_toJson
  have hexact := hdata.exact hdepicts
  have hwithin := hdata.within_iff hdepicts 127
  obtain ⟨s, hlaid⟩ := Json.text_eq_laid (args[2]?.any Value.truthy)
  obtain ⟨hread, hrefused⟩ := Json.read_laid s hexact
  refine ⟨_, fun n this => (run_call_builtin (by simp) n this args).trans (run_stringify hargs hj),
    ?_, ?_⟩
  · intro hshallow m₁ n this more
    have hok := hread (hwithin.mp hshallow)
    rw [← hlaid j] at hok
    obtain ⟨hspares, hmakes⟩ := Heap.makes_of_exact hexact m₁.heap
    refine ⟨_, _, (run_call_builtin (by simp) n this _).trans (run_parse_ok hok more), hspares, ?_⟩
    exact Heap.alike_of_depicts j hdepicts (hmakes (.refl _))
  · intro hdeep m₁ n this more
    obtain ⟨e, herror⟩ := hrefused (mt hwithin.mpr hdeep)
    rw [← hlaid j] at herror
    exact ⟨e.message, (run_call_builtin (by simp) n this _).trans (run_parse_error herror more)⟩

end Machine

namespace Sample

open Script

/-- An object with an array that has another one in it twice, and with texts that need escapes. -/
def parcel : Heap :=
  { Heap.empty with
    objects := #[[("b\n", .array 0), ("a", .number (JsonNumber.integer (-7)).toFloat),
      ("", .string "\"\x01")]]
    arrays := #[#[.null, .bool true, .array 1, .array 1], #[]] }

theorem isData_parcel (n : Nat) : parcel.IsData (n + 3) (.object 0) := by
  have hempty : parcel.IsData (n + 1) (.array 1) := .array (List.forall_mem_nil _)
  have hitems : parcel.IsData (n + 2) (.array 0) := by
    refine .array (List.forall_mem_cons.mpr ⟨.null, List.forall_mem_cons.mpr ⟨.bool true, ?_⟩⟩)
    exact List.forall_mem_cons.mpr ⟨hempty, List.forall_mem_singleton.mpr hempty⟩
  have hnumber : parcel.IsData (n + 2) (.number (JsonNumber.integer (-7)).toFloat) :=
    .number (by decide) (Number.integer?_eq_some_iff.mp (Number.integer?_toFloat (by decide))).2
  refine .object (by decide) (List.forall_mem_cons.mpr ⟨hitems, ?_⟩)
  exact List.forall_mem_cons.mpr ⟨hnumber, List.forall_mem_singleton.mpr (.string _)⟩

/-- Arrays one in another, the last of them empty. -/
def tower (height : Nat) : Heap :=
  { Heap.empty with arrays := (Array.range height).map fun i => #[.array (i + 1)] }

theorem isData_tower {height i : Nat} (hi : i ≤ height) (n : Nat) :
    (tower height).IsData n (.array i) ↔ height < i + n := by
  induction n generalizing i with
  | zero => exact iff_of_false (fun hdata => nomatch hdata) (by omega)
  | succ n ih =>
    obtain rfl | hlt := Nat.eq_or_lt_of_le hi
    · have hmembers : (tower i).members (.array i) = [] := by
        simp [Heap.members, Heap.array, tower]
      refine iff_of_true (.array ?_) (by omega)
      rw [hmembers]
      exact List.forall_mem_nil _
    · have hmembers : (tower height).members (.array i) = [.array (i + 1)] := by
        simp [Heap.members, Heap.array, tower, hlt]
      have hnext := ih (i := i + 1) hlt
      rw [show i + (n + 1) = i + 1 + n by omega, ← hnext]
      constructor
      · rintro ⟨⟩
        rename_i hitems
        exact hitems _ (hmembers ▸ List.mem_singleton_self _)
      · intro hdata
        refine .array ?_
        rw [hmembers]
        exact List.forall_mem_singleton.mpr hdata

end Sample

theorem Machine.json_round_trip_sample :
    (∃ text w h, (Sample.machineWith Sample.parcel).run
        (Evaluate.call 1 (.native .stringify) .undefined [.object 0]) =
          some (.ok (.string text), Sample.machineWith Sample.parcel) ∧
      (Sample.machineWith Sample.parcel).run
        (Evaluate.call 1 (.native .parse) .undefined [.string text]) =
          some (.ok w, Sample.machineWith h) ∧
      Sample.parcel.Alike h (.object 0) w) ∧
    ∃ text message, (Sample.machineWith (Sample.tower 127)).run
        (Evaluate.call 1 (.native .stringify) .undefined [.array 0, .null, .bool true]) =
          some (.ok (.string text), Sample.machineWith (Sample.tower 127)) ∧
      (Sample.machineWith (Sample.tower 127)).run
        (Evaluate.call 1 (.native .parse) .undefined [.string text]) =
          some (.error (.thrown (.object 0)),
            (Sample.machineWith (Sample.tower 127)).raised "SyntaxError" message) := by
  constructor
  · obtain ⟨text, hwrites, hreads, -⟩ := Machine.json_round_trip
      (m := Sample.machineWith Sample.parcel)
      (show [Script.Value.object 0].head? = some (.object 0) from rfl) (Sample.isData_parcel 253)
    obtain ⟨w, h, hread, -, halike⟩ := hreads (Sample.isData_parcel 124) _ 0 .undefined []
    exact ⟨text, w, h, hwrites 0 .undefined, hread, halike⟩
  · obtain ⟨text, hwrites, -, hrefuses⟩ := Machine.json_round_trip
      (m := Sample.machineWith (Sample.tower 127))
      (show [Script.Value.array 0, .null, .bool true].head? = some (.array 0) from rfl)
      ((Sample.isData_tower (Nat.zero_le _) 256).mpr (by decide))
    have hdeep : ¬ (Sample.tower 127).IsData 127 (.array 0) :=
      mt (Sample.isData_tower (Nat.zero_le _) 127).mp (by decide)
    obtain ⟨message, hrefused⟩ := hrefuses hdeep _ 0 .undefined []
    exact ⟨text, message, hwrites 0 .undefined, hrefused⟩

end ModuleLoader
