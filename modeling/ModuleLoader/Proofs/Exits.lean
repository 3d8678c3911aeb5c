import ModuleLoader.Proofs.Life
import ModuleLoader.Proofs.Regimes
import ModuleLoader.Proofs.Structures

/-! What accepted scripts never do. Their trees are well-formed, and so are those that a run of them
comes by: a loop exit ends a loop around it, and only what can be assigned to is assigned to. -/
namespace ModuleLoader

open Script

/-! ### The functions of a heap -/

namespace Script.Heap

/-- Every function was made of such a literal. -/
def Made (M : FunctionDef → Prop) (h : Heap) : Prop :=
  ∀ c ∈ h.closures, M c.literal

theorem Made.literal {M : FunctionDef → Prop} {h : Heap} (hh : h.Made M) (hdefault : M default)
    (id : FunctionId) : M (h.closure id).literal := by
  unfold Heap.closure
  by_cases hid : id < h.closures.size
  · rw [← Array.getElem_eq_getD (h := hid)]
    exact hh _ (Array.getElem_mem hid)
  · rw [Array.getD_eq_getD_getElem?, Array.getElem?_eq_none (Nat.le_of_not_lt hid)]
    exact hdefault

theorem Made.of_closures_eq {M : FunctionDef → Prop} {h h' : Heap} (hh : h.Made M)
    (hclosures : h'.closures = h.closures) : h'.Made M := by
  unfold Made
  rwa [hclosures]

theorem closures_assign (h : Heap) (scope : Scope) (name : String) (value : Value) :
    (h.assign scope name value).closures = h.closures := by
  induction scope with
  | nil => rfl
  | cons id outer ih =>
    unfold assign
    split
    · rfl
    · exact ih

end Script.Heap

/-! ### The trees of a run -/

section Trees

variable (F : Node → Prop)

/-- The tree is well-formed throughout, or it belongs to foreign texts. -/
def Script.Node.From (x : Node) : Prop :=
  x.Everywhere Node.Formed ∨ F x

def Script.FunctionDef.From (literal : FunctionDef) : Prop :=
  ∀ s ∈ literal.body, (Node.stmt s).From F

/-- All functions and all tasks are about well-formed trees or foreign ones; what is not foreign and
names a place can be assigned to. -/
def Regime.trees : Regime where
  heap h := h.Made (FunctionDef.From F)
  scope _ := True
  node := Node.From F
  target e := e.isTarget = true ∨ F (.expr e)

end Trees

/-- The foreign texts have their parts among them. -/
def Script.Node.Closed (F : Node → Prop) : Prop :=
  ∀ x, F x → ∀ y ∈ x.parts, F y

theorem Regime.lawful_trees {F : Node → Prop} (hF : Node.Closed F) : (Regime.trees F).Lawful where
  part {x y} h hy := h.imp (fun h => (Node.everywhere_iff.mp h).2 y hy) fun h => hF x h y hy
  assigned h := h.imp (fun h => (Node.everywhere_iff.mp h).1.1)
    fun h => hF _ h _ (by simp [Node.parts, Expr.parts])
  updated h := h.imp (fun h => (Node.everywhere_iff.mp h).1)
    fun h => hF _ h _ (by simp [Node.parts, Expr.parts])
  program hp s hs := .inl (Program.fits_of_ofSource hp s hs).1
  data hcode hh := hh.of_closures_eq (congrArg Prod.snd hcode)
  newFrame hh outer frame := ⟨hh.of_closures_eq rfl, trivial⟩
  declare hh _ _ _ _ _ _ := hh.of_closures_eq rfl
  assign {h} hh scope _ name _ value := hh.of_closures_eq (h.closures_assign scope name value)
  newClosure hh _ hc c' hc' := by
    obtain hc' | rfl := Array.mem_push.mp hc'
    · exact hh c' hc'
    · exact hc
  closure hh id := hh.literal nofun id

/-! ### Runs of accepted scripts -/

/-- The statements that a run of the script executes one after the other: its own, and the bodies of
the functions that are written in it. -/
inductive Script.Program.HasBody (p : Program) : List Stmt → Prop where
  | statements : p.HasBody p.statements
  | expression {s : Stmt} {literal : FunctionDef} (hs : s ∈ p.statements)
      (h : (Node.expr (.function literal)).Within (.stmt s)) : p.HasBody literal.body
  | declaration {s : Stmt} {literal : FunctionDef} (hs : s ∈ p.statements)
      (h : (Node.stmt (.function literal)).Within (.stmt s)) : p.HasBody literal.body

/-- The node is written in a function of the heap, and in a statement there that no script has, for
it is not well-formed. -/
def Script.Heap.Foreign (h : Heap) (x : Node) : Prop :=
  ∃ c ∈ h.closures, ∃ s ∈ c.literal.body,
    ¬ (Node.stmt s).Everywhere Node.Formed ∧ x.Within (.stmt s)

theorem Script.Heap.closed_foreign (h : Heap) : Node.Closed h.Foreign := by
  rintro x ⟨c, hc, s, hs, hformed, hx⟩ y hy
  exact ⟨c, hc, s, hs, hformed, hx.tail hy⟩

theorem Script.Heap.made_from_foreign (h : Heap) : h.Made (FunctionDef.From h.Foreign) := by
  intro c hc s hs
  by_cases hformed : (Node.stmt s).Everywhere Node.Formed
  · exact .inl hformed
  · exact .inr ⟨c, hc, s, hs, hformed, .refl⟩

namespace Script.Program

variable {source : String} {p : Program}

theorem HasBody.formed (h : ofSource source = .ok p) {body : List Stmt} (hbody : p.HasBody body) :
    ∀ s ∈ body, (Node.stmt s).Everywhere Node.Formed ∧ ¬ s.Escapes := by
  have hformed (s : Stmt) (hs : s ∈ p.statements) := (fits_of_ofSource h s hs).1
  have hbelow {s s' : Stmt} {x : Node} (hs : s ∈ p.statements) (hx : x.Within (.stmt s))
      (hs' : .stmt s' ∈ x.parts) : (Node.stmt s').Everywhere Node.Formed :=
    (hformed s hs).within (hx.tail hs')
  intro s' hs'
  cases hbody with
  | statements => exact ⟨hformed s' hs', (fits_of_ofSource h s' hs').2.1⟩
  | @expression s literal hs hx =>
    obtain ⟨name, params, body, span⟩ := literal
    exact ⟨hbelow hs hx (List.mem_map_of_mem hs'), hformed s hs _ hx s' hs'⟩
  | @declaration s literal hs hx =>
    obtain ⟨name, params, body, span⟩ := literal
    exact ⟨hbelow hs hx (List.mem_map_of_mem hs'), (hformed s hs _ hx).2 s' hs'⟩

/-- An accepted script is well-formed, and its loop exits stay within their functions. So whatever
is in the heap, the script and its functions end normally, in a `return` or in an exception. In a
run of the script, or of a function such as it is compiled to, the place of an expression is asked
for only if it can be assigned to, unless the expression came with the heap in a function that no
script has. -/
theorem runs_in_shape (h : ofSource source = .ok p) :
    (∀ s ∈ p.statements, (Node.stmt s).Everywhere Node.Formed ∧ ¬ s.Escapes) ∧
    (∀ {body}, p.HasBody body → ∀ {n scope c m m'},
      Machine.run m (Evaluate.perform n (.body body scope)) = some (.ok c, m') →
        c = Completion.normal ∨ ∃ v, c = .return v) ∧
    ∀ {t m}, (∃ scope, t = .body p.statements scope) ∨ (∃ f this args, t = .call f this args) →
      ∀ {n k e scope m'} {stack : Stack (.place e scope)},
        Moment.Steps (.entering n t (.bottom t) m) (.entering k (.place e scope) stack m') →
          e.isTarget = true ∨ m.heap.Foreign (.expr e) := by
  refine ⟨HasBody.formed h .statements, ?_, ?_⟩
  · intro body hbody n scope c m m' hrun
    have hformed := hbody.formed h
    have hadmits : (Regime.trees m.heap.Foreign).contract.admits (.body body scope) :=
      ⟨fun s hs => .inl (hformed s hs).1, trivial⟩
    have hgives := Moment.gives_of_perform (Regime.lawful_trees m.heap.closed_foreign).kept hadmits
      m.heap.made_from_foreign hrun
    cases c with
    | normal => exact .inl rfl
    | «return» v => exact .inr ⟨v, rfl⟩
    | «break» | «continue» =>
      obtain ⟨s, hs, hescapes⟩ := hgives rfl
      exact ((hformed s hs).2 hescapes).elim
  · intro t m ht n k e scope m' stack hsteps
    have hadmits : (Regime.trees m.heap.Foreign).contract.admits t := by
      obtain ⟨scope, rfl⟩ | ⟨f, this, args, rfl⟩ := ht
      · exact ⟨fun s hs => .inl (fits_of_ofSource h s hs).1, trivial⟩
      · trivial
    obtain ⟨-, ⟨-, htarget, -⟩, -⟩ := hsteps.keeps (Regime.lawful_trees m.heap.closed_foreign).kept
      ⟨m.heap.made_from_foreign, hadmits, trivial⟩
    exact htarget

end Script.Program

namespace Sample

/-- A loop exit in a guarded block, whose finalizer assigns. -/
def exiting : String :=
  "function f(n) \x7b for (;;) \x7b try \x7b break; \x7d finally \x7b n += 1; \x7d \x7d \x7d f(1);"

end Sample

theorem Script.Program.runs_in_shape_sample : ∃ p c m',
    Program.ofSource Sample.exiting = .ok p ∧
    Sample.machine.run (Evaluate.perform 60 (.body p.statements globalScope)) = some (.ok c, m') ∧
    (c = .normal ∨ ∃ v, c = .return v) ∧
    ∀ {n k e scope m'} {stack : Stack (.place e scope)},
      Moment.Steps (.entering n (.body p.statements globalScope) (.bottom _) Sample.machine)
        (.entering k (.place e scope) stack m') → e.isTarget = true := by
  have hrun : ((Program.ofSource Sample.exiting).toOption.any fun p =>
      (Sample.machine.run (Evaluate.perform 60 (.body p.statements globalScope))).any fun q =>
        q.1.toOption.isSome) = true := by
    decide +kernel
  obtain ⟨p, hp, hrun⟩ := (Option.any_eq_true ..).mp hrun
  obtain ⟨⟨r, m'⟩, hrun, hr⟩ := (Option.any_eq_true ..).mp hrun
  obtain ⟨c, hc⟩ := Option.isSome_iff_exists.mp hr
  obtain rfl := Sample.eq_ok_of_toOption hc
  replace hp := Sample.eq_ok_of_toOption hp
  obtain ⟨-, hends, hplaces⟩ := runs_in_shape hp
  refine ⟨p, c, m', hp, hrun, hends .statements hrun, fun hsteps => ?_⟩
  obtain htarget | ⟨c, hc, -⟩ := hplaces (.inl ⟨globalScope, rfl⟩) hsteps
  · exact htarget
  · have hnone : Sample.machine.heap.closures = #[] := rfl
    rw [hnone] at hc
    exact absurd hc (Array.not_mem_empty c)

end ModuleLoader
