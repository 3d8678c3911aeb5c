import ModuleLoader.Proofs.Coverage
import ModuleLoader.Proofs.Nodes

/-! Stretches of a source, from one of its characters up to another. The tokens of a source lie on
such stretches one behind the other, and merging the stretches of two gives the stretch from the
start of the first to the stop of the last. Nodes that lie in a row keep clear of each other. -/
namespace ModuleLoader.Script

/-! ### Stretches -/

/-- The position behind some characters of a source. -/
def Position.at (cs : List Char) (i : Nat) : Position :=
  .behind (cs.take i)

/-- The stretch of a source from a character up to another. -/
def Span.cut (cs : List Char) (i j : Nat) : Span :=
  .between (.at cs i) (.at cs j)

/-- The span is a stretch of the source between characters of it, and has the line and the column
of its start. -/
def Span.Exact (cs : List Char) (s : Span) : Prop :=
  ∃ before text after, cs = before ++ text ++ after ∧
    s = ⟨textSize before, textSize before + textSize text, 1 + before.count '\n',
      1 + (before.reverse.takeWhile (· ≠ '\n')).length⟩

variable {cs : List Char} {i j k l : Nat}

theorem Span.of_eq_cut {before text after : List Char} (hcs : cs = before ++ text ++ after) :
    Span.of before text = .cut cs before.length (before.length + text.length) := by
  rw [hcs, cut, Position.at, Position.at, List.append_assoc, List.take_left, ← List.append_assoc,
    ← List.length_append, List.take_left]
  rfl

/-- From one character to a later one there is some text. -/
theorem exists_take_eq_append (cs : List Char) (h : i ≤ j) :
    ∃ text, cs.take j = cs.take i ++ text := by
  obtain ⟨text, htext⟩ := List.take_prefix_take_left (l := cs) h
  exact ⟨text, htext.symm⟩

theorem Span.exact_cut (h : i ≤ j) : (Span.cut cs i j).Exact cs := by
  obtain ⟨text, htext⟩ := exists_take_eq_append cs h
  refine ⟨cs.take i, text, cs.drop j, ?_, ?_⟩
  · rw [← htext, List.take_append_drop]
  · rw [← textSize_append, ← htext]
    rfl

theorem Span.Exact.bounds {s : Span} (h : s.Exact cs) :
    s.start ≤ s.stop ∧ s.stop ≤ textSize cs := by
  obtain ⟨before, text, after, rfl, rfl⟩ := h
  simp only [textSize_append]
  omega

theorem offset_mono (cs : List Char) (h : i ≤ j) :
    (Position.at cs i).offset ≤ (Position.at cs j).offset := by
  obtain ⟨text, htext⟩ := exists_take_eq_append cs h
  show textSize (cs.take i) ≤ textSize (cs.take j)
  rw [htext, textSize_append]
  exact Nat.le_add_right _ _

theorem offset_strictMono (h : i < j) (hj : j ≤ cs.length) :
    (Position.at cs i).offset < (Position.at cs j).offset := by
  obtain ⟨text, htext⟩ := exists_take_eq_append cs (Nat.le_of_lt h)
  have hne : text ≠ [] := by
    rintro rfl
    have hlength := congrArg List.length htext
    simp only [List.append_nil, List.length_take] at hlength
    omega
  show textSize (cs.take i) < textSize (cs.take j)
  rw [htext, textSize_append]
  exact Nat.lt_add_of_pos_right (textSize_pos hne)

/-- Along a text the line grows with every newline, and without any the column does. -/
theorem Span.startsNoLater_cut (h : i ≤ k) : (Span.cut cs i j).startsNoLater (.cut cs k l) := by
  obtain ⟨text, htext⟩ := exists_take_eq_append cs h
  have hline : (cut cs k l).line = (cut cs i j).line + text.count '\n' := by
    simp only [cut, between, Position.at, Position.behind, htext, List.count_append, Nat.add_assoc]
  by_cases hnewline : '\n' ∈ text
  · have hpos := List.count_pos_iff.mpr hnewline
    have hlt : (cut cs i j).line < (cut cs k l).line := by omega
    simp only [startsNoLater, hlt, decide_true, Bool.true_or]
  · rw [List.count_eq_zero_of_not_mem hnewline, Nat.add_zero] at hline
    have hcolumn : (cut cs k l).column = (cut cs i j).column + text.length := by
      have hall : ∀ c ∈ text.reverse, decide (c ≠ '\n') = true := fun c hc =>
        decide_eq_true fun hn => hnewline (hn ▸ List.mem_reverse.mp hc)
      simp only [cut, between, Position.at, Position.behind, htext, List.reverse_append]
      rw [List.takeWhile_append_of_pos hall, List.length_append, List.length_reverse]
      omega
    have hle : (cut cs i j).column ≤ (cut cs k l).column := by omega
    simp only [startsNoLater, hline, hle, beq_self_eq_true, decide_true, Bool.and_self,
      Bool.or_true]

theorem Span.merge_cut_max (hik : i ≤ k) :
    (Span.cut cs i j).merge (.cut cs k l) = .cut cs i (max j l) := by
  have hmax : max (Position.at cs j).offset (Position.at cs l).offset =
      (Position.at cs (max j l)).offset := by
    obtain hjl | hlj := Nat.le_total j l
    · rw [Nat.max_eq_right hjl, Nat.max_eq_right (offset_mono cs hjl)]
    · rw [Nat.max_eq_left hlj, Nat.max_eq_left (offset_mono cs hlj)]
  rw [merge, if_pos (startsNoLater_cut hik)]
  simp only [cut, between, Nat.min_eq_left (offset_mono cs hik), hmax]

theorem Span.merge_cut (hik : i ≤ k) (hjl : j ≤ l) :
    (Span.cut cs i j).merge (.cut cs k l) = .cut cs i l := by
  rw [merge_cut_max hik, Nat.max_eq_right hjl]

/-! ### Nodes on their stretches -/

def Node.span : Node → Span
  | expr e => e.span
  | stmt s => s.span

/-- The node has an exact span of its own, and its parts lie within that, one behind the other. -/
def Node.Placed (cs : List Char) (x : Node) : Prop :=
  x.span.start < x.span.stop ∧ x.span.stop ≤ textSize cs ∧ x.span.Exact cs ∧
    (∀ y ∈ x.parts, x.span.start ≤ y.span.start ∧ y.span.stop ≤ x.span.stop) ∧
    x.parts.Pairwise fun y z => y.span.stop ≤ z.span.start

/-- The node lies between two characters of the source, and everything in it is placed. -/
def Node.In (cs : List Char) (i j : Nat) (x : Node) : Prop :=
  ∃ a b, i ≤ a ∧ a < b ∧ b ≤ j ∧ b ≤ cs.length ∧ x.span = .cut cs a b ∧
    x.Everywhere (Node.Placed cs)

/-- The nodes lie between two characters of the source, one behind the other. -/
inductive Row (cs : List Char) : Nat → Nat → List Node → Prop where
  | nil {i j : Nat} (h : i ≤ j) : Row cs i j []
  | cons {i j k : Nat} {x : Node} {xs : List Node} (hx : x.In cs i k) (hxs : Row cs k j xs) :
      Row cs i j (x :: xs)

namespace Node.In

variable {x : Node}

theorem le (h : x.In cs i j) : i ≤ j := by
  obtain ⟨a, b, hia, hab, hbj, -⟩ := h
  omega

theorem start_le (h : x.In cs i j) : (Position.at cs i).offset ≤ x.span.start := by
  obtain ⟨a, b, hia, -, -, -, hspan, -⟩ := h
  rw [hspan]
  exact offset_mono cs hia

theorem le_stop (h : x.In cs i j) : x.span.stop ≤ (Position.at cs j).offset := by
  obtain ⟨a, b, -, -, hbj, -, hspan, -⟩ := h
  rw [hspan]
  exact offset_mono cs hbj

theorem mono (h : x.In cs j k) (hij : i ≤ j) (hkl : k ≤ l) : x.In cs i l := by
  obtain ⟨a, b, hja, hab, hbk, hrest⟩ := h
  exact ⟨a, b, hij.trans hja, hab, hbk.trans hkl, hrest⟩

theorem exact (h : x.In cs i j) : x.span.Exact cs := by
  obtain ⟨a, b, -, hab, -, -, hspan, -⟩ := h
  rw [hspan]
  exact Span.exact_cut (Nat.le_of_lt hab)

end Node.In

namespace Row

variable {xs ys : List Node} {x : Node}

theorem le (h : Row cs i j xs) : i ≤ j := by
  induction h with
  | nil h => exact h
  | cons hx _ ih => exact hx.le.trans ih

theorem singleton (h : x.In cs i j) : Row cs i j [x] :=
  .cons h (.nil (Nat.le_refl j))

theorem append (h : Row cs i j xs) (h' : Row cs j k ys) : Row cs i k (xs ++ ys) := by
  induction h with
  | nil hij =>
    cases h' with
    | nil hjk => exact .nil (hij.trans hjk)
    | cons hx hxs =>
      obtain ⟨a, b, hja, hrest⟩ := hx
      exact .cons ⟨a, b, hij.trans hja, hrest⟩ hxs
  | cons hx _ ih => exact .cons hx (ih h')

/-- A row lies between any characters that are further apart. -/
theorem mono (h : Row cs j k xs) (hij : i ≤ j) (hkl : k ≤ l) : Row cs i l xs := by
  have h' := ((nil hij).append h).append (nil hkl)
  rwa [List.nil_append, List.append_nil] at h'

theorem placed (h : Row cs i j xs) :
    (∀ x ∈ xs, (Position.at cs i).offset ≤ x.span.start ∧
      x.span.stop ≤ (Position.at cs j).offset ∧ x.Everywhere (Node.Placed cs)) ∧
    xs.Pairwise fun x y => x.span.stop ≤ y.span.start := by
  induction h with
  | nil h => exact ⟨nofun, .nil⟩
  | @cons i j k x xs hx hxs ih =>
    obtain ⟨hall, hpairwise⟩ := ih
    have hplaced : x.Everywhere (Node.Placed cs) := by
      obtain ⟨a, b, -, -, -, -, -, hplaced⟩ := hx
      exact hplaced
    refine ⟨List.forall_mem_cons.mpr ⟨⟨hx.start_le, ?_, hplaced⟩, fun y hy => ?_⟩, ?_⟩
    · exact hx.le_stop.trans (offset_mono cs hxs.le)
    · exact ⟨(offset_mono cs hx.le).trans (hall y hy).1, (hall y hy).2⟩
    · exact .cons (fun y hy => hx.le_stop.trans (hall y hy).1) hpairwise

end Row

/-! ### Nodes put together -/

namespace Node.In

variable {x y z : Node} {xs : List Node} {a b c d : Nat}

/-- A node is placed if its parts are in a row on its stretch. -/
theorem of_row (hspan : x.span = .cut cs a b) (hparts : Row cs a b x.parts) (hia : i ≤ a)
    (hab : a < b) (hbj : b ≤ j) (hb : b ≤ cs.length) : x.In cs i j := by
  obtain ⟨hall, hpairwise⟩ := hparts.placed
  have hexact : x.span.Exact cs := by
    rw [hspan]
    exact Span.exact_cut (Nat.le_of_lt hab)
  refine ⟨a, b, hia, hab, hbj, hb, hspan, Node.everywhere_iff.mpr
    ⟨⟨?_, hexact.bounds.2, hexact, ?_, hpairwise⟩, ?_⟩⟩
  · rw [hspan]
    exact offset_strictMono hab hb
  · rw [hspan]
    exact fun y hy => ⟨(hall y hy).1, (hall y hy).2.1⟩
  · exact fun y hy => (hall y hy).2.2

theorem anchored (h : x.In cs i j) : ∃ a b, i ≤ a ∧ a < b ∧ b ≤ j ∧ b ≤ cs.length ∧
    x.span = .cut cs a b ∧ x.In cs a b := by
  obtain ⟨a, b, hia, hab, hbj, hb, hspan, hplaced⟩ := h
  exact ⟨a, b, hia, hab, hbj, hb, hspan, a, b, Nat.le_refl a, hab, Nat.le_refl b, hb, hspan,
    hplaced⟩

/-- A token that is a node. -/
theorem token (hspan : x.span = .cut cs a b) (hparts : x.parts = []) (hia : i ≤ a) (hab : a < b)
    (hb : b ≤ cs.length) : x.In cs i b :=
  of_row hspan (hparts ▸ .nil (Nat.le_of_lt hab)) hia hab (Nat.le_refl b) hb

/-- From a token to another, with parts between the two. -/
theorem bracketed (hspan : z.span = .cut cs a d) (hparts : Row cs b c z.parts) (hia : i ≤ a)
    (hab : a < b) (hcd : c ≤ d) (hd : d ≤ cs.length) : z.In cs i d := by
  have hbc := hparts.le
  exact of_row hspan (hparts.mono (Nat.le_of_lt hab) hcd) hia (by omega) (Nat.le_refl d) hd

/-- From a token to the last part. -/
theorem opened (hspan : z.span = (Span.cut cs a b).merge y.span) (hparts : z.parts = xs ++ [y])
    (hia : i ≤ a) (hab : a < b) (hxs : Row cs b j xs) (hy : y.In cs j k) : z.In cs i k := by
  have hbj := hxs.le
  obtain ⟨c, d, hjc, hcd, hdk, hd, hyspan, hy⟩ := hy.anchored
  rw [hyspan, Span.merge_cut (by omega) (by omega)] at hspan
  refine of_row hspan ?_ hia (by omega) hdk hd
  rw [hparts]
  exact (hxs.mono (Nat.le_of_lt hab) hjc).append (.singleton hy)

/-- From the first part to a token. -/
theorem closed (hspan : z.span = x.span.merge (.cut cs c d)) (hparts : z.parts = x :: xs)
    (hx : x.In cs i j) (hxs : Row cs j c xs) (hcd : c < d) (hd : d ≤ cs.length) :
    z.In cs i d := by
  have hjc := hxs.le
  obtain ⟨a, b, hia, hab, hbj, -, hxspan, hx⟩ := hx.anchored
  rw [hxspan, Span.merge_cut (by omega) (by omega)] at hspan
  refine of_row hspan ?_ hia (by omega) (Nat.le_refl d) hd
  rw [hparts]
  exact .cons hx (hxs.mono hbj (Nat.le_of_lt hcd))

/-- From the first part to the last. -/
theorem joined (hspan : z.span = x.span.merge y.span) (hparts : z.parts = x :: (xs ++ [y]))
    (hx : x.In cs i j) (hxs : Row cs j k xs) (hy : y.In cs k l) : z.In cs i l := by
  have hjk := hxs.le
  obtain ⟨a, b, hia, hab, hbj, -, hxspan, hx⟩ := hx.anchored
  obtain ⟨c, d, hkc, hcd, hdl, hd, hyspan, hy⟩ := hy.anchored
  rw [hxspan, hyspan, Span.merge_cut (by omega) (by omega)] at hspan
  refine of_row hspan ?_ hia (by omega) hdl hd
  rw [hparts]
  exact .cons hx ((hxs.mono hbj hkc).append (.singleton hy))

end Node.In

end ModuleLoader.Script
