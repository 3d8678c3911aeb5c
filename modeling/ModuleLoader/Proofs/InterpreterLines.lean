import ModuleLoader.Proofs.Isolation
import ModuleLoader.Proofs.Parallels
import ModuleLoader.Proofs.Separators

/-! The line that names a script's interpreter is a comment. It is cut off before anything is read,
while a comment is read and passed over, so all offsets differ; but the end of the line stays, so
lines and columns do not, and they are all that is told of places. -/
namespace ModuleLoader

open Script

namespace Script

/-! ### Positions on one line and column -/

/-- Both are at the same line and column. -/
def Position.Aligned (p q : Position) : Prop :=
  p.line = q.line ∧ p.column = q.column

/-- A place without its offsets: its line and column. -/
def Span.site (s : Span) : Span :=
  ⟨0, 0, s.line, s.column⟩

namespace Position.Aligned

variable {p q p' q' : Position}

theorem next (h : p.Aligned q) (c : Char) : (p.next c).Aligned (q.next c) := by
  unfold Position.next
  split
  · exact ⟨congrArg (· + 1) h.1, rfl⟩
  · exact ⟨h.1, congrArg (· + 1) h.2⟩

theorem after (h : p.Aligned q) (text : List Char) : (p.after text).Aligned (q.after text) := by
  induction text generalizing p q with
  | nil => exact h
  | cons c text ih => exact ih (h.next c)

theorem symm (h : p.Aligned q) : q.Aligned p :=
  ⟨h.1.symm, h.2.symm⟩

theorem site_between (h : p.Aligned q) : (Span.between p p').site = (Span.between q q').site := by
  simp [Span.site, Span.between, h.1, h.2]

end Position.Aligned

/-- Behind its newline it makes no difference what the first line is. -/
theorem Position.aligned_behind {line : List Char} (hline : '\n' ∉ line) (rest : List Char) :
    (behind (line ++ '\n' :: rest)).Aligned (behind ('\n' :: rest)) := by
  have hcount : line.count '\n' = 0 := List.count_eq_zero_of_not_mem hline
  have hnewline : (behind (line ++ ['\n'])).Aligned (behind ['\n']) := by
    simp [Aligned, behind, hcount]
  have hrest := hnewline.after rest
  rwa [after_behind, after_behind, ← List.append_cons] at hrest

theorem Span.site_merge {s s' t t' : Span} (hs : s.site = s'.site) (ht : t.site = t'.site) :
    (s.merge t).site = (s'.merge t').site := by
  have hfirst : s.startsNoLater t = s'.startsNoLater t' := by
    simp only [site, Span.mk.injEq, true_and] at hs ht
    simp only [startsNoLater, hs, ht]
  simp only [site, merge, hfirst]
  cases s'.startsNoLater t' with
  | true => exact hs
  | false => exact ht

/-! ### Sources -/

/-- From positions at the same line and column a text has the same pieces at the same sites. -/
theorem pieces_sites (p : Position) (cs : List Char) : ∀ {q : Position}, p.Aligned q →
    (pieces p cs).map (fun x => (x.value, x.span.site)) =
      (pieces q cs).map fun x => (x.value, x.span.site) := by
  -- what a piece is does not depend on where it is, so the texts behind both are the same again
  induction hn : cs.length using Nat.strong_induction_on generalizing p cs with
  | _ n ih =>
    intro q h
    subst hn
    cases cs with
    | nil => simp [pieces]
    | cons c cs =>
      have hshorter : (cs.drop (scan c cs).2).length < (c :: cs).length := by
        rw [List.length_drop, List.length_cons]
        omega
      rw [pieces, pieces, List.map_cons, List.map_cons, h.site_between,
        ih _ hshorter _ _ rfl (h.after _)]

theorem finds_sites {p q : Position} (h : p.Aligned q) (cs : List Char) :
    (finds p cs).map (fun x => (x.value, x.span.site)) =
      (finds q cs).map fun x => (x.value, x.span.site) := by
  have hfilter (p : Position) : (finds p cs).map (fun x => (x.value, x.span.site)) =
      ((pieces p cs).map fun x => (x.value, x.span.site)).filter fun x => x.1.isFind := by
    rw [List.filter_map]
    rfl
  rw [hfilter, hfilter, pieces_sites p cs h]

/-- Behind a line and its newline a text has the finds that it has behind the newline alone. -/
theorem finds_newline {line : List Char} (hline : '\n' ∉ line) (rest : List Char) :
    (finds (.behind line) ('\n' :: rest)).map (fun x => (x.value, x.span.site)) =
      (finds (.behind []) ('\n' :: rest)).map fun x => (x.value, x.span.site) := by
  have hscan : scan '\n' rest = (.gap, (rest.takeWhile isGap).length) := rfl
  rw [finds_gap _ hscan, finds_gap _ hscan]
  exact finds_sites (Position.aligned_behind hline _) _

/-- A comment up to the end of the first line leaves the finds behind it where they are. -/
theorem finds_comment {line : List Char} (hline : '\n' ∉ line) (rest : List Char) :
    (finds .start ('/' :: '/' :: (line ++ '\n' :: rest))).map (fun x => (x.value, x.span.site)) =
      (finds .start ('\n' :: rest)).map fun x => (x.value, x.span.site) := by
  have hslash : ∀ c ∈ '/' :: line, decide (c ≠ '\n') = true := by
    intro c hc
    obtain rfl | hc := List.mem_cons.mp hc
    · decide
    · exact decide_eq_true fun heq => hline (heq ▸ hc)
  have htake : ('/' :: (line ++ '\n' :: rest)).takeWhile (· ≠ '\n') = '/' :: line := by
    rw [← List.cons_append, takeWhile_append_cons (by decide), List.takeWhile_eq_self_iff]
    exact hslash
  have hscan : scan '/' ('/' :: (line ++ '\n' :: rest)) = (.gap, line.length + 1) := by
    show (Lexeme.gap, (('/' :: (line ++ '\n' :: rest)).takeWhile (· ≠ '\n')).length) = _
    rw [htake, List.length_cons]
  rw [Position.start_eq_behind, finds_gap _ hscan, List.take_succ_cons, List.take_left,
    List.drop_succ_cons, List.drop_left]
  exact finds_newline (by simpa using hline) rest

/-! ### What is read off them -/

def LexicalFault.site (e : LexicalFault) : LexicalFault :=
  ⟨e.value, e.span.site⟩

/-- The failure with lines and columns, but without offsets. -/
def SyntaxFault.site : SyntaxFault → SyntaxFault
  | lexical errors => .lexical (errors.map LexicalFault.site)
  | parse error => .parse ⟨error.value, error.span.site⟩

theorem SyntaxFault.message_site (e : SyntaxFault) : e.site.message = e.message := by
  cases e with
  | lexical errors =>
    rw [site, message, message, List.map_map]
    rfl
  | parse error => rfl

def Lexeme.token? : Lexeme → Option Token
  | token t => some t
  | _ => none

def Lexeme.fault? : Lexeme → Option LexFault
  | fault f => some f
  | _ => none

theorem view_tokensOf (xs : List (Spanned Lexeme)) : Tokens.view Span.site (tokensOf xs) =
    (xs.map fun x => (x.value, x.span.site)).filterMap fun x => x.1.token?.map (·, x.2) := by
  simp only [tokensOf, Tokens.view, List.map_filterMap, List.filterMap_map]
  congr 1
  funext x
  obtain ⟨value, span⟩ := x
  cases value <;> rfl

theorem site_faultsOf (xs : List (Spanned Lexeme)) : (faultsOf xs).map LexicalFault.site =
    (xs.map fun x => (x.value, x.span.site)).filterMap fun x => x.1.fault?.map (⟨·, x.2⟩) := by
  simp only [faultsOf, List.map_filterMap, List.filterMap_map]
  congr 1
  funext x
  obtain ⟨value, span⟩ := x
  cases value <;> rfl

/-- Two outcomes that differ in offsets only: both are scripts, or both are failures. -/
inductive SameSites : Except SyntaxFault Program → Except SyntaxFault Program → Prop where
  | ok {p p' : Program} (h : p.mapSpan Span.site = p'.mapSpan Span.site) :
      SameSites (.ok p) (.ok p')
  | error {e e' : SyntaxFault} (h : e.site = e'.site) : SameSites (.error e) (.error e')

/-- The coupling of tokens that differ in offsets only. -/
def Coupling.sites : Coupling :=
  .alike Span.site (fun _ => False) Span.site_merge

theorem Program.sameSites_ofTokens {limit : Nat} {ts us : Tokens}
    (h : Tokens.view Span.site ts = Tokens.view Span.site us) :
    SameSites ((ofTokens limit ts).mapError .parse) ((ofTokens limit us).mapError .parse) := by
  have hinside : Coupling.sites.inside ts us := h
  obtain ⟨hok, herror⟩ := ofTokens_echoes (fun h => h) (echoes_nestedAt limit limit) hinside
  cases hp : ofTokens limit ts with
  | ok p =>
    obtain ⟨p', hp', hplaces⟩ := hok p hp
    rw [hp']
    exact .ok hplaces
  | error e =>
    obtain ⟨⟨cause, span⟩, he', hvalue, hspan⟩ := herror e hp id
    cases hvalue
    rw [he']
    refine .error (congrArg (fun s => SyntaxFault.parse ⟨e.value, s⟩) ?_)
    exact hspan.symm

theorem Program.ofSource_eq (source : String) : ofSource source =
    match tokenize source with
    | .error errors => .error (.lexical errors)
    | .ok ts => (ofTokens maxNesting ts).mapError .parse := by
  unfold ofSource
  cases tokenize source with
  | error errors => rfl
  | ok ts =>
    dsimp only
    cases ofTokens maxNesting ts <;> rfl

/-- What comes of a source depends on its finds and on its end only. -/
theorem Program.sameSites_ofSource {source source' : String}
    (hfinds : (finds .start source.toList).map (fun x => (x.value, x.span.site)) =
      (finds .start source'.toList).map fun x => (x.value, x.span.site))
    (hend : (Position.behind source.toList).Aligned (Position.behind source'.toList)) :
    SameSites (ofSource source) (ofSource source') := by
  have htokens : Tokens.view Span.site (tokensOf (finds .start source.toList)) =
      Tokens.view Span.site (tokensOf (finds .start source'.toList)) := by
    rw [view_tokensOf, view_tokensOf, hfinds]
  have hfaults : (faultsOf (finds .start source.toList)).map LexicalFault.site =
      (faultsOf (finds .start source'.toList)).map LexicalFault.site := by
    rw [site_faultsOf, site_faultsOf, hfinds]
  rw [ofSource_eq, ofSource_eq]
  -- one source has faults if the other has, so both or neither get as far as the parser
  by_cases hnone : faultsOf (finds .start source.toList) = []
  · have hnone' : faultsOf (finds .start source'.toList) = [] := by
      rw [hnone] at hfaults
      exact List.map_eq_nil_iff.mp hfaults.symm
    rw [tokenize_ok hnone, tokenize_ok hnone']
    apply sameSites_ofTokens
    rw [Tokens.view, Tokens.view, List.map_append, List.map_append]
    refine congrArg₂ _ htokens ?_
    rw [List.map_singleton, List.map_singleton]
    exact congrArg (fun s => [(Token.finish, s)]) hend.site_between
  · have hsome : faultsOf (finds .start source'.toList) ≠ [] := by
      intro hnone'
      rw [hnone'] at hfaults
      exact hnone (List.map_eq_nil_iff.mp hfaults)
    rw [tokenize_error hnone, tokenize_error hsome]
    exact .error (congrArg SyntaxFault.lexical hfaults)

/-! ### The line of the interpreter -/

open Evaluate

theorem toList_withoutInterpreterLine {line : String} (hline : '\n' ∉ line.toList)
    (rest : String) : (withoutInterpreterLine ("#!" ++ line ++ "\n" ++ rest)).toList =
      '\n' :: rest.toList := by
  have hsource : ("#!" ++ line ++ "\n" ++ rest).toList =
      '#' :: '!' :: (line.toList ++ '\n' :: rest.toList) := by
    simp only [String.toList_append, List.append_assoc]
    rfl
  unfold withoutInterpreterLine
  rw [hsource]
  show (String.ofList ((line.toList ++ '\n' :: rest.toList).dropWhile (· ≠ '\n'))).toList = _
  rw [String.toList_ofList, List.dropWhile_append_of_pos fun c hc => ?_]
  · exact List.dropWhile_cons_of_neg (by decide)
  · exact decide_eq_true fun heq => hline (heq ▸ hc)

theorem withoutInterpreterLine_comment (line rest : String) :
    withoutInterpreterLine ("//" ++ line ++ "\n" ++ rest) = "//" ++ line ++ "\n" ++ rest ∧
      ("//" ++ line ++ "\n" ++ rest).toList =
        '/' :: '/' :: (line.toList ++ '\n' :: rest.toList) := by
  have hsource : ("//" ++ line ++ "\n" ++ rest).toList =
      '/' :: '/' :: (line.toList ++ '\n' :: rest.toList) := by
    simp only [String.toList_append, List.append_assoc]
    rfl
  refine ⟨?_, hsource⟩
  unfold withoutInterpreterLine
  rw [hsource]
  rfl

theorem sameSites_interpreterLine {line : String} (hline : '\n' ∉ line.toList) (rest : String) :
    SameSites (Program.ofSource (withoutInterpreterLine ("#!" ++ line ++ "\n" ++ rest)))
      (Program.ofSource (withoutInterpreterLine ("//" ++ line ++ "\n" ++ rest))) := by
  obtain ⟨hcomment, htext⟩ := withoutInterpreterLine_comment line rest
  have hslashes : '\n' ∉ '/' :: '/' :: line.toList := by simpa using hline
  rw [hcomment]
  apply Program.sameSites_ofSource
  · rw [toList_withoutInterpreterLine hline, htext]
    exact (finds_comment hline _).symm
  · rw [toList_withoutInterpreterLine hline, htext]
    exact (Position.aligned_behind hslashes _).symm

end Script

/-- A first line that names the interpreter is a comment: whatever stands behind it, the source
compiles to the same script as with a comment in its place, with every line and column as it is
there and only the offsets different; or both are refused alike, for the same causes at the same
lines and columns, and so with the same message. -/
theorem Evaluate.compile_interpreterLine (m : Machine) {line : String}
    (hline : '\n' ∉ line.toList) (rest : String) :
    (∃ p p', m.run (compile ("#!" ++ line ++ "\n" ++ rest)) =
          some (.ok (.ok (.function m.heap.closures.size)), Plan.compiled p m) ∧
        m.run (compile ("//" ++ line ++ "\n" ++ rest)) =
          some (.ok (.ok (.function m.heap.closures.size)), Plan.compiled p' m) ∧
        p.mapSpan Span.site = p'.mapSpan Span.site) ∨
      ∃ e e', m.run (compile ("#!" ++ line ++ "\n" ++ rest)) = some (.ok (.error e), m) ∧
        m.run (compile ("//" ++ line ++ "\n" ++ rest)) = some (.ok (.error e'), m) ∧
        e.site = e'.site ∧ e.message = e'.message := by
  have hsame := sameSites_interpreterLine hline rest
  generalize hsource : Program.ofSource (withoutInterpreterLine ("#!" ++ line ++ "\n" ++ rest)) = x,
    hsource' : Program.ofSource (withoutInterpreterLine ("//" ++ line ++ "\n" ++ rest)) = y at hsame
  cases hsame with
  | @ok p p' h =>
    exact .inl ⟨p, p', Plan.run_compile_ok hsource, Plan.run_compile_ok hsource', h⟩
  | @error e e' h =>
    refine .inr ⟨e, e', Plan.run_compile_error hsource, Plan.run_compile_error hsource', h, ?_⟩
    rw [← e.message_site, h, e'.message_site]

/-- A script that is refused for its second line. -/
theorem Evaluate.compile_interpreterLine_sample :
    '\n' ∉ "/usr/bin/env".toList ∧ ∃ e e',
      Sample.machine.run (compile ("#!" ++ "/usr/bin/env" ++ "\n" ++ "let let;")) =
        some (.ok (.error e), Sample.machine) ∧
      Sample.machine.run (compile ("//" ++ "/usr/bin/env" ++ "\n" ++ "let let;")) =
        some (.ok (.error e'), Sample.machine) ∧
      e.site = e'.site ∧ e.message = "Expected identifier, found let at 2:5" := by
  have hline : '\n' ∉ "/usr/bin/env".toList := by decide
  have hrefused : (match Program.ofSource (withoutInterpreterLine
        ("#!" ++ "/usr/bin/env" ++ "\n" ++ "let let;")) with
      | .ok _ => false
      | .error e => e.message == "Expected identifier, found let at 2:5") = true := by
    decide +kernel
  split at hrefused
  · contradiction
  · rename_i e hsource
    have hrun := Plan.run_compile_error (m := Sample.machine) hsource
    obtain ⟨p, p', hp, -⟩ | ⟨e', e'', he', he'', hsite, -⟩ :=
      compile_interpreterLine Sample.machine hline "let let;"
    · cases hrun.symm.trans hp
    · obtain rfl : e = e' := by
        cases hrun.symm.trans he'
        rfl
      exact ⟨hline, e, e'', he', he'', hsite, eq_of_beq hrefused⟩

end ModuleLoader
