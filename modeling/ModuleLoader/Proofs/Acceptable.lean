import Mathlib.Data.List.Induction
import ModuleLoader.Command.Execute
import ModuleLoader.Proofs.Life
import ModuleLoader.Proofs.Registrations

/-! Acceptable options. Checking options, choosing strategies for suffixes and bounding the call
depth are written apart from one another; what the check lets through, the other two take as it is.
Accepted manifests and the options of the command are acceptable, whatever they were put together
from. -/
namespace ModuleLoader

/-! ### What the check lets through -/

theorem isSome_builtin?_iff {extension : String} :
    (Strategy.builtin? extension).isSome = true ↔ extension ∈ standardExtensions := by
  unfold Strategy.builtin? standardExtensions
  by_cases hscript : extension = ".js"
  · simp [hscript]
  · by_cases hjson : extension = ".json" <;> simp [hscript, hjson]

theorem extensionFault?_eq_none_iff {extension : String} :
    extensionFault? extension = none ↔ extension ∈ standardExtensions := by
  have hdots : ∀ e ∈ standardExtensions, extensionFault? e = none := by decide +kernel
  refine ⟨fun h => ?_, hdots extension⟩
  by_contra hmem
  unfold extensionFault? at h
  split at h
  · contradiction
  · simp [hmem] at h

theorem callDepthFault?_eq_none_iff {depth : Nat} :
    callDepthFault? depth = none ↔ 1 ≤ depth ∧ depth ≤ largestCallDepth := by
  unfold callDepthFault?
  split
  · simp [*]
  · split <;> simp <;> omega

theorem Options.fault?_eq_none_iff {o : Options} :
    o.fault? = none ↔ (∀ e ∈ o.extensions, e ∈ standardExtensions) ∧
      1 ≤ o.callDepth ∧ o.callDepth ≤ largestCallDepth := by
  rw [Options.fault?, Option.or_eq_none_iff, List.findSome?_eq_none_iff,
    callDepthFault?_eq_none_iff]
  simp only [extensionFault?_eq_none_iff]

/-! ### What is registered for suffixes -/

theorem Dict.insert_of_get? {α : Type} {d : Dict α} {key : String} {value : α}
    (h : d.get? key = some value) : d.insert key value = d := by
  induction d with
  | nil => contradiction
  | cons pair rest ih =>
    obtain ⟨k, v⟩ := pair
    rw [Dict.get?] at h
    by_cases hk : k = key
    · rw [if_pos hk] at h
      obtain rfl := Option.some.inj h
      rw [Dict.insert, if_pos hk]
    · rw [if_neg hk] at h
      rw [Dict.insert, if_neg hk, ih h]

namespace Strategies

theorem dotted_of_builtin? {suffix : String} {s : Strategy}
    (h : Strategy.builtin? suffix = some s) : dotted suffix = suffix := by
  have hstandard : ∀ e ∈ standardExtensions, dotted e = e := by decide +kernel
  exact hstandard suffix (isSome_builtin?_iff.mp (Option.isSome_of_mem h))

/-- The suffixes that have a strategy from the start, each with it. -/
def builtins (suffixes : List String) : Dict Strategy :=
  suffixes.filterMap fun suffix => (Strategy.builtin? suffix).map (suffix, ·)

theorem builtins_append (xs ys : List String) : builtins (xs ++ ys) = builtins xs ++ builtins ys :=
  List.filterMap_append

theorem get?_builtins (suffixes : List String) (suffix : String) :
    (builtins suffixes).get? suffix =
      if suffix ∈ suffixes then Strategy.builtin? suffix else none := by
  induction suffixes with
  | nil => rfl
  | cons first rest ih =>
    cases hfirst : Strategy.builtin? first with
    | none =>
      have hcons : builtins (first :: rest) = builtins rest := by simp [builtins, hfirst]
      rw [hcons, ih]
      by_cases hsuffix : suffix = first <;> simp [hsuffix, hfirst]
    | some s =>
      have hcons : builtins (first :: rest) = (first, s) :: builtins rest := by
        simp [builtins, hfirst]
      rw [hcons, Dict.get?, ih]
      by_cases hsuffix : suffix = first
      · simp [hsuffix, hfirst]
      · simp [hsuffix, Ne.symm hsuffix]

theorem notMem_keys_builtins {suffixes : List String} {suffix : String} (h : suffix ∉ suffixes) :
    suffix ∉ (builtins suffixes).keys := by
  simp only [Dict.keys, builtins, List.mem_map, List.mem_filterMap, Option.map_eq_some_iff]
  rintro ⟨_, ⟨other, hother, s, -, rfl⟩, rfl⟩
  exact h hother

theorem entries_ofSuffixes_concat (front : List String) (suffix : String) :
    (ofSuffixes (front ++ [suffix])).entries =
      match Strategy.builtin? suffix with
      | some s => (ofSuffixes front).entries.insert suffix s
      | none => (ofSuffixes front).entries := by
  rw [ofSuffixes, List.foldl_append, List.foldl_cons, List.foldl_nil]
  cases hsuffix : Strategy.builtin? suffix with
  | none => rfl
  | some s =>
    show Dict.insert _ (dotted suffix) s = _
    rw [dotted_of_builtin? hsuffix]
    rfl

/-- Suffixes are registered in their order, the first of equal ones, each with the strategy it has
from the start. -/
theorem entries_ofSuffixes (suffixes : List String) :
    (ofSuffixes suffixes).entries = builtins suffixes.eraseDups := by
  induction suffixes using List.reverseRecOn with
  | nil => rfl
  | append_singleton front suffix ih =>
    rw [entries_ofSuffixes_concat, ih, eraseDups_concat]
    cases hsuffix : Strategy.builtin? suffix with
    | none =>
      by_cases hmem : suffix ∈ front <;> simp [hmem, builtins, hsuffix]
    | some s =>
      by_cases hmem : suffix ∈ front
      · rw [if_pos hmem]
        refine Dict.insert_of_get? ?_
        rw [get?_builtins, if_pos (List.mem_eraseDups.mpr hmem), hsuffix]
      · have hkeys := notMem_keys_builtins (mt List.mem_eraseDups.mp hmem)
        have hlast : builtins [suffix] = [(suffix, s)] := by simp [builtins, hsuffix]
        rw [if_neg hmem, builtins_append, hlast]
        exact Dict.insert_of_notMem hkeys s

theorem keys_builtins {suffixes : List String} (h : ∀ e ∈ suffixes, e ∈ standardExtensions) :
    (builtins suffixes).keys = suffixes := by
  induction suffixes with
  | nil => rfl
  | cons first rest ih =>
    obtain ⟨s, hs⟩ := Option.isSome_iff_exists.mp
      (isSome_builtin?_iff.mpr (h first (List.mem_cons_self ..)))
    have hrest := ih fun e he => h e (List.mem_cons_of_mem _ he)
    have hcons : builtins (first :: rest) = (first, s) :: builtins rest := by simp [builtins, hs]
    rw [hcons, Dict.keys, List.map_cons, ← Dict.keys, hrest]

end Strategies

/-! ### Where options come from -/

theorem Manifest.fault?_of_parse {text : String} {m : Manifest} (h : parse text = .ok m) :
    m.fault? = none := by
  unfold parse at h
  split at h
  · contradiction
  · split at h
    · contradiction
    · obtain rfl := Except.ok.inj h
      assumption

theorem Manifest.options_fault? {m : Manifest} (h : m.fault? = none) (base : Path) :
    (m.options base).fault? = none := by
  unfold fault? at h
  split at h
  · contradiction
  · exact h

theorem Command.fault?_of_checked {failure : OptionFault → Failure} {o o' : Options}
    {found manifest : Option Manifest}
    (h : (match o'.fault? with
      | some fault => throw (failure fault)
      | none => return (o', found) : Except Failure _) = .ok (o, manifest)) : o.fault? = none := by
  split at h
  · contradiction
  · obtain ⟨rfl, -⟩ := Prod.mk.inj (Except.ok.inj h)
    assumption

theorem Command.fault?_of_optionsOf {fs : FileSystem} {s : Settings} {o : Options}
    {manifest : Option Manifest} (h : optionsOf fs s = .ok (o, manifest)) : o.fault? = none := by
  unfold optionsOf at h
  dsimp only at h
  split at h
  · exact fault?_of_checked h
  · split at h
    · exact fault?_of_checked h
    · contradiction

/-- Accepted manifests and settings give acceptable options, and a loader made from acceptable
options registers all their extensions, in order and once each, under the strategies these have
from the start, and keeps their call depth. -/
theorem Options.honoured :
    (∀ text m, Manifest.parse text = .ok m → ∀ base, (m.options base).fault? = none) ∧
    (∀ fs s o manifest, Command.optionsOf fs s = .ok (o, manifest) → o.fault? = none) ∧
    ∀ o : Options, o.fault? = none → ∀ files,
      (Loader.create files o).extensions = o.extensions.eraseDups ∧
      (∀ e ∈ o.extensions, ∃ s, Strategy.builtin? e = some s ∧
        (Loader.create files o).strategies.get? e = some s) ∧
      (Loader.create files o).callDepth = o.callDepth := by
  refine ⟨fun text m h base => Manifest.options_fault? (Manifest.fault?_of_parse h) base,
    fun fs s o manifest => Command.fault?_of_optionsOf, fun o h files => ?_⟩
  obtain ⟨hextensions, hleast, hlargest⟩ := Options.fault?_eq_none_iff.mp h
  have hentries := Strategies.entries_ofSuffixes o.extensions
  refine ⟨?_, fun e he => ?_, ?_⟩
  · show (Strategies.ofSuffixes o.extensions).entries.keys = _
    rw [hentries]
    exact Strategies.keys_builtins fun e he => hextensions e (List.mem_eraseDups.mp he)
  · obtain ⟨s, hs⟩ := Option.isSome_iff_exists.mp (isSome_builtin?_iff.mpr (hextensions e he))
    refine ⟨s, hs, ?_⟩
    show (Strategies.ofSuffixes o.extensions).entries.get? e = _
    rw [hentries, Strategies.get?_builtins, if_pos (List.mem_eraseDups.mpr he), hs]
  · show max 1 (min o.callDepth largestCallDepth) = o.callDepth
    omega

/-- A directory with a manifest that names an extension twice and asks for the largest call
depth. -/
def Sample.configured : FileSystem :=
  ⟨⟨[], 0⟩, [([manifestName], .file ("[loader]\nextensions = [\".json\", \".js\", \".json\"]\n" ++
    "max-call-depth = 512\n").toUTF8)]⟩

def Sample.repeating : Options :=
  ⟨⟨"."⟩, [".json", ".js", ".json"], 512⟩

theorem Options.honoured_sample : ∃ m manifest,
    Manifest.parse "[loader]\nextensions = [\".json\"]" = .ok m ∧
      (m.options ⟨"lib"⟩).fault? = none ∧
      Command.optionsOf Sample.configured ⟨none, none, [], false⟩ =
        .ok (Sample.repeating, manifest) ∧
      Sample.repeating.fault? = none ∧
      (Loader.create Sample.configured Sample.repeating).extensions = [".json", ".js"] ∧
      (Loader.create Sample.configured Sample.repeating).strategies.get? ".json" = some .json ∧
      (Loader.create Sample.configured Sample.repeating).callDepth = 512 := by
  obtain ⟨hmanifest, hcommand, hloader⟩ := Options.honoured
  have hparse : Manifest.parse "[loader]\nextensions = [\".json\"]" =
      .ok ⟨none, ⟨some [".json"], none⟩⟩ :=
    Sample.eq_ok_of_toOption (by decide +kernel)
  have hoptions : Command.optionsOf Sample.configured ⟨none, none, [], false⟩ =
      .ok (Sample.repeating, some ⟨none, ⟨some [".json", ".js", ".json"], some 512⟩⟩) :=
    Sample.eq_ok_of_toOption (by decide +kernel)
  have haccepted := hcommand _ _ _ _ hoptions
  obtain ⟨hextensions, hstrategies, hdepth⟩ := hloader _ haccepted Sample.configured
  obtain ⟨s, hs, hget⟩ := hstrategies ".json" (by decide)
  have hjson : some s = some .json := hs.symm
  refine ⟨_, _, hparse, hmanifest _ _ hparse ⟨"lib"⟩, hoptions, haccepted, ?_, ?_, hdepth⟩
  · exact hextensions.trans (by decide +kernel)
  · exact hget.trans hjson

end ModuleLoader
