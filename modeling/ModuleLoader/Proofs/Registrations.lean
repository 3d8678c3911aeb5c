import Mathlib.Data.List.Induction
import ModuleLoader.Loading.Strategy

/-! Tables of strategies, told by their registrations. A suffix has the place of its first
registration and the strategy of its last. Of the suffixes that end a file name one is longer than
all others, and which one it is does not depend on their places. -/
namespace ModuleLoader

namespace Dict

variable {α : Type} {d : Dict α}

theorem nodup_keys_insert (h : d.keys.Nodup) (key : String) (value : α) :
    (d.insert key value).keys.Nodup := by
  rw [keys_insert]
  split
  · exact h
  · rename_i hkey
    refine List.nodup_append.mpr ⟨h, List.pairwise_singleton _ key, fun k hk other hother => ?_⟩
    rintro rfl
    exact hkey (List.mem_singleton.mp hother ▸ hk)

theorem get?_eq_some_iff (h : d.keys.Nodup) {key : String} {value : α} :
    d.get? key = some value ↔ (key, value) ∈ d := by
  induction d with
  | nil => simp [get?]
  | cons pair rest ih =>
    obtain ⟨k, v⟩ := pair
    obtain ⟨hk, hrest⟩ := List.nodup_cons.mp h
    rw [get?]
    split
    · rename_i hkey
      subst hkey
      have hnot : (k, value) ∉ rest := fun hmem => hk (List.mem_map.mpr ⟨_, hmem, rfl⟩)
      simp [hnot, eq_comm]
    · rename_i hkey
      simp [ih hrest, Ne.symm hkey]

end Dict

namespace Strategies

/-! ### Suffixes of a name -/

/-- The name ends in the suffix, and the suffix is not all of it. -/
def ProperSuffix (suffix name : String) : Prop :=
  suffix.toList <:+ name.toList ∧ suffix ≠ name

instance (suffix name : String) : Decidable (ProperSuffix suffix name) :=
  inferInstanceAs (Decidable (_ ∧ _))

variable {a b suffix name : String}

theorem ProperSuffix.exists_append (h : ProperSuffix suffix name) :
    ∃ front, front ≠ "" ∧ name = front ++ suffix := by
  obtain ⟨⟨front, hfront⟩, hne⟩ := h
  have happend : name = String.ofList front ++ suffix := by
    rw [← String.toList_inj, String.toList_append, String.toList_ofList, hfront]
  refine ⟨String.ofList front, ?_, happend⟩
  intro hempty
  rw [happend, hempty, String.empty_append] at hne
  exact hne rfl

theorem properSuffix_append {front : String} (h : front ≠ "") :
    ProperSuffix suffix (front ++ suffix) := by
  refine ⟨⟨front.toList, String.toList_append.symm⟩, fun heq => h ?_⟩
  have hlength := congrArg String.length heq
  rw [String.length_append] at hlength
  exact String.length_eq_zero_iff.mp (by omega)

theorem ProperSuffix.utf8ByteSize_lt (h : ProperSuffix suffix name) :
    suffix.utf8ByteSize < name.utf8ByteSize := by
  obtain ⟨front, hne, rfl⟩ := h.exists_append
  have hfront : front.utf8ByteSize ≠ 0 := mt String.utf8ByteSize_eq_zero_iff.mp hne
  rw [String.utf8ByteSize_append]
  omega

theorem ProperSuffix.length_lt (h : ProperSuffix suffix name) : suffix.length < name.length := by
  obtain ⟨front, hne, rfl⟩ := h.exists_append
  have hfront : front.length ≠ 0 := mt String.length_eq_zero_iff.mp hne
  rw [String.length_append]
  omega

/-- Of two suffixes of a name, the one is a suffix of the other. -/
theorem ProperSuffix.trichotomy (ha : ProperSuffix a name) (hb : ProperSuffix b name) (h : a ≠ b) :
    ProperSuffix a b ∨ ProperSuffix b a :=
  (List.suffix_or_suffix_of_suffix ha.1 hb.1).imp (⟨·, h⟩) (⟨·, h.symm⟩)

theorem fits_iff : fits name suffix = true ↔ ProperSuffix suffix name := by
  simp only [fits, Bool.and_eq_true, decide_eq_true_eq, List.isSuffixOf_iff_suffix]
  constructor
  · rintro ⟨hlt, hsuffix⟩
    refine ⟨hsuffix, ?_⟩
    rintro rfl
    exact Nat.lt_irrefl _ hlt
  · intro h
    exact ⟨h.utf8ByteSize_lt, h.1⟩

/-! ### The longest suffix -/

variable {σ : Type} {t : Strategies σ} {entries : List (String × σ)} {s : σ}

theorem foldl_longer_eq_none_iff : entries.foldl longer none = none ↔ entries = [] := by
  induction entries using List.reverseRecOn with
  | nil => simp
  | append_singleton front e ih =>
    have hsome (best : Option (String × σ)) : longer best e ≠ none := by
      unfold longer
      split
      · nofun
      · split <;> nofun
    simp [hsome]

theorem longest_of_foldl_longer {e : String × σ} (h : entries.foldl longer none = some e) :
    e ∈ entries ∧ ∀ other ∈ entries, other.1.utf8ByteSize ≤ e.1.utf8ByteSize := by
  induction entries using List.reverseRecOn generalizing e with
  | nil => contradiction
  | append_singleton front last ih =>
    rw [List.foldl_append, List.foldl_cons, List.foldl_nil] at h
    cases hfront : front.foldl longer none with
    | none =>
      rw [hfront] at h
      obtain rfl := Option.some.inj h
      rw [foldl_longer_eq_none_iff] at hfront
      simp [hfront]
    | some best =>
      obtain ⟨hbest, hlongest⟩ := ih hfront
      rw [hfront, longer] at h
      split at h
      · rename_i hlt
        obtain rfl := Option.some.inj h
        refine ⟨List.mem_append_left _ hbest, fun other hother => ?_⟩
        obtain hother | rfl : other ∈ front ∨ other = last := by simpa using hother
        · exact hlongest other hother
        · exact Nat.le_of_lt hlt
      · rename_i hle
        obtain rfl := Option.some.inj h
        refine ⟨by simp, fun other hother => ?_⟩
        obtain hother | rfl : other ∈ front ∨ other = last := by simpa using hother
        · exact Nat.le_trans (hlongest other hother) (Nat.le_of_not_lt hle)
        · exact Nat.le_refl _

/-- The one suffix of the table that the name properly ends in and that all others of these are
shorter than. -/
structure Longest (t : Strategies σ) (name suffix : String) : Prop where
  mem : suffix ∈ t.suffixes
  ends : ProperSuffix suffix name
  longest : ∀ other ∈ t.suffixes, ProperSuffix other name → other ≠ suffix →
    other.length < suffix.length

theorem Longest.eq (ha : t.Longest name a) (hb : t.Longest name b) : a = b := by
  by_contra hne
  have hlt := ha.longest b hb.mem hb.ends (Ne.symm hne)
  have hgt := hb.longest a ha.mem ha.ends hne
  omega

theorem Longest.length_le (h : t.Longest name suffix) {other : String} (hmem : other ∈ t.suffixes)
    (hends : ProperSuffix other name) : other.length ≤ suffix.length := by
  by_cases heq : other = suffix
  · exact heq ▸ Nat.le_refl _
  · exact Nat.le_of_lt (h.longest other hmem hends heq)

/-- Only which suffixes there are counts, not their order. -/
theorem Longest.of_mem_iff (h : t.Longest name suffix) {t' : Strategies σ}
    (hmem : ∀ other, other ∈ t'.suffixes ↔ other ∈ t.suffixes) : t'.Longest name suffix where
  mem := (hmem suffix).mpr h.mem
  ends := h.ends
  longest other hother := h.longest other ((hmem other).mp hother)

theorem longestFit?_eq_none_iff :
    t.longestFit? name = none ↔ ∀ suffix ∈ t.suffixes, ¬ProperSuffix suffix name := by
  rw [longestFit?, foldl_longer_eq_none_iff, List.filter_eq_nil_iff]
  simp [suffixes, Dict.keys, fits_iff]

/-- What a name is dispatched under is the longest suffix, whatever the table is. -/
theorem longest_of_longestFit? (h : t.longestFit? name = some (suffix, s)) :
    t.Longest name suffix ∧ (suffix, s) ∈ t.entries := by
  obtain ⟨hmem, hlongest⟩ := longest_of_foldl_longer h
  obtain ⟨hentry, hfits⟩ := List.mem_filter.mp hmem
  have hends : ProperSuffix suffix name := fits_iff.mp hfits
  refine ⟨⟨List.mem_map.mpr ⟨_, hentry, rfl⟩, hends, fun other hother hother' hne => ?_⟩, hentry⟩
  obtain hlt | hgt := hother'.trichotomy hends hne
  · exact hlt.length_lt
  · obtain ⟨e, he, rfl⟩ := List.mem_map.mp hother
    have hle := hlongest e (List.mem_filter.mpr ⟨he, fits_iff.mpr hother'⟩)
    exact absurd hgt.utf8ByteSize_lt (Nat.not_lt.mpr hle)

theorem longestFit?_eq_some_iff (hkeys : t.entries.keys.Nodup) :
    t.longestFit? name = some (suffix, s) ↔ t.Longest name suffix ∧ t.get? suffix = some s := by
  rw [get?, Dict.get?_eq_some_iff hkeys]
  refine ⟨longest_of_longestFit?, fun ⟨hlongest, hentry⟩ => ?_⟩
  cases hfit : t.longestFit? name with
  | none => exact absurd hlongest.ends (longestFit?_eq_none_iff.mp hfit suffix hlongest.mem)
  | some e =>
    obtain ⟨hlongest', hentry'⟩ := longest_of_longestFit? hfit
    have hsuffix : e.1 = suffix := hlongest'.eq hlongest
    have hget := (Dict.get?_eq_some_iff hkeys).mpr hentry'
    rw [hsuffix, (Dict.get?_eq_some_iff hkeys).mpr hentry] at hget
    rw [Option.some.inj hget, ← hsuffix]

/-! ### Registrations, one after the other -/

variable {rs rs' : List (String × σ)}

/-- The table after some registrations. -/
def ofRegistrations (rs : List (String × σ)) : Strategies σ :=
  rs.foldl (fun t r => t.register r.1 r.2) empty

/-- Those registrations that are of a suffix, whether they spell its dot or leave it out. -/
def registrationsOf (rs : List (String × σ)) (suffix : String) : List (String × σ) :=
  rs.filter fun r => dotted r.1 = suffix

/-- The strategy that was registered last for a suffix. -/
def latest? (rs : List (String × σ)) (suffix : String) : Option σ :=
  (registrationsOf rs suffix).getLast?.map Prod.snd

theorem ofRegistrations_concat (rs : List (String × σ)) (r : String × σ) :
    ofRegistrations (rs ++ [r]) = (ofRegistrations rs).register r.1 r.2 := by
  rw [ofRegistrations, List.foldl_append]
  rfl

theorem latest?_concat (rs : List (String × σ)) (r : String × σ) (suffix : String) :
    latest? (rs ++ [r]) suffix = if dotted r.1 = suffix then some r.2 else latest? rs suffix := by
  rw [latest?, latest?, registrationsOf, List.filter_append]
  split <;> simp [registrationsOf, *]

/-- Neighbours of different suffixes may change places. -/
theorem registrationsOf_swap (before after : List (String × σ)) {r r' : String × σ}
    (h : dotted r.1 ≠ dotted r'.1) (suffix : String) :
    registrationsOf (before ++ r :: r' :: after) suffix =
      registrationsOf (before ++ r' :: r :: after) suffix := by
  have hnot (hr : dotted r.1 = suffix) : dotted r'.1 ≠ suffix := fun hr' => h (hr.trans hr'.symm)
  by_cases hr : dotted r.1 = suffix
  · simp [registrationsOf, hr, hnot hr]
  · simp [registrationsOf, List.filter_cons, hr]

theorem head?_dotted (suffix : String) : (dotted suffix).toList.head? = some '.' := by
  unfold dotted
  split
  · assumption
  · simp

theorem eraseDups_concat (front : List String) (suffix : String) :
    (front ++ [suffix]).eraseDups =
      if suffix ∈ front then front.eraseDups else front.eraseDups ++ [suffix] := by
  rw [List.eraseDups_append]
  split <;> simp [List.removeAll, List.eraseDups_cons, *]

theorem suffixes_ofRegistrations (rs : List (String × σ)) :
    (ofRegistrations rs).suffixes = (rs.map fun r => dotted r.1).eraseDups := by
  induction rs using List.reverseRecOn with
  | nil => rfl
  | append_singleton front r ih =>
    have hmem : dotted r.1 ∈ (ofRegistrations front).suffixes ↔
        dotted r.1 ∈ front.map fun r => dotted r.1 := by
      rw [ih, List.mem_eraseDups]
    rw [ofRegistrations_concat, List.map_append, List.map_singleton, eraseDups_concat, ← ih]
    simp only [← hmem]
    exact Dict.keys_insert _ _ _

theorem nodup_keys_ofRegistrations (rs : List (String × σ)) :
    (ofRegistrations rs).entries.keys.Nodup := by
  induction rs using List.reverseRecOn with
  | nil => exact List.nodup_nil
  | append_singleton front r ih =>
    rw [ofRegistrations_concat]
    exact Dict.nodup_keys_insert ih _ _

/-- A table gives for each suffix what was registered last for it. -/
theorem get?_ofRegistrations (rs : List (String × σ)) (suffix : String) :
    (ofRegistrations rs).get? suffix = latest? rs suffix := by
  induction rs using List.reverseRecOn with
  | nil => rfl
  | append_singleton front r ih =>
    rw [ofRegistrations_concat, latest?_concat, ← ih]
    exact Dict.get?_insert _ _ _ _

theorem mem_suffixes_iff_latest? :
    suffix ∈ (ofRegistrations rs).suffixes ↔ (latest? rs suffix).isSome := by
  have hsome : (latest? rs suffix).isSome ↔ registrationsOf rs suffix ≠ [] := by
    rw [latest?, Option.isSome_map, Option.isSome_iff_ne_none, ne_eq, List.getLast?_eq_none_iff]
  rw [suffixes_ofRegistrations, List.mem_eraseDups, hsome]
  simp [registrationsOf]

/-- Dispatching does not depend on how the registrations of different suffixes are ordered. -/
theorem longestFit?_congr (h : ∀ suffix, registrationsOf rs suffix = registrationsOf rs' suffix)
    (name : String) :
    (ofRegistrations rs').longestFit? name = (ofRegistrations rs).longestFit? name := by
  have hlatest (suffix : String) : latest? rs suffix = latest? rs' suffix := by
    rw [latest?, h suffix, latest?]
  have hmem (suffix : String) :
      suffix ∈ (ofRegistrations rs').suffixes ↔ suffix ∈ (ofRegistrations rs).suffixes := by
    rw [mem_suffixes_iff_latest?, mem_suffixes_iff_latest?, hlatest]
  have hlongest (suffix : String) :
      (ofRegistrations rs').Longest name suffix ↔ (ofRegistrations rs).Longest name suffix :=
    ⟨fun h => h.of_mem_iff fun other => (hmem other).symm, fun h => h.of_mem_iff hmem⟩
  refine Option.ext fun e => ?_
  rw [longestFit?_eq_some_iff (nodup_keys_ofRegistrations rs'),
    longestFit?_eq_some_iff (nodup_keys_ofRegistrations rs), hlongest, get?_ofRegistrations,
    get?_ofRegistrations, hlatest]

/-- After any registrations the table lists their suffixes, each with its dot, once each and in the
order of their first registration. A file name is dispatched under the longest of them that it
properly ends in, to the strategy that was registered last for that suffix, and to none if it
properly ends in none of them. Reordering registrations of different suffixes changes nothing about
that. -/
theorem dispatch_longest (rs : List (String × σ)) :
    (ofRegistrations rs).suffixes = (rs.map fun r => dotted r.1).eraseDups ∧
    (ofRegistrations rs).suffixes.Nodup ∧
    (∀ suffix ∈ (ofRegistrations rs).suffixes, suffix.toList.head? = some '.') ∧
    (∀ name, (ofRegistrations rs).longestFit? name = none ↔
      ∀ suffix ∈ (ofRegistrations rs).suffixes, ¬ProperSuffix suffix name) ∧
    (∀ name suffix s, (ofRegistrations rs).longestFit? name = some (suffix, s) ↔
      (ofRegistrations rs).Longest name suffix ∧ latest? rs suffix = some s) ∧
    ∀ rs', (∀ suffix, registrationsOf rs suffix = registrationsOf rs' suffix) → ∀ name,
      (ofRegistrations rs').longestFit? name = (ofRegistrations rs).longestFit? name := by
  refine ⟨suffixes_ofRegistrations rs, nodup_keys_ofRegistrations rs, fun suffix hsuffix => ?_,
    fun name => longestFit?_eq_none_iff, fun name suffix s => ?_, fun rs' => longestFit?_congr⟩
  · rw [suffixes_ofRegistrations, List.mem_eraseDups] at hsuffix
    obtain ⟨r, -, rfl⟩ := List.mem_map.mp hsuffix
    exact head?_dotted r.1
  · rw [longestFit?_eq_some_iff (nodup_keys_ofRegistrations rs), get?_ofRegistrations]

/-- Two overlapping suffixes and a whole name; one is registered again without its dot. -/
def Sample.registrations : List (String × Strategy) :=
  [(".txt", .script), ("tpl.txt", .json), (".page.tpl.txt", .script), ("txt", .json)]

theorem dispatch_longest_sample :
    (ofRegistrations Sample.registrations).suffixes = [".txt", ".tpl.txt", ".page.tpl.txt"] ∧
    (ofRegistrations Sample.registrations).longestFit? ".page.tpl.txt" =
      some (".tpl.txt", .json) ∧
    (ofRegistrations Sample.registrations).longestFit? "notes.txt" = some (".txt", .json) ∧
    (ofRegistrations Sample.registrations).longestFit? ".txt" = none ∧
    (ofRegistrations [("tpl.txt", .json), (".txt", .script), (".page.tpl.txt", .script),
      ("txt", .json)]).longestFit? "notes.txt" = some (".txt", Strategy.json) := by
  obtain ⟨hsuffixes, -, -, hnone, hsome, horder⟩ := dispatch_longest Sample.registrations
  have hnotes := (hsome "notes.txt" ".txt" .json).mpr
    ⟨⟨by decide +kernel, by decide +kernel, by decide +kernel⟩, rfl⟩
  refine ⟨hsuffixes.trans (by decide +kernel), ?_, hnotes, ?_, ?_⟩
  · exact (hsome _ _ _).mpr ⟨⟨by decide +kernel, by decide +kernel, by decide +kernel⟩, rfl⟩
  · exact (hnone _).mpr (by decide +kernel)
  · exact (horder _ (registrationsOf_swap [] _ (by decide +kernel)) "notes.txt").trans hnotes

/-! ### Reading registrations back -/

theorem dotted_of_head? {text : String} (h : text.toList.head? = some '.') : dotted text = text :=
  if_pos h

theorem latest?_isSome_of_mem {text : String} (h : text ∈ rs.map Prod.fst) :
    (latest? rs (dotted text)).isSome := by
  rw [← mem_suffixes_iff_latest?, suffixes_ofRegistrations, List.mem_eraseDups]
  obtain ⟨r, hr, rfl⟩ := List.mem_map.mp h
  exact List.mem_map.mpr ⟨r, hr, rfl⟩

/-- Every suffix of a table begins with a dot, so a text that does not is none of them. -/
theorem latest?_of_head? {text : String} (h : text.toList.head? ≠ some '.') :
    latest? rs text = none := by
  have hnone : registrationsOf rs text = [] := by
    refine List.filter_eq_nil_iff.mpr fun r _ hr => h ?_
    rw [← of_decide_eq_true hr]
    exact head?_dotted r.1
  rw [latest?, hnone]
  rfl

/-- Whatever else was registered in between, what was registered last for the suffix of a
registration is found under that suffix with its dot. Under the text of the registration itself it
is found only if the dot was not left out there. -/
theorem get?_registered (rs : List (String × σ)) {text : String} (h : text ∈ rs.map Prod.fst) :
    ∃ s, latest? rs (dotted text) = some s ∧
      (ofRegistrations rs).get? (dotted text) = some s ∧
      (ofRegistrations rs).get? text = if text.toList.head? = some '.' then some s else none := by
  obtain ⟨s, hs⟩ := Option.isSome_iff_exists.mp (latest?_isSome_of_mem h)
  refine ⟨s, hs, (get?_ofRegistrations rs _).trans hs, ?_⟩
  rw [get?_ofRegistrations]
  split
  · rename_i hdot
    rw [← hs, dotted_of_head? hdot]
  · rename_i hdot
    exact latest?_of_head? hdot

theorem get?_registered_sample :
    "txt" ∈ Sample.registrations.map Prod.fst ∧ ".txt" ∈ Sample.registrations.map Prod.fst ∧
    (ofRegistrations Sample.registrations).get? ".txt" = some .json ∧
    (ofRegistrations Sample.registrations).get? "txt" = none := by
  have hundotted : "txt" ∈ Sample.registrations.map Prod.fst := by decide +kernel
  have hdotted : ".txt" ∈ Sample.registrations.map Prod.fst := by decide +kernel
  obtain ⟨s, -, -, hnone⟩ := get?_registered Sample.registrations hundotted
  obtain ⟨s', hlatest, hsome, -⟩ := get?_registered Sample.registrations hdotted
  rw [show latest? Sample.registrations (dotted ".txt") = some .json from rfl] at hlatest
  cases hlatest
  exact ⟨hundotted, hdotted, hsome, hnone⟩

/-- What was registered without its dot is not found under the text that it was registered under. -/
theorem get?_registered_undotted :
    latest? [("json", Strategy.json)] (dotted "json") = some .json ∧
    (ofRegistrations [("json", Strategy.json)]).get? "json" = none := by
  decide +kernel

end Strategies

end ModuleLoader
