/-!
Dictionaries that remember the order in which their keys were first inserted. Inserting a key
again keeps its place and replaces its value.
-/
namespace ModuleLoader

abbrev Dict (α : Type) := List (String × α)

namespace Dict

variable {α : Type}

def get? : Dict α → String → Option α
  | [], _ => none
  | (k, v) :: rest, key => if k = key then some v else get? rest key

/-- Binds a key: in place if it is there, else at the end. -/
def insert : Dict α → String → α → Dict α
  | [], key, value => [(key, value)]
  | (k, v) :: rest, key, value =>
    if k = key then (k, value) :: rest else (k, v) :: insert rest key value

def keys (d : Dict α) : List String :=
  d.map Prod.fst

def contains (d : Dict α) (key : String) : Bool :=
  (d.get? key).isSome

def ofPairs (pairs : List (String × α)) : Dict α :=
  pairs.foldl (fun d pair => insert d pair.1 pair.2) []

theorem get?_insert (d : Dict α) (key : String) (value : α) (other : String) :
    (d.insert key value).get? other = if key = other then some value else d.get? other := by
  induction d with
  | nil => simp [insert, get?]
  | cons pair rest ih =>
    obtain ⟨k, v⟩ := pair
    by_cases hk : k = key
    · subst hk; by_cases ho : k = other <;> simp [insert, get?, ho]
    · by_cases ho : k = other
      · subst ho; simp [insert, get?, hk, Ne.symm hk]
      · simp [insert, get?, hk, ho, ih]

theorem keys_insert (d : Dict α) (key : String) (value : α) :
    (d.insert key value).keys = if key ∈ d.keys then d.keys else d.keys ++ [key] := by
  induction d with
  | nil => simp [insert, keys]
  | cons pair rest ih =>
    obtain ⟨k, v⟩ := pair
    by_cases hk : k = key
    · subst hk; simp [insert, keys]
    · simp only [keys] at ih
      simp only [insert, hk, if_false, keys, List.map_cons, ih, List.mem_cons, Ne.symm hk, false_or]
      split <;> simp_all

theorem insert_of_notMem {d : Dict α} {key : String} (h : key ∉ d.keys) (value : α) :
    d.insert key value = d ++ [(key, value)] := by
  induction d with
  | nil => rfl
  | cons pair rest ih =>
    obtain ⟨k, v⟩ := pair
    obtain ⟨hk, hrest⟩ := not_or.mp (mt List.mem_cons.mpr h)
    rw [insert, if_neg (Ne.symm hk), ih hrest, List.cons_append]

theorem notMem_keys_of_nodup {d rest : Dict α} {pair : String × α}
    (h : (d ++ pair :: rest).keys.Nodup) : pair.1 ∉ d.keys := by
  rw [keys, List.map_append, List.nodup_append] at h
  exact fun hmem => h.2.2 _ hmem _ (List.mem_cons_self ..) rfl

theorem foldl_insert {d pairs : Dict α} (h : (d ++ pairs).keys.Nodup) :
    pairs.foldl (fun d pair => d.insert pair.1 pair.2) d = d ++ pairs := by
  induction pairs generalizing d with
  | nil => exact (List.append_nil d).symm
  | cons pair rest ih =>
    rw [List.foldl_cons, insert_of_notMem (notMem_keys_of_nodup h), ih (by simpa using h),
      List.append_assoc]
    rfl

theorem ofPairs_of_nodup {pairs : Dict α} (h : pairs.keys.Nodup) : ofPairs pairs = pairs :=
  foldl_insert (d := []) h

end Dict

end ModuleLoader
