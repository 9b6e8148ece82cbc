/-!
Tables: entries under keys, in the order in which the keys first came.
-/

namespace SoapClient.Table

variable {κ α : Type} [DecidableEq κ]

/-- The table with an entry set: a key that is there keeps its place and takes the new entry, a new
key comes last. -/
def set (key : κ) (entry : α) : List (κ × α) → List (κ × α)
  | [] => [(key, entry)]
  | (k, e) :: rest => if k = key then (k, entry) :: rest else (k, e) :: set key entry rest

/-- The entry under a key. -/
def find? (key : κ) : List (κ × α) → Option α
  | [] => none
  | (k, e) :: rest => if k = key then some e else find? key rest

/-- The keys, in order. -/
def keys (table : List (κ × α)) : List κ := table.map (·.1)

/-- What has been set is found, and nothing else changes. -/
theorem find?_set (key other : κ) (entry : α) (table : List (κ × α)) :
    find? other (set key entry table) = if key = other then some entry else find? other table := by
  induction table with
  | nil => simp [set, find?]
  | cons p rest ih =>
    obtain ⟨k, e⟩ := p
    by_cases hk : k = key
    · by_cases ho : key = other <;> simp [set, find?, hk, ho]
    · by_cases ho : key = other
      · subst ho
        simp [set, find?, hk, ih]
      · by_cases hko : k = other
        · subst hko
          simp [set, find?, hk, Ne.symm hk]
        · simp [set, find?, hk, ho, hko, ih]

/-- Setting an entry adds its key where it is new. -/
theorem keys_set (key : κ) (entry : α) (table : List (κ × α)) :
    keys (set key entry table) = if key ∈ keys table then keys table else keys table ++ [key] := by
  induction table with
  | nil => simp [set, keys]
  | cons p rest ih =>
    obtain ⟨k, e⟩ := p
    simp only [keys] at ih
    by_cases hk : k = key
    · simp [set, keys, hk]
    · by_cases hm : key ∈ rest.map (·.1) <;> simp_all [set, keys, Ne.symm hk]

end SoapClient.Table
