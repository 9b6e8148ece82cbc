import Mathlib.Data.List.Nodup
import Mathlib.Data.List.Perm.Subperm
import SoapClient.Proofs.Decimal.Reading
import SoapClient.Schema.Resolution

/-!
# Names of anonymous types

The candidates for the name of an anonymous type are more than the names that can be taken, so that
the name it gets is always free (`isTaken_anonymousName`).
-/

namespace SoapClient.Schema.Resolution

variable (s : Resolution) (reserved : List String)

/-- What is taken is the name of a type of the model, or is kept. -/
theorem isTaken_iff (name : String) :
    s.isTaken reserved name = true ↔ name ∈ s.types.map (·.name) ++ reserved := by
  simp [isTaken, hasType, List.mem_append, List.mem_map]

/-- The numbered variants of a name. -/
def variantsOf (base : String) (variants : Nat) : List String :=
  (List.range variants).map fun n => base ++ Decimal.natText (n + 2)

/-- Variants with different numbers are different. -/
theorem nodup_variantsOf (base : String) (variants : Nat) : (variantsOf base variants).Nodup := by
  rw [variantsOf]
  refine List.Nodup.map_on ?_ List.nodup_range
  intro m _ n _ h
  have hlist : base.toList ++ (Decimal.natText (m + 2)).toList =
      base.toList ++ (Decimal.natText (n + 2)).toList := by
    rw [← String.toList_append, ← String.toList_append, h]
  have htext := String.toList_injective (List.append_cancel_left hlist)
  have hnumber := Decimal.natText_injective htext
  omega

/-- The numbered variants are the last ones of the candidates. -/
theorem variantsOf_subset_candidates (element : String) (variants : Nat) :
    ∃ base, variantsOf base variants ⊆ s.candidates element variants := by
  rw [candidates]
  exact ⟨_, fun name hname => List.mem_cons_of_mem _ (List.mem_cons_of_mem _ hname)⟩

/-- One of the candidates is free. -/
theorem exists_candidate_free (element : String) :
    ∃ name ∈ s.candidates element (s.types.length + reserved.length + 1),
      s.isTaken reserved name = false := by
  -- else all the numbered variants would be taken, and these are more than the taken names
  by_contra hnone
  have hall : ∀ name ∈ s.candidates element (s.types.length + reserved.length + 1),
      s.isTaken reserved name = true := by
    intro name hname
    by_contra hfree
    exact hnone ⟨name, hname, by simpa using hfree⟩
  obtain ⟨base, hsub⟩ :=
    s.variantsOf_subset_candidates element (s.types.length + reserved.length + 1)
  have htaken : variantsOf base (s.types.length + reserved.length + 1) ⊆
      s.types.map (·.name) ++ reserved := by
    intro name hname
    rw [← s.isTaken_iff reserved]
    exact hall name (hsub hname)
  have hlength := (List.subperm_of_subset (nodup_variantsOf base _) htaken).length_le
  rw [variantsOf, List.length_map, List.length_range, List.length_append,
    List.length_map] at hlength
  omega

/-- An anonymous type never gets a name that is in the model or kept. -/
theorem isTaken_anonymousName (element : String) :
    s.isTaken reserved (s.anonymousName reserved element) = false := by
  obtain ⟨name, hname, hfree⟩ := s.exists_candidate_free reserved element
  rw [anonymousName]
  cases hfind : (s.candidates element (s.types.length + reserved.length + 1)).find?
      fun name => !s.isTaken reserved name with
  | none =>
    have htaken := List.find?_eq_none.mp hfind name hname
    rw [hfree] at htaken
    exact absurd rfl htaken
  | some found =>
    have hfound := List.find?_some hfind
    simpa [hfind] using hfound

end SoapClient.Schema.Resolution
