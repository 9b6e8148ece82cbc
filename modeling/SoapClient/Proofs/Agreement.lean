import Mathlib.Data.List.Forall2
import Mathlib.Data.List.Nodup
import SoapClient.Proofs.Outcome
import SoapClient.Table

/-!
# Outcomes that agree

Two outcomes agree where both are failures or both are results that are related. Steps that agree
make sequences that agree, and so do lookups in tables with related entries.
-/

namespace SoapClient

open Relator

variable {α α' β β' γ γ' ε : Type}

/-- Two outcomes agree: both are failures, for whatever causes, or both are results that are
related. -/
inductive OutcomesAgree (R : α → β → Prop) : Except ε α → Except ε β → Prop
  | ok {a : α} {b : β} : R a b → OutcomesAgree R (.ok a) (.ok b)
  | error (e e' : ε) : OutcomesAgree R (.error e) (.error e')

namespace OutcomesAgree

variable {R : α → α' → Prop} {S : β → β' → Prop} {x : Except ε α} {x' : Except ε α'}

/-- One step after the other. -/
theorem bind {f : α → Except ε β} {f' : α' → Except ε β'} (hx : OutcomesAgree R x x')
    (hf : ∀ a a', R a a' → OutcomesAgree S (f a) (f' a')) :
    OutcomesAgree S (x >>= f) (x' >>= f') := by
  cases hx with
  | ok h => exact hf _ _ h
  | error e e' => exact .error e e'

/-- Results that are changed. -/
theorem map {f : α → β} {f' : α' → β'} (hx : OutcomesAgree R x x')
    (hf : ∀ a a', R a a' → S (f a) (f' a')) : OutcomesAgree S (x.map f) (x'.map f') := by
  cases hx with
  | ok h => exact .ok (hf _ _ h)
  | error e e' => exact .error e e'

/-- A whole row of steps. -/
theorem foldlM {P : γ → γ' → Prop} {f : α → γ → Except ε α} {f' : α' → γ' → Except ε α'}
    {cs : List γ} {cs' : List γ'} {a : α} {a' : α'} (hcs : List.Forall₂ P cs cs') (ha : R a a')
    (hf : ∀ a a' c c', R a a' → P c c' → OutcomesAgree R (f a c) (f' a' c')) :
    OutcomesAgree R (cs.foldlM f a) (cs'.foldlM f' a') := by
  induction hcs generalizing a a' with
  | nil => exact .ok ha
  | cons hfirst _ ih =>
    rw [List.foldlM_cons, List.foldlM_cons]
    exact (hf _ _ _ _ ha hfirst).bind fun _ _ h => ih h

/-- The same step for each member of a list. -/
theorem mapM {P : γ → γ' → Prop} {f : γ → Except ε α} {f' : γ' → Except ε α'} {cs : List γ}
    {cs' : List γ'} (hcs : List.Forall₂ P cs cs')
    (hf : ∀ c c', P c c' → OutcomesAgree R (f c) (f' c')) :
    OutcomesAgree (List.Forall₂ R) (cs.mapM f) (cs'.mapM f') := by
  induction hcs with
  | nil => exact .ok .nil
  | cons hfirst _ ih =>
    rw [List.mapM_cons, List.mapM_cons]
    exact (hf _ _ hfirst).bind fun _ _ h => ih.bind fun _ _ hs => .ok (.cons h hs)

/-- Outcomes that agree in what they are have the same results. -/
theorem eq_ok_iff {x x' : Except ε α} (h : OutcomesAgree Eq x x') {a : α} :
    x = .ok a ↔ x' = .ok a := by
  cases h with
  | ok h => rw [h]
  | error e e' => simp

end OutcomesAgree

/-! ## Relations that are one to one -/

theorem biUnique_eq : BiUnique (@Eq α) :=
  ⟨fun _ _ _ h h' => h.trans h'.symm, fun _ _ _ h h' => h.symm.trans h'⟩

/-- Pairs relate their parts one to one where neither a first nor a second part comes twice. -/
theorem biUnique_mem {pairs : List (α × β)} (h : (pairs.map (·.1)).Nodup)
    (h' : (pairs.map (·.2)).Nodup) : BiUnique fun a b => (a, b) ∈ pairs := by
  refine ⟨fun a b c hac hbc => ?_, fun a b c hab hac => ?_⟩
  · exact congrArg Prod.fst (List.inj_on_of_nodup_map h' hac hbc rfl)
  · exact congrArg Prod.snd (List.inj_on_of_nodup_map h hab hac rfl)

/-! ## Tables -/

namespace Table

variable {κ κ' : Type} {K : κ → κ' → Prop} {R : α → β → Prop} {table : List (κ × α)}
  {table' : List (κ' × β)} {key : κ} {key' : κ'}

/-- Tables agree where they have related entries under related keys, in the same order. -/
def Agree (K : κ → κ' → Prop) (R : α → β → Prop) : List (κ × α) → List (κ' × β) → Prop :=
  List.Forall₂ fun entry entry' => K entry.1 entry'.1 ∧ R entry.2 entry'.2

/-- What stands under related keys is related. -/
theorem Agree.find? [DecidableEq κ] [DecidableEq κ'] (hK : BiUnique K) (h : Agree K R table table')
    (hkey : K key key') : Option.Rel R (Table.find? key table) (Table.find? key' table') := by
  induction h with
  | nil => exact .none
  | cons hfirst _ ih =>
    have hsame := rel_eq hK hfirst.1 hkey
    rw [Table.find?, Table.find?]
    split
    · next heq =>
      rw [if_pos (hsame.mp heq)]
      exact .some hfirst.2
    · next hne =>
      rw [if_neg (mt hsame.mpr hne)]
      exact ih

/-- Tables in which the same is set. -/
theorem Agree.set [DecidableEq κ] [DecidableEq κ'] {entry : α} {entry' : β} (hK : BiUnique K)
    (h : Agree K R table table') (hkey : K key key') (hentry : R entry entry') :
    Agree K R (Table.set key entry table) (Table.set key' entry' table') := by
  induction h with
  | nil => exact .cons ⟨hkey, hentry⟩ .nil
  | cons hfirst hrest ih =>
    have hsame := rel_eq hK hfirst.1 hkey
    rw [Table.set, Table.set]
    split
    · next heq =>
      rw [if_pos (hsame.mp heq)]
      exact .cons ⟨hfirst.1, hentry⟩ hrest
    · next hne =>
      rw [if_neg (mt hsame.mpr hne)]
      exact .cons hfirst ih

/-- Tables that agree have the same keys. -/
theorem Agree.keys_eq {table : List (κ × α)} {table' : List (κ × β)}
    (h : Agree Eq R table table') : keys table = keys table' := by
  induction h with
  | nil => rfl
  | cons hfirst _ ih => exact congrArg₂ List.cons hfirst.1 ih

end Table

end SoapClient
