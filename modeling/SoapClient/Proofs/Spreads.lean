import Mathlib.Data.List.Forall2
import Mathlib.Data.List.Nodup

/-!
# Lists that are made up of lists

Some things make up a list together where each of them makes up a part of it, in their order: so
rows are read into fields, and so the particles in an element give a type its fields. Such a list
comes apart part by part (`Spreads.cons_iff`).
-/

namespace SoapClient

variable {α β γ : Type} {R : α → List β → Prop} {S : β → List γ → Prop}

/-- A list is made up of lists, one for each of some things, in order. -/
def Spreads (R : α → List β → Prop) (as : List α) (bs : List β) : Prop :=
  ∃ chunks, List.Forall₂ R as chunks ∧ bs = chunks.flatten

namespace Spreads

variable {as as' : List α} {bs bs' : List β}

theorem nil : Spreads R [] [] := ⟨[], .nil, rfl⟩

theorem cons {a : α} (h : R a bs) (h' : Spreads R as bs') : Spreads R (a :: as) (bs ++ bs') := by
  obtain ⟨chunks, hchunks, rfl⟩ := h'
  exact ⟨bs :: chunks, .cons h hchunks, rfl⟩

theorem singleton {a : α} (h : R a bs) : Spreads R [a] bs := by
  have hcons := cons h nil
  rwa [List.append_nil] at hcons

theorem append (h : Spreads R as bs) (h' : Spreads R as' bs') :
    Spreads R (as ++ as') (bs ++ bs') := by
  obtain ⟨chunks, hchunks, rfl⟩ := h
  obtain ⟨chunks', hchunks', rfl⟩ := h'
  exact ⟨chunks ++ chunks', List.rel_append hchunks hchunks', by simp⟩

theorem nil_iff : Spreads R [] bs ↔ bs = [] := by
  constructor
  · rintro ⟨chunks, hchunks, rfl⟩
    cases hchunks
    rfl
  · rintro rfl
    exact nil

theorem cons_iff {a : α} :
    Spreads R (a :: as) bs ↔ ∃ first rest, R a first ∧ Spreads R as rest ∧ bs = first ++ rest := by
  constructor
  · rintro ⟨chunks, hchunks, rfl⟩
    cases hchunks with
    | @cons _ first _ rest h hrest => exact ⟨first, rest.flatten, h, ⟨rest, hrest, rfl⟩, rfl⟩
  · rintro ⟨first, rest, h, hrest, rfl⟩
    exact cons h hrest

/-- What two lists of things make up comes apart. -/
theorem of_append (h : Spreads R (as ++ as') bs) :
    ∃ first rest, Spreads R as first ∧ Spreads R as' rest ∧ bs = first ++ rest := by
  induction as generalizing bs with
  | nil => exact ⟨[], bs, nil, h, rfl⟩
  | cons a as ih =>
    obtain ⟨first, rest, ha, hrest, rfl⟩ := cons_iff.mp h
    obtain ⟨middle, last, hmiddle, hlast, rfl⟩ := ih hrest
    exact ⟨first ++ middle, last, cons ha hmiddle, hlast, by rw [List.append_assoc]⟩

/-- Things that make up a list of things, each of which makes up a part of a third list. -/
theorem comp {cs : List γ} (h : Spreads R as bs) (h' : Spreads S bs cs) :
    Spreads (fun a cs => ∃ bs, R a bs ∧ Spreads S bs cs) as cs := by
  induction as generalizing bs cs with
  | nil =>
    obtain rfl := nil_iff.mp h
    obtain rfl := nil_iff.mp h'
    exact nil
  | cons a as ih =>
    obtain ⟨first, rest, ha, hrest, rfl⟩ := cons_iff.mp h
    obtain ⟨front, back, hfront, hback, rfl⟩ := h'.of_append
    exact cons ⟨first, ha, hfront⟩ (ih hrest hback)

/-- What is made up of the same things, each list of which is mapped. -/
theorem map_of_mem {R' : α → List γ → Prop} (h : Spreads R as bs) (f : β → γ)
    (hmap : ∀ a ∈ as, ∀ chunk, R a chunk → R' a (chunk.map f)) :
    Spreads R' as (bs.map f) := by
  induction as generalizing bs with
  | nil =>
    obtain rfl := nil_iff.mp h
    exact nil
  | cons a as ih =>
    rw [List.forall_mem_cons] at hmap
    obtain ⟨first, rest, ha, hrest, rfl⟩ := cons_iff.mp h
    rw [List.map_append]
    exact cons (hmap.1 first ha) (ih hrest hmap.2)

theorem imp_of_mem {R' : α → List β → Prop} (h : Spreads R as bs)
    (himp : ∀ a ∈ as, ∀ chunk, R a chunk → R' a chunk) : Spreads R' as bs := by
  have hmap := h.map_of_mem id fun a ha chunk hchunk => by
    rw [List.map_id]
    exact himp a ha chunk hchunk
  rwa [List.map_id] at hmap

/-- Each of the things makes up a part of the list. -/
theorem exists_of_mem (h : Spreads R as bs) {a : α} (ha : a ∈ as) :
    ∃ chunk, R a chunk ∧ chunk ⊆ bs := by
  induction as generalizing bs with
  | nil => cases ha
  | cons first as ih =>
    obtain ⟨chunk, rest, hchunk, hrest, rfl⟩ := cons_iff.mp h
    rcases List.mem_cons.mp ha with rfl | ha
    · exact ⟨chunk, hchunk, List.subset_append_left _ _⟩
    · obtain ⟨chunk', hchunk', hsub⟩ := ih hrest ha
      exact ⟨chunk', hchunk', List.Subset.trans hsub (List.subset_append_right _ _)⟩

/-- Every element of the list is in a part that one of the things makes up. -/
theorem exists_mem (h : Spreads R as bs) {b : β} (hb : b ∈ bs) :
    ∃ a ∈ as, ∃ chunk, R a chunk ∧ b ∈ chunk := by
  induction as generalizing bs with
  | nil =>
    obtain rfl := nil_iff.mp h
    cases hb
  | cons a as ih =>
    obtain ⟨chunk, rest, hchunk, hrest, rfl⟩ := cons_iff.mp h
    rcases List.mem_append.mp hb with hb | hb
    · exact ⟨a, List.mem_cons_self, chunk, hchunk, hb⟩
    · obtain ⟨a', ha', hmem⟩ := ih hrest hb
      exact ⟨a', List.mem_cons_of_mem _ ha', hmem⟩

/-- Where each thing makes up a list of one, the things go with the elements one by one. -/
theorem forall₂ {P : α → β → Prop} (h : Spreads R as bs)
    (hsingle : ∀ a ∈ as, ∀ chunk, R a chunk → ∃ b, chunk = [b] ∧ P a b) :
    List.Forall₂ P as bs := by
  induction as generalizing bs with
  | nil =>
    obtain rfl := nil_iff.mp h
    exact .nil
  | cons a as ih =>
    rw [List.forall_mem_cons] at hsingle
    obtain ⟨first, rest, ha, hrest, rfl⟩ := cons_iff.mp h
    obtain ⟨b, rfl, hb⟩ := hsingle.1 first ha
    exact .cons hb (ih hrest hsingle.2)

/-- What is made up of lists has no repetition where none of them has one and no two have anything
in common. -/
theorem nodup_iff (h : Spreads R as bs)
    (hunique : ∀ a chunk chunk', R a chunk → R a chunk' → chunk = chunk') :
    bs.Nodup ↔ (∀ a ∈ as, ∀ chunk, R a chunk → chunk.Nodup) ∧
      as.Pairwise fun a a' => ∀ chunk chunk', R a chunk → R a' chunk' → chunk.Disjoint chunk' := by
  induction as generalizing bs with
  | nil =>
    obtain rfl := nil_iff.mp h
    simp
  | cons a as ih =>
    obtain ⟨first, rest, ha, hrest, rfl⟩ := cons_iff.mp h
    have hfirst : (∀ chunk, R a chunk → chunk.Nodup) ↔ first.Nodup :=
      ⟨fun hall => hall first ha, fun hnodup chunk hchunk =>
        hunique a first chunk ha hchunk ▸ hnodup⟩
    -- what the other things make up is all in the rest, and nothing else is there
    have hdisjoint :
        (∀ a' ∈ as, ∀ chunk chunk', R a chunk → R a' chunk' → chunk.Disjoint chunk') ↔
          first.Disjoint rest := by
      constructor
      · intro hall b hb hb'
        obtain ⟨a', ha', chunk', hchunk', hmem⟩ := hrest.exists_mem hb'
        exact hall a' ha' first chunk' ha hchunk' hb hmem
      · intro hdisjoint a' ha' chunk chunk' hchunk hchunk'
        obtain ⟨other, hother, hsub⟩ := hrest.exists_of_mem ha'
        rw [hunique a chunk first hchunk ha, hunique a' chunk' other hchunk' hother]
        exact List.disjoint_of_subset_right hsub hdisjoint
    rw [List.nodup_append', ih hrest, List.forall_mem_cons, List.pairwise_cons, hfirst, hdisjoint]
    constructor
    · rintro ⟨hfirst, ⟨hrest, hpairs⟩, hpair⟩
      exact ⟨⟨hfirst, hrest⟩, hpair, hpairs⟩
    · rintro ⟨⟨hfirst, hrest⟩, hpair, hpairs⟩
      exact ⟨hfirst, ⟨hrest, hpairs⟩, hpair⟩

end Spreads

end SoapClient
