import Mathlib.Data.List.Induction
import Mathlib.Data.List.Nodup
import SoapClient.Proofs.Outcome
import SoapClient.Proofs.Schema.Places

/-!
# Gathering the declarations of all schemas

What the components of some schemas hold: of every name the last structured type that is declared
under it (`find?_complexTypes`), the names in the order in which they first come (`typeNames_eq`),
and nothing declared in place but what the schemas declare (`places_subset_of_ofSchemas`).
Components that are read from a document can be told apart (`isConsistent_of_ofSchemas`).
-/

namespace SoapClient.Schema

open Outcome
open Xml (QName Element)

/-! ## Tables that are set entry by entry -/

/-- An entry of a table after a step is the new one or was there. -/
theorem mem_of_mem_set {κ α : Type} [DecidableEq κ] {key : κ} {entry : α} {table : List (κ × α)}
    {p : κ × α} (h : p ∈ Table.set key entry table) : p.2 = entry ∨ p ∈ table := by
  induction table with
  | nil =>
    obtain rfl := List.mem_singleton.mp h
    exact .inl rfl
  | cons first rest ih =>
    obtain ⟨k, e⟩ := first
    rw [Table.set] at h
    split at h
    · rcases List.mem_cons.mp h with rfl | h
      · exact .inl rfl
      · exact .inr (List.mem_cons_of_mem _ h)
    · rcases List.mem_cons.mp h with rfl | h
      · exact .inr List.mem_cons_self
      · exact (ih h).imp_right (List.mem_cons_of_mem _)

/-- The table after some entries are set, one after the other. -/
def setAll {κ α : Type} [DecidableEq κ] (entries : List (κ × α)) (table : List (κ × α)) :
    List (κ × α) :=
  entries.foldl (fun table (key, entry) => Table.set key entry table) table

theorem setAll_append {κ α : Type} [DecidableEq κ] (entries entries' table : List (κ × α)) :
    setAll (entries ++ entries') table = setAll entries' (setAll entries table) :=
  List.foldl_append

/-- To what stands behind other entries, setting an entry does the same as putting it in front. -/
theorem find?_append_set {κ α : Type} [DecidableEq κ] (key k : κ) (entry : α)
    (entries table : List (κ × α)) :
    Table.find? key (entries ++ Table.set k entry table) =
      Table.find? key (entries ++ (k, entry) :: table) := by
  induction entries with
  | nil => rw [List.nil_append, List.nil_append, Table.find?_set, Table.find?]
  | cons p rest ih =>
    obtain ⟨k', e⟩ := p
    rw [List.cons_append, List.cons_append, Table.find?, Table.find?, ih]

/-- Under a key the last entry is found that is set under it, and else what was there before. -/
theorem find?_setAll {κ α : Type} [DecidableEq κ] (key : κ) (entries table : List (κ × α)) :
    Table.find? key (setAll entries table) = Table.find? key (entries.reverse ++ table) := by
  induction entries generalizing table with
  | nil => rfl
  | cons p rest ih =>
    obtain ⟨k, e⟩ := p
    have hcons : setAll ((k, e) :: rest) table = setAll rest (Table.set k e table) := rfl
    rw [hcons, ih, find?_append_set, List.reverse_cons, List.append_assoc, List.singleton_append]

/-- In a table that is set entry by entry the keys are in the order in which they first came. -/
theorem keys_setAll {κ α : Type} [DecidableEq κ] (entries : List (κ × α)) :
    Table.keys (setAll entries []) = (entries.map (·.1)).eraseDups := by
  induction entries using List.reverseRecOn with
  | nil => rfl
  | append_singleton entries entry ih =>
    have hset : setAll (entries ++ [entry]) [] = Table.set entry.1 entry.2 (setAll entries []) :=
      setAll_append entries [entry] []
    rw [hset, Table.keys_set, ih, List.map_append, List.eraseDups_append, List.map_singleton,
      List.cons_removeAll]
    by_cases hkey : entry.1 ∈ entries.map (·.1)
    · rw [if_pos (List.mem_eraseDups.mpr hkey)]
      simp [hkey]
    · rw [if_neg fun hmem => hkey (List.mem_eraseDups.mp hmem)]
      simp [hkey, List.eraseDups_cons]

/-! ## Declarations one after the other -/

/-- The structured type that a declaration at the top of a schema of that target namespace makes. -/
def TopLevel.typeDecl? (targetNamespace : Option String) : TopLevel → Option (QName × ComplexDecl)
  | .complexType (some name) decl => some (⟨targetNamespace, name⟩, decl)
  | _ => none

/-- The structured types at the top of a schema. -/
def SchemaDecl.typeDecls (schema : SchemaDecl) : List (QName × ComplexDecl) :=
  schema.declarations.filterMap (TopLevel.typeDecl? schema.targetNamespace)

/-- What components gain: entries of structured types, and nothing written in place but `places`. -/
structure Gathers (c : Components) (decls : List (QName × ComplexDecl))
    (places : List (List Nat × ComplexDecl)) (c' : Components) : Prop where
  complexTypes : c'.complexTypes = setAll decls c.complexTypes
  places : ∀ p ∈ c'.places, p ∈ c.places ∨ p ∈ places

namespace Gathers

theorem refl (c : Components) (places : List (List Nat × ComplexDecl)) : Gathers c [] places c :=
  ⟨rfl, fun _ => .inl⟩

theorem trans {c c' c'' : Components} {decls decls' : List (QName × ComplexDecl)}
    {places places' : List (List Nat × ComplexDecl)} (h : Gathers c decls places c')
    (h' : Gathers c' decls' places' c'') : Gathers c (decls ++ decls') (places ++ places') c'' := by
  refine ⟨?_, fun p hp => ?_⟩
  · rw [h'.complexTypes, h.complexTypes, setAll_append]
  · rw [List.mem_append]
    rcases h'.places p hp with hp | hp
    · exact (h.places p hp).imp_right .inl
    · exact .inr (.inr hp)

end Gathers

namespace Components

variable {c c' : Components} {schema : SchemaDecl}

/-- A declaration adds what it declares. -/
theorem gathers_add {d : TopLevel} (h : add schema c d = .ok c') :
    Gathers c (d.typeDecl? schema.targetNamespace).toList d.places c' := by
  -- what is refused adds nothing, and a simple type adds nothing that is gathered here
  match d with
  | .imported none =>
    obtain rfl := Except.ok.inj h
    exact .refl c []
  | .imported (some _) => cases h
  | .included _ _ => cases h
  | .element none _ => cases h
  | .complexType none _ => cases h
  | .simpleType none _ => cases h
  | .element (some name) type =>
    obtain rfl := Except.ok.inj h
    refine ⟨rfl, fun p hp => ?_⟩
    rcases List.mem_append.mp hp with hp | hp
    · exact .inl (List.mem_append_left _ hp)
    · obtain ⟨entry, hentry, hp⟩ := List.mem_flatMap.mp hp
      rcases mem_of_mem_set hentry with heq | hentry
      · rw [heq] at hp
        exact .inr hp
      · exact .inl (List.mem_append_right _ (List.mem_flatMap.mpr ⟨entry, hentry, hp⟩))
  | .complexType (some name) decl =>
    obtain rfl := Except.ok.inj h
    refine ⟨rfl, fun p hp => ?_⟩
    rcases List.mem_append.mp hp with hp | hp
    · obtain ⟨entry, hentry, hp⟩ := List.mem_flatMap.mp hp
      rcases mem_of_mem_set hentry with heq | hentry
      · rw [heq] at hp
        exact .inr hp
      · exact .inl (List.mem_append_left _ (List.mem_flatMap.mpr ⟨entry, hentry, hp⟩))
    · exact .inl (List.mem_append_right _ hp)
  | .simpleType (some name) decl =>
    obtain rfl := Except.ok.inj h
    exact ⟨rfl, fun p hp => .inl hp⟩

theorem gathers_foldlM_add {ds : List TopLevel} (h : ds.foldlM (add schema) c = .ok c') :
    Gathers c (ds.filterMap (TopLevel.typeDecl? schema.targetNamespace))
      (ds.flatMap TopLevel.places) c' := by
  induction ds generalizing c with
  | nil =>
    obtain rfl := Except.ok.inj h
    exact .refl c []
  | cons d rest ih =>
    rw [List.foldlM_cons, bind_eq_ok_iff] at h
    obtain ⟨c₁, hfirst, hrest⟩ := h
    have hgathers := (gathers_add hfirst).trans (ih hrest)
    have hdecls : (d :: rest).filterMap (TopLevel.typeDecl? schema.targetNamespace) =
        (d.typeDecl? schema.targetNamespace).toList ++
          rest.filterMap (TopLevel.typeDecl? schema.targetNamespace) := by
      cases hd : d.typeDecl? schema.targetNamespace <;> simp [hd]
    rwa [hdecls, List.flatMap_cons]

theorem gathers_foldlM_addSchema {schemas : List SchemaDecl}
    (h : schemas.foldlM addSchema c = .ok c') :
    Gathers c (schemas.flatMap SchemaDecl.typeDecls) (schemas.flatMap SchemaDecl.places) c' := by
  induction schemas generalizing c with
  | nil =>
    obtain rfl := Except.ok.inj h
    exact .refl c []
  | cons schema rest ih =>
    rw [List.foldlM_cons, bind_eq_ok_iff] at h
    obtain ⟨c₁, hfirst, hrest⟩ := h
    exact (gathers_foldlM_add hfirst).trans (ih hrest)

variable {schemas : List SchemaDecl}

/-- Under a name its last declaration is found. -/
theorem find?_complexTypes (h : ofSchemas schemas = .ok c) (name : QName) :
    Table.find? name c.complexTypes =
      Table.find? name (schemas.flatMap SchemaDecl.typeDecls).reverse := by
  have hempty : Components.empty.complexTypes = [] := rfl
  rw [(gathers_foldlM_addSchema h).complexTypes, find?_setAll, hempty, List.append_nil]

/-- The names of the structured types are in the order in which they first come. -/
theorem typeNames_eq (h : ofSchemas schemas = .ok c) :
    c.typeNames = ((schemas.flatMap SchemaDecl.typeDecls).map (·.1)).eraseDups := by
  have hempty : Components.empty.complexTypes = [] := rfl
  rw [typeNames, (gathers_foldlM_addSchema h).complexTypes, hempty, keys_setAll]

/-- What is declared in place in the components is so in the schemas. -/
theorem places_subset_of_ofSchemas (h : ofSchemas schemas = .ok c) :
    c.places ⊆ schemas.flatMap SchemaDecl.places := by
  intro p hp
  refine ((gathers_foldlM_addSchema h).places p hp).resolve_left ?_
  simp [places, empty]

/-- Places with different paths can be told apart, some of them as well as all. -/
theorem eq_of_mem_places {ps qs : List (List Nat × ComplexDecl)} (hsub : ps ⊆ qs)
    (hpaths : (pathsOf qs).Nodup) {path : List Nat} {d d' : ComplexDecl} (h : (path, d) ∈ ps)
    (h' : (path, d') ∈ ps) : d = d' :=
  congrArg Prod.snd (List.inj_on_of_nodup_map hpaths (hsub h) (hsub h') rfl)

/-- The components of a document can be told apart where the local names of its types can. -/
theorem isConsistent_of_ofSchemas {root : Element} (h : ofSchemas (Wsdl.readSchemas root) = .ok c)
    (hnames : firstRepeated? [] c.localTypeNames = none) : c.IsConsistent where
  localNames := (firstRepeated?_eq_none_iff.mp hnames).1
  places _ _ _ :=
    eq_of_mem_places (places_subset_of_ofSchemas h) (nodup_paths_readSchemas root)

end Components

end SoapClient.Schema
