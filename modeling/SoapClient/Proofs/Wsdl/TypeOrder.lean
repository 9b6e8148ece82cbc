import SoapClient.Proofs.Schema.EntryOrder
import SoapClient.Proofs.Wsdl.TypeNames

/-!
# The order of the types of a model

A type is listed in the model when it is met for the first time, and types are met by a walk through
the names at the top of the schemas, in the order of the document. Main statement
(`typeOrder_of_modelOf`): what some first declarations lead to comes before all other types. So a
type that an earlier one refers to gets in front of those that are declared between the two
(`forward_reference_reorders`), and where no declaration leads to a later one the types at the top
of the schemas are listed in the order of the document.
-/

namespace SoapClient.Schema

open Xml (QName)

/-! ## Names at the top of the schemas -/

/-- The name of a type at the top of a schema. -/
def TypeKey.name? : TypeKey → Option QName
  | .named name => some name
  | .inPlace _ => none

theorem TypeKey.name?_eq_some_iff {key : TypeKey} {name : QName} :
    key.name? = some name ↔ key = .named name := by
  cases key <;> simp [TypeKey.name?]

/-- The names of the types at the top of the schemas that are met, in order. -/
def topNames (keys : List TypeKey) : List QName := keys.filterMap TypeKey.name?

theorem mem_topNames {keys : List TypeKey} {name : QName} :
    name ∈ topNames keys ↔ .named name ∈ keys := by
  simp [topNames, List.mem_filterMap, TypeKey.name?_eq_some_iff]

theorem topNames_append (keys keys' : List TypeKey) :
    topNames (keys ++ keys') = topNames keys ++ topNames keys' :=
  List.filterMap_append

theorem nodup_topNames {keys : List TypeKey} (h : keys.Nodup) : (topNames keys).Nodup := by
  refine h.filterMap fun key key' name hkey hkey' => ?_
  rw [TypeKey.name?_eq_some_iff.mp hkey, TypeKey.name?_eq_some_iff.mp hkey']

/-! ## Walks through names -/

namespace Components

variable {c : Components} {names : List QName} {keys : List TypeKey} {name : QName}

/-- One of some names leads to a structured type. -/
def LeadTo (c : Components) (names : List QName) (key : TypeKey) : Prop :=
  ∃ name ∈ names, c.Reaches (nameMention name) key

/-- The name of a type without simple content leads to it. -/
theorem leadTo_of_declares {content : List Content}
    (h : c.Declares (.named name) (.mk none content)) (hmem : name ∈ names) :
    c.LeadTo names (.named name) :=
  ⟨name, hmem, _, .complexType h .itself, .refl⟩

/-- A walk through names meets what they lead to. -/
theorem Walk.mem_iff_leadTo (hc : c.IsConsistent) (h : c.Walk [] (names.map nameMention) keys)
    (key : TypeKey) : key ∈ keys ↔ c.LeadTo names key := by
  simp only [h.mem_iff hc, LeadTo, List.mem_map, exists_exists_and_eq_and]

/-- Where the type of the next name is new, it comes right behind what was met. -/
theorem Walk.exists_eq_of_notMem {rest : List QName} {front : List TypeKey}
    {content : List Content} (hname : c.Declares (.named name) (.mk none content))
    (hnew : .named name ∉ front) (h : c.Walk front ((name :: rest).map nameMention) keys) :
    ∃ back, keys = front ++ .named name :: back := by
  have hself : c.StandsFor (nameMention name) (.structured (.named name)) :=
    .complexType hname .itself
  cases h with
  | pass hmet => exact absurd (hmet.mem hself) hnew
  | enter hkey _ _ hinner hrest =>
    obtain ⟨rfl⟩ := hkey.unique hself
    obtain ⟨inside, rfl⟩ := hinner.exists_eq_append
    obtain ⟨behind, rfl⟩ := hrest.exists_eq_append
    exact ⟨inside ++ behind, by simp⟩

/-- Where no name leads to a later one, a walk through them meets the types at the top of the
schemas in the order of their names. -/
theorem Walk.topNames_sublist (hc : c.IsConsistent) {rest : List QName}
    (hnames : c.typeNames = names ++ rest) (hkeys : c.Walk [] (names.map nameMention) keys)
    (hforward : c.typeNames.Pairwise fun earlier name =>
      ¬ c.Reaches (nameMention earlier) (.named name)) :
    (topNames keys).Sublist names := by
  induction names using List.reverseRecOn generalizing rest keys with
  | nil => cases hkeys; exact List.Sublist.refl _
  | append_singleton names last ih =>
    have hwhole := hkeys
    rw [List.map_append] at hkeys
    obtain ⟨front, hfront, hadds⟩ := hkeys.exists_of_append
    have hsplit : c.typeNames = names ++ last :: rest := by
      rw [hnames, List.append_assoc, List.singleton_append]
    obtain ⟨added, rfl⟩ := hadds.exists_eq_append
    obtain ⟨-, hnodup, hdisjoint⟩ := List.nodup_append'.mp (hwhole.nodup List.nodup_nil)
    -- of the types that are added at most the last one is at the top of a schema
    have hadded : ∀ name ∈ topNames added, name = last := by
      intro name hname
      have hmem := mem_topNames.mp hname
      have hall := List.mem_append_right front hmem
      obtain ⟨content, hdecl⟩ := hwhole.exists_declares hall List.not_mem_nil
      obtain ⟨earlier, hearlier, hreaches⟩ := (hwhole.mem_iff_leadTo hc _).mp hall
      have hplace := hdecl.mem_typeNames
      rw [hnames, List.mem_append, List.mem_append, List.mem_singleton] at hplace
      rcases hplace with (hname | hname) | hname
      · -- an earlier one was met before
        have hold := (hfront.mem_iff_leadTo hc _).mpr (leadTo_of_declares hdecl hname)
        exact absurd hmem (hdisjoint hold)
      · exact hname
      · -- and to a later one nothing leads yet
        rw [hnames] at hforward
        exact absurd hreaches ((List.pairwise_append.mp hforward).2.2 earlier hearlier name hname)
    have hlast : (topNames added).Sublist [last] := by
      have hsubset : topNames added ⊆ [last] :=
        fun name hname => List.mem_singleton.mpr (hadded name hname)
      have hsubperm := (nodup_topNames hnodup).subperm hsubset
      exact List.sublist_singleton.mpr (List.subperm_singleton_iff.mp hsubperm)
    rw [topNames_append]
    exact (ih hsplit hfront).append hlast

end Components

end SoapClient.Schema

namespace SoapClient.Wsdl

open Outcome
open Xml (Element QName)
open Schema

variable {root : Element} {m : ServiceModel}

/-- The names of the structured types at the top of the schemas of a document, in the order in which
they first come. -/
def declaredNames (root : Element) : List QName := ((typeDecls root).map (·.1)).eraseDups

namespace Interpretation

theorem typeNames_eq_declaredNames (I : Interpretation root m) :
    I.components.typeNames = declaredNames root :=
  Components.typeNames_eq I.gathered

/-- What is entered is declared without simple content. -/
theorem exists_declares (I : Interpretation root m) {key : TypeKey} (h : key ∈ I.register.keys) :
    ∃ content, I.components.Declares key (.mk none content) := by
  obtain ⟨name, hmem⟩ := Register.exists_mem_of_mem_keys h
  exact I.registered.declared key name hmem

/-- The register begins with what a walk through the declared names meets, and what is entered for
the services has been declared in place. -/
theorem exists_walk (I : Interpretation root m) :
    ∃ walked later, I.register.keys = walked ++ later ∧
      I.components.Walk [] ((declaredNames root).map nameMention) walked ∧
      ∀ key ∈ later, ∃ path, key = .inPlace path := by
  have hc := I.consistent
  have hresolved := I.resolved
  rw [interpret_eq, bind_eq_ok_iff] at hresolved
  obtain ⟨⟨_, s⟩, htypes, hservices⟩ := hresolved
  rw [resolveAll_eq, firstRepeated?_eq_none_iff.mpr ⟨hc.localNames, by simp⟩] at htypes
  dsimp only at htypes
  -- all types are entered by a walk
  have hwalks := forM_enterType_walks hc I.components.typeNames (.start I.components)
  have hkeeps := (forM_enterType_upholds hc I.components.typeNames (.start I.components)).2
  rw [htypes] at hwalks hkeeps
  obtain ⟨r, htracks, hwalk⟩ := hwalks
  obtain ⟨r', hregistered, -, -⟩ := hkeeps
  obtain rfl := htracks.eq_of_isRegistered hc hregistered
  -- and what is bound then adds to the register
  have hbound := (bindServices_upholds (P := fun _ => True) (d := I.definitions) hc
    (.of_forall fun _ => trivial) (.of_forall fun _ => trivial) hregistered []
    I.description.services).2
  rw [hservices] at hbound
  obtain ⟨r', hregistered', hgrows, -⟩ := hbound
  obtain rfl := (Tracks.of_isRegistered I.registered).eq_of_isRegistered hc hregistered'
  obtain ⟨new, hnew⟩ := hgrows.register
  have hkeys : I.register.keys = r.keys ++ new.keys := by rw [hnew, Register.keys_append]
  rw [I.typeNames_eq_declaredNames] at hwalk
  refine ⟨r.keys, new.keys, hkeys, hwalk, fun key hmem => ?_⟩
  cases key with
  | inPlace path => exact ⟨path, rfl⟩
  | named name =>
    -- what is declared under a name was walked, and nothing is entered twice
    have hentered : .named name ∈ I.register.keys := hkeys ▸ List.mem_append_right _ hmem
    obtain ⟨content, hdecl⟩ := I.exists_declares hentered
    have hname : name ∈ declaredNames root := I.typeNames_eq_declaredNames ▸ hdecl.mem_typeNames
    have hwalked := (hwalk.mem_iff_leadTo hc _).mpr (Components.leadTo_of_declares hdecl hname)
    have hnodup := I.registered.keys
    rw [hkeys] at hnodup
    exact absurd hmem ((List.nodup_append'.mp hnodup).2.2 hwalked)

/-- The types that some first declarations lead to come before all others. -/
theorem exists_front (I : Interpretation root m) {earlier rest : List QName}
    (hsplit : declaredNames root = earlier ++ rest) :
    ∃ front back, I.register.keys = front ++ back ∧
      ∀ key, key ∈ front ↔ I.components.LeadTo earlier key := by
  obtain ⟨walked, later, hkeys, hwalk, -⟩ := I.exists_walk
  rw [hsplit, List.map_append] at hwalk
  obtain ⟨front, hfront, hrest⟩ := hwalk.exists_of_append
  obtain ⟨added, rfl⟩ := hrest.exists_eq_append
  exact ⟨front, added ++ later, by rw [hkeys, List.append_assoc],
    hfront.mem_iff_leadTo I.consistent⟩

/-- A type that no earlier declaration leads to comes right behind those that they lead to. -/
theorem exists_front_of_declares (I : Interpretation root m) {earlier rest : List QName}
    {name : QName} (hsplit : declaredNames root = earlier ++ name :: rest)
    (hdeclares : Declares root (.named name))
    (hnew : ¬ I.components.LeadTo earlier (.named name)) :
    ∃ front back, I.register.keys = front ++ .named name :: back ∧
      ∀ key, key ∈ front ↔ I.components.LeadTo earlier key := by
  obtain ⟨walked, later, hkeys, hwalk, -⟩ := I.exists_walk
  rw [hsplit, List.map_append] at hwalk
  obtain ⟨front, hfront, hrest⟩ := hwalk.exists_of_append
  have hiff := hfront.mem_iff_leadTo I.consistent
  have hentered := Register.mem_keys_of_mem (I.mem_of_declares hdeclares)
  obtain ⟨content, hdecl⟩ := I.exists_declares hentered
  obtain ⟨back, rfl⟩ := hrest.exists_eq_of_notMem hdecl fun hmem => hnew ((hiff _).mp hmem)
  refine ⟨front, back ++ later, ?_, hiff⟩
  rw [hkeys, List.append_assoc, List.cons_append]

/-- Where no declaration leads to a later one, the types at the top of the schemas are in the order
of the document. -/
theorem topNames_sublist (I : Interpretation root m)
    (hforward : (declaredNames root).Pairwise fun earlier name =>
      ¬ I.components.Reaches (nameMention earlier) (.named name)) :
    (topNames I.register.keys).Sublist (declaredNames root) := by
  obtain ⟨walked, later, hkeys, hwalk, hlater⟩ := I.exists_walk
  have hnone : topNames later = [] := by
    rw [List.eq_nil_iff_forall_not_mem]
    intro name hname
    obtain ⟨path, heq⟩ := hlater _ (mem_topNames.mp hname)
    cases heq
  have hnames : I.components.typeNames = declaredNames root ++ [] := by
    rw [I.typeNames_eq_declaredNames, List.append_nil]
  rw [hkeys, topNames_append, hnone, List.append_nil]
  rw [← I.typeNames_eq_declaredNames] at hforward
  exact hwalk.topNames_sublist I.consistent hnames hforward

end Interpretation

/-- The types of a model are listed as they are met by the walk through the names that are declared
at the top of the schemas, in the order of the document; what is met for the services alone comes
last, and is declared in place. So the types that some first declarations lead to come before all
others, and a type that no earlier declaration leads to comes right behind those that the earlier
ones lead to. Where no declaration leads to a later one, the types at the top of the schemas are in
the order of the document. -/
theorem typeOrder_of_modelOf (h : modelOf root = .ok m) :
    ∃ I : Interpretation root m,
      m.typeNames = I.register.names ∧
      (∃ walked later, I.register.keys = walked ++ later ∧
        (∀ keys, I.components.Walk [] ((declaredNames root).map nameMention) keys ↔
          keys = walked) ∧
        ∀ key ∈ later, ∃ path, key = .inPlace path) ∧
      (∀ earlier rest, declaredNames root = earlier ++ rest →
        ∃ front back, I.register.keys = front ++ back ∧
          ∀ key, key ∈ front ↔ I.components.LeadTo earlier key) ∧
      (∀ earlier name rest, declaredNames root = earlier ++ name :: rest →
        Declares root (.named name) → ¬ I.components.LeadTo earlier (.named name) →
        ∃ front back, I.register.keys = front ++ .named name :: back ∧
          ∀ key, key ∈ front ↔ I.components.LeadTo earlier key) ∧
      (((declaredNames root).Pairwise fun earlier name =>
          ¬ I.components.Reaches (nameMention earlier) (.named name)) →
        (topNames I.register.keys).Sublist (declaredNames root)) := by
  obtain ⟨I⟩ := exists_interpretation h
  refine ⟨I, I.typeNames_eq, ?_, fun _ _ => I.exists_front,
    fun _ _ _ => I.exists_front_of_declares, I.topNames_sublist⟩
  obtain ⟨walked, later, hkeys, hwalk, hlater⟩ := I.exists_walk
  refine ⟨walked, later, hkeys, fun keys => ⟨fun h => h.unique I.consistent hwalk, ?_⟩, hlater⟩
  rintro rfl
  exact hwalk

/-! ## A reference to a later type -/

/-- A document with three types, of which the first one refers to the last one. -/
def senderDocument : Element :=
  smallDocument
    [xsd "complexType" [("name", "Order")]
      [xsd "sequence" [] [xsd "element" [("name", "sender"), ("type", "t:Address")] []]],
     xsd "complexType" [("name", "Item")]
      [xsd "sequence" [] [xsd "element" [("name", "code"), ("type", "xsd:string")] []]],
     xsd "complexType" [("name", "Address")]
      [xsd "sequence" [] [xsd "element" [("name", "city"), ("type", "xsd:string")] []]]]
    []

/-- The model of this document. -/
def senderModel : ServiceModel where
  targetNamespace := some "urn:t"
  services := []
  types := [
    ⟨"Order", [⟨"sender", .complex "Address", false⟩]⟩,
    ⟨"Address", [⟨"city", .primitive .string, false⟩]⟩,
    ⟨"Item", [⟨"code", .primitive .string, false⟩]⟩]

theorem declaredNames_senderDocument :
    declaredNames senderDocument =
      [⟨some "urn:t", "Order"⟩, ⟨some "urn:t", "Item"⟩, ⟨some "urn:t", "Address"⟩] := by
  decide +kernel

/-- What the first type leads to comes before the second one. -/
theorem typeOrder_of_modelOf_senderDocument :
    modelOf senderDocument = .ok senderModel ∧
      ∃ I : Interpretation senderDocument senderModel,
        ∃ front back, I.register.keys = front ++ back ∧
          ∀ key, key ∈ front ↔ I.components.LeadTo [⟨some "urn:t", "Order"⟩] key := by
  have hmodel : modelOf senderDocument = .ok senderModel := by decide +kernel
  obtain ⟨I, -, -, hfront, -⟩ := typeOrder_of_modelOf hmodel
  exact ⟨hmodel, I, hfront _ _ declaredNames_senderDocument⟩

/-- The types at the top of the schemas need not be listed in the order of the document: a type that
an earlier one refers to gets in front of those between the two. -/
theorem forward_reference_reorders :
    modelOf senderDocument = .ok senderModel ∧
      senderModel.typeNames = ["Order", "Address", "Item"] ∧
      ¬ ∀ root m, modelOf root = .ok m →
        (m.typeNames.filter (· ∈ (declaredNames root).map (·.localName))).Sublist
          ((declaredNames root).map (·.localName)) := by
  have hmodel : modelOf senderDocument = .ok senderModel := by decide +kernel
  refine ⟨hmodel, rfl, fun hall => ?_⟩
  have hsublist := hall _ _ hmodel
  rw [declaredNames_senderDocument] at hsublist
  exact absurd hsublist (by decide)

end SoapClient.Wsdl
