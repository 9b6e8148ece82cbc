import Mathlib.Data.List.Nodup
import SoapClient.Proofs.Outcome
import SoapClient.Model.Lookup

/-!
# Look-ups in models

A model in which services can be told apart by their names, and so can the operations of each, is
looked up faithfully (`AnswersLookups`): under every listed name the listed entry is found, and
under no other name anything.
-/

namespace SoapClient

open Outcome

variable {m : ServiceModel} {s : Service} {op : Operation} {service operation : String}

/-- Where a list tells its entries apart by a key, an entry is found under its key. -/
theorem find?_of_nodup {α κ : Type} [DecidableEq κ] {key : α → κ} {entries : List α}
    (h : (entries.map key).Nodup) {a : α} (ha : a ∈ entries) :
    entries.find? (key · = key a) = some a := by
  have hsome : (entries.find? (key · = key a)).isSome := List.find?_isSome.mpr ⟨a, ha, by simp⟩
  obtain ⟨b, hb⟩ := Option.isSome_iff_exists.mp hsome
  have hkey : key b = key a := by simpa using List.find?_some hb
  rw [hb, List.inj_on_of_nodup_map h (List.mem_of_find?_eq_some hb) ha hkey]

/-- A service that is not listed is not found. -/
theorem lookupService_of_unknown (h : ∀ s ∈ m.services, s.name ≠ service) :
    m.lookupService service = .error (.serviceNotFound service) := by
  have hfind : m.services.find? (·.name = service) = none := by
    rw [List.find?_eq_none]
    simpa using h
  rw [ServiceModel.lookupService, hfind]

/-- Nor is an operation that its service does not list. -/
theorem lookupOperation_of_unknown (hs : m.lookupService service = .ok s)
    (h : ∀ op ∈ s.operations, op.name ≠ operation) :
    m.lookupOperation service operation = .error (.operationNotFound service operation) := by
  have hfind : s.operations.find? (·.name = operation) = none := by
    rw [List.find?_eq_none]
    simpa using h
  rw [ServiceModel.lookupOperation, hs, ok_bind, hfind]

namespace ServiceModel

/-- No two services share a name, and no two operations of one service do. -/
structure HasDistinctNames (m : ServiceModel) : Prop where
  services : m.listServices.Nodup
  operations : ∀ s ∈ m.services, (s.operations.map (·.name)).Nodup

/-- Look-ups find what is listed, and nothing else. -/
structure AnswersLookups (m : ServiceModel) : Prop where
  service : ∀ s ∈ m.services, m.lookupService s.name = .ok s ∧
    m.listOperations s.name = .ok (s.operations.map (·.name))
  operation : ∀ s ∈ m.services, ∀ op ∈ s.operations,
    m.lookupOperation s.name op.name = .ok op ∧
    m.describeOperation s.name op.name = .ok ⟨op.parameters, op.returnType⟩
  unknownService : ∀ name ∉ m.listServices, m.lookupService name = .error (.serviceNotFound name) ∧
    m.listOperations name = .error (.serviceNotFound name) ∧
    ∀ operation, m.lookupOperation name operation = .error (.serviceNotFound name) ∧
      m.describeOperation name operation = .error (.serviceNotFound name)
  unknownOperation : ∀ s ∈ m.services, ∀ operation ∉ s.operations.map (·.name),
    m.lookupOperation s.name operation = .error (.operationNotFound s.name operation) ∧
    m.describeOperation s.name operation = .error (.operationNotFound s.name operation)

theorem lookupService_of_mem (h : m.HasDistinctNames) (hs : s ∈ m.services) :
    m.lookupService s.name = .ok s := by
  have hfind : m.services.find? (·.name = s.name) = some s := find?_of_nodup h.services hs
  rw [lookupService, hfind]

/-- Distinct names are what look-ups need. -/
theorem HasDistinctNames.answersLookups (h : m.HasDistinctNames) : m.AnswersLookups where
  service s hs := by
    have hfound := lookupService_of_mem h hs
    rw [listOperations, hfound]
    exact ⟨rfl, rfl⟩
  operation s hs op hop := by
    have hfind : s.operations.find? (·.name = op.name) = some op :=
      find?_of_nodup (h.operations s hs) hop
    rw [describeOperation, lookupOperation, lookupService_of_mem h hs, ok_bind, hfind]
    exact ⟨rfl, rfl⟩
  unknownService name hname := by
    have hmissing : m.lookupService name = .error (.serviceNotFound name) :=
      lookupService_of_unknown fun s hs heq => hname (List.mem_map.mpr ⟨s, hs, heq⟩)
    refine ⟨hmissing, ?_, fun operation => ?_⟩
    · rw [listOperations, hmissing]
      rfl
    · rw [describeOperation, lookupOperation, hmissing]
      exact ⟨rfl, rfl⟩
  unknownOperation s hs operation hoperation := by
    have hmissing : m.lookupOperation s.name operation =
        .error (.operationNotFound s.name operation) :=
      lookupOperation_of_unknown (lookupService_of_mem h hs) fun op hop heq =>
        hoperation (List.mem_map.mpr ⟨op, hop, heq⟩)
    rw [describeOperation, hmissing]
    exact ⟨rfl, rfl⟩

end ServiceModel

end SoapClient
