import SoapClient.Proofs.Schema.Collecting

/-!
# Bases that are checked

Before the fields of a base are inherited, the chain of bases that starts there is followed to its
end. Main statement: when all types are resolved, this was done for every base of every structured
type that was entered under a name (`areChecked_of_resolveAll`), whichever type led to it first.
-/

namespace SoapClient.Schema

open Xml (QName)

variable {c : Components} {follow : Follow} {s : Resolution} {rows rows' : List Row}

/-- The chain of bases that starts with a base has an end. -/
def IsChecked (c : Components) (base : QName) : Prop :=
  checkDerivation c base (c.complexTypes.length + 1) [] base = .ok ()

/-- The chains of all bases in some rows have an end. -/
def AreChecked (c : Components) (rows : List Row) : Prop :=
  ∀ base, .inherited base ∈ rows → IsChecked c base

theorem AreChecked.nil : AreChecked c [] := fun _ h => nomatch h

theorem AreChecked.append (h : AreChecked c rows) (h' : AreChecked c rows') :
    AreChecked c (rows ++ rows') := fun base hbase =>
  (List.mem_append.mp hbase).elim (h base) (h' base)

/-- A particle adds no base. -/
theorem AreChecked.particle (occurs : Occurrence) (isForced : Bool) (name : String)
    (mention : Mention) : AreChecked c [.particle occurs isForced name mention] := by
  intro base hbase
  cases List.mem_singleton.mp hbase

/-- A base is checked before its fields are inherited. -/
theorem areChecked_rowsOfBase {base : Option Reference}
    (h : Succeeds (baseFields c follow base)) : AreChecked c (rowsOfBase base) := by
  match base with
  | none => exact .nil
  | some (.unbound text) => exact .nil
  | some (.to name) =>
    obtain ⟨found, hfound, h⟩ := h.lift_bind
    obtain rfl : some name = found := Except.ok.inj hfound
    obtain ⟨_, hcheck, -⟩ := h.lift_bind
    intro base hbase
    cases List.mem_singleton.mp hbase
    exact hcheck

mutual

/-- Where the content of a type is collected, the bases in it are checked. -/
theorem areChecked_rowsOfAll {isForced : Bool} {parts : List Content}
    (h : Succeeds (collectContents c follow isForced parts)) :
    AreChecked c (rowsOfAll isForced parts) := by
  match parts with
  | [] => exact .nil
  | part :: rest =>
    rw [collectContents] at h
    obtain ⟨hpart, _, h⟩ := h.bind
    exact (areChecked_rows hpart).append (areChecked_rowsOfAll h.bind.1)

theorem areChecked_rows {isForced : Bool} {part : Content}
    (h : Succeeds (collectContent c follow isForced part)) :
    AreChecked c (part.rows isForced) := by
  match part with
  | .group occurs items =>
    rw [collectContent] at h
    exact areChecked_rowsOfAll h
  | .choice occurs items =>
    rw [collectContent] at h
    exact areChecked_rowsOfAll h
  | .derived derivations =>
    rw [collectContent] at h
    exact areChecked_rowsOfDerivations h
  | .elementRef occurs (.unbound text) => exact .nil
  | .elementRef occurs (.to name) => exact .particle _ _ _ _
  | .element occurs none type => exact .nil
  | .element occurs (some name) type => exact .particle _ _ _ _

theorem areChecked_rowsOfDerivations {isForced : Bool}
    {derivations : List (Option Reference × List Content)}
    (h : Succeeds (collectDerivations c follow isForced derivations)) :
    AreChecked c (rowsOfDerivations isForced derivations) := by
  match derivations with
  | [] => exact .nil
  | (base, content) :: rest =>
    rw [collectDerivations] at h
    obtain ⟨hbase, _, h⟩ := h.bind
    obtain ⟨hcontent, _, h⟩ := h.bind
    exact ((areChecked_rowsOfBase hbase).append (areChecked_rowsOfAll hcontent)).append
      (areChecked_rowsOfDerivations h.bind.1)

end

/-- When all types are resolved, the bases of every type that is noted under its name are
checked. -/
theorem areChecked_of_resolveAll (h : resolveAll c Resolution.start = .ok ((), s)) {name : QName}
    {content : List Content} (hdecl : Table.find? name c.complexTypes = some (.mk none content))
    (hnoted : Table.find? (.named name) s.resolved ≠ none) :
    AreChecked c (rowsOfAll false content) := by
  obtain ⟨decl, hdeclares, hcollected⟩ := resolveAll_collects c _ () s h (.named name) rfl hnoted
  obtain rfl := Option.some.inj (hdeclares.2.symm.trans hdecl)
  obtain ⟨follow, hsucceeds⟩ := hcollected content rfl
  exact areChecked_rowsOfAll hsucceeds

end SoapClient.Schema
