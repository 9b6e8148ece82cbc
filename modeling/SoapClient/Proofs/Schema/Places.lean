import SoapClient.Proofs.Schema.Meaning
import SoapClient.Wsdl.Reader

/-!
# Places of declarations

A structured type that is declared in place is known by the path of its element. Main statement: the
declarations that are read from a document have different paths (`nodup_paths_readSchemas`), since
what is read at a path has paths that end with it.
-/

namespace SoapClient.Schema

open Xml (Element)

/-- The paths of some places. -/
def pathsOf (places : List (List Nat × ComplexDecl)) : List (List Nat) := places.map (·.1)

theorem pathsOf_append (ps qs : List (List Nat × ComplexDecl)) :
    pathsOf (ps ++ qs) = pathsOf ps ++ pathsOf qs := List.map_append

/-- Different paths of what stands at a path or further inside. -/
structure AreAt (path : List Nat) (paths : List (List Nat)) : Prop where
  suffix : ∀ q ∈ paths, path <:+ q
  nodup : paths.Nodup

/-- Different paths of what stands inside of a path, behind the first `i` parts there. -/
structure AreBehind (path : List Nat) (i : Nat) (paths : List (List Nat)) : Prop where
  suffix : ∀ q ∈ paths, ∃ j, i ≤ j ∧ j :: path <:+ q
  nodup : paths.Nodup

variable {path : List Nat} {i : Nat} {ps qs : List (List Nat)}

theorem AreAt.nil : AreAt path [] := ⟨by simp, List.nodup_nil⟩

theorem AreBehind.nil : AreBehind path i [] := ⟨by simp, List.nodup_nil⟩

/-- A part of a path has one number. -/
theorem eq_of_suffix {j k : Nat} {q : List Nat} (hj : j :: path <:+ q) (hk : k :: path <:+ q) :
    j = k := by
  obtain ⟨xs, rfl⟩ := hj
  obtain ⟨ys, heq⟩ := hk
  have hlast := (List.append_inj' heq (by simp)).2
  exact (List.cons.inj hlast).1.symm

/-- What stands inside of a path stands at it. -/
theorem AreBehind.areAt (h : AreBehind path i ps) : AreAt path ps := by
  refine ⟨fun q hq => ?_, h.nodup⟩
  obtain ⟨j, -, hj⟩ := h.suffix q hq
  exact (List.suffix_cons j path).trans hj

/-- A part with a number goes before the parts with larger ones. -/
theorem AreBehind.cons (h : AreAt (i :: path) ps) (h' : AreBehind path (i + 1) qs) :
    AreBehind path i (ps ++ qs) := by
  refine ⟨fun q hq => ?_, List.nodup_append.mpr ⟨h.nodup, h'.nodup, ?_⟩⟩
  · rcases List.mem_append.mp hq with hq | hq
    · exact ⟨i, Nat.le_refl i, h.suffix q hq⟩
    · obtain ⟨j, hij, hj⟩ := h'.suffix q hq
      exact ⟨j, by omega, hj⟩
  · rintro p hp q hq rfl
    obtain ⟨j, hij, hj⟩ := h'.suffix p hq
    have := eq_of_suffix (h.suffix p hp) hj
    omega

/-- What stands at a path goes before what stands inside. -/
theorem AreBehind.cons_self (h : AreBehind path i ps) : AreAt path (path :: ps) := by
  refine ⟨?_, List.nodup_cons.mpr ⟨?_, h.nodup⟩⟩
  · intro q hq
    rcases List.mem_cons.mp hq with rfl | hq
    · exact List.suffix_refl q
    · exact h.areAt.suffix q hq
  · intro hmem
    obtain ⟨j, -, hj⟩ := h.suffix path hmem
    have hlength := hj.length_le
    rw [List.length_cons] at hlength
    omega

/-- The type of an element stands at the path of the element. -/
theorem areAt_elementTypeOf (path : List Nat) (e : Element) {inPlace : Option ComplexDecl}
    (h : ∀ decl, inPlace = some decl → AreBehind path 0 (pathsOf decl.places)) :
    AreAt path (pathsOf (elementTypeOf path e inPlace).places) := by
  unfold elementTypeOf
  split
  · exact .nil
  · next decl _ => exact (h decl rfl).cons_self
  · exact .nil
  · exact .nil

mutual

theorem areBehind_readComplex (path : List Nat) (e : Element) :
    AreBehind path 0 (pathsOf (readComplex path e).places) := by
  match e with
  | ⟨_, _, _, _, children, _⟩ =>
    rw [readComplex, ComplexDecl.places]
    exact areBehind_readContents path 0 children

theorem areBehind_readContents (path : List Nat) (i : Nat) (es : List Element) :
    AreBehind path i (pathsOf (placesOfAll (readContents path i es))) := by
  match es with
  | [] => exact .nil
  | e :: rest =>
    rw [readContents]
    cases hread : readContent (i :: path) e with
    | none => exact areBehind_readContents path i rest
    | some part =>
      dsimp only
      rw [placesOfAll, pathsOf_append]
      exact .cons (areAt_readContent (i :: path) e hread) (areBehind_readContents path (i + 1) rest)

theorem areAt_readContent (path : List Nat) (e : Element) {part : Content}
    (h : readContent path e = some part) : AreAt path (pathsOf part.places) := by
  match e with
  | ⟨ns, localName, _, _, children, _⟩ =>
    rw [readContent] at h
    split at h
    · cases h
    split at h
    · obtain rfl := Option.some.inj h
      exact (areBehind_readContents path 0 children).areAt
    split at h
    · obtain rfl := Option.some.inj h
      exact (areBehind_readContents path 0 children).areAt
    split at h
    · obtain rfl := Option.some.inj h
      exact (areBehind_readDerivations path 0 children).areAt
    split at h
    · split at h
      · obtain rfl := Option.some.inj h
        exact .nil
      · obtain rfl := Option.some.inj h
        exact areAt_elementTypeOf path _ fun decl hdecl =>
          areBehind_readFirstComplex path children hdecl
    · cases h

theorem areBehind_readDerivations (path : List Nat) (i : Nat) (es : List Element) :
    AreBehind path i (pathsOf (placesOfDerivations (readDerivations path i es))) := by
  match es with
  | [] => exact .nil
  | e :: rest =>
    rw [readDerivations, placesOfDerivations, pathsOf_append]
    exact .cons (areAt_readDerivation (i :: path) e) (areBehind_readDerivations path (i + 1) rest)

theorem areAt_readDerivation (path : List Nat) (e : Element) :
    AreAt path (pathsOf (placesOfAll (readDerivation path e))) := by
  match e with
  | ⟨_, _, _, _, children, _⟩ =>
    rw [readDerivation]
    exact (areBehind_readContents path 0 children).areAt

theorem areBehind_readFirstComplex (path : List Nat) (es : List Element) {decl : ComplexDecl}
    (h : readFirstComplex path es = some decl) : AreBehind path 0 (pathsOf decl.places) := by
  match es with
  | [] => cases h
  | e :: rest =>
    rw [readFirstComplex] at h
    split at h
    · obtain rfl := Option.some.inj h
      exact areBehind_readComplex path e
    · exact areBehind_readFirstComplex path rest h

end

/-! ## Schemas -/

/-- The structured types declared in place inside of a declaration at the top of a schema. -/
def TopLevel.places : TopLevel → List (List Nat × ComplexDecl)
  | .element _ type => type.places
  | .complexType _ decl => decl.places
  | _ => []

/-- The structured types declared in place in a schema. -/
def SchemaDecl.places (schema : SchemaDecl) : List (List Nat × ComplexDecl) :=
  schema.declarations.flatMap TopLevel.places

theorem areAt_readTopLevel (path : List Nat) (e : Element) {d : TopLevel}
    (h : readTopLevel path e = some d) : AreAt path (pathsOf d.places) := by
  rw [readTopLevel] at h
  split at h
  · cases h
  split at h
  · obtain rfl := Option.some.inj h
    exact .nil
  · obtain rfl := Option.some.inj h
    exact .nil
  · obtain rfl := Option.some.inj h
    exact .nil
  · obtain rfl := Option.some.inj h
    exact areAt_elementTypeOf path e fun decl hdecl => areBehind_readFirstComplex path _ hdecl
  · obtain rfl := Option.some.inj h
    exact (areBehind_readComplex path e).areAt
  · obtain rfl := Option.some.inj h
    exact .nil
  · cases h

theorem areBehind_readTopLevels (path : List Nat) (i : Nat) (es : List Element) :
    AreBehind path i (pathsOf ((readTopLevels path i es).flatMap TopLevel.places)) := by
  induction es generalizing i with
  | nil => exact .nil
  | cons e rest ih =>
    rw [readTopLevels]
    cases hread : readTopLevel (i :: path) e with
    | none => exact ih i
    | some d =>
      dsimp only
      rw [List.flatMap_cons, pathsOf_append]
      exact .cons (areAt_readTopLevel (i :: path) e hread) (ih (i + 1))

theorem areBehind_readSchemas (i : Nat) (es : List Element) :
    AreBehind [] i
      (pathsOf ((es.mapIdx fun j e => readSchema [j + i] e).flatMap SchemaDecl.places)) := by
  induction es generalizing i with
  | nil => exact .nil
  | cons e rest ih =>
    rw [List.mapIdx_cons, List.flatMap_cons, pathsOf_append, Nat.zero_add]
    refine .cons (areBehind_readTopLevels [i] 0 e.children).areAt ?_
    have hrest := ih (i + 1)
    have hindex :
        (fun j e => readSchema [j + (i + 1)] e) = fun j e => readSchema [j + 1 + i] e := by
      funext j e
      rw [show j + (i + 1) = j + 1 + i by omega]
    rwa [hindex] at hrest

/-- The structured types that are declared in place in a document have different paths. -/
theorem nodup_paths_readSchemas (root : Element) :
    (pathsOf ((Wsdl.readSchemas root).flatMap SchemaDecl.places)).Nodup :=
  (areBehind_readSchemas 0 _).nodup

end SoapClient.Schema
