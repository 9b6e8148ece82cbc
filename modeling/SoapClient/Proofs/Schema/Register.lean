import Mathlib.Data.List.Nodup
import SoapClient.Proofs.Model.Closed
import SoapClient.Proofs.Schema.Meaning
import SoapClient.Proofs.Spreads

/-!
# The register of a resolution

A resolution enters one type after the other into the model. The *register* lists the declarations
that are entered with the names they got, in the order of their entry. What holds between the
register, the types whose content is being collected and the state of the resolution is
`IsRegistered`. It is kept by the three steps that change the state: a type is entered
(`IsRegistered.enter`), it gets its fields (`IsRegistered.leave`), and a type with simple content is
noted (`IsRegistered.note`).

A type that is derived from another copies the fields of its base. These are there unless the
content of the base is still being collected, and this is so where the base leads to the derived
type by way of types that are not entered before the base.
-/

namespace SoapClient.Schema

open Xml (QName)

/-- The declarations of the structured types of a model with their names there, in the order in
which they were entered. -/
abbrev Register := List (TypeKey × String)

namespace Register

/-- The declarations that are entered. -/
def keys (r : Register) : List TypeKey := r.map (·.1)

/-- The names that are given. -/
def names (r : Register) : List String := r.map (·.2)

/-- The declarations that are entered from a given one on. -/
def since (r : Register) (key : TypeKey) : List TypeKey := r.keys.dropWhile (· ≠ key)

/-- The type that a meaning has in the model. -/
inductive Names (r : Register) : Meaning → TypeRef → Prop
  | primitive (kind : PrimitiveKind) : Names r (.primitive kind) (.primitive kind)
  | structured {key : TypeKey} {name : String} :
    (key, name) ∈ r → Names r (.structured key) (.complex name)

variable {r new : Register} {key : TypeKey} {name : String}

theorem mem_keys_of_mem (h : (key, name) ∈ r) : key ∈ r.keys :=
  List.mem_map.mpr ⟨(key, name), h, rfl⟩

theorem mem_names_of_mem (h : (key, name) ∈ r) : name ∈ r.names :=
  List.mem_map.mpr ⟨(key, name), h, rfl⟩

theorem exists_mem_of_mem_keys (h : key ∈ r.keys) : ∃ name, (key, name) ∈ r := by
  obtain ⟨⟨k, name⟩, hmem, rfl⟩ := List.mem_map.mp h
  exact ⟨name, hmem⟩

theorem keys_append : keys (r ++ new) = r.keys ++ new.keys := List.map_append

theorem names_append : names (r ++ new) = r.names ++ new.names := List.map_append

/-- Registers of the same names are one where the entries of the first stand in the other, in which
no name is given twice. -/
theorem eq_of_names_eq {r' : Register} (hnames : r.names = r'.names) (hnodup : r'.names.Nodup)
    (hmem : ∀ e ∈ r, e ∈ r') : r = r' := by
  have hlength : r.length = r'.length := by simpa [names] using congrArg List.length hnames
  refine List.ext_getElem hlength fun i hi hi' => ?_
  have hname : r[i].2 = r'[i].2 := by
    have hget := congrArg (fun names => names[i]?) hnames
    simpa [names, hi, hi'] using hget
  exact List.inj_on_of_nodup_map hnodup (hmem _ (List.getElem_mem hi)) (List.getElem_mem hi') hname

/-- What is entered from a declaration on is entered. -/
theorem since_subset_keys : r.since key ⊆ r.keys := List.dropWhile_subset _

/-- The declarations from the first place of one on. -/
theorem dropWhile_ne_append_cons {before : List TypeKey} (h : key ∉ before)
    (after : List TypeKey) : (before ++ key :: after).dropWhile (· ≠ key) = key :: after := by
  have hbefore : ∀ k ∈ before, decide (k ≠ key) = true := by
    intro k hk
    rw [decide_eq_true_eq]
    rintro rfl
    exact h hk
  rw [List.dropWhile_append_of_pos hbefore]
  simp

/-- A declaration is the first one that is entered from it on. -/
theorem exists_keys_eq (h : key ∈ r.keys) :
    ∃ before after,
      r.keys = before ++ key :: after ∧ key ∉ before ∧ r.since key = key :: after := by
  obtain ⟨before, after, hsplit, hnot⟩ := List.eq_append_cons_of_mem h
  refine ⟨before, after, hsplit, hnot, ?_⟩
  rw [since, hsplit, dropWhile_ne_append_cons hnot]

theorem mem_since (h : key ∈ r.keys) : key ∈ r.since key := by
  obtain ⟨before, after, -, -, hsince⟩ := exists_keys_eq h
  rw [hsince]
  exact List.mem_cons_self

/-- What is entered later comes behind. -/
theorem since_append (h : key ∈ r.keys) : since (r ++ new) key = r.since key ++ new.keys := by
  obtain ⟨before, after, hsplit, hnot, hsince⟩ := exists_keys_eq h
  rw [hsince, since, keys_append, hsplit, List.append_assoc, List.cons_append,
    dropWhile_ne_append_cons hnot]

theorem Names.append {μ : Meaning} {t : TypeRef} (h : r.Names μ t) : (r ++ new).Names μ t := by
  cases h with
  | primitive kind => exact .primitive kind
  | structured hmem => exact .structured (List.mem_append_left new hmem)

end Register

/-! ## The fields of a type -/

/-- How a row of a structured type is read into fields, where the types in `stack` are those whose
content is being collected. -/
inductive Reads (c : Components) (r : Register) (stack : List TypeKey) (s : Resolution)
    (x : TypeKey) : Row → List Parameter → Prop
  | particle {occurs : Occurrence} {isForced : Bool} {name : String} {mention : Mention}
      {μ : Meaning} {t : TypeRef} :
    c.StandsFor mention μ → r.Names μ t →
      Reads c r stack s x (.particle occurs isForced name mention) [fieldOf occurs isForced name t]
  | unstructured {base : QName} {kind : PrimitiveKind} :
    c.StandsFor (.target (.type base)) (.primitive kind) → Reads c r stack s x (.inherited base) []
  /-- The base has its fields. -/
  | complete {base : QName} {b : TypeKey} {name : String} {fields : List Parameter} :
    c.StandsFor (.target (.type base)) (.structured b) → (b, name) ∈ r → b ∉ stack →
      ¬ c.Leads (r.since b) b x → s.fields? name = some fields →
      Reads c r stack s x (.inherited base) fields
  /-- The base is still without fields. -/
  | early {base : QName} {b : TypeKey} :
    c.StandsFor (.target (.type base)) (.structured b) → b ∈ r.keys → c.Leads (r.since b) b x →
      Reads c r stack s x (.inherited base) []

/-- How rows are read into fields, one row after the other. -/
def AreRead (c : Components) (r : Register) (stack : List TypeKey) (s : Resolution) (x : TypeKey)
    (rows : List Row) (fields : List Parameter) : Prop :=
  ∃ chunks, List.Forall₂ (Reads c r stack s x) rows chunks ∧ fields = chunks.flatten

/-- A type of the model has the fields that its rows are read into. -/
def HasRows (c : Components) (r : Register) (stack : List TypeKey) (s : Resolution) (x : TypeKey)
    (name : String) : Prop :=
  ∃ content fields, c.Declares x (.mk none content) ∧
    AreRead c r stack s x (rowsOfAll false content) fields ∧ s.fields? name = some fields

/-- Whether a declaration may have a name: a named type has its own, and any other none of these. -/
def IsFitting (c : Components) : TypeKey → String → Prop
  | .named typeName, name => name = typeName.localName
  | .inPlace _, name => name ∉ c.localTypeNames

namespace AreRead

variable {c : Components} {r : Register} {stack : List TypeKey} {s : Resolution} {x : TypeKey}

theorem nil : AreRead c r stack s x [] [] := Spreads.nil

theorem singleton {row : Row} {fields : List Parameter} (h : Reads c r stack s x row fields) :
    AreRead c r stack s x [row] fields :=
  Spreads.singleton h

theorem append {rows rows' : List Row} {fields fields' : List Parameter}
    (h : AreRead c r stack s x rows fields) (h' : AreRead c r stack s x rows' fields') :
    AreRead c r stack s x (rows ++ rows') (fields ++ fields') :=
  Spreads.append h h'

/-- Each of the rows is read. -/
theorem exists_reads {rows : List Row} {fields : List Parameter}
    (h : AreRead c r stack s x rows fields) {row : Row} (hrow : row ∈ rows) :
    ∃ chunk, Reads c r stack s x row chunk := by
  obtain ⟨chunk, hread, -⟩ := Spreads.exists_of_mem h hrow
  exact ⟨chunk, hread⟩

/-- Every field is read from a row. -/
theorem exists_row {rows : List Row} {fields : List Parameter}
    (h : AreRead c r stack s x rows fields) {field : Parameter} (hfield : field ∈ fields) :
    ∃ row ∈ rows, ∃ chunk, Reads c r stack s x row chunk ∧ field ∈ chunk :=
  Spreads.exists_mem h hfield

end AreRead

/-- What holds of a resolution between its steps. -/
structure IsRegistered (c : Components) (r : Register) (stack : List TypeKey) (s : Resolution) :
    Prop where
  types : s.types.map (·.name) = r.names
  keys : r.keys.Nodup
  names : r.names.Nodup
  /-- What is entered is declared without simple content. -/
  declared : ∀ key name, (key, name) ∈ r → ∃ content, c.Declares key (.mk none content)
  fitting : ∀ key name, (key, name) ∈ r → IsFitting c key name
  entered : ∀ key name, (key, name) ∈ r → Table.find? key s.resolved = some (.complex name)
  /-- What is noted is right. -/
  noted : ∀ key t, Table.find? key s.resolved = some t →
    ∃ decl μ, c.Declares key decl ∧ c.StandsFor (.structured key decl) μ ∧ r.Names μ t
  /-- The types whose content is being collected are entered. -/
  opened : stack ⊆ r.keys
  /-- A type is collected inside of types that were entered before and that lead to it. -/
  nested : stack.Pairwise fun inner outer =>
    outer ∉ r.since inner ∧ c.Leads (r.since outer) outer inner
  /-- A type has no fields until its content is collected. -/
  empty : ∀ key name, (key, name) ∈ r → key ∈ stack → s.fields? name = some []
  collected : ∀ key name, (key, name) ∈ r → key ∉ stack → HasRows c r stack s key name
  /-- Fields refer to entered types only. -/
  slots : ∀ key name fields, (key, name) ∈ r → s.fields? name = some fields →
    AreSlots r.names fields
  /-- What a collected type leads to is collected. -/
  closed : ∀ x y, x ∈ r.keys → x ∉ stack → c.Leads (r.since x) x y → y ∉ stack

/-- What stays the same while a resolution goes on: the register is added to, and what is collected
keeps its fields. -/
structure Grows (r : Register) (stack : List TypeKey) (s : Resolution) (r' : Register)
    (stack' : List TypeKey) (s' : Resolution) : Prop where
  register : ∃ new, r' = r ++ new
  collected : ∀ x ∈ r.keys, x ∉ stack → x ∉ stack'
  fields : ∀ x name, (x, name) ∈ r → x ∉ stack → s'.fields? name = s.fields? name

namespace Grows

variable {r r' r'' : Register} {stack stack' stack'' : List TypeKey} {s s' s'' : Resolution}

theorem refl (r : Register) (stack : List TypeKey) (s : Resolution) : Grows r stack s r stack s :=
  ⟨⟨[], (List.append_nil r).symm⟩, fun _ _ h => h, fun _ _ _ _ => rfl⟩

theorem mem (h : Grows r stack s r' stack' s') {e : TypeKey × String} (he : e ∈ r) : e ∈ r' := by
  obtain ⟨new, rfl⟩ := h.register
  exact List.mem_append_left new he

theorem mem_keys (h : Grows r stack s r' stack' s') {x : TypeKey} (hx : x ∈ r.keys) :
    x ∈ r'.keys := by
  obtain ⟨name, hmem⟩ := Register.exists_mem_of_mem_keys hx
  exact Register.mem_keys_of_mem (h.mem hmem)

theorem names_subset (h : Grows r stack s r' stack' s') : r.names ⊆ r'.names := by
  obtain ⟨new, rfl⟩ := h.register
  rw [Register.names_append]
  exact List.subset_append_left _ _

theorem names (h : Grows r stack s r' stack' s') {μ : Meaning} {t : TypeRef} (ht : r.Names μ t) :
    r'.Names μ t := by
  obtain ⟨new, rfl⟩ := h.register
  exact ht.append

theorem trans (h : Grows r stack s r' stack' s') (h' : Grows r' stack' s' r'' stack'' s'') :
    Grows r stack s r'' stack'' s'' := by
  refine ⟨?_, ?_, ?_⟩
  · obtain ⟨new, rfl⟩ := h.register
    obtain ⟨new', rfl⟩ := h'.register
    exact ⟨new ++ new', List.append_assoc _ _ _⟩
  · intro x hx hstack
    exact h'.collected x (h.mem_keys hx) (h.collected x hx hstack)
  · intro x name hmem hstack
    have hkey := Register.mem_keys_of_mem hmem
    rw [h'.fields x name (h.mem hmem) (h.collected x hkey hstack), h.fields x name hmem hstack]

end Grows

variable {c : Components} {r r' : Register} {stack stack' : List TypeKey} {s s' : Resolution}

/-! ## What is collected stays as it is -/

namespace IsRegistered

/-- What a collected type refers to is entered. -/
theorem mem_keys_of_refers (hc : c.IsConsistent) (h : IsRegistered c r stack s) {x y : TypeKey}
    (hx : x ∈ r.keys) (hstack : x ∉ stack) (hxy : c.Refers x y) : y ∈ r.keys := by
  obtain ⟨name, hmem⟩ := Register.exists_mem_of_mem_keys hx
  obtain ⟨content, _, hdecl, hrows, -⟩ := h.collected x name hmem hstack
  obtain ⟨content', hdecl', row, hrow, hy⟩ := hxy
  -- the row that refers to `y` is one of those that were read, and reading it named `y`
  have heq := hc.declares_unique hdecl hdecl'
  obtain rfl : content = content' := by injection heq
  obtain ⟨chunk, hread⟩ := hrows.exists_reads hrow
  cases hread with
  | particle hμ hname =>
    obtain rfl := hμ.unique hy
    cases hname with
    | structured hmem => exact Register.mem_keys_of_mem hmem
  | unstructured hμ => cases hμ.unique hy
  | complete hμ hmem =>
    cases hμ.unique hy
    exact Register.mem_keys_of_mem hmem
  | early hμ hmem =>
    cases hμ.unique hy
    exact hmem

/-- A collected type leads to nothing new. -/
theorem leads_of_append (hc : c.IsConsistent) (h : IsRegistered c r stack s) {new : Register}
    (hkeys : (r ++ new).keys.Nodup) {x y : TypeKey} (hx : x ∈ r.keys) (hstack : x ∉ stack)
    (hxy : c.Leads ((r ++ new).since x) x y) : c.Leads (r.since x) x y := by
  -- along the way every type is collected, so the next one was entered before what is new
  induction hxy with
  | refl => exact .refl
  | @tail y z _ hstep ih =>
    have hy : y ∈ r.keys := Register.since_subset_keys (ih.mem (Register.mem_since hx))
    have hz := h.mem_keys_of_refers hc hy (h.closed x y hx hstack ih) hstep.1
    have hsince := hstep.2
    rw [Register.since_append hx, List.mem_append] at hsince
    rw [Register.keys_append] at hkeys
    have hold : z ∈ r.since x :=
      hsince.resolve_right fun hnew => (List.nodup_append.mp hkeys).2.2 z hz z hnew rfl
    exact .tail ih ⟨hstep.1, hold⟩

end IsRegistered

/-- A row that was read is read in the same way ever after. -/
theorem Reads.grow (hc : c.IsConsistent) (h : IsRegistered c r stack s)
    (hgrows : Grows r stack s r' stack' s') (hkeys : r'.keys.Nodup) {x : TypeKey} {row : Row}
    {fields : List Parameter} (hread : Reads c r stack s x row fields) :
    Reads c r' stack' s' x row fields := by
  cases hread with
  | particle hμ hname => exact .particle hμ (hgrows.names hname)
  | unstructured hμ => exact .unstructured hμ
  | complete hμ hmem hstack hno hfields =>
    have hb := Register.mem_keys_of_mem hmem
    refine .complete hμ (hgrows.mem hmem) (hgrows.collected _ hb hstack) ?_ ?_
    · intro hleads
      obtain ⟨new, rfl⟩ := hgrows.register
      exact hno (h.leads_of_append hc hkeys hb hstack hleads)
    · rw [hgrows.fields _ _ hmem hstack]
      exact hfields
  | early hμ hb hleads =>
    refine .early hμ (hgrows.mem_keys hb) ?_
    obtain ⟨new, rfl⟩ := hgrows.register
    rw [Register.since_append hb]
    exact hleads.mono (List.subset_append_left _ _)

theorem AreRead.grow (hc : c.IsConsistent) (h : IsRegistered c r stack s)
    (hgrows : Grows r stack s r' stack' s') (hkeys : r'.keys.Nodup) {x : TypeKey}
    {rows : List Row} {fields : List Parameter} (hread : AreRead c r stack s x rows fields) :
    AreRead c r' stack' s' x rows fields :=
  Spreads.imp_of_mem hread fun _ _ _ hread => hread.grow hc h hgrows hkeys

/-- A type whose content was collected keeps its rows. -/
theorem HasRows.grow (hc : c.IsConsistent) (h : IsRegistered c r stack s)
    (hgrows : Grows r stack s r' stack' s') (hkeys : r'.keys.Nodup) {x : TypeKey} {name : String}
    (hmem : (x, name) ∈ r) (hstack : x ∉ stack) (hrows : HasRows c r stack s x name) :
    HasRows c r' stack' s' x name := by
  obtain ⟨content, fields, hdecl, hread, hfields⟩ := hrows
  refine ⟨content, fields, hdecl, hread.grow hc h hgrows hkeys, ?_⟩
  rw [hgrows.fields x name hmem hstack]
  exact hfields

/-! ## The fields of the types of a state -/

namespace Resolution

variable {s : Resolution} {key : TypeKey} {name other : String} {fields : List Parameter}

/-- A type that is entered has no fields yet. -/
theorem fields?_enter_self (h : name ∉ s.types.map (·.name)) :
    (s.enter key name).fields? name = some [] := by
  have hnone : s.types.find? (·.name = name) = none := by
    rw [List.find?_eq_none]
    intro t ht
    have hne : t.name ≠ name := by
      rintro rfl
      exact h (List.mem_map.mpr ⟨t, ht, rfl⟩)
    simpa using hne
  simp [fields?, enter, List.find?_append, hnone]

/-- Entering a type leaves the fields of the others as they are. -/
theorem fields?_enter_of_mem (h : other ∈ s.types.map (·.name)) :
    (s.enter key name).fields? other = s.fields? other := by
  obtain ⟨t, ht, rfl⟩ := List.mem_map.mp h
  have hsome : (s.types.find? (·.name = t.name)).isSome := by
    rw [List.find?_isSome]
    exact ⟨t, ht, by simp⟩
  obtain ⟨u, hu⟩ := Option.isSome_iff_exists.mp hsome
  simp [fields?, enter, List.find?_append, hu]

theorem names_leave : (s.leave name fields).types.map (·.name) = s.types.map (·.name) := by
  rw [leave, List.map_map]
  apply List.map_congr_left
  intro t _
  by_cases h : t.name = name <;> simp [h]

/-- Giving a type its fields changes no name. -/
theorem find?_leave :
    (s.leave name fields).types.find? (·.name = other) =
      (s.types.find? (·.name = other)).map
        fun t => if t.name = name then { t with fields := fields } else t := by
  have hname : ((fun t : ComplexType => decide (t.name = other)) ∘
      fun t : ComplexType => if t.name = name then { t with fields := fields } else t) =
        fun t => decide (t.name = other) := by
    funext t
    by_cases h : t.name = name <;> simp [h]
  rw [leave, List.find?_map, hname]

/-- The type that is left has the given fields. -/
theorem fields?_leave_self (h : name ∈ s.types.map (·.name)) :
    (s.leave name fields).fields? name = some fields := by
  obtain ⟨t, ht, rfl⟩ := List.mem_map.mp h
  have hsome : (s.types.find? (·.name = t.name)).isSome := by
    rw [List.find?_isSome]
    exact ⟨t, ht, by simp⟩
  obtain ⟨u, hu⟩ := Option.isSome_iff_exists.mp hsome
  have hname : u.name = t.name := by simpa using List.find?_some hu
  simp [fields?, find?_leave, hu, hname]

/-- Giving a type its fields leaves the fields of the others as they are. -/
theorem fields?_leave_of_ne (h : other ≠ name) :
    (s.leave name fields).fields? other = s.fields? other := by
  rw [fields?, find?_leave, fields?]
  cases hu : s.types.find? (·.name = other) with
  | none => rfl
  | some u =>
    have hname : u.name ≠ name := by
      have hu := List.find?_some hu
      simp only [decide_eq_true_eq] at hu
      rwa [hu]
    simp [hname]

end Resolution

/-- What a meaning is named is a type of single values. -/
theorem Register.Names.isSingle {μ : Meaning} {t : TypeRef} (h : r.Names μ t) :
    t.IsSingle r.names := by
  cases h with
  | primitive kind => trivial
  | structured hmem => exact Register.mem_names_of_mem hmem

/-- What a row is read into refers to entered types only. -/
theorem Reads.areSlots (h : IsRegistered c r stack s) {x : TypeKey} {row : Row}
    {fields : List Parameter} (hread : Reads c r stack s x row fields) :
    AreSlots r.names fields := by
  cases hread with
  | @particle occurs isForced name mention μ t hμ ht =>
    intro p hp
    obtain rfl := List.mem_singleton.mp hp
    rw [fieldOf]
    cases occurs.isRepeated with
    | true => exact ht.isSingle
    | false => exact ht.isSingle.isSlot
  | unstructured => exact List.forall_mem_nil _
  | complete _ hmem _ _ hfields => exact h.slots _ _ _ hmem hfields
  | early => exact List.forall_mem_nil _

theorem AreRead.areSlots (h : IsRegistered c r stack s) {x : TypeKey} {rows : List Row}
    {fields : List Parameter} (hread : AreRead c r stack s x rows fields) :
    AreSlots r.names fields := by
  intro p hp
  obtain ⟨row, -, chunk, hread, hp⟩ := hread.exists_row hp
  exact hread.areSlots h p hp

/-! ## The steps of a resolution -/

namespace IsRegistered

theorem mem_types (h : IsRegistered c r stack s) {x : TypeKey} {name : String}
    (hmem : (x, name) ∈ r) : name ∈ s.types.map (·.name) := by
  rw [h.types]
  exact Register.mem_names_of_mem hmem

/-- A declaration has one name. -/
theorem name_unique (h : IsRegistered c r stack s) {x : TypeKey} {name name' : String}
    (hmem : (x, name) ∈ r) (hmem' : (x, name') ∈ r) : name = name' := by
  have hname := (h.entered x name hmem).symm.trans (h.entered x name' hmem')
  injection hname with hname
  injection hname

/-- A name is given once. -/
theorem key_unique (h : IsRegistered c r stack s) {x y : TypeKey} {name : String}
    (hmem : (x, name) ∈ r) (hmem' : (y, name) ∈ r) : x = y :=
  congrArg Prod.fst (List.inj_on_of_nodup_map h.names hmem hmem' rfl)

/-- At the start nothing is entered. -/
theorem start (c : Components) : IsRegistered c [] [] Resolution.start where
  types := rfl
  keys := List.nodup_nil
  names := List.nodup_nil
  declared := by simp
  fitting := by simp
  entered := by simp
  noted := by simp [Resolution.start, Table.find?]
  opened := List.nil_subset _
  nested := List.Pairwise.nil
  empty := by simp
  collected := by simp
  slots := by simp
  closed := by simp [Register.keys]

/-- What is in progress does not matter to the register. -/
theorem congr (hc : c.IsConsistent) (h : IsRegistered c r stack s) (htypes : s'.types = s.types)
    (hresolved : s'.resolved = s.resolved) :
    IsRegistered c r stack s' ∧ Grows r stack s r stack s' := by
  have hfields : ∀ name, s'.fields? name = s.fields? name := by
    intro name
    rw [Resolution.fields?, htypes, Resolution.fields?]
  have hgrows : Grows r stack s r stack s' :=
    ⟨⟨[], (List.append_nil r).symm⟩, fun _ _ h => h, fun _ name _ _ => hfields name⟩
  refine ⟨⟨?types, h.keys, h.names, h.declared, h.fitting, ?entered, ?noted, h.opened, h.nested,
    ?empty, ?collected, ?slots, h.closed⟩, hgrows⟩
  case types =>
    rw [htypes]
    exact h.types
  case entered =>
    rw [hresolved]
    exact h.entered
  case noted =>
    rw [hresolved]
    exact h.noted
  case empty =>
    intro key name hmem hstack
    rw [hfields]
    exact h.empty key name hmem hstack
  case collected =>
    intro key name hmem hstack
    exact (h.collected key name hmem hstack).grow hc h hgrows h.keys hmem hstack
  case slots =>
    intro key name fields hmem hname
    rw [hfields] at hname
    exact h.slots key name fields hmem hname

/-- A type with simple content is noted. -/
theorem note (hc : c.IsConsistent) (h : IsRegistered c r stack s) {key : TypeKey}
    {base : Option Reference} {content : List Content} {μ : Meaning} {t : TypeRef}
    (hdecl : c.Declares key (.mk (some base) content))
    (hμ : c.StandsFor (.structured key (.mk (some base) content)) μ) (ht : r.Names μ t) :
    IsRegistered c r stack { s with resolved := (key, t) :: s.resolved } ∧
      Grows r stack s r stack { s with resolved := (key, t) :: s.resolved } := by
  have hgrows : Grows r stack s r stack { s with resolved := (key, t) :: s.resolved } :=
    ⟨⟨[], (List.append_nil r).symm⟩, fun _ _ h => h, fun _ _ _ _ => rfl⟩
  refine ⟨{ h with entered := ?_, noted := ?_, collected := ?_ }, hgrows⟩
  · intro x name hmem
    -- what is entered has no simple content, so this is another declaration
    have hne : key ≠ x := by
      rintro rfl
      obtain ⟨content', hdecl'⟩ := h.declared key name hmem
      cases hc.declares_unique hdecl hdecl'
    rw [Table.find?, if_neg hne]
    exact h.entered x name hmem
  · intro x t' hfind
    rw [Table.find?] at hfind
    split at hfind
    · next heq =>
      subst heq
      obtain rfl := Option.some.inj hfind
      exact ⟨_, μ, hdecl, hμ, ht⟩
    · exact h.noted x t' hfind
  · intro x name hmem hstack
    exact (h.collected x name hmem hstack).grow hc h hgrows h.keys hmem hstack

/-- What is being collected leads to what is collected innermost. -/
theorem leads_head (h : IsRegistered c r stack s) {x : TypeKey} (hx : stack.head? = some x) :
    ∀ outer ∈ stack, c.Leads (r.since outer) outer x := by
  cases stack with
  | nil => cases hx
  | cons y rest =>
    obtain rfl : y = x := Option.some.inj hx
    intro outer houter
    rcases List.mem_cons.mp houter with rfl | hrest
    · exact .refl
    · exact ((List.pairwise_cons.mp h.nested).1 outer hrest).2

/-- Entering a type adds to the register and leaves all other types as they are. -/
theorem grows_enter (h : IsRegistered c r stack s) {key : TypeKey} (hkey : key ∉ r.keys)
    (name : String) :
    Grows r stack s (r ++ [(key, name)]) (key :: stack) (s.enter key name) := by
  refine ⟨⟨_, rfl⟩, ?_, ?_⟩
  · intro x hx hstack
    rw [List.mem_cons, not_or]
    exact ⟨fun heq => hkey (heq ▸ hx), hstack⟩
  · intro x other hmem _
    exact Resolution.fields?_enter_of_mem (h.mem_types hmem)

/-- A type that is entered comes behind the types whose content is being collected, and these lead
to it, since the innermost one refers to it. -/
theorem nested_enter (h : IsRegistered c r stack s) {key : TypeKey} (hkey : key ∉ r.keys)
    (name : String) (hrefers : ∀ x, stack.head? = some x → c.Refers x key) :
    (key :: stack).Pairwise fun inner outer =>
      outer ∉ Register.since (r ++ [(key, name)]) inner ∧
        c.Leads (Register.since (r ++ [(key, name)]) outer) outer inner := by
  have hkeys : Register.keys (r ++ [(key, name)]) = r.keys ++ [key] := Register.keys_append
  have hne : ∀ outer ∈ stack, outer ≠ key := by
    rintro outer houter rfl
    exact hkey (h.opened houter)
  refine List.pairwise_cons.mpr ⟨?_, ?_⟩
  · intro outer houter
    have hmem := h.opened houter
    obtain ⟨x, hx⟩ : ∃ x, stack.head? = some x := by
      cases stack with
      | nil => cases houter
      | cons x rest => exact ⟨x, rfl⟩
    have hx' := h.leads_head hx outer houter
    refine ⟨?_, .tail (hx'.mono ?_) ⟨hrefers x hx, ?_⟩⟩
    · rw [Register.since, hkeys, Register.dropWhile_ne_append_cons hkey, List.mem_singleton]
      exact hne outer houter
    · rw [Register.since_append hmem]
      exact List.subset_append_left _ _
    · rw [Register.since_append hmem]
      exact List.mem_append_right _ List.mem_cons_self
  · -- between the others nothing changes but that the new type comes behind them
    refine h.nested.imp_of_mem fun {inner outer} hinner houter hnested => ?_
    obtain ⟨hbefore, hleads⟩ := hnested
    rw [Register.since_append (h.opened hinner), Register.since_append (h.opened houter)]
    refine ⟨?_, hleads.mono (List.subset_append_left _ _)⟩
    rw [List.mem_append, not_or]
    exact ⟨hbefore, by simpa [Register.keys] using hne outer houter⟩

/-- A type is entered, and its content is going to be collected. -/
theorem enter (hc : c.IsConsistent) (h : IsRegistered c r stack s) {key : TypeKey} {name : String}
    {content : List Content} (hdecl : c.Declares key (.mk none content))
    (hfit : IsFitting c key name) (hkey : key ∉ r.keys) (hname : name ∉ r.names)
    (hrefers : ∀ x, stack.head? = some x → c.Refers x key) :
    IsRegistered c (r ++ [(key, name)]) (key :: stack) (s.enter key name) ∧
      Grows r stack s (r ++ [(key, name)]) (key :: stack) (s.enter key name) := by
  have hne : ∀ x ∈ r.keys, x ≠ key := by
    rintro x hx rfl
    exact hkey hx
  have hkeys : Register.keys (r ++ [(key, name)]) = r.keys ++ [key] := Register.keys_append
  have hnames : Register.names (r ++ [(key, name)]) = r.names ++ [name] := Register.names_append
  have hnodup : (Register.keys (r ++ [(key, name)])).Nodup := by
    rw [hkeys]
    exact h.keys.append (List.nodup_singleton key) (by simpa using hkey)
  have hgrows := h.grows_enter hkey name
  have hold : ∀ x other, (x, other) ∈ r ++ [(key, name)] →
      (x, other) ∈ r ∨ (x = key ∧ other = name) := by
    intro x other hmem
    rcases List.mem_append.mp hmem with hmem | hmem
    · exact .inl hmem
    · exact .inr (Prod.mk.inj (List.mem_singleton.mp hmem))
  refine ⟨⟨?types, hnodup, ?names, ?declared, ?fitting, ?entered, ?noted, ?opened,
    h.nested_enter hkey name hrefers, ?empty, ?collected, ?slots, ?closed⟩, hgrows⟩
  case types => rw [hnames, Resolution.enter, List.map_append, h.types, List.map_singleton]
  case names =>
    rw [hnames]
    exact h.names.append (List.nodup_singleton name) (by simpa using hname)
  case declared =>
    intro x other hmem
    rcases hold x other hmem with hmem | ⟨rfl, rfl⟩
    · exact h.declared x other hmem
    · exact ⟨content, hdecl⟩
  case fitting =>
    intro x other hmem
    rcases hold x other hmem with hmem | ⟨rfl, rfl⟩
    · exact h.fitting x other hmem
    · exact hfit
  case entered =>
    intro x other hmem
    rw [Resolution.enter, Table.find?]
    rcases hold x other hmem with hmem | ⟨rfl, rfl⟩
    · rw [if_neg (hne x (Register.mem_keys_of_mem hmem)).symm]
      exact h.entered x other hmem
    · rw [if_pos rfl]
  case noted =>
    intro x t hfind
    rw [Resolution.enter, Table.find?] at hfind
    split at hfind
    · next heq =>
      subst heq
      obtain rfl := Option.some.inj hfind
      exact ⟨_, _, hdecl, .itself, .structured (by simp)⟩
    · obtain ⟨decl, μ, hx, hμ, ht⟩ := h.noted x t hfind
      exact ⟨decl, μ, hx, hμ, ht.append⟩
  case opened =>
    rw [hkeys]
    intro x hx
    rcases List.mem_cons.mp hx with rfl | hx
    · simp
    · exact List.mem_append_left _ (h.opened hx)
  case empty =>
    intro x other hmem hstack
    rcases hold x other hmem with hmem | ⟨rfl, rfl⟩
    · have hx := Register.mem_keys_of_mem hmem
      have hstack := (List.mem_cons.mp hstack).resolve_left (hne x hx)
      rw [Resolution.fields?_enter_of_mem (h.mem_types hmem)]
      exact h.empty x other hmem hstack
    · refine Resolution.fields?_enter_self ?_
      rw [h.types]
      exact hname
  case collected =>
    intro x other hmem hstack
    rw [List.mem_cons, not_or] at hstack
    have hmem : (x, other) ∈ r := (hold x other hmem).resolve_right fun h => hstack.1 h.1
    exact (h.collected x other hmem hstack.2).grow hc h hgrows hnodup hmem hstack.2
  case slots =>
    intro x other fields hmem hfields
    rcases hold x other hmem with hmem | ⟨rfl, rfl⟩
    · rw [Resolution.fields?_enter_of_mem (h.mem_types hmem)] at hfields
      rw [hnames]
      exact (h.slots x other fields hmem hfields).mono (List.subset_append_left _ _)
    · have hfree : other ∉ s.types.map (·.name) := by
        rw [h.types]
        exact hname
      rw [Resolution.fields?_enter_self hfree] at hfields
      obtain rfl := Option.some.inj hfields
      exact List.forall_mem_nil _
  case closed =>
    -- nothing that is collected leads to the new type, since it led to nothing new
    intro x y hx hstack hxy
    rw [List.mem_cons, not_or] at hstack
    have hx : x ∈ r.keys := by
      rw [hkeys, List.mem_append, List.mem_singleton] at hx
      exact hx.resolve_right hstack.1
    have hxy := h.leads_of_append hc hnodup hx hstack.2 hxy
    have hy := Register.since_subset_keys (hxy.mem (Register.mem_since hx))
    rw [List.mem_cons, not_or]
    exact ⟨hne y hy, h.closed x y hx hstack.2 hxy⟩

/-- The innermost type whose content is being collected gets its fields. -/
theorem leave (hc : c.IsConsistent) {x : TypeKey} (h : IsRegistered c r (x :: stack) s)
    {name : String} {content : List Content} {fields : List Parameter} (hmem : (x, name) ∈ r)
    (hdecl : c.Declares x (.mk none content))
    (hread : AreRead c r (x :: stack) s x (rowsOfAll false content) fields) :
    IsRegistered c r stack (s.leave name fields) ∧
      Grows r (x :: stack) s r stack (s.leave name fields) := by
  have hne : ∀ y other, (y, other) ∈ r → y ≠ x → other ≠ name := by
    rintro y other hy hyx rfl
    exact hyx (h.key_unique hy hmem)
  obtain ⟨houter, hrest⟩ := List.pairwise_cons.mp h.nested
  have hx : x ∉ stack :=
    fun hx => (houter x hx).1 (Register.mem_since (h.opened List.mem_cons_self))
  have hgrows : Grows r (x :: stack) s r stack (s.leave name fields) := by
    refine ⟨⟨[], (List.append_nil r).symm⟩, ?_, ?_⟩
    · intro y _ hstack hy
      exact hstack (List.mem_cons_of_mem x hy)
    · intro y other hy hstack
      rw [List.mem_cons, not_or] at hstack
      exact Resolution.fields?_leave_of_ne (hne y other hy hstack.1)
  refine ⟨⟨?types, h.keys, h.names, h.declared, h.fitting, h.entered, h.noted, ?opened, hrest,
    ?empty, ?collected, ?slots, ?closed⟩, hgrows⟩
  case types => rw [Resolution.names_leave, h.types]
  case opened => exact fun y hy => h.opened (List.mem_cons_of_mem x hy)
  case empty =>
    intro y other hy hstack
    have hyx : y ≠ x := by
      rintro rfl
      exact hx hstack
    rw [Resolution.fields?_leave_of_ne (hne y other hy hyx)]
    exact h.empty y other hy (List.mem_cons_of_mem x hstack)
  case collected =>
    intro y other hy hstack
    by_cases hyx : y = x
    · subst hyx
      obtain rfl := h.name_unique hy hmem
      exact ⟨content, fields, hdecl, hread.grow hc h hgrows h.keys,
        Resolution.fields?_leave_self (h.mem_types hmem)⟩
    · have hstack' : y ∉ x :: stack := by
        rw [List.mem_cons, not_or]
        exact ⟨hyx, hstack⟩
      exact (h.collected y other hy hstack').grow hc h hgrows h.keys hy hstack'
  case slots =>
    intro y other fields' hy hfields
    by_cases hyx : y = x
    · subst hyx
      obtain rfl := h.name_unique hy hmem
      rw [Resolution.fields?_leave_self (h.mem_types hmem)] at hfields
      obtain rfl := Option.some.inj hfields
      exact hread.areSlots h
    · rw [Resolution.fields?_leave_of_ne (hne y other hy hyx)] at hfields
      exact h.slots y other fields' hy hfields
  case closed =>
    intro y z hy hstack hyz
    by_cases hyx : y = x
    · -- what is entered from the type on is collected, as all that is outside of it came before
      subst hyx
      intro hz
      exact (houter z hz).1 (hyz.mem (Register.mem_since hy))
    · have hstack' : y ∉ x :: stack := by
        rw [List.mem_cons, not_or]
        exact ⟨hyx, hstack⟩
      exact fun hz => h.closed y z hy hstack' hyz (List.mem_cons_of_mem x hz)

end IsRegistered

end SoapClient.Schema
