import Mathlib.Data.List.Forall2
import Mathlib.Data.List.Nodup
import SoapClient.Proofs.Value.Fitting
import SoapClient.Value.Arrange

/-!
# Values with their members in another order

An arranged value is the same value but for the order of members (`reorders_arrange`), and those of
objects that stand for structured types come in the order of the fields (`isInOrder_arrange`). It
fits wherever the value fits (`Fits.reorders`).
-/

namespace SoapClient

/-! ## Reorderings -/

/-- The second value is the first one but for the order of the members of objects, at any depth. -/
inductive Json.Reorders : Json → Json → Prop
  | refl (v : Json) : Reorders v v
  | arr {items items' : List Json} :
    List.Forall₂ Reorders items items' → Reorders (.arr items) (.arr items')
  | obj {members members' others : List (String × Json)} :
    members.map (·.1) = members'.map (·.1) →
      List.Forall₂ (fun a b => Reorders a.2 b.2) members members' → members'.Perm others →
        Reorders (.obj members) (.obj others)

variable {m : ServiceModel} {v w : Json} {t : TypeRef} {isOptional : Bool}

/-- A member has one with its name and a reordering of its value at the same place. -/
theorem exists_mem_of_forall₂ {members members' : List (String × Json)}
    (hnames : members.map (·.1) = members'.map (·.1))
    (hvalues : List.Forall₂ (fun a b => Json.Reorders a.2 b.2) members members') {name : String}
    (h : (name, w) ∈ members') : ∃ v, (name, v) ∈ members ∧ v.Reorders w := by
  induction hvalues with
  | nil => cases h
  | @cons a b rest rest' hfirst _ ih =>
    rw [List.map_cons, List.map_cons, List.cons.injEq] at hnames
    rcases List.mem_cons.mp h with rfl | hrest
    · obtain ⟨rfl, -⟩ := hnames
      exact ⟨a.2, List.mem_cons_self, hfirst⟩
    · obtain ⟨v, hv, hreorders⟩ := ih hnames.2 hrest
      exact ⟨v, List.mem_cons_of_mem _ hv, hreorders⟩

/-- An item has a reordering of it at the same place. -/
theorem exists_mem_of_forall₂_items {items items' : List Json}
    (h : List.Forall₂ Json.Reorders items items') (hw : w ∈ items') :
    ∃ v ∈ items, v.Reorders w := by
  induction h with
  | nil => cases hw
  | @cons a b rest rest' hfirst _ ih =>
    rcases List.mem_cons.mp hw with rfl | hrest
    · exact ⟨a, List.mem_cons_self, hfirst⟩
    · obtain ⟨v, hv, hreorders⟩ := ih hrest
      exact ⟨v, List.mem_cons_of_mem _ hv, hreorders⟩

/-! ## Reorderings fit where the values fit -/

/-- The order of what a value holds is nothing to a primitive kind. -/
theorem checkWhole_of_kind_eq {path : Path} (h : checkWhole v t isOptional path = .ok ())
    (hv : v.kind = .array ∨ v.kind = .object) (hw : w.kind = v.kind) :
    checkWhole w t isOptional path = .ok () := by
  obtain ⟨kind, rfl, haccepts⟩ := exists_kind_of_checkWhole h
  refine checkWhole_of_accepts ?_ isOptional path
  cases kind <;> cases v <;> simp_all [PrimitiveKind.accepts, Json.kind]

/-- A reordering fits where the value fits. -/
theorem Fits.reorders (h : Fits m v t isOptional) (hv : v.Everywhere Json.HasDistinctNames)
    (hw : v.Reorders w) : Fits m w t isOptional := by
  induction v using Json.inductionOn generalizing w t isOptional with
  | arr items ih =>
    cases hw with
    | refl => exact h
    | @arr _ items' hitems =>
      cases t with
      | array item =>
        rw [Json.everywhere_arr] at hv
        rw [fits_arr_iff] at h ⊢
        intro w hw
        obtain ⟨v, hmem, hreorders⟩ := exists_mem_of_forall₂_items hitems hw
        exact ih v hmem (h v hmem) (hv.2 v hmem) hreorders
      | _ =>
        intro path
        have hwhole := h path
        rw [check_arr_of_ne (by simp)] at hwhole ⊢
        exact checkWhole_of_kind_eq hwhole (.inl rfl) rfl
  | obj members ih =>
    cases hw with
    | refl => exact h
    | @obj _ members' others hnames hvalues hperm =>
      cases t with
      | complex typeName =>
        rw [Json.everywhere_obj] at hv
        obtain ⟨hdistinct, hinside⟩ := hv
        have hkeys : (members.map (·.1)).Perm (others.map (·.1)) := by
          rw [hnames]
          exact hperm.map _
        have hdistinct' : (others.map (·.1)).Nodup := hkeys.nodup_iff.mp hdistinct
        -- what stands under a name is a reordering of what stood under it
        have hmember : ∀ name w, (name, w) ∈ others →
            ∃ v, (name, v) ∈ members ∧ v.Reorders w := fun name w hw =>
          exists_mem_of_forall₂ hnames hvalues (hperm.mem_iff.mpr hw)
        obtain ⟨c, hc, hdeclared, hfields⟩ := fits_obj_iff.mp h
        refine fits_obj_iff.mpr ⟨c, hc, ?_, fun field hfield => ⟨fun w hw => ?_, fun hnone => ?_⟩⟩
        · rintro ⟨name, w⟩ hmem
          obtain ⟨v, hv, -⟩ := hmember name w hmem
          exact hdeclared (name, v) hv
        · obtain ⟨v, hv, hreorders⟩ := hmember field.name w (mem_of_lookup hw)
          have hfits := (hfields field hfield).1 v (lookup_of_mem hdistinct hv)
          exact ih _ hv hfits (hinside _ hv) hreorders
        · apply (hfields field hfield).2
          rw [List.lookup_eq_none_iff]
          intro member hmem
          have hkey : member.1 ∈ others.map (·.1) :=
            hkeys.mem_iff.mp (List.mem_map.mpr ⟨member, hmem, rfl⟩)
          have hne : field.name ≠ member.1 := by
            intro heq
            exact notMem_of_lookup hnone (heq ▸ hkey)
          simpa using hne
      | _ =>
        intro path
        have hwhole := h path
        rw [check_obj_of_ne (by simp)] at hwhole ⊢
        exact checkWhole_of_kind_eq hwhole (.inr rfl) rfl
  | _ =>
    cases hw
    exact h

/-- A reordering has the same names of members. -/
theorem Json.Reorders.hasNCNames (hw : v.Reorders w) (hv : v.Everywhere Json.HasNCNames) :
    w.Everywhere Json.HasNCNames := by
  induction v using Json.inductionOn generalizing w with
  | arr items ih =>
    cases hw with
    | refl => exact hv
    | arr hitems =>
      rw [Json.everywhere_arr] at hv ⊢
      refine ⟨trivial, fun w hw => ?_⟩
      obtain ⟨v, hmem, hreorders⟩ := exists_mem_of_forall₂_items hitems hw
      exact ih v hmem hreorders (hv.2 v hmem)
  | obj members ih =>
    cases hw with
    | refl => exact hv
    | @obj _ members' others hnames hvalues hperm =>
      rw [Json.everywhere_obj] at hv ⊢
      have hmember : ∀ member ∈ others, ∃ v, (member.1, v) ∈ members ∧ v.Reorders member.2 :=
        fun member hmem => exists_mem_of_forall₂ hnames hvalues (hperm.mem_iff.mpr hmem)
      refine ⟨fun member hmem => ?_, fun member hmem => ?_⟩
      · obtain ⟨v, hv', -⟩ := hmember member hmem
        exact hv.1 (member.1, v) hv'
      · obtain ⟨v, hv', hreorders⟩ := hmember member hmem
        exact ih (member.1, v) hv' hreorders (hv.2 (member.1, v) hv')
  | _ =>
    cases hw
    exact hv

/-- A reordering has no two members of one name where the value has none. -/
theorem Json.Reorders.hasDistinctNames (hw : v.Reorders w)
    (hv : v.Everywhere Json.HasDistinctNames) : w.Everywhere Json.HasDistinctNames := by
  induction v using Json.inductionOn generalizing w with
  | arr items ih =>
    cases hw with
    | refl => exact hv
    | arr hitems =>
      rw [Json.everywhere_arr] at hv ⊢
      refine ⟨trivial, fun w hw => ?_⟩
      obtain ⟨v, hmem, hreorders⟩ := exists_mem_of_forall₂_items hitems hw
      exact ih v hmem hreorders (hv.2 v hmem)
  | obj members ih =>
    cases hw with
    | refl => exact hv
    | @obj _ members' others hnames hvalues hperm =>
      rw [Json.everywhere_obj] at hv ⊢
      have hkeys : (members.map (·.1)).Perm (others.map (·.1)) := by
        rw [hnames]
        exact hperm.map _
      refine ⟨hkeys.nodup_iff.mp hv.1, fun member hmem => ?_⟩
      obtain ⟨v, hv', hreorders⟩ :=
        exists_mem_of_forall₂ hnames hvalues (hperm.mem_iff.mpr hmem : member ∈ members')
      exact ih (member.1, v) hv' hreorders (hv.2 (member.1, v) hv')
  | _ =>
    cases hw
    exact hv

/-! ## Taking members out -/

section

variable {α : Type} {name : String} {a : α} {members others : List (String × α)}

/-- No member is taken under a name that none has. -/
theorem takeMember?_of_notMem (h : name ∉ members.map (·.1)) : takeMember? name members = none := by
  have hlookup : members.lookup name = none := by
    rw [List.lookup_eq_none_iff]
    intro member hmember
    have hne : name ≠ member.1 := by
      rintro rfl
      exact h (List.mem_map.mpr ⟨member, hmember, rfl⟩)
    simpa using hne
  rw [takeMember?, hlookup]
  split <;> simp_all

/-- What stands before a member does not have its name. -/
theorem exists_first_of_mem (h : name ∈ members.map (·.1)) :
    ∃ before a after, members = before ++ (name, a) :: after ∧ name ∉ before.map (·.1) := by
  induction members with
  | nil => cases h
  | cons member rest ih =>
    obtain ⟨n, b⟩ := member
    by_cases heq : n = name
    · subst heq
      exact ⟨[], b, rest, rfl, List.not_mem_nil⟩
    · rw [List.map_cons, List.mem_cons] at h
      obtain ⟨before, a, after, rfl, hbefore⟩ := ih (h.resolve_left (Ne.symm heq))
      refine ⟨(n, b) :: before, a, after, rfl, ?_⟩
      rw [List.map_cons, List.mem_cons, not_or]
      exact ⟨Ne.symm heq, hbefore⟩

/-- The first member with a name is taken, and the last of all moves into its place. -/
theorem takeMember?_append {before after : List (String × α)} (h : name ∉ before.map (·.1))
    {l : String × α} (hl : ((name, a) :: after).getLast? = some l) :
    takeMember? name (before ++ (name, a) :: after) =
      some (a, (before ++ l :: after).dropLast) := by
  have hfind : (before ++ (name, a) :: after).findIdx? (·.1 = name) = some before.length := by
    have hnone : before.findIdx? (·.1 = name) = none := by
      rw [List.findIdx?_eq_none_iff]
      intro member hmember
      simp only [decide_eq_false_iff_not]
      rintro rfl
      exact h (List.mem_map.mpr ⟨member, hmember, rfl⟩)
    rw [List.findIdx?_append, hnone, List.findIdx?_cons]
    simp
  have hlookup : (before ++ (name, a) :: after).lookup name = some a := by
    rw [List.lookup_eq_some_iff]
    refine ⟨before, after, rfl, fun member hmember => ?_⟩
    have hne : name ≠ member.1 := by
      rintro rfl
      exact h (List.mem_map.mpr ⟨member, hmember, rfl⟩)
    simpa using hne
  have hlast : (before ++ (name, a) :: after).getLast? = some l := by
    rw [List.getLast?_append, hl, Option.some_or]
  rw [takeMember?, hfind, hlookup]
  simp [hlast]

/-- Taking a member out changes nothing else, but for the order of the others. -/
theorem exists_takeMember?_of_mem (h : name ∈ members.map (·.1)) :
    ∃ a others, takeMember? name members = some (a, others) ∧
      members.Perm ((name, a) :: others) := by
  obtain ⟨before, a, after, rfl, hbefore⟩ := exists_first_of_mem h
  rcases List.eq_nil_or_concat' after with rfl | ⟨after, l, rfl⟩
  · refine ⟨a, before, ?_, List.perm_append_singleton _ _⟩
    rw [takeMember?_append hbefore (l := (name, a)) rfl, List.dropLast_concat]
  · refine ⟨a, before ++ l :: after, ?_, ?_⟩
    · have hl : ((name, a) :: (after ++ [l])).getLast? = some l := by
        rw [← List.cons_append, List.getLast?_concat]
      have hdrop : before ++ l :: (after ++ [l]) = (before ++ l :: after) ++ [l] := by simp
      rw [takeMember?_append hbefore hl, hdrop, List.dropLast_concat]
    · have hlast : (before ++ (after ++ [l])).Perm (before ++ l :: after) :=
        List.Perm.append_left before (List.perm_append_singleton l after)
      exact List.perm_middle.trans (hlast.cons _)

/-! ## Members in order -/

/-- Members in another order are the same members. -/
theorem orderMembers_perm (names : List String) (members : List (String × α)) :
    (orderMembers names members).Perm members := by
  induction names generalizing members with
  | nil => exact List.Perm.refl _
  | cons name names ih =>
    rw [orderMembers]
    by_cases h : name ∈ members.map (·.1)
    · obtain ⟨a, others, htake, hperm⟩ := exists_takeMember?_of_mem h
      rw [htake]
      exact ((ih others).cons _).trans hperm.symm
    · rw [takeMember?_of_notMem h]
      exact ih members

/-- The members that are left when those with some names are taken out, one after the other. -/
def leftMembers : List String → List (String × α) → List (String × α)
  | [], members => members
  | name :: names, members =>
    match takeMember? name members with
    | some (_, others) => leftMembers names others
    | none => leftMembers names members

/-- The members that are left are those with other names. -/
theorem leftMembers_perm (names : List String) (hnames : (members.map (·.1)).Nodup) :
    (leftMembers names members).Perm (members.filter (·.1 ∉ names)) := by
  induction names generalizing members with
  | nil =>
    rw [List.filter_eq_self.mpr (by simp)]
    exact List.Perm.refl members
  | cons name names ih =>
    -- among members without the name, it does not matter that it is one of the names
    have hfilter (rest : List (String × α)) (hrest : name ∉ rest.map (·.1)) :
        rest.filter (·.1 ∉ names) = rest.filter (·.1 ∉ name :: names) := by
      apply List.filter_congr
      intro member hmember
      have hne : member.1 ≠ name := by
        rintro rfl
        exact hrest (List.mem_map.mpr ⟨member, hmember, rfl⟩)
      simp [hne]
    rw [leftMembers]
    by_cases h : name ∈ members.map (·.1)
    · obtain ⟨a, others, htake, hperm⟩ := exists_takeMember?_of_mem h
      have hkeys : (members.map (·.1)).Perm (name :: others.map (·.1)) := hperm.map _
      obtain ⟨hnot, hothers⟩ := List.nodup_cons.mp (hkeys.nodup_iff.mp hnames)
      have hleft := hperm.filter (·.1 ∉ name :: names)
      rw [List.filter_cons_of_neg (by simp), ← hfilter others hnot] at hleft
      rw [htake]
      exact (ih hothers).trans hleft.symm
    · rw [takeMember?_of_notMem h, ← hfilter members h]
      exact ih hnames

/-- Members in order are those with the names, in the order of these, and then what is left. -/
theorem exists_orderMembers_eq (names : List String) (hnames : (members.map (·.1)).Nodup) :
    ∃ taken, orderMembers names members = taken ++ leftMembers names members ∧
      taken.map (·.1) = (names.filter (· ∈ members.map (·.1))).eraseDups := by
  induction names generalizing members with
  | nil => exact ⟨[], rfl, rfl⟩
  | cons name names ih =>
    rw [orderMembers, leftMembers]
    by_cases h : name ∈ members.map (·.1)
    · obtain ⟨a, others, htake, hperm⟩ := exists_takeMember?_of_mem h
      have hkeys : (members.map (·.1)).Perm (name :: others.map (·.1)) := hperm.map _
      have hdistinct : (name :: others.map (·.1)).Nodup := hkeys.nodup_iff.mp hnames
      rw [List.nodup_cons] at hdistinct
      -- behind the name itself, just the others are left of the names
      have hfilter : (names.filter (· ∈ members.map (·.1))).filter (fun n => !(n == name)) =
          names.filter (· ∈ others.map (·.1)) := by
        rw [List.filter_filter]
        apply List.filter_congr
        intro n _
        by_cases hn : n = name
        · subst hn
          simpa using hdistinct.1
        · have hiff : n ∈ members.map (·.1) ↔ n ∈ others.map (·.1) := by
            rw [hkeys.mem_iff, List.mem_cons, or_iff_right hn]
          rw [beq_false_of_ne hn, decide_eq_decide.mpr hiff, Bool.not_false, Bool.true_and]
      obtain ⟨taken, htaken, hnamesTaken⟩ := ih hdistinct.2
      refine ⟨(name, a) :: taken, ?_, ?_⟩
      · simp only [htake, htaken, List.cons_append]
      · rw [List.filter_cons_of_pos (by simpa using h), List.eraseDups_cons, hfilter,
          List.map_cons, hnamesTaken]
    · rw [takeMember?_of_notMem h, List.filter_cons_of_neg (by simpa using h)]
      exact ih hnames

/-- Members of which all names are given come in the order of the names. -/
theorem map_fst_orderMembers {names : List String} (hnames : (members.map (·.1)).Nodup)
    (hgiven : ∀ member ∈ members, member.1 ∈ names) :
    (orderMembers names members).map (·.1) =
      (names.filter (· ∈ members.map (·.1))).eraseDups := by
  have hleft : leftMembers names members = [] := by
    have hperm := leftMembers_perm names hnames
    rw [List.filter_eq_nil_iff.mpr (by simpa using hgiven)] at hperm
    exact hperm.eq_nil
  obtain ⟨taken, htaken, hkeys⟩ := exists_orderMembers_eq names hnames
  rw [htaken, hleft, List.append_nil, hkeys]

end

/-! ## Arranged values -/

/-- The members have names of fields, and come in the order in which these are declared. Where
fields share a name, the first one counts. -/
def ComplexType.IsInOrder (c : ComplexType) (members : List (String × Json)) : Prop :=
  members.map (·.1) = ((c.fields.map (·.name)).filter (· ∈ members.map (·.1))).eraseDups

/-- Whatever stands for a structured type inside of a value has its members in declared order. -/
def ServiceModel.IsInOrder (m : ServiceModel) (v : Json) (t : TypeRef) : Prop :=
  ∀ members typeName, m.HoldsValue v t (.obj members) (.complex typeName) →
    ∃ c, m.complexType? typeName = some c ∧ c.IsInOrder members

theorem arrangeItems_eq_map (m : ServiceModel) (item : TypeRef) (items : List Json) :
    arrangeItems m item items = items.map fun v => arrange m v item := by
  induction items with
  | nil => rfl
  | cons v rest ih => rw [arrangeItems, ih, List.map_cons]

/-- The value of a member, arranged by the type of its field. -/
def arrangeMember (m : ServiceModel) (c : ComplexType) (member : String × Json) : Json :=
  match c.field? member.1 with
  | some field => arrange m member.2 field.type
  | none => member.2

theorem arrangeMembers_eq_map (m : ServiceModel) (c : ComplexType)
    (members : List (String × Json)) :
    arrangeMembers m c members =
      members.map fun member => (member.1, arrangeMember m c member) := by
  induction members with
  | nil => rfl
  | cons member rest ih =>
    obtain ⟨name, v⟩ := member
    rw [arrangeMembers, ih, List.map_cons]
    rfl

theorem map_fst_arrangeMembers (m : ServiceModel) (c : ComplexType)
    (members : List (String × Json)) :
    (arrangeMembers m c members).map (·.1) = members.map (·.1) := by
  rw [arrangeMembers_eq_map, List.map_map]
  rfl

/-- An arranged value is the value but for the order of members. -/
theorem reorders_arrange (m : ServiceModel) (v : Json) (t : TypeRef) :
    v.Reorders (arrange m v t) := by
  induction v using Json.inductionOn generalizing t with
  | arr items ih =>
    cases t with
    | array item =>
      rw [arrange, arrangeItems_eq_map]
      refine .arr ?_
      rw [List.forall₂_map_right_iff, List.forall₂_same]
      exact fun v hv => ih v hv item
    | _ => exact .refl _
  | obj members ih =>
    cases t with
    | complex typeName =>
      rw [arrange]
      cases m.complexType? typeName with
      | none => exact .refl _
      | some c =>
        refine .obj (map_fst_arrangeMembers m c members).symm ?_ (orderMembers_perm _ _).symm
        rw [arrangeMembers_eq_map, List.forall₂_map_right_iff, List.forall₂_same]
        rintro ⟨name, v⟩ hmember
        show v.Reorders (arrangeMember m c (name, v))
        rw [arrangeMember]
        cases c.field? name with
        | none => exact .refl v
        | some field => exact ih (name, v) hmember field.type
    | _ => exact .refl _
  | _ => exact .refl _

/-- An arranged value has all members in declared order. -/
theorem isInOrder_arrange (h : Fits m v t isOptional) (hv : v.Everywhere Json.HasDistinctNames) :
    m.IsInOrder (arrange m v t) t := by
  intro members' typeName' hholds
  induction v using Json.inductionOn generalizing t isOptional with
  | arr items ih =>
    cases t with
    | array item =>
      rw [Json.everywhere_arr] at hv
      rw [fits_arr_iff] at h
      rw [arrange, arrangeItems_eq_map] at hholds
      cases hholds with
      | item hmem hinside =>
        obtain ⟨v, hv', rfl⟩ := List.mem_map.mp hmem
        exact ih v hv' (h v hv') (hv.2 v hv') hinside
    | _ => cases hholds
  | obj members ih =>
    cases t with
    | complex typeName =>
      rw [Json.everywhere_obj] at hv
      obtain ⟨c, hc, hmembers⟩ := exists_field_of_fits hv.1 h
      rw [arrange, hc] at hholds
      have hkeys := map_fst_arrangeMembers m c members
      cases hholds with
      | self =>
        have hgiven : ∀ member ∈ arrangeMembers m c members,
            member.1 ∈ c.fields.map (·.name) := by
          intro member hmember
          have hname : member.1 ∈ members.map (·.1) :=
            hkeys ▸ List.mem_map.mpr ⟨member, hmember, rfl⟩
          obtain ⟨source, hsource, heq⟩ := List.mem_map.mp hname
          obtain ⟨field, hfield, -⟩ := hmembers source hsource
          obtain ⟨hin, hfieldName⟩ := c.mem_of_field? hfield
          exact List.mem_map.mpr ⟨field, hin, hfieldName.trans heq⟩
        have hdistinct : ((arrangeMembers m c members).map (·.1)).Nodup := hkeys ▸ hv.1
        have hperm := (orderMembers_perm (c.fields.map (·.name)) (arrangeMembers m c members)).map
          (·.1)
        refine ⟨c, hc, ?_⟩
        rw [ComplexType.IsInOrder, map_fst_orderMembers hdistinct hgiven]
        congr 1
        apply List.filter_congr
        intro n _
        rw [← map_fst_orderMembers hdistinct hgiven, decide_eq_decide]
        exact hperm.mem_iff.symm
      | @member _ _ name c' field v _ _ hc' hmem hfield hinside =>
        obtain rfl := Option.some.inj (hc.symm.trans hc')
        -- the member is an arranged one of those that were there
        have hmem' := (orderMembers_perm _ _).mem_iff.mp hmem
        rw [arrangeMembers_eq_map] at hmem'
        obtain ⟨source, hsource, heq⟩ := List.mem_map.mp hmem'
        obtain ⟨rfl, rfl⟩ := Prod.mk.inj heq
        obtain ⟨field', hfield', hfits⟩ := hmembers source hsource
        obtain rfl := Option.some.inj (hfield.symm.trans hfield')
        rw [arrangeMember, hfield] at hinside
        exact ih source hsource hfits (hv.2 source hsource) hinside
    | _ => cases hholds
  | _ => cases hholds

/-- What an arranged value holds is what the value holds, arranged. -/
theorem exists_holdsValue_of_arrange {u : TypeRef}
    (h : m.HoldsValue (arrange m v t) t w u) :
    ∃ source, m.HoldsValue v t source u ∧ w = arrange m source u := by
  induction v using Json.inductionOn generalizing t with
  | arr items ih =>
    cases t with
    | array item =>
      rw [arrange, arrangeItems_eq_map] at h
      cases h with
      | self => exact ⟨.arr items, .self _ _, by rw [arrange, arrangeItems_eq_map]⟩
      | item hmem hinside =>
        obtain ⟨v, hv, rfl⟩ := List.mem_map.mp hmem
        obtain ⟨source, hsource, rfl⟩ := ih v hv hinside
        exact ⟨source, .item hv hsource, rfl⟩
    | _ =>
      cases h
      exact ⟨_, .self _ _, rfl⟩
  | obj members ih =>
    cases t with
    | complex typeName =>
      rw [arrange] at h
      cases hc : m.complexType? typeName with
      | none =>
        rw [hc] at h
        cases h with
        | self => exact ⟨.obj members, .self _ _, by rw [arrange, hc]⟩
        | member hc' => cases hc.symm.trans hc'
      | some c =>
        rw [hc] at h
        cases h with
        | self => exact ⟨.obj members, .self _ _, by rw [arrange, hc]⟩
        | member hc' hmem hfield hinside =>
          obtain rfl := Option.some.inj (hc.symm.trans hc')
          have hmem' := (orderMembers_perm _ _).mem_iff.mp hmem
          rw [arrangeMembers_eq_map] at hmem'
          obtain ⟨member, hmember, heq⟩ := List.mem_map.mp hmem'
          obtain ⟨rfl, rfl⟩ := Prod.mk.inj heq
          rw [arrangeMember, hfield] at hinside
          obtain ⟨source, hsource, rfl⟩ := ih member hmember hinside
          exact ⟨source, .member hc hmember hfield hsource, rfl⟩
    | _ =>
      cases h
      exact ⟨_, .self _ _, rfl⟩
  | _ =>
    cases h
    exact ⟨_, .self _ _, rfl⟩

/-- The same members with their names in the same order are the same list. -/
theorem eq_of_perm_of_map_fst_eq {α : Type} {members others : List (String × α)}
    (hnames : (members.map (·.1)).Nodup) (hperm : members.Perm others)
    (hkeys : members.map (·.1) = others.map (·.1)) : members = others := by
  have hlength : members.length = others.length := hperm.length_eq
  refine List.ext_getElem hlength fun i hi hi' => ?_
  have hkey : members[i].1 = others[i].1 := by
    have := List.getElem_of_eq hkeys (by simpa using hi : i < (members.map (·.1)).length)
    simpa using this
  have hmem : others[i] ∈ members := hperm.mem_iff.mpr (List.getElem_mem hi')
  exact List.inj_on_of_nodup_map hnames (List.getElem_mem hi) hmem hkey

/-- A value in declared order is arranged as it is. -/
theorem arrange_of_isInOrder (h : Fits m v t isOptional) (hv : v.Everywhere Json.HasDistinctNames)
    (horder : m.IsInOrder v t) : arrange m v t = v := by
  induction v using Json.inductionOn generalizing t isOptional with
  | arr items ih =>
    cases t with
    | array item =>
      rw [fits_arr_iff] at h
      rw [Json.everywhere_arr] at hv
      rw [arrange, arrangeItems_eq_map]
      have hitems : items.map (fun v => arrange m v item) = items.map id :=
        List.map_congr_left fun v hmem => ih v hmem (h v hmem) (hv.2 v hmem)
          fun members typeName hholds => horder members typeName (.item hmem hholds)
      rw [hitems, List.map_id]
    | _ => rfl
  | obj members ih =>
    cases t with
    | complex typeName =>
      rw [Json.everywhere_obj] at hv
      obtain ⟨c, hc, hmembers⟩ := exists_field_of_fits hv.1 h
      have hsame : arrangeMembers m c members = members := by
        have heach : members.map (fun member => (member.1, arrangeMember m c member)) =
            members.map id := by
          refine List.map_congr_left fun member hmember => ?_
          obtain ⟨field, hfield, hfits⟩ := hmembers member hmember
          have hvalue := ih member hmember hfits (hv.2 member hmember)
            fun members typeName hholds =>
              horder members typeName (.member hc hmember hfield hholds)
          rw [arrangeMember, hfield]
          exact Prod.ext rfl hvalue
        rw [arrangeMembers_eq_map, heach, List.map_id]
      rw [arrange, hc]
      dsimp only
      rw [hsame]
      have hgiven : ∀ member ∈ members, member.1 ∈ c.fields.map (·.name) := by
        intro member hmember
        obtain ⟨field, hfield, -⟩ := hmembers member hmember
        obtain ⟨hin, hname⟩ := c.mem_of_field? hfield
        exact List.mem_map.mpr ⟨field, hin, hname⟩
      obtain ⟨c', hc', hkeys⟩ := horder members typeName (.self _ _)
      obtain rfl := Option.some.inj (hc.symm.trans hc')
      have hperm := orderMembers_perm (c.fields.map (·.name)) members
      rw [ComplexType.IsInOrder, ← map_fst_orderMembers hv.1 hgiven] at hkeys
      exact congrArg Json.obj (eq_of_perm_of_map_fst_eq hv.1 hperm.symm hkeys).symm
    | _ => rfl
  | _ => rfl

/-- An arranged value fits where the value fits. -/
theorem Fits.arrange (h : Fits m v t isOptional) (hv : v.Everywhere Json.HasDistinctNames) :
    Fits m (arrange m v t) t isOptional :=
  h.reorders hv (reorders_arrange m v t)

end SoapClient
