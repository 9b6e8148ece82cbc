import SoapClient.Proofs.Value.Reordering

/-!
# Members that no field is declared for

Arranging brings the members that fields are declared for to the front of an object. The others come
behind them, but not always in the order that they had, since a member that is taken out leaves its
place to the last one. Main statement: `arrange_rearranges`. Arranging again changes nothing exactly
where no object has both declared members and two others.
-/

namespace SoapClient

section

variable {α β : Type} {name : String} {names : List String} {members left : List (String × α)}
  {x l : String × α}

/-! ## Taking members out again -/

/-- A member in front with another name stays in front. -/
theorem takeMember?_cons_of_ne (h : x.1 ≠ name) :
    takeMember? name (x :: members) =
      (takeMember? name members).map fun taken => (taken.1, x :: taken.2) := by
  by_cases hmem : name ∈ members.map (·.1)
  · obtain ⟨before, a, after, rfl, hbefore⟩ := exists_first_of_mem hmem
    obtain ⟨l, hl⟩ : ∃ l, ((name, a) :: after).getLast? = some l :=
      ⟨_, List.getLast?_eq_getLast_of_ne_nil (List.cons_ne_nil _ _)⟩
    have hfront : name ∉ (x :: before).map (·.1) := by
      rw [List.map_cons, List.mem_cons, not_or]
      exact ⟨h.symm, hbefore⟩
    rw [← List.cons_append, takeMember?_append hfront hl, takeMember?_append hbefore hl,
      Option.map_some, List.cons_append, List.dropLast_cons_of_ne_nil (by simp)]
  · have hnot : name ∉ (x :: members).map (·.1) := by
      rw [List.map_cons, List.mem_cons, not_or]
      exact ⟨h.symm, hmem⟩
    rw [takeMember?_of_notMem hmem, takeMember?_of_notMem hnot, Option.map_none]

/-- A member in front that is not taken out stays in front. -/
theorem leftMembers_cons_of_notMem (h : x.1 ∉ names) :
    leftMembers names (x :: members) = x :: leftMembers names members := by
  induction names generalizing members with
  | nil => rfl
  | cons name names ih =>
    rw [List.mem_cons, not_or] at h
    rw [leftMembers, leftMembers, takeMember?_cons_of_ne h.1]
    cases takeMember? name members with
    | none => exact ih h.2
    | some taken => exact ih h.2

/-- Where the names stand in front in their order, the last member of all moves to the front when
the first one is taken out, and there it stays. -/
theorem exists_leftMembers_eq_cons {taken : List (String × α)}
    (hl : left.getLast? = some l) (hlast : l.1 ∉ names)
    (hkeys : (x :: taken).map (·.1) =
      (names.filter (· ∈ (x :: taken ++ left).map (·.1))).eraseDups) :
    ∃ others, leftMembers names (x :: taken ++ left) = l :: others := by
  induction names with
  | nil => cases hkeys
  | cons name names ih =>
    rw [List.mem_cons, not_or] at hlast
    by_cases hmem : name ∈ (x :: taken ++ left).map (·.1)
    · rw [List.filter_cons_of_pos (by simpa using hmem), List.eraseDups_cons, List.map_cons,
        List.cons.injEq] at hkeys
      obtain ⟨rfl, -⟩ := hkeys
      have hend : (x :: (taken ++ left)).getLast? = some l := by
        rw [← List.cons_append, List.getLast?_append, hl, Option.some_or]
      have hne : taken ++ left ≠ [] := by
        intro hnil
        rw [(List.append_eq_nil_iff.mp hnil).2] at hl
        cases hl
      have htake : takeMember? x.1 (x :: taken ++ left) =
          some (x.2, l :: (taken ++ left).dropLast) := by
        have hnil : x.1 ∉ ([] : List (String × α)).map (·.1) := List.not_mem_nil
        have hfirst := takeMember?_append hnil hend
        rwa [List.nil_append, List.nil_append, List.dropLast_cons_of_ne_nil hne] at hfirst
      rw [leftMembers, htake]
      exact ⟨_, leftMembers_cons_of_notMem hlast.2⟩
    · rw [List.filter_cons_of_neg (by simpa using hmem)] at hkeys
      rw [leftMembers, takeMember?_of_notMem hmem]
      exact ih hlast.2 hkeys

/-- Where there are no members with the names, all are left. -/
theorem leftMembers_of_forall_notMem (h : ∀ member ∈ members, member.1 ∉ names) :
    leftMembers names members = members := by
  induction names with
  | nil => rfl
  | cons name names ih =>
    have hnot : name ∉ members.map (·.1) := by
      intro hmem
      obtain ⟨member, hmember, rfl⟩ := List.mem_map.mp hmem
      exact h member hmember List.mem_cons_self
    rw [leftMembers, takeMember?_of_notMem hnot]
    exact ih fun member hmember hmem => h member hmember (List.mem_cons_of_mem _ hmem)

/-- Of members with some keys few are left when those with some names are taken out: none is taken
out at all, or no two are left. -/
def LeavesFew (names keys : List String) : Prop :=
  (∀ key ∈ keys, key ∉ names) ∨ (keys.filter (· ∉ names)).length ≤ 1

instance (names keys : List String) : Decidable (LeavesFew names keys) :=
  inferInstanceAs (Decidable (_ ∨ _))

/-- Members in another order are in the same one where there are no two of them. -/
theorem eq_of_perm_of_length_le (h : left.Perm members) (hfew : members.length ≤ 1) :
    left = members := by
  match members, hfew with
  | [], _ => exact h.eq_nil
  | [_], _ => exact h.eq_singleton

/-- Where few members are left they keep their order. -/
theorem leftMembers_of_leavesFew (hnames : (members.map (·.1)).Nodup)
    (h : LeavesFew names (members.map (·.1))) :
    leftMembers names members = members.filter (·.1 ∉ names) := by
  rcases h with hnone | hfew
  · have hall : ∀ member ∈ members, member.1 ∉ names :=
      fun member hmember => hnone member.1 (List.mem_map.mpr ⟨member, hmember, rfl⟩)
    rw [leftMembers_of_forall_notMem hall, List.filter_eq_self.mpr (by simpa using hall)]
  · rw [List.filter_map, List.length_map] at hfew
    exact eq_of_perm_of_length_le (leftMembers_perm names hnames) hfew

theorem LeavesFew.perm {keys keys' : List String} (h : LeavesFew names keys)
    (hperm : keys.Perm keys') : LeavesFew names keys' := by
  refine h.imp (fun hnone key hkey => hnone key (hperm.mem_iff.mpr hkey)) fun hfew => ?_
  rwa [← (hperm.filter _).length_eq]

/-- Where two members are left behind some that were taken, the order of those that are left changes
when these are taken once more. -/
theorem leftMembers_ne_of_two {taken : List (String × α)} {y : String × α}
    (hnames : ((x :: taken ++ l :: y :: left).map (·.1)).Nodup)
    (hnot : ∀ member ∈ l :: y :: left, member.1 ∉ names)
    (hkeys : (x :: taken).map (·.1) =
      (names.filter (· ∈ (x :: taken ++ l :: y :: left).map (·.1))).eraseDups) :
    leftMembers names (x :: taken ++ l :: y :: left) ≠ l :: y :: left := by
  intro heq
  obtain ⟨last, hlast⟩ : ∃ last, (y :: left).getLast? = some last :=
    ⟨_, List.getLast?_eq_getLast_of_ne_nil (List.cons_ne_nil y left)⟩
  have hend : (l :: y :: left).getLast? = some last := by
    rw [List.getLast?_cons_cons, hlast]
  have hmem : last ∈ y :: left := List.mem_of_getLast? hlast
  obtain ⟨others, hothers⟩ :=
    exists_leftMembers_eq_cons hend (hnot last (List.mem_cons_of_mem l hmem)) hkeys
  obtain ⟨rfl, -⟩ := List.cons.inj (heq.symm.trans hothers)
  -- the first of two members is the last one as well, but no name comes twice
  rw [List.map_append, List.nodup_append] at hnames
  exact (List.nodup_cons.mp hnames.2.1).1 (List.mem_map.mpr ⟨l, hmem, rfl⟩)

/-- Bringing members in order twice is the same as doing it once exactly where few are left. -/
theorem orderMembers_orderMembers_iff (hnames : (members.map (·.1)).Nodup) :
    orderMembers names (orderMembers names members) = orderMembers names members ↔
      LeavesFew names (members.map (·.1)) := by
  have hperm : (orderMembers names members).Perm members := orderMembers_perm names members
  have hleft : (leftMembers names members).Perm (members.filter (·.1 ∉ names)) :=
    leftMembers_perm names hnames
  have hordered : ((orderMembers names members).map (·.1)).Nodup :=
    (hperm.map _).nodup_iff.mpr hnames
  obtain ⟨taken, htaken, hkeys⟩ := exists_orderMembers_eq names hnames
  obtain ⟨taken', htaken', hkeys'⟩ := exists_orderMembers_eq names hordered
  -- the members with the names come in the same order both times
  have hfilter : names.filter (· ∈ (orderMembers names members).map (·.1)) =
      names.filter (· ∈ members.map (·.1)) := by
    apply List.filter_congr
    intro n _
    rw [decide_eq_decide]
    exact (hperm.map _).mem_iff
  have hsame : taken'.map (·.1) = taken.map (·.1) := by rw [hkeys, hkeys', hfilter]
  have hlength : taken'.length = taken.length := by simpa using congrArg List.length hsame
  have hnotLeft : ∀ member ∈ leftMembers names members, member.1 ∉ names := by
    intro member hmember
    simpa using (List.mem_filter.mp (hleft.mem_iff.mp hmember)).2
  constructor
  · intro heq
    have hagain : leftMembers names (orderMembers names members) = leftMembers names members := by
      rw [htaken'] at heq
      exact List.append_inj_right (heq.trans htaken) hlength
    rw [← hfilter] at hkeys
    rw [htaken] at hperm hordered hkeys hagain
    cases taken with
    | nil =>
      refine .inl fun key hkey => ?_
      obtain ⟨member, hmember, rfl⟩ := List.mem_map.mp hkey
      exact hnotLeft member (hperm.mem_iff.mpr hmember)
    | cons x taken =>
      refine .inr ?_
      rw [List.filter_map, List.length_map]
      refine le_of_eq_of_le hleft.length_eq.symm ?_
      match hmembers : leftMembers names members with
      | [] => exact Nat.zero_le 1
      | [_] => exact Nat.le_refl 1
      | l :: y :: left =>
        rw [hmembers] at hordered hnotLeft hkeys hagain
        exact absurd hagain (leftMembers_ne_of_two hordered hnotLeft hkeys)
  · intro hfew
    have hnotTaken : ∀ member ∈ taken, member.1 ∈ names := by
      intro member hmember
      have hkey : member.1 ∈ taken.map (·.1) := List.mem_map.mpr ⟨member, hmember, rfl⟩
      rw [hkeys, List.mem_eraseDups] at hkey
      exact (List.mem_filter.mp hkey).1
    have hagain : leftMembers names (orderMembers names members) = leftMembers names members := by
      rw [leftMembers_of_leavesFew hordered (hfew.perm (hperm.map _).symm), htaken,
        List.filter_append, List.filter_eq_nil_iff.mpr (by simpa using hnotTaken),
        List.filter_eq_self.mpr (by simpa using hnotLeft), List.nil_append]
    refine (eq_of_perm_of_map_fst_eq hordered (orderMembers_perm _ _).symm ?_).symm
    rw [htaken', hagain, htaken, List.map_append, List.map_append, hsame]

/-- What comes in front of the members that are left are those with the names. -/
theorem perm_of_orderMembers_eq {taken : List (String × α)} (hnames : (members.map (·.1)).Nodup)
    (h : orderMembers names members = taken ++ leftMembers names members) :
    taken.Perm (members.filter (·.1 ∈ names)) := by
  have hsplit : (members.filter (·.1 ∈ names) ++ members.filter (·.1 ∉ names)).Perm members := by
    simpa using List.filter_append_perm (fun member => decide (member.1 ∈ names)) members
  have hleft : (leftMembers names members).Perm (members.filter (·.1 ∉ names)) :=
    leftMembers_perm names hnames
  have hall : (taken ++ leftMembers names members).Perm members := h ▸ orderMembers_perm _ _
  rw [← List.perm_append_right_iff (members.filter (·.1 ∉ names))]
  exact ((hleft.symm.append_left taken).trans hall).trans hsplit.symm

/-! ## Members whose values change -/

/-- What members stand for is nothing to the member that is taken out. -/
theorem takeMember?_map (name : String) (f : String × α → β) (members : List (String × α)) :
    takeMember? name (members.map fun member => (member.1, f member)) =
      (takeMember? name members).map fun taken =>
        (f (name, taken.1), taken.2.map fun member => (member.1, f member)) := by
  by_cases h : name ∈ members.map (·.1)
  · obtain ⟨before, a, after, rfl, hbefore⟩ := exists_first_of_mem h
    obtain ⟨l, hl⟩ : ∃ l, ((name, a) :: after).getLast? = some l :=
      ⟨_, List.getLast?_eq_getLast_of_ne_nil (List.cons_ne_nil _ _)⟩
    have hbefore' : name ∉ (before.map fun member => (member.1, f member)).map (·.1) := by
      rwa [List.map_map]
    have hl' : (((name, a) :: after).map fun member => (member.1, f member)).getLast? =
        some (l.1, f l) := by
      rw [List.getLast?_map, hl]
      rfl
    rw [List.map_cons] at hl'
    rw [List.map_append, List.map_cons, takeMember?_append hbefore hl,
      takeMember?_append hbefore' hl', Option.map_some, List.map_dropLast, List.map_append,
      List.map_cons]
  · have hnot : name ∉ (members.map fun member => (member.1, f member)).map (·.1) := by
      rwa [List.map_map]
    rw [takeMember?_of_notMem h, takeMember?_of_notMem hnot, Option.map_none]

/-- What members stand for is nothing to their order. -/
theorem orderMembers_map (names : List String) (f : String × α → β) (members : List (String × α)) :
    orderMembers names (members.map fun member => (member.1, f member)) =
      (orderMembers names members).map fun member => (member.1, f member) := by
  induction names generalizing members with
  | nil => rfl
  | cons name names ih =>
    rw [orderMembers, orderMembers, takeMember?_map]
    cases takeMember? name members with
    | none => exact ih members
    | some taken =>
      rw [Option.map_some]
      dsimp only
      rw [ih, List.map_cons]

end

/-! ## Values but for the order of members -/

variable {m : ServiceModel} {c : ComplexType} {v w : Json} {t : TypeRef}

/-- The names of the fields. -/
def ComplexType.fieldNames (c : ComplexType) : List String := c.fields.map (·.name)

theorem ComplexType.field?_eq_none_iff {name : String} :
    c.field? name = none ↔ name ∉ c.fieldNames := by
  simp [ComplexType.field?, ComplexType.fieldNames]

/-- The second value is the first one, read as a type, but for the order of members. Only those of
objects that stand for a defined structured type are in another order: in front the members that
fields are declared for, in the order of the fields, and then the others, in an order that `Leaves`
allows for. -/
inductive ServiceModel.Rearranges (m : ServiceModel)
    (Leaves : List (String × Json) → List (String × Json) → Prop) : TypeRef → Json → Json → Prop
  | same {t : TypeRef} {v : Json} :
    (∀ items item, v = .arr items → t ≠ .array item) →
      (∀ members typeName, v = .obj members → t = .complex typeName →
        m.complexType? typeName = none) → Rearranges m Leaves t v v
  | items {item : TypeRef} {items items' : List Json} :
    items.length = items'.length →
      (∀ v w, (v, w) ∈ items.zip items' → Rearranges m Leaves item v w) →
      Rearranges m Leaves (.array item) (.arr items) (.arr items')
  | members {typeName : String} {c : ComplexType}
      {members inside declared others : List (String × Json)} :
    m.complexType? typeName = some c →
      members.map (·.1) = inside.map (·.1) →
      (∀ a b, (a, b) ∈ members.zip inside → c.field? a.1 = none → b.2 = a.2) →
      (∀ a b field, (a, b) ∈ members.zip inside → c.field? a.1 = some field →
        Rearranges m Leaves field.type a.2 b.2) →
      c.IsInOrder declared → declared.Perm (inside.filter (·.1 ∈ c.fieldNames)) →
      Leaves (inside.filter (·.1 ∉ c.fieldNames)) others →
      Rearranges m Leaves (.complex typeName) (.obj members) (.obj (declared ++ others))

/-- Of every object that stands for a defined structured type inside of a value, few members are
left: none that a field is declared for is taken out, or no two others are there. -/
def ServiceModel.LeavesFew (m : ServiceModel) (v : Json) (t : TypeRef) : Prop :=
  ∀ members typeName c, m.HoldsValue v t (.obj members) (.complex typeName) →
    m.complexType? typeName = some c → SoapClient.LeavesFew c.fieldNames (members.map (·.1))

/-- Where an object stands for a defined structured type, few members are left of it and of what the
declared ones stand for. -/
theorem leavesFew_obj_iff {members : List (String × Json)} {typeName : String}
    (hc : m.complexType? typeName = some c) :
    m.LeavesFew (.obj members) (.complex typeName) ↔
      LeavesFew c.fieldNames (members.map (·.1)) ∧
        ∀ member ∈ members, ∀ field, c.field? member.1 = some field →
          m.LeavesFew member.2 field.type := by
  constructor
  · intro h
    refine ⟨h _ _ _ (.self _ _) hc, ?_⟩
    intro member hmember field hfield others typeName' c' hholds
    exact h _ _ _ (.member hc hmember hfield hholds)
  · rintro ⟨hself, hinside⟩ others typeName' c' hholds hc'
    cases hholds with
    | self =>
      obtain rfl := Option.some.inj (hc.symm.trans hc')
      exact hself
    | @member _ _ name d field v _ _ hd hmem hfield hholds =>
      obtain rfl := Option.some.inj (hc.symm.trans hd)
      exact hinside (name, v) hmem field hfield _ _ _ hholds hc'

theorem leavesFew_arr_iff {items : List Json} {item : TypeRef} :
    m.LeavesFew (.arr items) (.array item) ↔ ∀ v ∈ items, m.LeavesFew v item := by
  constructor
  · intro h v hv members typeName c hholds
    exact h _ _ _ (.item hv hholds)
  · intro h members typeName c hholds
    cases hholds with
    | item hv hholds => exact h _ hv _ _ _ hholds

/-- Members that are arranged are in front in the order of their fields, and the others are left. -/
theorem exists_arrange_obj_eq {members : List (String × Json)} {typeName : String}
    (hc : m.complexType? typeName = some c) (hnames : (members.map (·.1)).Nodup) :
    ∃ declared, arrange m (.obj members) (.complex typeName) =
        .obj (declared ++ leftMembers c.fieldNames (arrangeMembers m c members)) ∧
      c.IsInOrder declared ∧
      declared.Perm ((arrangeMembers m c members).filter (·.1 ∈ c.fieldNames)) := by
  have hkeys : (arrangeMembers m c members).map (·.1) = members.map (·.1) :=
    map_fst_arrangeMembers m c members
  rw [← hkeys] at hnames
  obtain ⟨declared, hordered, hdeclared⟩ := exists_orderMembers_eq c.fieldNames hnames
  refine ⟨declared, ?_, ?_, ?_⟩
  · rw [arrange, hc]
    exact congrArg Json.obj hordered
  · rw [ComplexType.IsInOrder]
    refine hdeclared.trans ?_
    congr 1
    apply List.filter_congr
    intro n hn
    rw [decide_eq_decide, hdeclared, List.mem_eraseDups, List.mem_filter, decide_eq_true_eq]
    exact (and_iff_right hn).symm
  · exact perm_of_orderMembers_eq hnames hordered

/-- What stands beside an entry of a list in what the list is mapped to. -/
theorem mem_zip_map {f : α → β} {as : List α} {a : α} {b : β} (h : (a, b) ∈ as.zip (as.map f)) :
    a ∈ as ∧ b = f a := by
  have hzip : as.zip (as.map f) = as.map fun a => (a, f a) := by
    simpa using List.zip_map' (f := id) (g := f) (l := as)
  rw [hzip, List.mem_map] at h
  obtain ⟨a', hmem, heq⟩ := h
  obtain ⟨rfl, rfl⟩ := Prod.mk.inj heq
  exact ⟨hmem, rfl⟩

/-- An arranged value is the value but for the order of members, in as far as the members that are
left of its objects come in an order that is allowed for. -/
theorem rearranges_of_leaves {Leaves : List (String × Json) → List (String × Json) → Prop}
    (hv : v.Everywhere Json.HasDistinctNames)
    (hleaves : ∀ members typeName c, m.HoldsValue v t (.obj members) (.complex typeName) →
      m.complexType? typeName = some c → ((arrangeMembers m c members).map (·.1)).Nodup →
      Leaves ((arrangeMembers m c members).filter (·.1 ∉ c.fieldNames))
        (leftMembers c.fieldNames (arrangeMembers m c members))) :
    m.Rearranges Leaves t v (arrange m v t) := by
  induction v using Json.inductionOn generalizing t with
  | arr items ih =>
    cases t with
    | array item =>
      rw [Json.everywhere_arr] at hv
      rw [arrange, arrangeItems_eq_map]
      refine .items (List.length_map _).symm ?_
      intro v w hmem
      obtain ⟨hin, rfl⟩ := mem_zip_map hmem
      apply ih v hin (hv.2 v hin)
      intro members typeName c hholds
      exact hleaves members typeName c (.item hin hholds)
    | _ => exact .same (by simp) (by simp)
  | obj members ih =>
    cases t with
    | complex typeName =>
      cases hc : m.complexType? typeName with
      | none =>
        rw [arrange, hc]
        refine .same (by simp) ?_
        rintro _ _ _ heq
        cases heq
        exact hc
      | some c =>
        rw [Json.everywhere_obj] at hv
        obtain ⟨declared, harrange, hinOrder, hperm⟩ := exists_arrange_obj_eq hc hv.1
        have hkeys : members.map (·.1) = (arrangeMembers m c members).map (·.1) :=
          (map_fst_arrangeMembers m c members).symm
        rw [harrange]
        refine .members hc hkeys ?_ ?_ hinOrder hperm
          (hleaves members typeName c (.self _ _) hc (hkeys ▸ hv.1))
        · intro a b hmem hnone
          rw [arrangeMembers_eq_map] at hmem
          obtain ⟨-, rfl⟩ := mem_zip_map hmem
          rw [arrangeMember, hnone]
        · intro a b field hmem hfield
          rw [arrangeMembers_eq_map] at hmem
          obtain ⟨hin, rfl⟩ := mem_zip_map hmem
          rw [arrangeMember, hfield]
          apply ih a hin (hv.2 a hin)
          intro members' typeName' c' hholds
          exact hleaves members' typeName' c' (.member hc hin hfield hholds)
    | _ => exact .same (by simp) (by simp)
  | _ => exact .same (by simp) (by simp)

/-! ## Arranging again -/

/-- Members are arranged as they are where their order and all that they stand for stay the same. -/
theorem orderMembers_arrangeMembers_iff {members : List (String × Json)}
    (hnames : (members.map (·.1)).Nodup) :
    orderMembers c.fieldNames (arrangeMembers m c members) = members ↔
      orderMembers c.fieldNames members = members ∧
        ∀ member ∈ members, arrangeMember m c member = member.2 := by
  have hmap : orderMembers c.fieldNames (arrangeMembers m c members) =
      (orderMembers c.fieldNames members).map
        fun member => (member.1, arrangeMember m c member) := by
    rw [arrangeMembers_eq_map, orderMembers_map]
  have hvalues : members.map (fun member => (member.1, arrangeMember m c member)) = members ↔
      ∀ member ∈ members, arrangeMember m c member = member.2 := by
    conv_lhs => rhs; rw [← List.map_id members]
    rw [List.map_inj_left]
    exact forall₂_congr fun member _ => by simp [Prod.ext_iff]
  rw [hmap]
  constructor
  · intro heq
    have hkeys : members.map (·.1) = (orderMembers c.fieldNames members).map (·.1) := by
      have hfst := congrArg (List.map (·.1)) heq
      rw [List.map_map] at hfst
      exact hfst.symm
    have horder : members = orderMembers c.fieldNames members :=
      eq_of_perm_of_map_fst_eq hnames (orderMembers_perm _ _).symm hkeys
    rw [← horder] at heq
    exact ⟨horder.symm, hvalues.mp heq⟩
  · rintro ⟨horder, hsame⟩
    rw [horder]
    exact hvalues.mpr hsame

/-- A member is arranged twice as it is arranged once where this holds of what it stands for. -/
theorem arrangeMember_arrangeMember_iff {member : String × Json} :
    arrangeMember m c (member.1, arrangeMember m c member) = arrangeMember m c member ↔
      ∀ field, c.field? member.1 = some field →
        arrange m (arrange m member.2 field.type) field.type = arrange m member.2 field.type := by
  cases hfield : c.field? member.1 with
  | none => simp [arrangeMember, hfield]
  | some field => simp [arrangeMember, hfield]

/-- Arranging a value twice is the same as doing it once exactly where few members are left. -/
theorem arrange_arrange_iff (hv : v.Everywhere Json.HasDistinctNames) :
    arrange m (arrange m v t) t = arrange m v t ↔ m.LeavesFew v t := by
  induction v using Json.inductionOn generalizing t with
  | arr items ih =>
    cases t with
    | array item =>
      rw [Json.everywhere_arr] at hv
      have hitems : arrange m (arrange m (.arr items) (.array item)) (.array item) =
          .arr (items.map fun v => arrange m (arrange m v item) item) := by
        rw [arrange, arrange, arrangeItems_eq_map, arrangeItems_eq_map, List.map_map]
        rfl
      rw [hitems, arrange, arrangeItems_eq_map, Json.arr.injEq, List.map_inj_left,
        leavesFew_arr_iff]
      exact forall₂_congr fun v hmem => ih v hmem (hv.2 v hmem)
    | _ => exact iff_of_true rfl fun _ _ _ hholds => by cases hholds
  | obj members ih =>
    cases t with
    | complex typeName =>
      cases hc : m.complexType? typeName with
      | none =>
        have hsame : arrange m (.obj members) (.complex typeName) = .obj members := by
          rw [arrange, hc]
        rw [hsame]
        refine iff_of_true hsame ?_
        intro members' typeName' c hholds hc'
        cases hholds with
        | self => rw [hc] at hc'; cases hc'
        | member hc'' => rw [hc] at hc''; cases hc''
      | some c =>
        rw [Json.everywhere_obj] at hv
        have hobj (others : List (String × Json)) :
            arrange m (.obj others) (.complex typeName) =
              .obj (orderMembers c.fieldNames (arrangeMembers m c others)) := by
          rw [arrange, hc]
          rfl
        have hperm := orderMembers_perm c.fieldNames (arrangeMembers m c members)
        have hkeys := map_fst_arrangeMembers m c members
        have hnames : ((arrangeMembers m c members).map (·.1)).Nodup := hkeys ▸ hv.1
        -- the order of the members settles in itself, and so does each of them
        rw [hobj, hobj, Json.obj.injEq,
          orderMembers_arrangeMembers_iff ((hperm.map _).nodup_iff.mpr hnames),
          orderMembers_orderMembers_iff hnames, hkeys, leavesFew_obj_iff hc]
        refine and_congr_right fun _ => ?_
        have hvalues : (∀ member ∈ orderMembers c.fieldNames (arrangeMembers m c members),
            arrangeMember m c member = member.2) ↔ ∀ member ∈ members,
              arrangeMember m c (member.1, arrangeMember m c member) =
                arrangeMember m c member := by
          simp only [hperm.mem_iff]
          rw [arrangeMembers_eq_map, List.forall_mem_map]
        rw [hvalues]
        refine forall₂_congr fun member hmember => arrangeMember_arrangeMember_iff.trans ?_
        exact forall₂_congr fun field _ => ih member hmember (hv.2 member hmember)
    | _ => exact iff_of_true rfl fun _ _ _ hholds => by cases hholds
  | _ => exact iff_of_true rfl fun _ _ _ hholds => by cases hholds

/-- Of a value that fits its type no members are left at all. -/
theorem Fits.leavesFew {isOptional : Bool} (h : Fits m v t isOptional)
    (hv : v.Everywhere Json.HasDistinctNames) : m.LeavesFew v t := by
  induction v using Json.inductionOn generalizing t isOptional with
  | arr items ih =>
    cases t with
    | array item =>
      rw [fits_arr_iff] at h
      rw [Json.everywhere_arr] at hv
      rw [leavesFew_arr_iff]
      exact fun v hmem => ih v hmem (h v hmem) (hv.2 v hmem)
    | _ => exact fun _ _ _ hholds => nomatch hholds
  | obj members ih =>
    cases t with
    | complex typeName =>
      rw [Json.everywhere_obj] at hv
      obtain ⟨c, hc, hmembers⟩ := exists_field_of_fits hv.1 h
      rw [leavesFew_obj_iff hc]
      constructor
      · have hdeclared : ∀ key ∈ members.map (·.1), key ∈ c.fieldNames := by
          intro key hkey
          obtain ⟨member, hmember, rfl⟩ := List.mem_map.mp hkey
          obtain ⟨field, hfield, -⟩ := hmembers member hmember
          by_contra hnot
          rw [ComplexType.field?_eq_none_iff.mpr hnot] at hfield
          cases hfield
        refine .inr ?_
        rw [List.filter_eq_nil_iff.mpr (by simpa using hdeclared)]
        exact Nat.zero_le 1
      · intro member hmember field hfield
        obtain ⟨field', hfield', hfits⟩ := hmembers member hmember
        obtain rfl := Option.some.inj (hfield.symm.trans hfield')
        exact ih member hmember hfits (hv.2 member hmember)
    | _ => exact fun _ _ _ hholds => nomatch hholds
  | _ => exact fun _ _ _ hholds => nomatch hholds

/-- An arranged value is the value but for the order of members, in which those with fields go in
front. The others may lose their order, and the more so when the value is arranged again: they keep
it, and arranging again changes nothing, where few are left. Of a value that fits its type none
are. -/
theorem arrange_rearranges (m : ServiceModel) (t : TypeRef)
    (hv : v.Everywhere Json.HasDistinctNames) :
    m.Rearranges List.Perm t v (arrange m v t) ∧
    (m.LeavesFew v t → m.Rearranges Eq t v (arrange m v t)) ∧
    (arrange m (arrange m v t) t = arrange m v t ↔ m.LeavesFew v t) ∧
    ∀ isOptional, Fits m v t isOptional → m.LeavesFew v t := by
  refine ⟨?_, fun hfew => ?_, arrange_arrange_iff hv, fun _ hfits => hfits.leavesFew hv⟩
  · apply rearranges_of_leaves hv
    intro members typeName c _ _ hnames
    exact (leftMembers_perm c.fieldNames hnames).symm
  · apply rearranges_of_leaves hv
    intro members typeName c hholds hc hnames
    have hkeys := hfew members typeName c hholds hc
    rw [← map_fst_arrangeMembers m c members] at hkeys
    exact (leftMembers_of_leavesFew hnames hkeys).symm

/-- A model with a type of two fields. -/
def cardModel : ServiceModel where
  targetNamespace := none
  services := []
  types := [⟨"Card", [⟨"name", .primitive .string, false⟩, ⟨"next", .complex "Card", true⟩]⟩]

/-- A card with one member that no field is declared for keeps the order that it is brought into,
and so does the one inside of it. -/
theorem arrange_rearranges_card :
    let inner := Json.obj [("note", .bool true), ("name", .str "Bo")]
    let card := Json.obj [("next", inner), ("mark", .null), ("name", .str "Ada")]
    let arranged := Json.obj [("name", .str "Ada"),
      ("next", .obj [("name", .str "Bo"), ("note", .bool true)]), ("mark", .null)]
    card.Everywhere Json.HasDistinctNames ∧
      cardModel.Rearranges Eq (.complex "Card") card arranged ∧
      arrange cardModel arranged (.complex "Card") = arranged := by
  intro inner card arranged
  have hdistinct : card.Everywhere Json.HasDistinctNames := by
    simp [card, inner, Json.Everywhere, Json.EverywhereInMembers, Json.HasDistinctNames]
  have harrange : arrange cardModel card (.complex "Card") = arranged := rfl
  obtain ⟨-, hstable, htwice, -⟩ := arrange_rearranges cardModel (.complex "Card") hdistinct
  have hfew : cardModel.LeavesFew card (.complex "Card") := htwice.mp rfl
  have hrearranges := hstable hfew
  rw [harrange] at hrearranges htwice
  exact ⟨hdistinct, hrearranges, htwice.mpr hfew⟩

/-- Where the members without fields keep their order, so do their names. -/
theorem filter_map_fst_of_rearranges {members others : List (String × Json)} {typeName : String}
    (h : m.Rearranges Eq (.complex typeName) (.obj members) (.obj others))
    (hc : m.complexType? typeName = some c) :
    (others.map (·.1)).filter (· ∉ c.fieldNames) =
      (members.map (·.1)).filter (· ∉ c.fieldNames) := by
  cases h with
  | same _ hnone =>
    cases hc.symm.trans (hnone members typeName rfl rfl)
  | @members _ c' _ inside declared left hc' hkeys _ _ _ hperm hleft =>
    obtain rfl := Option.some.inj (hc.symm.trans hc')
    subst hleft
    have hdeclared : ∀ member ∈ declared, member.1 ∈ c.fieldNames := by
      intro member hmember
      simpa using (List.mem_filter.mp (hperm.mem_iff.mp hmember)).2
    have hnone : (declared.map (·.1)).filter (· ∉ c.fieldNames) = [] := by
      rw [List.filter_eq_nil_iff, List.forall_mem_map]
      simpa using hdeclared
    rw [hkeys, List.map_append, List.filter_append, hnone, List.nil_append, List.filter_map,
      List.filter_map, List.filter_filter]
    simp [Function.comp_def]

/-- Two members that no field is declared for change places each time a card is arranged. -/
theorem arrange_not_stable :
    let card := Json.obj [("name", .str "Ada"), ("mark", .null), ("note", .null)]
    card.Everywhere Json.HasDistinctNames ∧
      ¬ cardModel.Rearranges Eq (.complex "Card") card
        (arrange cardModel card (.complex "Card")) ∧
      arrange cardModel (arrange cardModel card (.complex "Card")) (.complex "Card") ≠
        arrange cardModel card (.complex "Card") := by
  intro card
  have harrange : arrange cardModel card (.complex "Card") =
      .obj [("name", .str "Ada"), ("note", .null), ("mark", .null)] := rfl
  refine ⟨?_, ?_, ?_⟩
  · simp [card, Json.Everywhere, Json.EverywhereInMembers, Json.HasDistinctNames]
  · rw [harrange]
    intro hstable
    exact absurd (filter_map_fst_of_rearranges hstable rfl) (by decide)
  · have hagain : arrange cardModel
        (.obj [("name", .str "Ada"), ("note", .null), ("mark", .null)]) (.complex "Card") = card :=
      rfl
    rw [harrange, hagain]
    simp [card]

end SoapClient
