import Mathlib.Data.List.Induction
import Mathlib.Data.List.Nodup
import SoapClient.Xml.Value

/-!
# Children of one name

Values are grouped by name: each name comes once, where it came first, with all its values in their
order (`groupByName_eq`). Values that come name by name are grouped as they came
(`groupByName_flatMap`).
-/

namespace SoapClient.Xml

variable {groups : List (String × List Json)} {name : String}

/-- A value of a new name starts a group. -/
theorem addToGroup_of_notMem (h : name ∉ groups.map (·.1)) (v : Json) :
    addToGroup name v groups = groups ++ [(name, [v])] := by
  induction groups with
  | nil => rfl
  | cons group groups ih =>
    obtain ⟨n, vs⟩ := group
    rw [List.map_cons, List.mem_cons, not_or] at h
    rw [addToGroup, if_neg (Ne.symm h.1), ih h.2, List.cons_append]

/-- A value of the latest name joins the last group. -/
theorem addToGroup_last (h : name ∉ groups.map (·.1)) (us : List Json) (v : Json) :
    addToGroup name v (groups ++ [(name, us)]) = groups ++ [(name, us ++ [v])] := by
  induction groups with
  | nil => rw [List.nil_append, addToGroup, if_pos rfl, List.nil_append]
  | cons group groups ih =>
    obtain ⟨n, vs⟩ := group
    rw [List.map_cons, List.mem_cons, not_or] at h
    rw [List.cons_append, addToGroup, if_neg (Ne.symm h.1), ih h.2, List.cons_append]

/-- The groups after some more values. -/
def groupInto (groups : List (String × List Json)) (values : List (String × Json)) :
    List (String × List Json) :=
  values.foldl (fun groups (n, v) => addToGroup n v groups) groups

theorem groupInto_cons (n : String) (v : Json) (values : List (String × Json)) :
    groupInto groups ((n, v) :: values) = groupInto (addToGroup n v groups) values := rfl

theorem groupInto_append (values values' : List (String × Json)) :
    groupInto groups (values ++ values') = groupInto (groupInto groups values) values' :=
  List.foldl_append

/-- Values of the latest name join the last group one after the other. -/
theorem groupInto_last (h : name ∉ groups.map (·.1)) (us vs : List Json) :
    groupInto (groups ++ [(name, us)]) (vs.map (name, ·)) = groups ++ [(name, us ++ vs)] := by
  induction vs generalizing us with
  | nil => simp [groupInto]
  | cons v vs ih =>
    rw [List.map_cons, groupInto_cons, addToGroup_last h, ih, List.append_assoc,
      List.singleton_append]

/-- Values of a new name form a group. -/
theorem groupInto_new (h : name ∉ groups.map (·.1)) {vs : List Json} (hvs : vs ≠ []) :
    groupInto groups (vs.map (name, ·)) = groups ++ [(name, vs)] := by
  obtain ⟨v, rest, rfl⟩ := List.exists_cons_of_ne_nil hvs
  rw [List.map_cons, groupInto_cons, addToGroup_of_notMem h, groupInto_last h,
    List.singleton_append]

/-- Groups of new names that come one after the other stay as they came. -/
theorem groupInto_flatMap {more : List (String × List Json)}
    (hnames : ((groups ++ more).map (·.1)).Nodup) (hmore : ∀ group ∈ more, group.2 ≠ []) :
    groupInto groups (more.flatMap fun (n, vs) => vs.map (n, ·)) = groups ++ more := by
  induction more generalizing groups with
  | nil => simp [groupInto]
  | cons group more ih =>
    obtain ⟨n, vs⟩ := group
    have hvs : vs ≠ [] := hmore (n, vs) List.mem_cons_self
    have hrest : ∀ group ∈ more, group.2 ≠ [] :=
      fun group h => hmore group (List.mem_cons_of_mem _ h)
    have hn : n ∉ groups.map (·.1) := by
      rw [List.map_append, List.map_cons] at hnames
      intro hmem
      exact (List.nodup_append.mp hnames).2.2 n hmem n List.mem_cons_self rfl
    have hnames' : (((groups ++ [(n, vs)]) ++ more).map (·.1)).Nodup := by
      rwa [List.append_assoc, List.singleton_append]
    rw [List.flatMap_cons, groupInto_append, groupInto_new hn hvs, ih hnames' hrest,
      List.append_assoc, List.singleton_append]

/-- Values that come name by name, and at least one of each name, are grouped as they came. -/
theorem groupByName_flatMap {more : List (String × List Json)}
    (hnames : (more.map (·.1)).Nodup) (hmore : ∀ group ∈ more, group.2 ≠ []) :
    groupByName (more.flatMap fun (n, vs) => vs.map (n, ·)) = more := by
  have h := @groupInto_flatMap [] more hnames hmore
  rwa [List.nil_append] at h

/-! ## Groups of any values -/

/-- The values under a name, in their order. -/
def valuesUnder (name : String) (values : List (String × Json)) : List Json :=
  (values.filter (·.1 = name)).map (·.2)

/-- The names of some values, each where it came first. -/
def namesOf (values : List (String × Json)) : List String := (values.map (·.1)).eraseDups

theorem mem_namesOf {values : List (String × Json)} :
    name ∈ namesOf values ↔ name ∈ values.map (·.1) :=
  List.mem_eraseDups

/-- A name at the end is a new one unless it came before. -/
theorem namesOf_concat (values : List (String × Json)) (n : String) (v : Json) :
    namesOf (values ++ [(n, v)]) =
      if n ∈ values.map (·.1) then namesOf values else namesOf values ++ [n] := by
  unfold namesOf
  rw [List.map_append, List.eraseDups_append, List.map_singleton]
  by_cases hn : n ∈ values.map (·.1)
  · have hnone : [n].removeAll (values.map (·.1)) = [] := by simpa [List.removeAll] using hn
    rw [if_pos hn, hnone, List.eraseDups_nil, List.append_nil]
  · have hsome : [n].removeAll (values.map (·.1)) = [n] := by simpa [List.removeAll] using hn
    rw [if_neg hn, hsome]
    rfl

/-- A value at the end is the last one under its name. -/
theorem valuesUnder_concat (values : List (String × Json)) (n : String) (v : Json) :
    valuesUnder name (values ++ [(n, v)]) =
      if n = name then valuesUnder name values ++ [v] else valuesUnder name values := by
  unfold valuesUnder
  rw [List.filter_append, List.map_append]
  by_cases hn : n = name
  · simp [hn]
  · simp [hn]

/-- No value stands under a name that does not come. -/
theorem valuesUnder_of_notMem {values : List (String × Json)} (h : name ∉ values.map (·.1)) :
    valuesUnder name values = [] := by
  unfold valuesUnder
  rw [List.map_eq_nil_iff, List.filter_eq_nil_iff]
  intro value hvalue
  rw [decide_eq_true_eq]
  rintro rfl
  exact h (List.mem_map_of_mem hvalue)

/-- A value of a name that came before joins the group of its name. -/
theorem addToGroup_of_mem {names : List String} (f : String → List Json) (hnames : names.Nodup)
    (h : name ∈ names) (v : Json) :
    addToGroup name v (names.map fun n => (n, f n)) =
      names.map fun n => (n, if name = n then f n ++ [v] else f n) := by
  induction names with
  | nil => cases h
  | cons n names ih =>
    rw [List.nodup_cons] at hnames
    rw [List.map_cons, List.map_cons, addToGroup]
    by_cases hn : n = name
    · subst hn
      have hothers : ∀ k ∈ names, (k, f k) = (k, if n = k then f k ++ [v] else f k) := by
        intro k hk
        have hne : n ≠ k := by
          rintro rfl
          exact hnames.1 hk
        rw [if_neg hne]
      rw [if_pos rfl, if_pos rfl, List.map_congr_left hothers]
    · have hmem : name ∈ names := (List.mem_cons.mp h).resolve_left (Ne.symm hn)
      rw [if_neg hn, if_neg (Ne.symm hn), ih hnames.2 hmem]

theorem nodup_namesOf (values : List (String × Json)) : (namesOf values).Nodup := by
  induction values using List.reverseRecOn with
  | nil => exact List.nodup_nil
  | append_singleton values value ih =>
    obtain ⟨n, v⟩ := value
    rw [namesOf_concat]
    split
    · exact ih
    · next hn =>
      rw [← List.concat_eq_append]
      exact ih.concat fun hmem => hn (mem_namesOf.mp hmem)

/-- Values are grouped by their names: each name comes once, where it came first, with all its
values. -/
theorem groupByName_eq (values : List (String × Json)) :
    groupByName values = (namesOf values).map fun n => (n, valuesUnder n values) := by
  -- on the values from the last one, as the groups are added to value by value
  induction values using List.reverseRecOn with
  | nil => rfl
  | append_singleton values value ih =>
    obtain ⟨n, v⟩ := value
    have hstep : groupByName (values ++ [(n, v)]) = addToGroup n v (groupByName values) :=
      groupInto_append values [(n, v)]
    rw [hstep, ih, namesOf_concat]
    by_cases hn : n ∈ values.map (·.1)
    · rw [if_pos hn, addToGroup_of_mem _ (nodup_namesOf values) (mem_namesOf.mpr hn)]
      simp only [valuesUnder_concat]
    · -- a new name forms a group at the end, and the other groups stay as they are
      have hnew : n ∉ ((namesOf values).map fun k => (k, valuesUnder k values)).map (·.1) := by
        rw [List.map_map]
        intro hmem
        obtain ⟨k, hk, heq⟩ := List.mem_map.mp hmem
        obtain rfl : k = n := heq
        exact hn (mem_namesOf.mp hk)
      have hothers : ∀ k ∈ namesOf values,
          (k, valuesUnder k values) = (k, valuesUnder k (values ++ [(n, v)])) := by
        intro k hk
        have hne : n ≠ k := by
          rintro rfl
          exact hn (mem_namesOf.mp hk)
        rw [valuesUnder_concat, if_neg hne]
      rw [if_neg hn, addToGroup_of_notMem hnew, List.map_append, List.map_congr_left hothers,
        List.map_singleton, valuesUnder_concat, if_pos rfl, valuesUnder_of_notMem hn,
        List.nil_append]

end SoapClient.Xml
