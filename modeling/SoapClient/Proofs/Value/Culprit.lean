import SoapClient.Proofs.Value.Fitting

/-!
# Where a check fails

A check that fails names a place and a fault. Main statement: the place is reached by steps that can
be followed through the value and its type together, the fault is what is found there, and all that
is looked at before is in order (`check_eq_error_iff`).
-/

namespace SoapClient

open Outcome

variable {m : ServiceModel} {v : Json} {t : TypeRef} {isOptional : Bool} {path : Path}

/-! ## Places further inside -/

namespace Path

/-- Some steps further. -/
def along (p : Path) (steps : List Step) : Path := ⟨p.start, p.steps ++ steps⟩

/-- The text of some steps, as it is shown behind the text of the place where they start. -/
def textOf : List Step → String
  | [] => ""
  | .field name :: rest => "." ++ name ++ textOf rest
  | .item index :: rest => "[" ++ Decimal.natText index ++ "]" ++ textOf rest

theorem along_nil (p : Path) : p.along [] = p := by rw [along, List.append_nil]

theorem along_step (p : Path) (s : Step) (steps : List Step) :
    (p.step s).along steps = p.along (s :: steps) := by
  rw [along, along, step, List.append_assoc, List.singleton_append]

/-- Behind a text that is not empty, a step is shown with its mark. -/
theorem extend_eq {text : String} (h : text ≠ "") (s : Step) :
    extend text s = text ++ textOf [s] := by
  cases s with
  | field name => simp [extend, if_neg h, textOf, String.append_assoc]
  | item index => simp [extend, textOf, String.append_assoc]

theorem textOf_cons (s : Step) (steps : List Step) :
    textOf (s :: steps) = textOf [s] ++ textOf steps := by
  cases s <;> simp [textOf]

/-- A place further inside is shown as the place where the steps start, with the steps behind it. -/
theorem text_along {p : Path} (h : p.text ≠ "") (steps : List Step) :
    (p.along steps).text = p.text ++ textOf steps := by
  induction steps generalizing p with
  | nil => rw [along_nil, textOf, String.append_empty]
  | cons s steps ih =>
    have hstep : (p.step s).text = p.text ++ textOf [s] := by rw [text_step, extend_eq h]
    have hnext : (p.step s).text ≠ "" := by
      rw [hstep]
      simp [h]
    rw [← along_step, ih hnext, hstep, textOf_cons s steps, String.append_assoc]

end Path

/-! ## Culprits -/

/-- A check refuses a value for its kind: whatever is inside of it, the type takes none of the
kind, or not this one. -/
def Refuses (m : ServiceModel) (v : Json) (t : TypeRef) (isOptional : Bool) : Prop :=
  ∀ place, check m v t isOptional place = .error ⟨place, .wrongKind t v.kind⟩

/-- A field has no fault: its member fits it, and only an optional one has none. -/
def FieldFits (m : ServiceModel) (members : List (String × Json)) (field : Parameter) : Prop :=
  (∀ v, members.lookup field.name = some v → Fits m v field.type field.isOptional) ∧
    (members.lookup field.name = none → field.isOptional)

/-- Steps that lead from a value and its type to a fault. Each step goes on to an item or to the
member of a field, and everything that is looked at before this one is in order. -/
inductive Culprit (m : ServiceModel) : Json → TypeRef → Bool → List Step → Fault → Prop
  /-- The value is itself refused. -/
  | refused {v : Json} {t : TypeRef} {isOptional : Bool} :
    Refuses m v t isOptional → Culprit m v t isOptional [] (.wrongKind t v.kind)
  /-- The type of an object is not defined. -/
  | undefinedType {members : List (String × Json)} {typeName : String} {isOptional : Bool} :
    m.complexType? typeName = none →
      Culprit m (.obj members) (.complex typeName) isOptional [] (.undefinedType typeName)
  /-- The first member that its type declares no field for. Fields come after all members. -/
  | undeclared {before after : List (String × Json)} {name typeName : String} {w : Json}
      {c : ComplexType} {isOptional : Bool} :
    m.complexType? typeName = some c →
      (∀ member ∈ before, (c.field? member.1).isSome) → c.field? name = none →
      Culprit m (.obj (before ++ (name, w) :: after)) (.complex typeName) isOptional [.field name]
        (.undeclared typeName)
  /-- The first field with a fault has no member. -/
  | missing {members : List (String × Json)} {typeName : String} {c : ComplexType}
      {before after : List Parameter} {field : Parameter} {isOptional : Bool} :
    m.complexType? typeName = some c → (∀ member ∈ members, (c.field? member.1).isSome) →
      c.fields = before ++ field :: after → (∀ earlier ∈ before, FieldFits m members earlier) →
      members.lookup field.name = none → field.isOptional = false →
      Culprit m (.obj members) (.complex typeName) isOptional [.field field.name]
        (.missing field.type)
  /-- The first field with a fault has it inside of its member. -/
  | field {members : List (String × Json)} {typeName : String} {c : ComplexType}
      {before after : List Parameter} {field : Parameter} {w : Json} {isOptional : Bool}
      {steps : List Step} {fault : Fault} :
    m.complexType? typeName = some c → (∀ member ∈ members, (c.field? member.1).isSome) →
      c.fields = before ++ field :: after → (∀ earlier ∈ before, FieldFits m members earlier) →
      members.lookup field.name = some w → Culprit m w field.type field.isOptional steps fault →
      Culprit m (.obj members) (.complex typeName) isOptional (.field field.name :: steps) fault
  /-- The first item with a fault has it inside. -/
  | item {before after : List Json} {w : Json} {item : TypeRef} {isOptional : Bool}
      {steps : List Step} {fault : Fault} :
    (∀ earlier ∈ before, Fits m earlier item false) → Culprit m w item false steps fault →
      Culprit m (.arr (before ++ w :: after)) (.array item) isOptional
        (.item before.length :: steps) fault

/-! ## Values that are not looked into -/

/-- Where a value is not looked into, its own kind is at fault, in any place. -/
theorem checkWhole_eq_error {e : Mismatch} (h : checkWhole v t isOptional path = .error e) :
    e = wrongKind v t path ∧
      ∀ place, checkWhole v t isOptional place = .error (wrongKind v t place) := by
  cases t with
  | primitive kind =>
    rw [checkWhole] at h
    split at h
    · cases h
    · next hrefused =>
      refine ⟨(Except.error.inj h).symm, fun place => ?_⟩
      rw [checkWhole, if_neg hrefused]
  | _ => exact ⟨(Except.error.inj h).symm, fun _ => rfl⟩

theorem checkNull_eq_error {e : Mismatch} (h : checkNull t isOptional path = .error e) :
    e = wrongKind .null t path ∧
      ∀ place, checkNull t isOptional place = .error (wrongKind .null t place) := by
  rw [checkNull] at h
  split at h
  · cases h
  · next hrefused =>
    refine ⟨(Except.error.inj h).symm, fun place => ?_⟩
    rw [checkNull, if_neg hrefused]

/-! ## Items, members and fields one after the other -/

/-- The first step with a fault ends a walk through a list. -/
theorem forM_eq_error_iff {α ε : Type} {f : α → Except ε Unit} {as : List α} {e : ε} :
    as.forM f = .error e ↔
      ∃ before a after, as = before ++ a :: after ∧ (∀ b ∈ before, f b = .ok ()) ∧
        f a = .error e := by
  induction as with
  | nil => simp [pure, Except.pure]
  | cons a as ih =>
    have hcons : (a :: as).forM f = (f a >>= fun _ => as.forM f) := rfl
    rw [hcons]
    constructor
    · intro h
      cases hfirst : f a with
      | error cause =>
        rw [hfirst, error_bind] at h
        exact ⟨[], a, as, rfl, List.forall_mem_nil _, by rw [hfirst, Except.error.inj h]⟩
      | ok _ =>
        -- nothing is at fault here, so the walk goes on
        rw [hfirst, ok_bind] at h
        obtain ⟨before, b, after, rfl, hbefore, hb⟩ := ih.mp h
        exact ⟨a :: before, b, after, rfl, List.forall_mem_cons.mpr ⟨hfirst, hbefore⟩, hb⟩
    · rintro ⟨before, b, after, heq, hbefore, hb⟩
      cases before with
      | nil =>
        obtain ⟨rfl, rfl⟩ := List.cons.inj heq
        rw [hb, error_bind]
      | cons a' before =>
        obtain ⟨rfl, rfl⟩ := List.cons.inj heq
        rw [List.forall_mem_cons] at hbefore
        rw [hbefore.1, ok_bind]
        exact ih.mpr ⟨before, b, after, rfl, hbefore.2, hb⟩

/-- The first item with a fault is reported under its index. -/
theorem checkItems_eq_error_iff {item : TypeRef} {items : List Json} {i : Nat} {e : Mismatch} :
    checkItems item path i (itemCheckers m items) = .error e ↔
      ∃ before w after, items = before ++ w :: after ∧
        (∀ earlier ∈ before, Fits m earlier item false) ∧
        check m w item false (path.step (.item (i + before.length))) = .error e := by
  induction items generalizing i with
  | nil => simp [itemCheckers, checkItems]
  | cons v rest ih =>
    have hcons : checkItems item path i (itemCheckers m (v :: rest)) =
        (check m v item false (path.step (.item i)) >>= fun _ =>
          checkItems item path (i + 1) (itemCheckers m rest)) := rfl
    rw [hcons]
    constructor
    · intro h
      cases hfirst : check m v item false (path.step (.item i)) with
      | error cause =>
        rw [hfirst, error_bind] at h
        exact ⟨[], v, rest, rfl, List.forall_mem_nil _, hfirst.trans h⟩
      | ok _ =>
        rw [hfirst, ok_bind] at h
        obtain ⟨before, w, after, rfl, hbefore, hw⟩ := ih.mp h
        refine ⟨v :: before, w, after, rfl,
          List.forall_mem_cons.mpr ⟨fits_of_check hfirst, hbefore⟩, ?_⟩
        rwa [List.length_cons, Nat.add_comm before.length, ← Nat.add_assoc]
    · rintro ⟨before, w, after, heq, hbefore, hw⟩
      cases before with
      | nil =>
        obtain ⟨rfl, rfl⟩ := List.cons.inj heq
        rw [List.length_nil, Nat.add_zero] at hw
        rw [hw, error_bind]
      | cons v' before =>
        obtain ⟨rfl, rfl⟩ := List.cons.inj heq
        rw [List.forall_mem_cons] at hbefore
        rw [hbefore.1, ok_bind]
        refine ih.mpr ⟨before, w, after, rfl, hbefore.2, ?_⟩
        rwa [List.length_cons, Nat.add_comm before.length, ← Nat.add_assoc] at hw

/-- A field is found to be in order in one place where it is in all. -/
theorem checkField_eq_ok_iff_fieldFits {members : List (String × Json)} {field : Parameter} :
    checkField (memberCheckers m members) path field = .ok () ↔ FieldFits m members field := by
  rw [checkField_eq_ok_iff]
  exact and_congr_left fun _ =>
    ⟨fun h v hv => fits_of_check (h v hv), fun h v hv => h v hv _⟩

/-- A field is at fault where its member is, or where there is none and one is needed. -/
theorem checkField_eq_error_iff {members : List (String × Json)} {field : Parameter}
    {e : Mismatch} :
    checkField (memberCheckers m members) path field = .error e ↔
      (∃ w, members.lookup field.name = some w ∧
        check m w field.type field.isOptional (path.step (.field field.name)) = .error e) ∨
      (members.lookup field.name = none ∧ field.isOptional = false ∧
        e = ⟨path.step (.field field.name), .missing field.type⟩) := by
  rw [checkField, lookup_memberCheckers]
  cases members.lookup field.name with
  | some w => simp [check]
  | none => cases field.isOptional <;> simp [eq_comm]

/-! ## Objects -/

theorem checkFields_of_undefined {typeName : String} {members : List (String × Checker)}
    (h : m.complexType? typeName = none) :
    checkFields m typeName members path = .error ⟨path, .undefinedType typeName⟩ := by
  rw [checkFields, h]

variable {typeName : String} {c : ComplexType} {members : List (String × Json)}

/-- The first member that its type declares no field for is found. -/
theorem find?_memberCheckers_append {before after : List (String × Json)} {key : String} {w : Json}
    (hbefore : ∀ member ∈ before, (c.field? member.1).isSome) (hkey : c.field? key = none) :
    (memberCheckers m (before ++ (key, w) :: after)).find?
      (fun (name, _) => (c.field? name).isNone) = some (key, checker m w) := by
  rw [memberCheckers_eq_map, List.map_append, List.map_cons, List.find?_append,
    ← memberCheckers_eq_map, find?_memberCheckers_eq_none_iff.mpr hbefore]
  simp [hkey]

/-- The first member that its type declares no field for is at fault. -/
theorem checkFields_of_undeclared {before after : List (String × Json)} {name : String} {w : Json}
    (hc : m.complexType? typeName = some c)
    (hbefore : ∀ member ∈ before, (c.field? member.1).isSome) (hname : c.field? name = none) :
    checkFields m typeName (memberCheckers m (before ++ (name, w) :: after)) path =
      .error ⟨path.step (.field name), .undeclared typeName⟩ := by
  rw [checkFields, hc]
  dsimp only
  rw [find?_memberCheckers_append hbefore hname]

/-- Where all members are declared, the fields are looked at one after the other. -/
theorem checkFields_of_declared (hc : m.complexType? typeName = some c)
    (hdeclared : ∀ member ∈ members, (c.field? member.1).isSome) :
    checkFields m typeName (memberCheckers m members) path =
      c.fields.forM (checkField (memberCheckers m members) path) := by
  rw [checkFields, hc]
  dsimp only
  rw [find?_memberCheckers_eq_none_iff.mpr hdeclared]

/-- Either all members are declared, or there is a first one that is not. -/
theorem forall_declared_or (c : ComplexType) (members : List (String × Json)) :
    (∀ member ∈ members, (c.field? member.1).isSome) ∨
      ∃ before name w after, members = before ++ (name, w) :: after ∧
        (∀ member ∈ before, (c.field? member.1).isSome) ∧ c.field? name = none := by
  induction members with
  | nil => exact .inl (List.forall_mem_nil _)
  | cons member rest ih =>
    obtain ⟨name, w⟩ := member
    cases hname : c.field? name with
    | none => exact .inr ⟨[], name, w, rest, rfl, List.forall_mem_nil _, hname⟩
    | some field =>
      have hfirst : (c.field? name).isSome := by rw [hname, Option.isSome_some]
      rcases ih with hrest | ⟨before, name', w', after, rfl, hbefore, hname'⟩
      · exact .inl (List.forall_mem_cons.mpr ⟨hfirst, hrest⟩)
      · exact .inr ⟨(name, w) :: before, name', w', after, rfl,
          List.forall_mem_cons.mpr ⟨hfirst, hbefore⟩, hname'⟩

/-- Where all members are declared, a fault is that of the first field with one. -/
theorem checkFields_eq_error_iff {e : Mismatch} (hc : m.complexType? typeName = some c)
    (hdeclared : ∀ member ∈ members, (c.field? member.1).isSome) :
    checkFields m typeName (memberCheckers m members) path = .error e ↔
      ∃ before field after, c.fields = before ++ field :: after ∧
        (∀ earlier ∈ before, FieldFits m members earlier) ∧
        checkField (memberCheckers m members) path field = .error e := by
  rw [checkFields_of_declared hc hdeclared, forM_eq_error_iff]
  simp only [checkField_eq_ok_iff_fieldFits]

/-! ## All values -/

/-- Steps that lead to a fault are the ones that a check reports, wherever it starts. -/
theorem check_of_culprit {steps : List Step} {fault : Fault}
    (h : Culprit m v t isOptional steps fault) (path : Path) :
    check m v t isOptional path = .error ⟨path.along steps, fault⟩ := by
  -- on the steps: what a step leads to is checked in the place that the step leads to
  induction h generalizing path with
  | refused h => rw [h path, Path.along_nil]
  | undefinedType hnone =>
    rw [Path.along_nil]
    exact checkFields_of_undefined hnone
  | undeclared hc hbefore hname => exact checkFields_of_undeclared hc hbefore hname
  | missing hc hdeclared hfields hbefore hlookup hrequired =>
    refine (checkFields_eq_error_iff hc hdeclared).mpr ⟨_, _, _, hfields, hbefore, ?_⟩
    exact checkField_eq_error_iff.mpr (.inr ⟨hlookup, hrequired, rfl⟩)
  | field hc hdeclared hfields hbefore hlookup _ ih =>
    refine (checkFields_eq_error_iff hc hdeclared).mpr ⟨_, _, _, hfields, hbefore, ?_⟩
    refine checkField_eq_error_iff.mpr (.inl ⟨_, hlookup, ?_⟩)
    rw [ih, Path.along_step]
  | item hbefore _ ih =>
    refine checkItems_eq_error_iff.mpr ⟨_, _, _, rfl, hbefore, ?_⟩
    rw [ih, Path.along_step, Nat.zero_add]

/-- A value that its type does not look into is itself at fault. -/
theorem exists_culprit_of_checkWhole {e : Mismatch}
    (hwhole : ∀ place, check m v t isOptional place = checkWhole v t isOptional place)
    (h : check m v t isOptional path = .error e) :
    ∃ steps, e.path = path.along steps ∧ Culprit m v t isOptional steps e.fault := by
  obtain ⟨rfl, hrefused⟩ := checkWhole_eq_error ((hwhole path).symm.trans h)
  have hrefuses : Refuses m v t isOptional := fun place => (hwhole place).trans (hrefused place)
  exact ⟨[], path.along_nil.symm, .refused hrefuses⟩

/-- The place that a check reports is reached by steps that lead to its fault. -/
theorem exists_culprit_of_check {e : Mismatch} (h : check m v t isOptional path = .error e) :
    ∃ steps, e.path = path.along steps ∧ Culprit m v t isOptional steps e.fault := by
  -- on the value: a fault inside of it is reached by one step and those from there
  induction v using Json.inductionOn generalizing t isOptional path e with
  | null =>
    obtain ⟨rfl, hrefused⟩ := checkNull_eq_error h
    exact ⟨[], path.along_nil.symm, .refused hrefused⟩
  | arr items ih =>
    cases t with
    | array item =>
      obtain ⟨before, w, after, rfl, hbefore, hw⟩ := checkItems_eq_error_iff.mp h
      obtain ⟨steps, hpath, hculprit⟩ := ih w (by simp) hw
      rw [Path.along_step, Nat.zero_add] at hpath
      exact ⟨_, hpath, .item hbefore hculprit⟩
    | _ => exact exists_culprit_of_checkWhole (fun _ => check_arr_of_ne (by simp)) h
  | obj members ih =>
    cases t with
    | complex typeName =>
      rw [check, checker] at h
      dsimp only at h
      cases hc : m.complexType? typeName with
      | none =>
        rw [checkFields_of_undefined hc] at h
        obtain rfl := Except.error.inj h
        exact ⟨[], path.along_nil.symm, .undefinedType hc⟩
      | some c =>
        obtain hdeclared | ⟨before, name, w, after, rfl, hbefore, hname⟩ :=
          forall_declared_or c members
        · obtain ⟨before, field, after, hfields, hbefore, hfield⟩ :=
            (checkFields_eq_error_iff hc hdeclared).mp h
          obtain ⟨w, hlookup, hw⟩ | ⟨hlookup, hrequired, rfl⟩ := checkField_eq_error_iff.mp hfield
          · obtain ⟨steps, hpath, hculprit⟩ := ih _ (mem_of_lookup hlookup) hw
            rw [Path.along_step] at hpath
            exact ⟨_, hpath, .field hc hdeclared hfields hbefore hlookup hculprit⟩
          · exact ⟨_, rfl, .missing hc hdeclared hfields hbefore hlookup hrequired⟩
        · rw [checkFields_of_undeclared hc hbefore hname] at h
          obtain rfl := Except.error.inj h
          exact ⟨_, rfl, .undeclared hc hbefore hname⟩
    | _ => exact exists_culprit_of_checkWhole (fun _ => check_obj_of_ne (by simp)) h
  | _ => exact exists_culprit_of_checkWhole (fun _ => rfl) h

/-- A mismatch points at the culprit. A check fails exactly where some steps lead through the value
and its type to a fault, with nothing before it on the way that is not in order, and reports just
this fault, and these steps behind the place where it started. -/
theorem check_eq_error_iff (m : ServiceModel) (v : Json) (t : TypeRef) (isOptional : Bool)
    {path : Path} (hpath : path.text ≠ "") (e : Mismatch) :
    check m v t isOptional path = .error e ↔
      ∃ steps, e.path = path.along steps ∧ e.path.text = path.text ++ Path.textOf steps ∧
        Culprit m v t isOptional steps e.fault := by
  constructor
  · intro h
    obtain ⟨steps, hplace, hculprit⟩ := exists_culprit_of_check h
    exact ⟨steps, hplace, by rw [hplace, Path.text_along hpath], hculprit⟩
  · rintro ⟨steps, hplace, -, hculprit⟩
    rw [check_of_culprit hculprit, ← hplace]

/-- A model of tracks, which go from point to point. -/
def trackModel : ServiceModel where
  targetNamespace := none
  services := []
  types := [⟨"Point", [⟨"x", .primitive .int, false⟩, ⟨"y", .primitive .int, false⟩]⟩,
    ⟨"Track", [⟨"label", .primitive .string, true⟩, ⟨"points", .array (.complex "Point"), false⟩]⟩]

/-- The second point of a track has a text in place of a number. -/
theorem check_eq_error_iff_track :
    let seven : Json := .whole ⟨7, by decide, by decide⟩
    let track := Json.obj [("points", .arr [.obj [("y", seven), ("x", seven)],
      .obj [("x", .str "7"), ("y", seven)]])]
    (Path.ofStart "p").text ≠ "" ∧
      ∃ e, check trackModel track (.complex "Track") false (.ofStart "p") = .error e ∧
        e.path.text = "p.points[1].x" ∧ e.fault.expected = "int" ∧ e.fault.actual = "string" ∧
        Culprit trackModel track (.complex "Track") false
          [.field "points", .item 1, .field "x"] e.fault := by
  intro seven track
  have hstart : (Path.ofStart "p").text ≠ "" := by decide
  have hcheck : check trackModel track (.complex "Track") false (.ofStart "p") =
      .error ⟨⟨"p", [.field "points", .item 1, .field "x"]⟩,
        .wrongKind (.primitive .int) .string⟩ := rfl
  obtain ⟨steps, hplace, htext, hculprit⟩ := (check_eq_error_iff _ _ _ _ hstart _).mp hcheck
  obtain rfl : [.field "points", .item 1, .field "x"] = steps := congrArg Path.steps hplace
  exact ⟨hstart, _, hcheck, htext, rfl, rfl, hculprit⟩

end SoapClient
