import SoapClient.Proofs.Envelope.Request
import SoapClient.Proofs.Value.ReadBack

/-!
# Bodies of requests

In the body of a request some values stand under names (`bodyMembers`): the arguments themselves
where the operation is bare, and else an object with all of them. Main statements: whatever the
style is, these are what the body is read as (`exists_readsBody`). Arguments of a bare operation
that are no arrays are one body element each (`hasBodyElements_of_bare`). What stands inside of the
body elements is in the operation's namespace where parameters are qualified, and else in none
(`hasLocalForm`).
-/

namespace SoapClient

open Xml (Element Markup Scope isNCName childValues)

/-- The written name of an element. -/
def Xml.Markup.name? : Markup → Option String
  | .element name _ _ => some name
  | .empty name _ => some name
  | .text _ => none

/-- Markup inside of an element, at any depth. -/
inductive Xml.Markup.Inside : Markup → Markup → Prop
  | child {m : Markup} {name : String} {attributes : List (String × String)}
      {children : List Markup} : m ∈ children → Inside m (.element name attributes children)
  | deeper {m inner : Markup} {name : String} {attributes : List (String × String)}
      {children : List Markup} :
      Inside m inner → inner ∈ children → Inside m (.element name attributes children)

/-- The name of a member of an object, at any depth of a value. -/
inductive Json.HasName (name : String) : Json → Prop
  | member {members : List (String × Json)} {member : String × Json} :
      member ∈ members → member.1 = name → HasName name (.obj members)
  | inside {v w : Json} : w ∈ v.parts → HasName name w → HasName name v

namespace Envelope

variable {op : Operation} {arguments : List (String × Json)} {scope : Scope} {ns : Option String}

/-! ## Envelopes around a body -/

/-- A request is written as an envelope around a body with some elements. -/
def WritesBody (op : Operation) (arguments : List (String × Json)) (elements : List Markup) :
    Prop :=
  encode op arguments =
    Markup.document (.element "soap:Envelope" (declarations op)
      [.element "soap:Body" [] elements])

/-- A request is read as an envelope around a body with some elements. -/
def ReadsBody (op : Operation) (arguments : List (String × Json)) (es : List Element) : Prop :=
  ∃ envelope body : Element, Element.ofText (encode op arguments) = .ok envelope ∧
    envelope.is (namespaceName op.soapVersion) "Envelope" ∧ envelope.children = [body] ∧
    body.is (namespaceName op.soapVersion) "Body" ∧ body.children = es

theorem readsBody_of_body {es : List Element} (hwritten : Markup.AreWritten (body op arguments))
    (hes : Markup.buildAll (requestScope op) (body op arguments) = .ok es) :
    ReadsBody op arguments es :=
  ⟨_, _, ofText_encode_of_body hwritten hes, by simp [Element.is], rfl, by simp [Element.is], rfl⟩

/-! ## Values in a body -/

/-- Members of which the first one gets a name. -/
def renameFirst (name : String) : List (String × Json) → List (String × Json)
  | [] => []
  | (_, v) :: rest => (name, v) :: rest

/-- The values in the body of a request under their local names. The first argument of a bare
operation has the name of the request's element. -/
def bodyMembers (op : Operation) (arguments : List (String × Json)) : List (String × Json) :=
  if op.style = .documentBare then renameFirst op.requestElement arguments
  else [(op.requestElement, .obj arguments)]

/-- The elements of members, of which the names are written qualified or not (`q'`), and those
inside of them too (`q`). -/
def ofBodyMembers (q q' : Bool) (members : List (String × Json)) : List Markup :=
  members.flatMap fun member => ofValue q (qualify q' member.1) member.2

theorem ofMembers_eq (q : Bool) (members : List (String × Json)) :
    ofMembers q members = ofBodyMembers q q members := by
  induction members with
  | nil => rfl
  | cons member rest ih => rw [ofMembers, ih, ofBodyMembers, ofBodyMembers, List.flatMap_cons]

/-- The body of a request, whatever the style is. -/
theorem body_eq (op : Operation) (arguments : List (String × Json)) :
    body op arguments =
      ofBodyMembers (isQualified op) op.namespaceName.isSome (bodyMembers op arguments) := by
  by_cases hstyle : op.style = .documentBare
  · rw [bodyMembers, if_pos hstyle, body, hstyle]
    cases arguments with
    | nil => rfl
    | cons argument rest => rfl
  · rw [bodyMembers, if_neg hstyle, body_of_ne_bare hstyle, ofBodyMembers, List.flatMap_singleton,
      ofValue]

/-- The elements of members can be read back. -/
theorem areWritten_ofBodyMembers (q q' : Bool) {members : List (String × Json)}
    (h : (Json.obj members).Everywhere Json.HasNCNames) :
    Markup.AreWritten (ofBodyMembers q q' members) := by
  rw [Json.everywhere_obj] at h
  obtain ⟨hnames, hvalues⟩ := h
  induction members with
  | nil => exact trivial
  | cons member rest ih =>
    simp only [Json.HasNCNames, List.forall_mem_cons] at hnames hvalues
    rw [ofBodyMembers, List.flatMap_cons]
    exact areWritten_append (areWritten_ofValue q q' hnames.1 member.2 hvalues.1)
      (ih hnames.2 hvalues.2)

/-- The elements of members are read as the occurrences of the members under their names. -/
theorem exists_buildAll_ofBodyMembers (hscope : IsRequestScope scope ns) {q q' : Bool}
    (hq : q = true → ns.isSome = true) (hq' : q' = true → ns.isSome = true)
    {members : List (String × Json)} (h : (Json.obj members).Everywhere Json.HasNCNames) :
    ∃ es, Markup.buildAll scope (ofBodyMembers q q' members) = .ok es ∧
      (∀ e ∈ es, ∃ name, IsNamed ns q q' name e) ∧
      childValues es = memberOccurrences members := by
  rw [Json.everywhere_obj] at h
  obtain ⟨hnames, hvalues⟩ := h
  induction members with
  | nil => exact ⟨[], rfl, List.forall_mem_nil _, rfl⟩
  | cons member rest ih =>
    simp only [Json.HasNCNames, List.forall_mem_cons] at hnames hvalues
    obtain ⟨es, hes, hnamed, hread⟩ :=
      exists_buildAll_ofValue hscope hq hq' hnames.1 member.2 hvalues.1
    obtain ⟨es', hes', hnamed', hread'⟩ := ih hnames.2 hvalues.2
    rw [ofBodyMembers, List.flatMap_cons]
    refine ⟨es ++ es', Markup.buildAll_append hes hes', fun e he => ?_, ?_⟩
    · exact (List.mem_append.mp he).elim (fun h => ⟨member.1, hnamed e h⟩) (hnamed' e)
    · rw [childValues_append, childValues_of_isNamed hnamed, hread, hread', memberOccurrences]

/-- A request is read as an envelope of which the body holds the occurrences of what stands there.
The body elements are in the namespace of the operation, and everything inside of them is so where
parameters are qualified, and else is in none. -/
theorem exists_readsBody (hns : op.namespaceName ≠ some "")
    (h : (Json.obj (bodyMembers op arguments)).Everywhere Json.HasNCNames) :
    ∃ es, ReadsBody op arguments es ∧
      childValues es = memberOccurrences (bodyMembers op arguments) ∧
      ∀ e ∈ es, e.namespaceName = op.namespaceName ∧ ∀ inner : Element, inner.Inside e →
        inner.namespaceName = namespaceOf (isQualified op) op.namespaceName := by
  have hscope := isRequestScope_requestScope hns
  have hqualified : isQualified op = true → op.namespaceName.isSome = true := by
    simp only [isQualified, Bool.and_eq_true]
    exact And.left
  obtain ⟨es, hes, hnamed, hvalues⟩ := exists_buildAll_ofBodyMembers hscope hqualified id h
  have hwritten := areWritten_ofBodyMembers (isQualified op) op.namespaceName.isSome h
  rw [← body_eq] at hes hwritten
  refine ⟨es, readsBody_of_body hwritten hes, hvalues, fun e he => ?_⟩
  obtain ⟨name, he⟩ := hnamed e he
  exact ⟨he.namespaceName.trans (namespaceOf_isSome _), he.inside⟩

/-! ## One element for each argument -/

/-- A request has body elements with some local names, one for each name and in their order, and all
of them in the namespace of the operation. This is how they are written, and how they are read where
the names, and those inside of the arguments, can stand in tags. -/
structure HasBodyElements (op : Operation) (arguments : List (String × Json))
    (names : List String) : Prop where
  written : ∃ elements, WritesBody op arguments elements ∧
    elements.map Markup.name? = names.map fun name => some (qualify op.namespaceName.isSome name)
  read : (∀ name ∈ names, isNCName name) →
    (∀ argument ∈ arguments, argument.2.Everywhere Json.HasNCNames) →
    ∃ es, ReadsBody op arguments es ∧
      es.map (fun e => (e.namespaceName, e.localName)) = names.map (op.namespaceName, ·)

/-- A value that is no array is written as one element. -/
theorem names_ofValue (q : Bool) (name : String) {v : Json} (hv : v.kind ≠ .array) :
    (ofValue q name v).map Markup.name? = [some name] := by
  cases v with
  | arr items => exact absurd rfl hv
  | obj members => rw [ofValue]; rfl
  | _ => rfl

/-- Members that are no arrays are written as one element each. -/
theorem names_ofBodyMembers (q q' : Bool) {members : List (String × Json)}
    (h : ∀ member ∈ members, member.2.kind ≠ .array) :
    (ofBodyMembers q q' members).map Markup.name? =
      members.map fun member => some (qualify q' member.1) := by
  induction members with
  | nil => rfl
  | cons member rest ih =>
    rw [List.forall_mem_cons] at h
    have hrest := ih h.2
    rw [ofBodyMembers] at hrest ⊢
    rw [List.flatMap_cons, List.map_append, names_ofValue _ _ h.1, hrest, List.map_cons,
      List.singleton_append]

/-- Members that are no arrays occur once each. -/
theorem map_fst_memberOccurrences {members : List (String × Json)}
    (h : ∀ member ∈ members, member.2.kind ≠ .array) :
    (memberOccurrences members).map (·.1) = members.map (·.1) := by
  induction members with
  | nil => rfl
  | cons member rest ih =>
    rw [List.forall_mem_cons] at h
    rw [memberOccurrences, occurrences_eq_singleton h.1, List.map_append, ih h.2]
    rfl

/-- Renaming the first member leaves the values as they are. -/
theorem forall_renameFirst {P : Json → Prop} (name : String) {members : List (String × Json)}
    (h : ∀ member ∈ members, P member.2) : ∀ member ∈ renameFirst name members, P member.2 := by
  cases members with
  | nil => exact List.forall_mem_nil _
  | cons member rest =>
    rw [List.forall_mem_cons] at h
    exact List.forall_mem_cons.mpr h

/-- Arguments of a bare operation that are no arrays are body elements, one for each argument and in
their order. -/
theorem hasBodyElements_of_bare (hstyle : op.style = .documentBare)
    (hns : op.namespaceName ≠ some "") (h : ∀ argument ∈ arguments, argument.2.kind ≠ .array) :
    HasBodyElements op arguments ((renameFirst op.requestElement arguments).map (·.1)) := by
  have hbody : bodyMembers op arguments = renameFirst op.requestElement arguments := if_pos hstyle
  have hkinds := forall_renameFirst (P := (·.kind ≠ .array)) op.requestElement h
  refine ⟨⟨body op arguments, rfl, ?_⟩, fun hnames harguments => ?_⟩
  · rw [body_eq, hbody, names_ofBodyMembers _ _ hkinds, List.map_map]
    rfl
  · rw [List.forall_mem_map] at hnames
    have hread := Json.everywhere_obj.mpr ⟨hnames, forall_renameFirst op.requestElement harguments⟩
    rw [← hbody] at hread
    obtain ⟨es, hes, hvalues, hin⟩ := exists_readsBody hns hread
    refine ⟨es, hes, ?_⟩
    rw [← map_fst_memberOccurrences hkinds, ← hbody, ← hvalues, childValues_eq_map, List.map_map,
      List.map_map]
    apply List.map_congr_left
    intro e he
    rw [(hin e he).1]
    rfl

/-! ## Elements inside of the body elements -/

/-- The elements inside of the body elements are named with the namespace of the operation, or
without a namespace. This is how they are written, each under the name of a member of an object, and
how they are read where the names can stand in tags. -/
structure HasLocalForm (op : Operation) (arguments : List (String × Json)) (isQualified : Bool) :
    Prop where
  written : ∃ elements, WritesBody op arguments elements ∧
    ∀ outer ∈ elements, ∀ m : Markup, m.Inside outer → ∀ written, m.name? = some written →
      ∃ member ∈ bodyMembers op arguments, ∃ name,
        member.2.HasName name ∧ written = qualify isQualified name
  read : (Json.obj (bodyMembers op arguments)).Everywhere Json.HasNCNames →
    ∃ es, ReadsBody op arguments es ∧
      childValues es = memberOccurrences (bodyMembers op arguments) ∧
      ∀ e ∈ es, e.namespaceName = op.namespaceName ∧ ∀ inner : Element, inner.Inside e →
        inner.namespaceName = namespaceOf isQualified op.namespaceName

/-- Elements with a written name, and with elements inside that are named by members of objects
inside of a value. -/
def AreNamedInside (q : Bool) (written : String) (v : Json) (elements : List Markup) : Prop :=
  ∀ outer ∈ elements, outer.name? = some written ∧
    ∀ m : Markup, m.Inside outer → ∀ found, m.name? = some found →
      ∃ name, v.HasName name ∧ found = qualify q name

/-- There is no element inside of one that holds a text. -/
theorem areNamedInside_textElement (q : Bool) (written : String) (v : Json) (text : String) :
    AreNamedInside q written v (textElement written text) := by
  refine List.forall_mem_singleton.mpr ⟨rfl, fun m hm found hfound => ?_⟩
  cases hm with
  | child hmem =>
    obtain rfl := List.mem_singleton.mp hmem
    cases hfound
  | deeper hinside hmem =>
    obtain rfl := List.mem_singleton.mp hmem
    cases hinside

theorem ofItems_eq (q : Bool) (name : String) (items : List Json) :
    ofItems q name items = items.flatMap (ofValue q name) := by
  induction items with
  | nil => rfl
  | cons v rest ih => rw [ofItems, ih, List.flatMap_cons]

/-- The elements of a value are named by the value. -/
theorem areNamedInside_ofValue (q : Bool) (written : String) (v : Json) :
    AreNamedInside q written v (ofValue q written v) := by
  induction v using Json.inductionOn generalizing written with
  | null =>
    refine List.forall_mem_singleton.mpr ⟨rfl, fun m hm => ?_⟩
    cases hm
  | arr items ih =>
    rw [ofValue, ofItems_eq]
    intro outer houter
    obtain ⟨v, hv, houter⟩ := List.mem_flatMap.mp houter
    obtain ⟨hname, hinside⟩ := ih v hv written outer houter
    refine ⟨hname, fun m hm found hfound => ?_⟩
    obtain ⟨name, hkey, heq⟩ := hinside m hm found hfound
    exact ⟨name, .inside hv hkey, heq⟩
  | obj members ih =>
    -- what stands directly in the element is named by a member, what is deeper by one inside of it
    have hpart : ∀ {m : Markup}, m ∈ ofMembers q members → ∃ member ∈ members,
        m ∈ ofValue q (qualify q member.1) member.2 := by
      intro m hm
      rw [ofMembers_eq] at hm
      exact List.mem_flatMap.mp hm
    rw [ofValue]
    refine List.forall_mem_singleton.mpr ⟨rfl, fun m hm found hfound => ?_⟩
    cases hm with
    | child hmem =>
      obtain ⟨member, hmember, hm⟩ := hpart hmem
      obtain ⟨hname, -⟩ := ih member hmember _ m hm
      exact ⟨member.1, .member hmember rfl, Option.some.inj (hfound.symm.trans hname)⟩
    | deeper hinside hmem =>
      obtain ⟨member, hmember, hinner⟩ := hpart hmem
      obtain ⟨-, hnames⟩ := ih member hmember _ _ hinner
      obtain ⟨name, hkey, heq⟩ := hnames m hinside found hfound
      exact ⟨name, .inside (List.mem_map.mpr ⟨member, hmember, rfl⟩) hkey, heq⟩
  | _ => exact areNamedInside_textElement q written _ _

/-- Whether parameters are qualified decides on all elements inside of the body elements. -/
theorem hasLocalForm (hns : op.namespaceName ≠ some "") (arguments : List (String × Json)) :
    HasLocalForm op arguments (isQualified op) := by
  refine ⟨⟨body op arguments, rfl, fun outer houter m hm written hwritten => ?_⟩,
    exists_readsBody hns⟩
  rw [body_eq, ofBodyMembers, List.mem_flatMap] at houter
  obtain ⟨member, hmember, houter⟩ := houter
  obtain ⟨-, hinside⟩ := areNamedInside_ofValue _ _ member.2 outer houter
  exact ⟨member, hmember, hinside m hm written hwritten⟩

end Envelope

end SoapClient
