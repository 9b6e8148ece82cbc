import SoapClient.Invocation
import SoapClient.Proofs.Model.Lookup
import SoapClient.Proofs.Value.Reordering

/-!
# Invocations

Everything that can be wrong with an invocation is found before the transport is asked. Main
statement: the first thing that is wrong is the outcome and nothing is sent, and where nothing is
wrong there is one request with all arguments (`invoke_calls_once`).
-/

namespace SoapClient

open Outcome

variable {m : ServiceModel} {transport : Transport} {service operation : String} {s : Service}
  {op : Operation} {parameters : List Parameter} {values : List Json}

/-! ## Arguments -/

/-- The check of an argument that is bound to a parameter. -/
def checkArgument (m : ServiceModel) (bound : Parameter × Json) : Except Mismatch Unit :=
  check m bound.2 bound.1.type bound.1.isOptional (.ofStart bound.1.name)

/-- What is sent for an argument: it has the name of the parameter, and its value is the one that
was given, but for the order of members, which is the declared one. It fits the parameter. -/
structure IsSentFor (m : ServiceModel) (bound : Parameter × Json) (sent : String × Json) :
    Prop where
  name : sent.1 = bound.1.name
  reorders : bound.2.Reorders sent.2
  inOrder : m.IsInOrder sent.2 bound.1.type
  fits : checkArgument m (bound.1, sent.2) = .ok ()

/-- What is sent for an argument that is bound to a parameter. -/
def argumentFor (m : ServiceModel) (bound : Parameter × Json) : String × Json :=
  (bound.1.name, arrange m bound.2 bound.1.type)

theorem isSentFor_argumentFor {bound : Parameter × Json} (h : checkArgument m bound = .ok ())
    (hv : bound.2.Everywhere Json.HasDistinctNames) :
    IsSentFor m bound (argumentFor m bound) := by
  have hfits := fits_of_check h
  exact ⟨rfl, reorders_arrange m bound.2 bound.1.type, isInOrder_arrange hfits hv,
    hfits.arrange hv _⟩

/-- Arguments are bound where all of them fit, each to its parameter. -/
theorem bindArguments_eq_ok_iff {arguments : List (String × Json)} :
    bindArguments m parameters values = .ok arguments ↔
      (∀ bound ∈ parameters.zip values, checkArgument m bound = .ok ()) ∧
        arguments = (parameters.zip values).map (argumentFor m) := by
  induction parameters generalizing values arguments with
  | nil => simp [bindArguments, eq_comm]
  | cons p parameters ih =>
    cases values with
    | nil => simp [bindArguments, eq_comm]
    | cons v values =>
      rw [bindArguments, List.zip_cons_cons, List.forall_mem_cons, bind_eq_ok_iff]
      constructor
      · rintro ⟨_, hfirst, h⟩
        rw [bind_eq_ok_iff] at h
        obtain ⟨others, hbind, h⟩ := h
        obtain ⟨hrest, rfl⟩ := ih.mp hbind
        exact ⟨⟨hfirst, hrest⟩, (Except.ok.inj h).symm⟩
      · rintro ⟨⟨hfirst, hrest⟩, rfl⟩
        refine ⟨(), hfirst, ?_⟩
        rw [ih.mpr ⟨hrest, rfl⟩]
        rfl

/-- Arguments that fit are all sent, in the order of the parameters. -/
theorem exists_bindArguments_eq_ok
    (h : ∀ bound ∈ parameters.zip values, checkArgument m bound = .ok ())
    (hvalues : ∀ v ∈ values, v.Everywhere Json.HasDistinctNames) :
    ∃ arguments, bindArguments m parameters values = .ok arguments ∧
      List.Forall₂ (IsSentFor m) (parameters.zip values) arguments := by
  refine ⟨_, bindArguments_eq_ok_iff.mpr ⟨h, rfl⟩, ?_⟩
  rw [List.forall₂_map_right_iff, List.forall₂_same]
  exact fun bound hbound =>
    isSentFor_argumentFor (h bound hbound) (hvalues _ (List.of_mem_zip hbound).2)

/-- The first argument that does not fit is what is wrong with all of them. -/
theorem bindArguments_eq_error {before after : List (Parameter × Json)}
    {bound : Parameter × Json} {cause : Mismatch}
    (hsplit : parameters.zip values = before ++ bound :: after)
    (hbefore : ∀ earlier ∈ before, checkArgument m earlier = .ok ())
    (hbound : checkArgument m bound = .error cause) :
    bindArguments m parameters values = .error cause := by
  induction before generalizing parameters values with
  | nil =>
    cases parameters with
    | nil => cases hsplit
    | cons p parameters =>
      cases values with
      | nil => cases hsplit
      | cons v values =>
        obtain ⟨rfl, -⟩ := List.cons.inj hsplit
        have hfirst : check m v p.type p.isOptional (.ofStart p.name) = .error cause := hbound
        rw [bindArguments, hfirst, error_bind]
  | cons earlier before ih =>
    cases parameters with
    | nil => cases hsplit
    | cons p parameters =>
      cases values with
      | nil => cases hsplit
      | cons v values =>
        obtain ⟨rfl, hrest⟩ := List.cons.inj hsplit
        rw [List.forall_mem_cons] at hbefore
        have hfirst : check m v p.type p.isOptional (.ofStart p.name) = .ok () := hbefore.1
        rw [bindArguments, hfirst, ok_bind, ih hrest hbefore.2, error_bind]

/-! ## Preparing the request -/

/-- The operation that is looked up has the name it is looked up by. -/
theorem name_of_lookupOperation (h : m.lookupOperation service operation = .ok op) :
    op.name = operation := by
  rw [ServiceModel.lookupOperation, bind_eq_ok_iff] at h
  obtain ⟨s, -, hop⟩ := h
  split at hop
  · next op' hfind =>
    obtain rfl := Except.ok.inj hop
    simpa using List.find?_some hfind
  · cases hop

/-- A look-up that fails is what is wrong, whatever the arguments are. -/
theorem prepare_of_lookup_error {cause : LookupError}
    (h : m.lookupOperation service operation = .error cause) :
    prepare m service operation values = .error (.lookup cause) := by
  rw [prepare, h, mapError_error, error_bind]

/-- The number of arguments comes before the arguments themselves. -/
theorem prepare_of_length_ne (hop : m.lookupOperation service operation = .ok op)
    (h : values.length ≠ op.parameters.length) :
    prepare m service operation values =
      .error (.arityMismatch op.parameters.length values.length) := by
  rw [prepare, hop, mapError_ok, ok_bind, if_pos h]
  rfl

theorem prepare_of_bindArguments_error (hop : m.lookupOperation service operation = .ok op)
    (h : values.length = op.parameters.length) {cause : Mismatch}
    (hbind : bindArguments m op.parameters values = .error cause) :
    prepare m service operation values = .error (.typeMismatch cause) := by
  rw [prepare, hop, mapError_ok, ok_bind, if_neg (not_not_intro h), hbind]
  rfl

theorem prepare_of_bindArguments (hs : m.lookupService service = .ok s)
    (hop : m.lookupOperation service operation = .ok op)
    (h : values.length = op.parameters.length) {arguments : List (String × Json)}
    (hbind : bindArguments m op.parameters values = .ok arguments) :
    prepare m service operation values = .ok ⟨service, s.endpoint, op, arguments⟩ := by
  rw [prepare, hop, mapError_ok, ok_bind, if_neg (not_not_intro h), hbind, hs]
  rfl

/-! ## The invocation -/

/-- Where no request can be made, the transport is not asked. -/
theorem invoke_of_prepare_error {e : InvokeError}
    (h : prepare m service operation values = .error e) :
    invoke m transport service operation values = ⟨[], .error e⟩ := by
  rw [invoke, h]

theorem invoke_of_prepare {r : Request} (h : prepare m service operation values = .ok r) :
    invoke m transport service operation values = ⟨[r], readAnswer m r (transport r)⟩ := by
  rw [invoke, h]

/-- The request of an invocation: what was looked up, and the arguments under the names of their
parameters in the order of these. -/
structure IsRequestFor (m : ServiceModel) (service : String) (s : Service) (op : Operation)
    (values : List Json) (r : Request) : Prop where
  service : r.service = service
  endpoint : r.endpoint = s.endpoint
  operation : r.operation = op
  arguments : List.Forall₂ (IsSentFor m) (op.parameters.zip values) r.arguments

/-- What an invocation makes of the answer to its request: a failure of the transport is passed on,
and what it answers is read as the declared result. -/
theorem readAnswer_eq (r : Request) (answer : Except TransportError Json) :
    (∀ cause, answer = .error cause → readAnswer m r answer = .error (.transport cause)) ∧
      ∀ raw, answer = .ok raw →
        (∀ result, coerce m raw r.operation.returnType = .ok result →
          readAnswer m r answer = .ok result) ∧
        ∀ cause, coerce m raw r.operation.returnType = .error cause →
          readAnswer m r answer =
            .error (.resultDecode r.operation.name r.operation.returnType cause) := by
  refine ⟨?_, ?_⟩
  · rintro cause rfl
    rfl
  · rintro raw rfl
    refine ⟨fun result hresult => ?_, fun cause hcause => ?_⟩
    · rw [readAnswer, hresult, mapError_ok]
    · rw [readAnswer, hcause, mapError_error]

/-- An invocation checks everything and then calls once. What is wrong is looked for in this order:
the service, the operation, the number of arguments, and each argument from the first one on. The
first thing that is wrong is the outcome, and nothing is sent. Where nothing is wrong, just one
request is sent, and its answer is the outcome, read as a value of the declared type. -/
theorem invoke_calls_once (m : ServiceModel) (transport : Transport) (service operation : String)
    {values : List Json} (hvalues : ∀ v ∈ values, v.Everywhere Json.HasDistinctNames) :
    let result := invoke m transport service operation values
    ((∀ s ∈ m.services, s.name ≠ service) →
      result = ⟨[], .error (.lookup (.serviceNotFound service))⟩) ∧
    ∀ s, m.lookupService service = .ok s →
      ((∀ op ∈ s.operations, op.name ≠ operation) →
        result = ⟨[], .error (.lookup (.operationNotFound service operation))⟩) ∧
      ∀ op, m.lookupOperation service operation = .ok op →
        (values.length ≠ op.parameters.length →
          result = ⟨[], .error (.arityMismatch op.parameters.length values.length)⟩) ∧
        (values.length = op.parameters.length →
          (∀ before bound after cause, op.parameters.zip values = before ++ bound :: after →
            (∀ earlier ∈ before, checkArgument m earlier = .ok ()) →
            checkArgument m bound = .error cause →
            result = ⟨[], .error (.typeMismatch cause)⟩) ∧
          ((∀ bound ∈ op.parameters.zip values, checkArgument m bound = .ok ()) →
            ∃ r, IsRequestFor m service s op values r ∧ result.requests = [r] ∧
              (∀ cause, transport r = .error cause → result.outcome = .error (.transport cause)) ∧
              ∀ raw, transport r = .ok raw →
                (∀ v, coerce m raw op.returnType = .ok v → result.outcome = .ok v) ∧
                ∀ cause, coerce m raw op.returnType = .error cause →
                  result.outcome = .error (.resultDecode operation op.returnType cause))) := by
  refine ⟨fun hservice => ?_, fun s hs => ⟨fun hoperation => ?_, fun op hop =>
    ⟨fun hlength => ?_, fun hlength => ⟨?_, fun hfits => ?_⟩⟩⟩⟩
  · have hlookup : m.lookupOperation service operation = .error (.serviceNotFound service) := by
      rw [ServiceModel.lookupOperation, lookupService_of_unknown hservice, error_bind]
    exact invoke_of_prepare_error (prepare_of_lookup_error hlookup)
  · have hlookup := lookupOperation_of_unknown hs hoperation
    exact invoke_of_prepare_error (prepare_of_lookup_error hlookup)
  · exact invoke_of_prepare_error (prepare_of_length_ne hop hlength)
  · intro before bound after cause hsplit hbefore hbound
    have hbind := bindArguments_eq_error hsplit hbefore hbound
    exact invoke_of_prepare_error (prepare_of_bindArguments_error hop hlength hbind)
  · obtain ⟨arguments, hbind, hsent⟩ := exists_bindArguments_eq_ok hfits hvalues
    have hinvoke : invoke m transport service operation values = _ :=
      invoke_of_prepare (prepare_of_bindArguments hs hop hlength hbind)
    refine ⟨⟨service, s.endpoint, op, arguments⟩, ⟨rfl, rfl, rfl, hsent⟩, ?_⟩
    obtain ⟨herror, hraw⟩ := readAnswer_eq (m := m) ⟨service, s.endpoint, op, arguments⟩
      (transport ⟨service, s.endpoint, op, arguments⟩)
    rw [hinvoke]
    refine ⟨rfl, herror, fun raw hanswer => ⟨(hraw raw hanswer).1, fun cause hcause => ?_⟩⟩
    rw [(hraw raw hanswer).2 cause hcause, name_of_lookupOperation hop]

/-- An operation with a structured parameter and one of a primitive kind. -/
def routeOperation : Operation where
  name := "route"
  parameters := [⟨"stops", .array (.complex "Stop"), false⟩, ⟨"limit", .primitive .int, true⟩]
  returnType := .primitive .boolean
  soapAction := none
  style := .rpc
  soapVersion := .soap11
  namespaceName := some "urn:routes"
  requestElement := "route"
  qualifiedParameters := false
  resultElement := some "result"

/-- A model with this operation and a type that refers to itself. -/
def routeModel : ServiceModel where
  targetNamespace := none
  services := [⟨"Routes", some "http://localhost/routes", [routeOperation]⟩]
  types := [⟨"Stop", [⟨"name", .primitive .string, false⟩, ⟨"rest", .primitive .anyType, true⟩,
    ⟨"next", .complex "Stop", true⟩]⟩]

/-- A stop with the given members first and the name last. -/
def stop (name : String) (members : List (String × Json)) : Json :=
  .obj (members ++ [("name", .str name)])

/-- An invocation with members in another order than the declared one: the transport is asked once,
with the members in declared order. -/
theorem invoke_calls_once_route :
    let values := [.arr [stop "a" [("next", stop "b" [("rest", .obj [("name", .null)])])]], .null]
    let result := invoke routeModel (fun _ => .ok (.str "true")) "Routes" "route" values
    result.requests = [⟨"Routes", some "http://localhost/routes", routeOperation,
      [("stops", .arr [.obj [("name", .str "a"), ("next", .obj [("name", .str "b"),
        ("rest", .obj [("name", .null)])])]]), ("limit", .null)]⟩] ∧
    result.outcome = .ok (.bool true) := by
  intro values result
  have hvalues : ∀ v ∈ values, v.Everywhere Json.HasDistinctNames := by
    simp [values, stop, Json.Everywhere, Json.EverywhereInMembers, Json.EverywhereInItems,
      Json.HasDistinctNames]
  obtain ⟨-, hknown⟩ :=
    invoke_calls_once routeModel (fun _ => .ok (.str "true")) "Routes" "route" hvalues
  obtain ⟨-, hfound⟩ := hknown _ rfl
  obtain ⟨-, hlength⟩ := hfound routeOperation rfl
  have hfits : ∀ bound ∈ routeOperation.parameters.zip values,
      checkArgument routeModel bound = .ok () := by
    have hzip : routeOperation.parameters.zip values =
        [(⟨"stops", .array (.complex "Stop"), false⟩, values[0]),
          (⟨"limit", .primitive .int, true⟩, .null)] := rfl
    rw [hzip, List.forall_mem_cons, List.forall_mem_singleton]
    exact ⟨rfl, rfl⟩
  obtain ⟨r, -, -, -, hanswer⟩ := (hlength rfl).2 hfits
  exact ⟨rfl, (hanswer (.str "true") rfl).1 (.bool true) rfl⟩

end SoapClient
