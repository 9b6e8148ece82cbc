import SoapClient.Proofs.Invocation
import SoapClient.Proofs.Value.Coercion
import SoapClient.Proofs.Value.Decimals
import SoapClient.Transport.Stub

/-!
# Arguments that are read as results

A value that was checked to be an argument is a value that a result may have. Main statement:
reading it succeeds and changes nothing in it but the texts of numbers with a fraction, so that an
echo brings an argument back (`coerce_of_check`).
-/

namespace SoapClient

open Decimal Outcome

variable {m : ServiceModel} {t : TypeRef} {v r : Json} {isOptional : Bool} {path : Path}

/-- The kinds of numbers with a fraction. Some of their values are texts. -/
def PrimitiveKind.isFractional : PrimitiveKind → Bool
  | .float | .double | .decimal => true
  | _ => false

namespace ServiceModel

/-- What is left of a value of a type when it is read: all of it, but for texts that stand for
numbers with a fraction. Of a special floating point value the blanks around it are cut off, and a
decimal becomes a number where one is written like it, else its canonical form. -/
inductive Settles (m : ServiceModel) : TypeRef → Json → Json → Prop
  | null (t : TypeRef) : Settles m t .null .null
  | same {kind : PrimitiveKind} {v : Json} :
    (kind.isFractional = true → ∀ s, v ≠ .str s) → Settles m (.primitive kind) v v
  | float {kind : PrimitiveKind} (s : String) : kind = .float ∨ kind = .double →
    Settles m (.primitive kind) (.str s) (.str (Text.trim s))
  | decimal {s : String} {canonical : List Char} {r : Json} :
    canonical? s.toList = some canonical → ReadsDecimal canonical r →
      Settles m (.primitive .decimal) (.str s) r
  | array {item : TypeRef} {items items' : List Json} : items.length = items'.length →
    (∀ v r, (v, r) ∈ items.zip items' → Settles m item v r) →
      Settles m (.array item) (.arr items) (.arr items')
  | complex {typeName : String} {c : ComplexType} {members members' : List (String × Json)} :
    m.complexType? typeName = some c → (∀ member ∈ members, (c.field? member.1).isSome) →
      members.map (·.1) = members'.map (·.1) →
      (∀ member member', (member, member') ∈ members.zip members' →
        ∀ field, c.field? member.1 = some field → Settles m field.type member.2 member'.2) →
      Settles m (.complex typeName) (.obj members) (.obj members')

end ServiceModel

open ServiceModel (Settles)

/-! ## Primitive values -/

/-- A kind whose values are texts takes nothing else. -/
theorem PrimitiveKind.isTextual_eq_false {kind : PrimitiveKind} (h : kind.accepts v = true)
    (hv : ∀ s, v ≠ .str s) : kind.isTextual = false := by
  cases kind <;> cases v <;> simp_all [PrimitiveKind.accepts, PrimitiveKind.isTextual]

/-- A value that is no text is read as itself by a kind that takes it. -/
theorem PrimitiveKind.read?_of_accepts {kind : PrimitiveKind} (h : kind.accepts v = true)
    (hv : ∀ s, v ≠ .str s) : kind.read? v = some v := by
  have htextual := PrimitiveKind.isTextual_eq_false h hv
  cases v with
  | str s => exact absurd rfl (hv s)
  | _ => simp only [PrimitiveKind.read?, htextual, Bool.false_eq_true, ↓reduceIte, h]

/-- A text that a kind takes is read as one of this kind, and is settled by that. -/
theorem PrimitiveKind.exists_readText?_of_accepts {kind : PrimitiveKind} {s : String}
    (h : kind.accepts (.str s) = true) :
    ∃ r, kind.readText? s = some r ∧ Settles m (.primitive kind) (.str s) r := by
  have hspecial : isSpecialFloat s = true → readFloat? s = some (.str (Text.trim s)) := by
    intro hspecial
    rw [readFloat?, if_pos hspecial]
  cases kind with
  | float => exact ⟨_, hspecial h, .float s (.inl rfl)⟩
  | double => exact ⟨_, hspecial h, .float s (.inr rfl)⟩
  | decimal =>
    obtain ⟨canonical, hcanonical⟩ := Option.isSome_iff_exists.mp h
    have hread : readDecimal? s =
        some ((exactNumber? canonical).getD (.str (String.ofList canonical))) := by
      rw [readDecimal?, hcanonical, Option.map_some]
    obtain ⟨canonical', hcanonical', hreads⟩ := readsDecimal_of_readDecimal? hread
    exact ⟨_, hread, .decimal hcanonical' hreads⟩
  | boolean | int | long => cases h
  | _ => exact ⟨_, rfl, .same fun hfractional => (Bool.false_ne_true hfractional).elim⟩

/-- A value that a kind takes is read as one of this kind, and is settled by that. -/
theorem exists_reads_of_accepts {kind : PrimitiveKind} (h : kind.accepts v = true) :
    ∃ r, ReadsAs m v (.primitive kind) r ∧ Settles m (.primitive kind) v r := by
  by_cases hnull : v = .null
  · subst hnull
    exact ⟨.null, reads_null.mpr rfl, .null _⟩
  by_cases htext : ∃ s, v = .str s
  · obtain ⟨s, rfl⟩ := htext
    obtain ⟨r, hr, hsettles⟩ := PrimitiveKind.exists_readText?_of_accepts (m := m) h
    exact ⟨r, (reads_primitive_iff hnull).mpr hr, hsettles⟩
  · rw [not_exists] at htext
    exact ⟨v, (reads_primitive_iff hnull).mpr (PrimitiveKind.read?_of_accepts h htext),
      .same fun _ => htext⟩

/-! ## All values -/

/-- Where every entry has one to stand for it, a whole list has. -/
theorem exists_forall₂ {α β : Type} {R : α → β → Prop} {as : List α}
    (h : ∀ a ∈ as, ∃ b, R a b) : ∃ bs, List.Forall₂ R as bs := by
  induction as with
  | nil => exact ⟨[], .nil⟩
  | cons a as ih =>
    rw [List.forall_mem_cons] at h
    obtain ⟨b, hb⟩ := h.1
    obtain ⟨bs, hbs⟩ := ih h.2
    exact ⟨b :: bs, .cons hb hbs⟩

/-- A value that fits is read as one of its type, and is settled by that. -/
theorem exists_reads_of_fits (h : Fits m v t isOptional) (hv : v.Everywhere Json.HasDistinctNames) :
    ∃ r, ReadsAs m v t r ∧ Settles m t v r := by
  induction v using Json.inductionOn generalizing t isOptional with
  | null => exact ⟨.null, reads_null.mpr rfl, .null t⟩
  | arr items ih =>
    cases t with
    | array item =>
      rw [fits_arr_iff] at h
      rw [Json.everywhere_arr] at hv
      obtain ⟨items', hitems⟩ := exists_forall₂ fun v hmem => ih v hmem (h v hmem) (hv.2 v hmem)
      refine ⟨.arr items', reads_arr_iff.mpr ⟨items', rfl, hitems.imp fun _ _ h => h.1⟩, ?_⟩
      exact .array hitems.length_eq fun v r hzip => (List.forall₂_zip hitems hzip).2
    | _ =>
      have hwhole := h (.ofStart "")
      rw [check_arr_of_ne (by simp)] at hwhole
      obtain ⟨kind, hkind, haccepts⟩ := exists_kind_of_checkWhole hwhole
      rw [hkind]
      exact exists_reads_of_accepts haccepts
  | obj members ih =>
    cases t with
    | complex typeName =>
      rw [Json.everywhere_obj] at hv
      obtain ⟨c, hc, hmembers⟩ := exists_field_of_fits hv.1 h
      have hall : ∀ member ∈ members, ∃ member' : String × Json, ReadsMember m c member member' ∧
          ∀ field, c.field? member.1 = some field → Settles m field.type member.2 member'.2 := by
        intro member hmember
        obtain ⟨field, hfield, hfits⟩ := hmembers member hmember
        obtain ⟨r, hr, hsettles⟩ := ih member hmember hfits (hv.2 member hmember)
        refine ⟨(member.1, r), ⟨rfl, fun field' hfield' => ?_, fun hnone => ?_⟩, ?_⟩
        · obtain rfl := Option.some.inj (hfield.symm.trans hfield')
          exact hr
        · rw [hfield] at hnone
          cases hnone
        · intro field' hfield'
          obtain rfl := Option.some.inj (hfield.symm.trans hfield')
          exact hsettles
      obtain ⟨members', hmembers'⟩ := exists_forall₂ hall
      have hreads : List.Forall₂ (ReadsMember m c) members members' :=
        hmembers'.imp fun _ _ h => h.1
      refine ⟨.obj members', reads_obj_iff.mpr ⟨c, members', hc, rfl, hreads⟩,
        .complex hc (fun member hmember => ?_) (map_fst_of_readsMember hreads).symm
          fun member member' hzip => (List.forall₂_zip hmembers' hzip).2⟩
      obtain ⟨field, hfield, -⟩ := hmembers member hmember
      rw [hfield]
      rfl
    | _ =>
      have hwhole := h (.ofStart "")
      rw [check_obj_of_ne (by simp)] at hwhole
      obtain ⟨kind, hkind, haccepts⟩ := exists_kind_of_checkWhole hwhole
      rw [hkind]
      exact exists_reads_of_accepts haccepts
  | _ =>
    have hwhole : checkWhole _ t isOptional (.ofStart "") = .ok () := h (.ofStart "")
    obtain ⟨kind, rfl, haccepts⟩ := exists_kind_of_checkWhole hwhole
    exact exists_reads_of_accepts haccepts

/-- A value without texts for numbers with a fraction is settled as it is. -/
theorem ServiceModel.Settles.eq_self (h : Settles m t v r)
    (hv : ∀ s kind, kind.isFractional = true → ¬ m.HoldsValue v t (.str s) (.primitive kind)) :
    r = v := by
  induction h with
  | null => rfl
  | same => rfl
  | float s hkind =>
    rcases hkind with rfl | rfl
    · exact absurd (.self _ _) (hv s .float rfl)
    · exact absurd (.self _ _) (hv s .double rfl)
  | @decimal s => exact absurd (.self _ _) (hv s .decimal rfl)
  | @array item items items' hlength _ ih =>
    have hitems : List.Forall₂ (· = ·) items items' := by
      refine List.forall₂_iff_zip.mpr ⟨hlength, fun {v r} hzip => ?_⟩
      have hmem := (List.of_mem_zip hzip).1
      exact (ih v r hzip fun s kind hkind hs => hv s kind hkind (.item hmem hs)).symm
    rw [List.forall₂_eq_eq_eq] at hitems
    rw [hitems]
  | @complex typeName c members members' hc hdeclared hnames _ ih =>
    have hsame : List.Forall₂ (fun member member' : String × Json => member.1 = member'.1)
        members members' := by
      rw [← List.forall₂_eq_eq_eq, List.forall₂_map_left_iff, List.forall₂_map_right_iff] at hnames
      exact hnames
    have hmembers : List.Forall₂ (· = ·) members members' := by
      refine List.forall₂_iff_zip.mpr ⟨hsame.length_eq, fun {member member'} hzip => ?_⟩
      have hmem := (List.of_mem_zip hzip).1
      obtain ⟨field, hfield⟩ := Option.isSome_iff_exists.mp (hdeclared member hmem)
      have hvalue := ih member member' hzip field hfield fun s kind hkind hs =>
        hv s kind hkind (.member hc hmem hfield hs)
      exact Prod.ext (List.forall₂_zip hsame hzip) hvalue.symm
    rw [List.forall₂_eq_eq_eq] at hmembers
    rw [hmembers]

/-! ## Echoes -/

/-- Only a text is arranged to be a text. -/
theorem eq_str_of_arrange {s : String} (h : arrange m v t = .str s) : v = .str s := by
  cases v with
  | arr items => cases t <;> cases h
  | obj members =>
    cases t with
    | complex typeName =>
      rw [arrange] at h
      split at h <;> cases h
    | _ => cases h
  | _ => exact h

/-- An echo is read as the first argument, with its members in declared order. -/
theorem outcome_echo {service operation : String} {op : Operation} {p : Parameter}
    {rest : List Parameter} {others : List Json}
    (hop : m.lookupOperation service operation = .ok op) (hparameters : op.parameters = p :: rest)
    (hlength : others.length = rest.length)
    (hfits : ∀ bound ∈ (p :: rest).zip (v :: others), checkArgument m bound = .ok ())
    (hread : coerce m (arrange m v p.type) op.returnType = .ok r) :
    (invoke m Transport.echo service operation (v :: others)).outcome = .ok r := by
  obtain ⟨s, hs, -⟩ := bind_eq_ok_iff.mp hop
  have hcount : (v :: others).length = op.parameters.length := by
    rw [hparameters, List.length_cons, List.length_cons, hlength]
  have hbind : bindArguments m op.parameters (v :: others) =
      .ok (((p :: rest).zip (v :: others)).map (argumentFor m)) := by
    rw [hparameters]
    exact bindArguments_eq_ok_iff.mpr ⟨hfits, rfl⟩
  rw [invoke_of_prepare (prepare_of_bindArguments hs hop hcount hbind)]
  have hanswer : readAnswer m ⟨service, s.endpoint, op,
      ((p :: rest).zip (v :: others)).map (argumentFor m)⟩ (.ok (arrange m v p.type)) = .ok r := by
    rw [readAnswer, hread, mapError_ok]
  exact hanswer

/-- A value that was checked is read as one of its type. The result has the same members in the same
order and the same items, and differs from the value only where a text stands for a number with a
fraction. A value without such texts is not changed at all. So an echo brings it back where the
operation returns what its first parameter takes: its members are sent in declared order, and if
they had this order before, it is the very same value. -/
theorem coerce_of_check (m : ServiceModel) {v : Json} {t : TypeRef} {isOptional : Bool}
    {path : Path} (hv : v.Everywhere Json.HasDistinctNames)
    (h : check m v t isOptional path = .ok ()) :
    (∃ r, coerce m v t = .ok r ∧ m.Settles t v r) ∧
      ((∀ s kind, kind.isFractional = true → ¬ m.HoldsValue v t (.str s) (.primitive kind)) →
        coerce m v t = .ok v ∧
        ∀ service operation op name rest others,
          m.lookupOperation service operation = .ok op →
          op.parameters = ⟨name, t, isOptional⟩ :: rest → op.returnType = t →
          others.length = rest.length →
          (∀ bound ∈ rest.zip others, checkArgument m bound = .ok ()) →
          ∃ w, (invoke m Transport.echo service operation (v :: others)).outcome = .ok w ∧
            v.Reorders w ∧ m.IsInOrder w t ∧ (m.IsInOrder v t → w = v)) := by
  have hfits := fits_of_check h
  obtain ⟨r, hr, hsettles⟩ := exists_reads_of_fits hfits hv
  refine ⟨⟨r, reads_iff.mp hr, hsettles⟩, fun htexts => ⟨?_, ?_⟩⟩
  · rw [hsettles.eq_self htexts] at hr
    exact reads_iff.mp hr
  · intro service operation op name rest others hop hparameters hreturn hlength hothers
    -- what is sent holds no such texts either, and so is read as itself
    have hsent : ReadsAs m (arrange m v t) t (arrange m v t) := by
      have hdistinct := (reorders_arrange m v t).hasDistinctNames hv
      obtain ⟨r, hr, hsettles⟩ := exists_reads_of_fits (hfits.arrange hv) hdistinct
      rw [hsettles.eq_self] at hr
      · exact hr
      · intro s kind hkind hholds
        obtain ⟨source, hsource, heq⟩ := exists_holdsValue_of_arrange hholds
        rw [eq_str_of_arrange heq.symm] at hsource
        exact htexts s kind hkind hsource
    refine ⟨arrange m v t, ?_, reorders_arrange m v t, isInOrder_arrange hfits hv,
      arrange_of_isInOrder hfits hv⟩
    apply outcome_echo hop hparameters hlength
    · rw [List.zip_cons_cons, List.forall_mem_cons]
      exact ⟨hfits _, hothers⟩
    · rw [hreturn]
      exact reads_iff.mp hsent

/-- An operation that returns what its first parameter takes. -/
def keepOperation : Operation where
  name := "keep"
  parameters := [⟨"entry", .complex "Entry", false⟩, ⟨"copies", .primitive .int, true⟩]
  returnType := .complex "Entry"
  soapAction := none
  style := .rpc
  soapVersion := .soap11
  namespaceName := some "urn:ledger"
  requestElement := "keep"
  qualifiedParameters := false
  resultElement := some "entry"

/-- A model with this operation. Two fields of its type share a name. -/
def ledgerModel : ServiceModel where
  targetNamespace := none
  services := [⟨"Ledger", none, [keepOperation]⟩]
  types := [⟨"Entry", [⟨"price", .primitive .decimal, false⟩, ⟨"note", .primitive .string, true⟩,
    ⟨"note", .primitive .anyType, true⟩, ⟨"next", .complex "Entry", true⟩]⟩]

/-- An entry with a text that is no number and a number that is none. Its members are in another
order than the declared one, and an echo brings them back in this one. -/
theorem coerce_of_check_entry :
    let price : Json := .whole ⟨5, by decide, by decide⟩
    let entry := Json.obj [("next", .null), ("note", .str " 1.50 "), ("price", price)]
    coerce ledgerModel entry (.complex "Entry") = .ok entry ∧
      ∃ w, (invoke ledgerModel Transport.echo "Ledger" "keep" [entry, .null]).outcome = .ok w ∧
        entry.Reorders w ∧ ledgerModel.IsInOrder w (.complex "Entry") := by
  intro price entry
  have hdistinct : entry.Everywhere Json.HasDistinctNames := by
    simp [entry, price, Json.Everywhere, Json.EverywhereInMembers, Json.HasDistinctNames]
  have hchecked :
      check ledgerModel entry (.complex "Entry") false (.ofStart "entry") = .ok () := rfl
  have htexts : ∀ s kind, kind.isFractional = true →
      ¬ ledgerModel.HoldsValue entry (.complex "Entry") (.str s) (.primitive kind) := by
    intro s kind hkind hholds
    simp only [entry, price] at hholds
    cases hholds with
    | @member _ _ name c field v _ _ hc hmem hfield hinside =>
      obtain rfl := Option.some.inj hc
      simp only [List.mem_cons, Prod.mk.injEq, List.not_mem_nil, or_false] at hmem
      rcases hmem with ⟨rfl, rfl⟩ | ⟨rfl, rfl⟩ | ⟨rfl, rfl⟩
      · cases hinside
      · obtain rfl := Option.some.inj hfield
        cases hinside
        cases hkind
      · cases hinside
  obtain ⟨-, hsame⟩ := coerce_of_check ledgerModel hdistinct hchecked
  obtain ⟨hread, hecho⟩ := hsame htexts
  have hothers : ∀ bound ∈ [(⟨"copies", .primitive .int, true⟩, .null)],
      checkArgument ledgerModel bound = .ok () := by
    rw [List.forall_mem_singleton]
    rfl
  obtain ⟨w, houtcome, hreorders, hinOrder, -⟩ := hecho "Ledger" "keep" keepOperation "entry"
    [⟨"copies", .primitive .int, true⟩] [.null] rfl rfl rfl rfl hothers
  exact ⟨hread, w, houtcome, hreorders, hinOrder⟩

end SoapClient
