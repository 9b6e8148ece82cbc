import Mathlib.Data.List.Forall2
import SoapClient.Xml.Element

/-!
# Elements that resemble one another

An element resembles another one where their tags compare and their children resemble one another
one by one, but for additional children on one side. What is looked up among the children is found
on both sides alike (`ResembleInside.filter`, `ResembleInside.find?`), unless an additional child
gets in the way.
-/

namespace SoapClient.Xml

/-- What is compared: the tags of elements, and which elements an element may hold in addition. -/
structure Comparison where
  tag : Element → Element → Prop
  extra : Element → Element → Prop

mutual

/-- Two elements with tags that compare, the second one with additional elements inside. -/
inductive Resembles (C : Comparison) : Element → Element → Prop
  | intro {e e' : Element} : C.tag e e' → ResembleInside C e e.children e'.children →
      Resembles C e e'

/-- The children of a parent, and resembling ones with additional ones among them. -/
inductive ResembleInside (C : Comparison) : Element → List Element → List Element → Prop
  | nil {parent : Element} : ResembleInside C parent [] []
  | cons {parent e e' : Element} {es es' : List Element} : Resembles C e e' →
      ResembleInside C parent es es' → ResembleInside C parent (e :: es) (e' :: es')
  | extra {parent e : Element} {es es' : List Element} : C.extra parent e →
      ResembleInside C parent es es' → ResembleInside C parent es (e :: es')

end

variable {C D : Comparison} {e e' parent : Element} {es es' : List Element}

theorem Resembles.tag (h : Resembles C e e') : C.tag e e' := by
  cases h with
  | intro htag _ => exact htag

theorem Resembles.inside (h : Resembles C e e') : ResembleInside C e e.children e'.children := by
  cases h with
  | intro _ hinside => exact hinside

mutual

/-- A comparison that tells less apart. -/
theorem Resembles.mono (htag : ∀ e e', C.tag e e' → D.tag e e')
    (hextra : ∀ parent e, C.extra parent e → D.extra parent e) {e e' : Element}
    (h : Resembles C e e') : Resembles D e e' := by
  match h with
  | .intro h hinside => exact .intro (htag _ _ h) (hinside.mono htag hextra)

theorem ResembleInside.mono (htag : ∀ e e', C.tag e e' → D.tag e e')
    (hextra : ∀ parent e, C.extra parent e → D.extra parent e) {parent : Element}
    {es es' : List Element} (h : ResembleInside C parent es es') :
    ResembleInside D parent es es' := by
  match h with
  | .nil => exact .nil
  | .cons hfirst hrest => exact .cons (hfirst.mono htag hextra) (hrest.mono htag hextra)
  | .extra hfirst hrest => exact .extra (hextra _ _ hfirst) (hrest.mono htag hextra)

end

mutual

/-- An element resembles itself. -/
theorem Resembles.refl (htag : ∀ e, C.tag e e) (e : Element) : Resembles C e e := by
  match e with
  | ⟨_, _, _, _, children, _⟩ => exact .intro (htag _) (ResembleInside.refl htag _ children)

theorem ResembleInside.refl (htag : ∀ e, C.tag e e) (parent : Element) (es : List Element) :
    ResembleInside C parent es es := by
  match es with
  | [] => exact .nil
  | e :: rest => exact .cons (Resembles.refl htag e) (ResembleInside.refl htag parent rest)

end

/-- What is told by the tags is told alike, and is told of no additional element. -/
structure Comparison.Tells (C : Comparison) (p : Element → Bool) : Prop where
  tag : ∀ e e', C.tag e e' → p e = p e'
  extra : ∀ parent e, C.extra parent e → p e = false

variable {p : Element → Bool}

/-- The children of a kind resemble one another one by one. -/
theorem ResembleInside.filter (hp : C.Tells p) {es es' : List Element}
    (h : ResembleInside C parent es es') :
    List.Forall₂ (Resembles C) (es.filter p) (es'.filter p) := by
  match h with
  | .nil => exact .nil
  | @ResembleInside.cons _ _ e e' _ _ hfirst hrest =>
    have hrest := hrest.filter hp
    rw [List.filter_cons, List.filter_cons, ← hp.tag e e' hfirst.tag]
    split
    · exact .cons hfirst hrest
    · exact hrest
  | .extra hfirst hrest =>
    rw [List.filter_cons_of_neg (by rw [hp.extra _ _ hfirst]; decide)]
    exact hrest.filter hp

/-- The first ones of lists that are related one by one. -/
theorem rel_head? {α β : Type} {R : α → β → Prop} {as : List α} {bs : List β}
    (h : List.Forall₂ R as bs) : Option.Rel R as.head? bs.head? := by
  cases h with
  | nil => exact .none
  | cons hfirst _ => exact .some hfirst

/-- The first children of a kind resemble one another, where there are such. -/
theorem ResembleInside.find? (hp : C.Tells p) (h : ResembleInside C parent es es') :
    Option.Rel (Resembles C) (es.find? p) (es'.find? p) := by
  rw [← List.head?_filter, ← List.head?_filter]
  exact rel_head? (h.filter hp)

end SoapClient.Xml
