/-!
Cutting a text at the first place where a character or a marker stands. The part in front never
holds what was cut at, and the part behind is shorter than the whole.
-/

namespace SoapClient.Text

/-- The characters before the first `mark` and those after it. -/
def cutAt (mark : Char) : List Char → Option (List Char × List Char)
  | [] => none
  | c :: cs =>
    if c = mark then some ([], cs)
    else (cutAt mark cs).map fun (before, after) => (c :: before, after)

/-- The text before the first `mark` and the text after it. -/
def splitFirst? (mark : Char) (s : String) : Option (String × String) :=
  (cutAt mark s.toList).map fun (before, after) => (String.ofList before, String.ofList after)

/-- The parts between the places where `mark` stands, one more than there are marks. -/
def cutAll (mark : Char) : List Char → List (List Char)
  | [] => [[]]
  | c :: cs =>
    if c = mark then [] :: cutAll mark cs
    else
      match cutAll mark cs with
      | [] => [[c]]
      | part :: parts => (c :: part) :: parts

/-- What follows `marker` where the characters start with it. -/
def afterMarker? : List Char → List Char → Option (List Char)
  | [], cs => some cs
  | _ :: _, [] => none
  | m :: ms, c :: cs => if m = c then afterMarker? ms cs else none

/-- The characters before the first place where `marker` stands, and those after it. -/
def cutAtMarker (marker : List Char) : List Char → Option (List Char × List Char)
  | [] => (afterMarker? marker []).map fun after => ([], after)
  | c :: cs =>
    match afterMarker? marker (c :: cs) with
    | some after => some ([], after)
    | none => (cutAtMarker marker cs).map fun (before, after) => (c :: before, after)

/-- A cut loses nothing but the mark. -/
theorem cutAt_eq_some {mark : Char} {cs before after : List Char}
    (h : cutAt mark cs = some (before, after)) :
    cs = before ++ mark :: after ∧ mark ∉ before := by
  induction cs generalizing before with
  | nil => simp [cutAt] at h
  | cons c cs ih =>
    by_cases hc : c = mark
    · simp only [cutAt, hc, ↓reduceIte, Option.some.injEq, Prod.mk.injEq] at h
      obtain ⟨rfl, rfl⟩ := h
      simp [hc]
    · simp only [cutAt, hc, ↓reduceIte, Option.map_eq_some_iff, Prod.mk.injEq] at h
      obtain ⟨⟨b, a⟩, hcut, rfl, rfl⟩ := h
      obtain ⟨rfl, hb⟩ := ih hcut
      exact ⟨rfl, by simp [hb, Ne.symm hc]⟩

/-- Where the mark stands, the cut is made at its first occurrence. -/
theorem cutAt_append {mark : Char} {before : List Char} (after : List Char) (h : mark ∉ before) :
    cutAt mark (before ++ mark :: after) = some (before, after) := by
  induction before with
  | nil => simp [cutAt]
  | cons c cs ih =>
    simp only [List.mem_cons, not_or] at h
    simp [cutAt, Ne.symm h.1, ih h.2]

/-- Without the mark there is no cut. -/
theorem cutAt_eq_none_iff {mark : Char} {cs : List Char} : cutAt mark cs = none ↔ mark ∉ cs := by
  induction cs with
  | nil => simp [cutAt]
  | cons c cs ih =>
    by_cases hc : c = mark
    · simp [cutAt, hc]
    · simp [cutAt, hc, ih, Ne.symm hc]

/-- A part holds no character but those of the whole. -/
theorem mem_of_mem_cutAll {mark c : Char} {cs part : List Char} (hp : part ∈ cutAll mark cs)
    (hc : c ∈ part) : c ∈ cs := by
  induction cs generalizing part with
  | nil => simp_all [cutAll]
  | cons d cs ih =>
    unfold cutAll at hp
    split at hp
    · rw [List.mem_cons] at hp
      rcases hp with rfl | hp
      · simp at hc
      · exact List.mem_cons_of_mem d (ih hp hc)
    · split at hp
      · simp_all
      · next first parts hcut =>
        rw [hcut] at ih
        rw [List.mem_cons] at hp
        rcases hp with rfl | hp
        · rw [List.mem_cons] at hc ⊢
          exact hc.imp_right (ih List.mem_cons_self)
        · exact List.mem_cons_of_mem d (ih (List.mem_cons_of_mem first hp) hc)

/-- A marker that stands in front is what is taken away. -/
theorem afterMarker?_eq_some {marker cs after : List Char}
    (h : afterMarker? marker cs = some after) : cs = marker ++ after := by
  induction marker generalizing cs with
  | nil => simpa [afterMarker?] using h
  | cons m ms ih =>
    cases cs with
    | nil => simp [afterMarker?] at h
    | cons c cs =>
      simp only [afterMarker?] at h
      split at h
      · next hm => simp [hm, ih h]
      · simp at h

@[simp] theorem afterMarker?_append (marker after : List Char) :
    afterMarker? marker (marker ++ after) = some after := by
  induction marker with
  | nil => rfl
  | cons m ms ih => simpa [afterMarker?] using ih

/-- A cut at a marker loses nothing but the marker. -/
theorem cutAtMarker_eq_some {marker cs before after : List Char}
    (h : cutAtMarker marker cs = some (before, after)) : cs = before ++ marker ++ after := by
  induction cs generalizing before with
  | nil =>
    simp only [cutAtMarker, Option.map_eq_some_iff, Prod.mk.injEq] at h
    obtain ⟨a, ha, rfl, rfl⟩ := h
    simpa using afterMarker?_eq_some ha
  | cons c cs ih =>
    rw [cutAtMarker] at h
    split at h
    · next a ha =>
      simp only [Option.some.injEq, Prod.mk.injEq] at h
      obtain ⟨rfl, rfl⟩ := h
      simpa using afterMarker?_eq_some ha
    · simp only [Option.map_eq_some_iff, Prod.mk.injEq] at h
      obtain ⟨⟨b, a⟩, hcut, rfl, rfl⟩ := h
      simp [ih hcut]

end SoapClient.Text
