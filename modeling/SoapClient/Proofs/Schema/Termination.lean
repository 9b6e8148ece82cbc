import Mathlib.Data.List.Chain
import Mathlib.Data.List.Perm.Subperm
import SoapClient.Proofs.Schema.Faults
import SoapClient.Proofs.Schema.Meaning

/-!
# Resolutions end

Resolving a name comes to other names, and one of these may come to the first one again. On every
such way something is used up: a named type is in progress, or a structured type that is declared in
a global element is noted. What is left of these is `Components.stepsLeft`, and it gets less from
name to name (`stepsLeft_lt_of_comesTo`). So the depth that is allowed is never reached
(`resolve_ends`), and resolving a name is what its recursion says (`resolve_eq`).
-/

namespace SoapClient.Schema

open Outcome
open Xml (QName)

variable {c : Components} {s s' : Resolution}

/-! ## Chains of bases -/

/-- Following bases ends: each name is seen once at most, so there is always a step left where the
steps are more than the names. -/
theorem isAnswer_checkDerivation_of_lt (c : Components) (start : QName) {fuel : Nat}
    {seen : List QName} (hseen : seen.Nodup) (hdeclared : seen ⊆ c.typeNames)
    (hfuel : c.complexTypes.length < fuel + seen.length) (name : QName) :
    IsAnswer (checkDerivation c start fuel seen name) := by
  induction fuel generalizing seen name with
  | zero =>
    have hlength : seen.length ≤ c.typeNames.length := (hseen.subperm hdeclared).length_le
    rw [Components.typeNames, Table.keys, List.length_map] at hlength
    omega
  | succ fuel ih =>
    rw [checkDerivation]
    cases hfind : Table.find? name c.complexTypes with
    | none => exact .ok ()
    | some decl =>
      refine .bind (isAnswer_followOption _) fun next? => ?_
      by_cases hname : name ∈ seen
      · rw [if_pos hname]
        exact .error rfl
      · rw [if_neg hname]
        cases next? with
        | none => exact .ok ()
        | some next =>
          have hmem : name ∈ c.typeNames := List.mem_map.mpr
            ⟨(name, decl), Components.mem_of_find? hfind, rfl⟩
          have hlength : c.complexTypes.length < fuel + (name :: seen).length := by
            rw [List.length_cons]
            omega
          exact ih (List.nodup_cons.mpr ⟨hname, hseen⟩) (List.cons_subset.mpr ⟨hmem, hdeclared⟩)
            hlength next

/-- Following bases from any name ends. -/
theorem isAnswer_checkDerivation (c : Components) (start name : QName) :
    IsAnswer (checkDerivation c start (c.complexTypes.length + 1) [] name) :=
  isAnswer_checkDerivation_of_lt c start List.nodup_nil (List.nil_subset _) (by simp) name

/-- Where there is a step left, any more make no difference. -/
theorem checkDerivation_eq (c : Components) (start : QName) {fuel : Nat} {seen : List QName}
    (name : QName) (h : checkDerivation c start fuel seen name ≠ .error .unfinished) (more : Nat) :
    checkDerivation c start (fuel + more) seen name = checkDerivation c start fuel seen name := by
  induction fuel generalizing seen name with
  | zero => exact absurd rfl h
  | succ fuel ih =>
    have hfuel : fuel + 1 + more = fuel + more + 1 := by omega
    rw [hfuel, checkDerivation, checkDerivation]
    rw [checkDerivation] at h
    cases hfind : Table.find? name c.complexTypes with
    | none => rfl
    | some decl =>
      simp only [hfind] at h ⊢
      cases hbase : Reference.followOption decl.base? with
      | error e => rfl
      | ok next? =>
        simp only [hbase, ok_bind] at h ⊢
        by_cases hname : name ∈ seen
        · rw [if_pos hname, if_pos hname]
        · rw [if_neg hname] at h ⊢
          cases next? with
          | none => rw [if_neg hname]
          | some next =>
            rw [if_neg hname]
            exact ih next h

/-! ## Runs of the resolver -/

/-- A type without simple content is entered, its content is collected, and it gets its fields. -/
theorem resolveComplex_eq (c : Components) (follow : Follow) (key : TypeKey) (name : String)
    (content : List Content) (s : Resolution) :
    resolveComplex c follow key name (.mk none content) s =
      match collectContents c follow false content (s.enter key name) with
      | .ok (fields, s') => .ok (.complex name, s'.leave name fields)
      | .error e => .error e := by
  rw [resolveComplex]
  have hbind : ∀ x : Resolve (List Parameter),
      (do
        modify (·.enter key name)
        let fields ← x
        modify (·.leave name fields)
        pure (.complex name) : Resolve TypeRef) s =
      (x (s.enter key name) >>= fun p => .ok (.complex name, p.2.leave name p.1)) := fun _ => rfl
  rw [hbind]
  cases collectContents c follow false content (s.enter key name) with
  | error e => rfl
  | ok p => rfl

/-- A name is taken for a built-in type, or as what is noted for it; a new name is in progress while
its declaration is resolved. -/
theorem resolveTarget_type (c : Components) (follow : Follow) (name : QName) (s : Resolution) :
    resolveTarget c follow (.type name) s =
      if IsBuiltin name then .ok (builtin name, s)
      else
        match Table.find? (.named name) s.resolved with
        | some t => .ok (t, s)
        | none =>
          if name ∈ s.inProgress then .error (.cyclicDerivation name)
          else
            match resolveDeclared c follow name { s with inProgress := name :: s.inProgress } with
            | .ok (t, s') => .ok (t, { s' with inProgress := s'.inProgress.erase name })
            | .error e => .error e := by
  -- each step of the program is run on the state, and what is left is the resolution itself
  rw [resolveTarget]
  by_cases hbuiltin : IsBuiltin name
  · have hns : name.namespaceName = some namespaceName ∨
        name.namespaceName = some encodingNamespace := hbuiltin
    rw [if_pos hbuiltin, if_pos hns]
    rfl
  · have hns : ¬ (name.namespaceName = some namespaceName ∨
        name.namespaceName = some encodingNamespace) := hbuiltin
    rw [if_neg hbuiltin, if_neg hns]
    have hknown : ∀ f : Option TypeRef → Resolve TypeRef,
        (known? (.named name) >>= f) s = f (Table.find? (.named name) s.resolved) s := fun _ => rfl
    rw [hknown]
    cases Table.find? (.named name) s.resolved with
    | some t => rfl
    | none =>
      by_cases hprogress : name ∈ s.inProgress
      · have hget : ∀ f : Resolution → Resolve TypeRef, (get >>= f) s = f s s := fun _ => rfl
        simp only [hget, if_pos hprogress]
        rfl
      · have hget : ∀ f : Resolution → Resolve TypeRef, (get >>= f) s = f s s := fun _ => rfl
        have hrun : ∀ x : Resolve TypeRef,
            (do
              set { s with inProgress := name :: s.inProgress }
              let type ← x
              modify fun s => { s with inProgress := s.inProgress.erase name }
              pure type : Resolve TypeRef) s =
            (x { s with inProgress := name :: s.inProgress } >>= fun p =>
              .ok (p.1, { p.2 with inProgress := p.2.inProgress.erase name })) := fun _ => rfl
        simp only [hget, if_neg hprogress, hrun]
        cases resolveDeclared c follow name { s with inProgress := name :: s.inProgress } with
        | error e => rfl
        | ok p => rfl

/-- Resolves a named type for the sake of what it enters. -/
def enterType (c : Components) (name : QName) : Resolve Unit := do
  let _ ← resolve c (.type name)

/-- The resolution of all types fails before it starts where two of them share a local name. -/
theorem resolveAll_eq (c : Components) (s : Resolution) :
    resolveAll c s =
      match firstRepeated? [] c.localTypeNames with
      | some name => .error (.ambiguousType name)
      | none => c.typeNames.forM (enterType c) s := by
  rw [resolveAll]
  cases firstRepeated? [] c.localTypeNames with
  | some name => rfl
  | none => rfl

/-! ## Steps that are left -/

/-- Whether a named type is neither resolved nor in progress. -/
def Resolution.isOpen (s : Resolution) (name : QName) : Bool :=
  name ∉ s.inProgress ∧ Table.find? (.named name) s.resolved = none

/-- Whether a structured type that is declared in a global element is not resolved. -/
def Resolution.isOpenElement (s : Resolution) (decl : ElementDecl) : Bool :=
  match decl.type with
  | .complex path _ => (Table.find? (.inPlace path) s.resolved).isNone
  | _ => false

/-- How many names may be met one after the other: two for each named type, since the way to it may
lead by way of an element, and one for each global element. -/
def Components.weight (c : Components) (s : Resolution) : Nat :=
  2 * (c.typeNames ++ Table.keys c.simpleTypes).countP s.isOpen +
    c.elements.countP fun (_, decl) => s.isOpenElement decl

/-- How many names may lie on the way from a name, the name itself included. -/
def Components.stepsLeft (c : Components) : Target → Resolution → Nat
  | .type _, s => c.weight s + 1
  | .element _, s => c.weight s + 2

/-- There are never more steps left than a resolution is allowed. -/
theorem stepsLeft_le_wayLength (c : Components) (target : Target) (s : Resolution) :
    c.stepsLeft target s ≤ c.wayLength := by
  have htypes : (c.typeNames ++ Table.keys c.simpleTypes).countP s.isOpen ≤
      c.complexTypes.length + c.simpleTypes.length := by
    refine List.countP_le_length.trans ?_
    rw [List.length_append, Components.typeNames, Table.keys, Table.keys, List.length_map,
      List.length_map]
  have helements : (c.elements.countP fun (_, decl) => s.isOpenElement decl) ≤ c.elements.length :=
    List.countP_le_length
  rw [Components.wayLength]
  cases target with
  | type name =>
    rw [Components.stepsLeft, Components.weight]
    omega
  | element name =>
    rw [Components.stepsLeft, Components.weight]
    omega

theorem stepsLeft_pos (c : Components) (target : Target) (s : Resolution) :
    0 < c.stepsLeft target s := by
  cases target <;> exact Nat.succ_pos _

/-- What a part of a resolution leaves as it is: the names that are in progress, and that what is
resolved stays so. -/
structure Settled (s s' : Resolution) : Prop where
  inProgress : s'.inProgress = s.inProgress
  resolved : ∀ key, Table.find? key s'.resolved = none → Table.find? key s.resolved = none

namespace Settled

theorem refl (s : Resolution) : Settled s s := ⟨rfl, fun _ => id⟩

theorem trans {s'' : Resolution} (h : Settled s s') (h' : Settled s' s'') : Settled s s'' :=
  ⟨h'.inProgress.trans h.inProgress, fun key hkey => h.resolved key (h'.resolved key hkey)⟩

/-- Noting what a key stands for. -/
theorem of_cons (key : TypeKey) (t : TypeRef)
    (hprogress : s'.inProgress = s.inProgress) (hresolved : s'.resolved = (key, t) :: s.resolved) :
    Settled s s' := by
  refine ⟨hprogress, fun other hother => ?_⟩
  rw [hresolved, Table.find?] at hother
  split at hother
  · cases hother
  · exact hother

theorem isOpen (h : Settled s s') {name : QName} (hopen : s'.isOpen name) : s.isOpen name := by
  rw [Resolution.isOpen, decide_eq_true_iff] at hopen ⊢
  rw [← h.inProgress]
  exact ⟨hopen.1, h.resolved _ hopen.2⟩

theorem isOpenElement (h : Settled s s') {decl : ElementDecl} (hopen : s'.isOpenElement decl) :
    s.isOpenElement decl := by
  unfold Resolution.isOpenElement at hopen ⊢
  cases hdecl : decl.type with
  | complex path inner =>
    simp only [hdecl, Option.isNone_iff_eq_none] at hopen ⊢
    exact h.resolved _ hopen
  | _ => simp [hdecl] at hopen

/-- What is settled leaves no more steps than there were. -/
theorem weight_le (h : Settled s s') (c : Components) : c.weight s' ≤ c.weight s := by
  have htypes : (c.typeNames ++ Table.keys c.simpleTypes).countP s'.isOpen ≤
      (c.typeNames ++ Table.keys c.simpleTypes).countP s.isOpen :=
    List.countP_mono_left fun _ _ => h.isOpen
  have helements : (c.elements.countP fun (_, decl) => s'.isOpenElement decl) ≤
      c.elements.countP fun (_, decl) => s.isOpenElement decl :=
    List.countP_mono_left fun _ _ => h.isOpenElement
  rw [Components.weight, Components.weight]
  omega

theorem weight_add_le (h : Settled s s') {n k : Nat} (hs : c.weight s + n ≤ k) :
    c.weight s' + n ≤ k :=
  (Nat.add_le_add_right (h.weight_le c) n).trans hs

end Settled

/-- A condition that fewer entries meet is met by one less at least. -/
theorem countP_lt_countP {α : Type} {p q : α → Bool} {as : List α} {a : α}
    (hpq : ∀ b ∈ as, p b → q b) (ha : a ∈ as) (hp : p a = false) (hq : q a) :
    as.countP p + 1 ≤ as.countP q := by
  induction as with
  | nil => cases ha
  | cons b as ih =>
    rw [List.forall_mem_cons] at hpq
    rw [List.countP_cons, List.countP_cons]
    rcases List.mem_cons.mp ha with rfl | ha
    · have hrest : as.countP p ≤ as.countP q := List.countP_mono_left hpq.2
      rw [hp, hq]
      simp only [Bool.false_eq_true, if_false, if_true]
      omega
    · have hrest := ih hpq.2 ha
      by_cases hb : p b
      · rw [if_pos hb, if_pos (hpq.1 hb)]
        omega
      · rw [if_neg hb]
        omega

/-- A type that gets in progress is not open any more. -/
theorem weight_begin {name : QName} (hname : name ∈ c.typeNames ++ Table.keys c.simpleTypes)
    (hprogress : name ∉ s.inProgress) (hresolved : Table.find? (.named name) s.resolved = none) :
    c.weight { s with inProgress := name :: s.inProgress } + 2 ≤ c.weight s := by
  have htypes : (c.typeNames ++ Table.keys c.simpleTypes).countP
      ({ s with inProgress := name :: s.inProgress } : Resolution).isOpen + 1 ≤
      (c.typeNames ++ Table.keys c.simpleTypes).countP s.isOpen := by
    refine countP_lt_countP (fun other _ hother => ?_) hname ?_ ?_
    · rw [Resolution.isOpen, decide_eq_true_iff] at hother ⊢
      exact ⟨fun hmem => hother.1 (List.mem_cons_of_mem _ hmem), hother.2⟩
    · rw [Resolution.isOpen, decide_eq_false_iff_not]
      exact fun h => h.1 List.mem_cons_self
    · rw [Resolution.isOpen, decide_eq_true_iff]
      exact ⟨hprogress, hresolved⟩
  have helements : (c.elements.countP fun (_, decl) =>
      ({ s with inProgress := name :: s.inProgress } : Resolution).isOpenElement decl) =
      c.elements.countP fun (_, decl) => s.isOpenElement decl := rfl
  rw [Components.weight, Components.weight, helements]
  omega

theorem settled_enter (s : Resolution) (key : TypeKey) (name : String) :
    Settled s (s.enter key name) :=
  .of_cons key (.complex name) rfl rfl

/-- A structured type in a global element that is entered is not open any more. -/
theorem weight_enter {element : QName} {decl : ElementDecl}
    (hfind : Table.find? element c.elements = some decl) {path : List Nat} {inner : ComplexDecl}
    (htype : decl.type = .complex path inner)
    (hresolved : Table.find? (.inPlace path) s.resolved = none) (name : String) :
    c.weight (s.enter (.inPlace path) name) + 1 ≤ c.weight s := by
  have hsettled := settled_enter s (.inPlace path) name
  have htypes : (c.typeNames ++ Table.keys c.simpleTypes).countP
      (s.enter (.inPlace path) name).isOpen ≤
      (c.typeNames ++ Table.keys c.simpleTypes).countP s.isOpen :=
    List.countP_mono_left fun _ _ => hsettled.isOpen
  have helements : (c.elements.countP fun (_, decl) =>
      (s.enter (.inPlace path) name).isOpenElement decl) + 1 ≤
      c.elements.countP fun (_, decl) => s.isOpenElement decl := by
    refine countP_lt_countP (fun _ _ => hsettled.isOpenElement) (Components.mem_of_find? hfind)
      ?_ ?_
    · simp [Resolution.isOpenElement, htype, Resolution.enter, Table.find?]
    · simp [Resolution.isOpenElement, htype, hresolved]
  rw [Components.weight, Components.weight]
  omega

/-! ## Steps that end alike -/

/-- Two steps do the same from a state, the depth is not reached, and what is left is settled. -/
structure Alike {α : Type} (x y : Resolve α) (s : Resolution) : Prop where
  eq : x s = y s
  ends : y s ≠ .error .unfinished
  settled : ∀ a s', y s = .ok (a, s') → Settled s s'

namespace Alike

variable {α β : Type} {x y : Resolve α} {f g : α → Resolve β}

theorem pure (a : α) (s : Resolution) : Alike (Pure.pure a : Resolve α) (Pure.pure a) s := by
  refine ⟨rfl, (fun h => nomatch h), fun b s' h => ?_⟩
  obtain ⟨-, rfl⟩ := Prod.mk.inj (Except.ok.inj h)
  exact .refl s

theorem throw {e : DescriptionError} (h : e ≠ .unfinished) (s : Resolution) :
    Alike (MonadExcept.throw e : Resolve α) (MonadExcept.throw e) s :=
  ⟨rfl, fun heq => h (Except.error.inj heq), fun _ _ h => nomatch h⟩

theorem lift {result : Except DescriptionError α} (h : IsAnswer result) (s : Resolution) :
    Alike (Schema.lift result) (Schema.lift result) s := by
  cases result with
  | ok a => exact .pure a s
  | error e => exact .throw (fun heq => h.ne_unfinished (congrArg _ heq)) s

theorem bind (hx : Alike x y s) (hf : ∀ a s', Settled s s' → Alike (f a) (g a) s') :
    Alike (x >>= f) (y >>= g) s := by
  have hbind : ∀ (x : Resolve α) (f : α → Resolve β), (x >>= f) s = x s >>= fun p => f p.1 p.2 :=
    fun _ _ => rfl
  cases hy : y s with
  | error e =>
    refine ⟨?_, ?_, ?_⟩
    · rw [hbind, hbind, hx.eq, hy]
      rfl
    · rw [hbind, hy]
      exact fun h => hx.ends (hy.trans (congrArg _ (Except.error.inj h)))
    · rw [hbind, hy]
      exact fun _ _ h => nomatch h
  | ok p =>
    have hstep := hx.settled p.1 p.2 hy
    have hrest := hf p.1 p.2 hstep
    refine ⟨?_, ?_, ?_⟩
    · rw [hbind, hbind, hx.eq, hy]
      exact hrest.eq
    · rw [hbind, hy]
      exact hrest.ends
    · rw [hbind, hy]
      exact fun b s' h => hstep.trans (hrest.settled b s' h)

/-- A change of the state that settles nothing but what it says. -/
theorem change {f : Resolution → Resolution} (h : Settled s (f s)) :
    Alike (modify f : Resolve Unit) (modify f) s := by
  refine ⟨rfl, (fun h => nomatch h), fun _ s' heq => ?_⟩
  obtain ⟨-, rfl⟩ := Prod.mk.inj (Except.ok.inj heq)
  exact h

/-- What comes of steps is all that counts. -/
theorem congr {x' y' : Resolve α} (h : Alike x y s) (hx : x' s = x s) (hy : y' s = y s) :
    Alike x' y' s := by
  refine ⟨?_, ?_, ?_⟩
  · rw [hx, hy, h.eq]
  · rw [hy]
    exact h.ends
  · rw [hy]
    exact h.settled

/-- A look at what a key stands for. -/
theorem known {key : TypeKey} {f g : Option TypeRef → Resolve β}
    (h : Alike (f (Table.find? key s.resolved)) (g (Table.find? key s.resolved)) s) :
    Alike (known? key >>= f) (known? key >>= g) s :=
  ⟨h.eq, h.ends, h.settled⟩

/-- A look at the state. -/
theorem get {f g : Resolution → Resolve β} (h : Alike (f s) (g s) s) :
    Alike (MonadState.get >>= f) (MonadState.get >>= g) s :=
  ⟨h.eq, h.ends, h.settled⟩

end Alike

/-! ## Depths that are alike -/

/-- Names from which at most `k` may lie on the way are followed alike. -/
def AreAlikeUpTo (c : Components) (k : Nat) (follow follow' : Follow) : Prop :=
  ∀ target s, c.stepsLeft target s ≤ k → Alike (follow target) (follow' target) s

variable {k : Nat} {follow follow' : Follow}

/-- A name of a type is followed alike where one step is left. -/
theorem AreAlikeUpTo.type (h : AreAlikeUpTo c k follow follow') (hs : c.weight s + 1 ≤ k)
    (name : QName) : Alike (follow (.type name)) (follow' (.type name)) s :=
  h (.type name) s hs

theorem resolveSimple_alike (h : AreAlikeUpTo c k follow follow') (depth : Nat) (decl : SimpleDecl)
    (hs : c.weight s + 1 ≤ k) :
    Alike (resolveSimple c follow depth decl) (resolveSimple c follow' depth decl) s := by
  induction depth generalizing decl s with
  | zero =>
    rw [resolveSimple, resolveSimple]
    exact .throw (by simp) s
  | succ depth ih =>
    match decl with
    | .text => exact .pure _ s
    | .restriction none none => exact .pure _ s
    | .restriction none (some inner) => exact ih inner hs
    | .restriction (some base) inner =>
      rw [resolveSimple, resolveSimple]
      refine .bind (.lift (isAnswer_follow base) s) fun name s' hsettled => ?_
      have hs' := hsettled.weight_add_le hs
      by_cases hbuiltin : name.namespaceName = some namespaceName
      · rw [if_pos hbuiltin, if_pos hbuiltin]
        exact .pure _ s'
      · rw [if_neg hbuiltin, if_neg hbuiltin]
        cases Table.find? name c.simpleTypes with
        | some decl => exact ih decl hs'
        | none => exact h.type hs' name

/-- The fields of a type are looked up without a name being followed. -/
theorem fieldsOf_alike (name : String) (s : Resolution) :
    Alike (fieldsOf name) (fieldsOf name) s := by
  refine ⟨rfl, ?_, fun fields s' h => ?_⟩
  · rw [fieldsOf]
    cases s.fields? name with
    | some fields => exact fun h => nomatch h
    | none => exact fun h => nomatch h
  · rw [fieldsOf] at h
    cases hfields : s.fields? name with
    | some found =>
      rw [hfields] at h
      obtain ⟨-, rfl⟩ := Prod.mk.inj (Except.ok.inj h)
      exact .refl s
    | none =>
      rw [hfields] at h
      cases h

theorem inheritedFields_alike (h : AreAlikeUpTo c k follow follow') (base : QName)
    (hs : c.weight s + 1 ≤ k) :
    Alike (inheritedFields c follow base) (inheritedFields c follow' base) s := by
  rw [inheritedFields, inheritedFields]
  refine .bind (.lift (isAnswer_checkDerivation c base base) s) fun _ s₁ h₁ => ?_
  refine .bind (h.type (h₁.weight_add_le hs) base) fun type s₂ _ => ?_
  cases type with
  | complex name => exact fieldsOf_alike name s₂
  | _ => exact .pure _ s₂

theorem baseFields_alike (h : AreAlikeUpTo c k follow follow') (base : Option Reference)
    (hs : c.weight s + 1 ≤ k) :
    Alike (baseFields c follow base) (baseFields c follow' base) s := by
  rw [baseFields, baseFields]
  refine .bind (.lift (isAnswer_followOption base) s) fun name? s' hsettled => ?_
  cases name? with
  | none => exact .pure _ s'
  | some name => exact inheritedFields_alike h name (hsettled.weight_add_le hs)

theorem simpleContentType_alike (h : AreAlikeUpTo c k follow follow') (base : Option Reference)
    (hs : c.weight s + 1 ≤ k) :
    Alike (simpleContentType follow base) (simpleContentType follow' base) s := by
  rw [simpleContentType, simpleContentType]
  refine .bind (.lift (isAnswer_followOption base) s) fun name? s' hsettled => ?_
  cases name? with
  | none => exact .pure _ s'
  | some name => exact h.type (hsettled.weight_add_le hs) name

theorem note_alike (key : TypeKey) (t : TypeRef) (s : Resolution) :
    Alike (note key t) (note key t) s :=
  .change (.of_cons key t rfl rfl)

/-- A type is entered, its content is collected alike, and it gets its fields. -/
theorem resolveContent_alike (key : TypeKey) (name : String) {content : List Content}
    (h : Alike (collectContents c follow false content) (collectContents c follow' false content)
      (s.enter key name)) :
    Alike (resolveComplex c follow key name (.mk none content))
      (resolveComplex c follow' key name (.mk none content)) s := by
  cases hcollect : collectContents c follow' false content (s.enter key name) with
  | error e =>
    refine ⟨?_, ?_, ?_⟩
    · rw [resolveComplex_eq, resolveComplex_eq, h.eq]
    · rw [resolveComplex_eq, hcollect]
      exact fun heq => h.ends (hcollect.trans (congrArg _ (Except.error.inj heq)))
    · rw [resolveComplex_eq, hcollect]
      exact fun _ _ heq => nomatch heq
  | ok p =>
    have hcontent := h.settled p.1 p.2 hcollect
    refine ⟨?_, ?_, ?_⟩
    · rw [resolveComplex_eq, resolveComplex_eq, h.eq]
    · rw [resolveComplex_eq, hcollect]
      exact fun heq => nomatch heq
    · intro t s' heq
      rw [resolveComplex_eq, hcollect] at heq
      obtain ⟨-, rfl⟩ := Prod.mk.inj (Except.ok.inj heq)
      exact ((settled_enter s key name).trans hcontent).trans ⟨rfl, fun _ => id⟩

mutual

theorem resolveComplex_alike (h : AreAlikeUpTo c k follow follow') (key : TypeKey) (name : String)
    (decl : ComplexDecl) {s : Resolution} (hs : c.weight s + 1 ≤ k)
    (henter : c.weight (s.enter key name) + 2 ≤ k) :
    Alike (resolveComplex c follow key name decl) (resolveComplex c follow' key name decl) s := by
  match decl with
  | .mk (some base) content =>
    rw [resolveComplex, resolveComplex]
    refine .bind (simpleContentType_alike h base hs) fun t s₁ _ => ?_
    refine .bind (note_alike key t s₁) fun _ s₂ _ => ?_
    exact .pure _ s₂
  | .mk none content =>
    exact resolveContent_alike key name (collectContents_alike h false content henter)

theorem collectContents_alike (h : AreAlikeUpTo c k follow follow') (isForced : Bool)
    (parts : List Content) {s : Resolution} (hs : c.weight s + 2 ≤ k) :
    Alike (collectContents c follow isForced parts) (collectContents c follow' isForced parts)
      s := by
  match parts with
  | [] => exact .pure _ s
  | part :: rest =>
    rw [collectContents, collectContents]
    refine .bind (collectContent_alike h isForced part hs) fun fields s₁ h₁ => ?_
    refine .bind (collectContents_alike h isForced rest (h₁.weight_add_le hs)) fun others s₂ _ => ?_
    exact .pure _ s₂

theorem collectContent_alike (h : AreAlikeUpTo c k follow follow') (isForced : Bool)
    (part : Content) {s : Resolution} (hs : c.weight s + 2 ≤ k) :
    Alike (collectContent c follow isForced part) (collectContent c follow' isForced part) s := by
  match part with
  | .group occurs items =>
    rw [collectContent, collectContent]
    exact collectContents_alike h _ items hs
  | .choice occurs items =>
    rw [collectContent, collectContent]
    exact collectContents_alike h true items hs
  | .derived derivations =>
    rw [collectContent, collectContent]
    exact collectDerivations_alike h isForced derivations hs
  | .elementRef occurs target =>
    rw [collectContent, collectContent]
    refine .bind (.lift (isAnswer_follow target) s) fun name s₁ h₁ => ?_
    refine .bind (h (.element name) s₁ (h₁.weight_add_le hs)) fun t s₂ _ => ?_
    exact .pure _ s₂
  | .element occurs name type =>
    rw [collectContent, collectContent]
    refine .bind (.lift (isAnswer_required _ _ name) s) fun name s₁ h₁ => ?_
    refine .bind (resolveElementType_alike h name type (h₁.weight_add_le hs)) fun t s₂ _ => ?_
    exact .pure _ s₂

theorem collectDerivations_alike (h : AreAlikeUpTo c k follow follow') (isForced : Bool)
    (derivations : List (Option Reference × List Content)) {s : Resolution}
    (hs : c.weight s + 2 ≤ k) :
    Alike (collectDerivations c follow isForced derivations)
      (collectDerivations c follow' isForced derivations) s := by
  match derivations with
  | [] => exact .pure _ s
  | (base, content) :: rest =>
    rw [collectDerivations, collectDerivations]
    have hbase : c.weight s + 1 ≤ k := by omega
    refine .bind (baseFields_alike h base hbase) fun inherited s₁ h₁ => ?_
    have hs₁ := h₁.weight_add_le hs
    refine .bind (collectContents_alike h isForced content hs₁) fun added s₂ h₂ => ?_
    have hs₂ := h₂.weight_add_le hs₁
    refine .bind (collectDerivations_alike h isForced rest hs₂) fun others s₃ _ => ?_
    exact .pure _ s₃

theorem resolveElementType_alike (h : AreAlikeUpTo c k follow follow') (name : String)
    (type : ElementType) {s : Resolution} (hs : c.weight s + 2 ≤ k) :
    Alike (resolveElementType c follow name type) (resolveElementType c follow' name type) s := by
  have hs' : c.weight s + 1 ≤ k := by omega
  match type with
  | .named target =>
    rw [resolveElementType, resolveElementType]
    exact .bind (.lift (isAnswer_follow target) s) fun name s₁ h₁ =>
      h.type (h₁.weight_add_le hs') name
  | .complex path decl =>
    rw [resolveElementType, resolveElementType]
    apply Alike.known
    cases Table.find? (.inPlace path) s.resolved with
    | some t => exact .pure t s
    | none =>
      have henter := settled_enter s (.inPlace path) (s.anonymousName c.localTypeNames name)
      exact .get (resolveComplex_alike h (.inPlace path) _ decl hs' (henter.weight_add_le hs))
  | .simple decl =>
    rw [resolveElementType, resolveElementType]
    exact resolveSimple_alike h _ decl hs'
  | .any => exact .pure _ s

end

/-! ## Names -/

theorem resolveDeclared_alike (h : AreAlikeUpTo c k follow follow') (name : QName)
    (hs : c.weight s + 2 ≤ k) :
    Alike (resolveDeclared c follow name) (resolveDeclared c follow' name) s := by
  have hs' : c.weight s + 1 ≤ k := by omega
  rw [resolveDeclared, resolveDeclared]
  cases Table.find? name c.complexTypes with
  | some decl =>
    have henter := settled_enter s (.named name) name.localName
    exact resolveComplex_alike h _ _ decl hs' (henter.weight_add_le hs)
  | none =>
    cases Table.find? name c.simpleTypes with
    | some decl => exact resolveSimple_alike h _ decl hs'
    | none => exact .throw (by simp) s

/-- What is not declared is not resolved. -/
theorem resolveDeclared_of_notMem (follow : Follow) {name : QName}
    (h : name ∉ c.typeNames ++ Table.keys c.simpleTypes) :
    resolveDeclared c follow name = throw (.undefinedType name) := by
  rw [List.mem_append, not_or] at h
  rw [resolveDeclared]
  cases hcomplex : Table.find? name c.complexTypes with
  | some decl =>
    exact absurd (List.mem_map.mpr ⟨_, Components.mem_of_find? hcomplex, rfl⟩) h.1
  | none =>
    cases hsimple : Table.find? name c.simpleTypes with
    | some decl => exact absurd (List.mem_map.mpr ⟨_, Components.mem_of_find? hsimple, rfl⟩) h.2
    | none => rfl

/-- A type is in progress while its declaration is resolved alike, and not any more then. -/
theorem resolveNew_alike {name : QName} (hbuiltin : ¬ IsBuiltin name)
    (hresolved : Table.find? (.named name) s.resolved = none) (hprogress : name ∉ s.inProgress)
    (h : Alike (resolveDeclared c follow name) (resolveDeclared c follow' name)
      { s with inProgress := name :: s.inProgress }) :
    Alike (resolveTarget c follow (.type name)) (resolveTarget c follow' (.type name)) s := by
  have hrun : ∀ follow : Follow, resolveTarget c follow (.type name) s =
      match resolveDeclared c follow name { s with inProgress := name :: s.inProgress } with
      | .ok (t, s') => .ok (t, { s' with inProgress := s'.inProgress.erase name })
      | .error e => .error e := by
    intro follow
    rw [resolveTarget_type, if_neg hbuiltin, hresolved]
    simp only [if_neg hprogress]
  cases hdeclared : resolveDeclared c follow' name
      { s with inProgress := name :: s.inProgress } with
  | error e =>
    refine ⟨?_, ?_, ?_⟩
    · rw [hrun, hrun, h.eq]
    · rw [hrun, hdeclared]
      exact fun heq => h.ends (hdeclared.trans (congrArg _ (Except.error.inj heq)))
    · rw [hrun, hdeclared]
      exact fun _ _ heq => nomatch heq
  | ok p =>
    have hsettled := h.settled p.1 p.2 hdeclared
    refine ⟨?_, ?_, ?_⟩
    · rw [hrun, hrun, h.eq]
    · rw [hrun, hdeclared]
      exact fun heq => nomatch heq
    · intro t s' heq
      rw [hrun, hdeclared] at heq
      obtain ⟨-, rfl⟩ := Prod.mk.inj (Except.ok.inj heq)
      refine ⟨?_, hsettled.resolved⟩
      have hbehind : p.2.inProgress = name :: s.inProgress := hsettled.inProgress
      have herase : p.2.inProgress.erase name = s.inProgress := by
        rw [hbehind, List.erase_cons_head]
      exact herase

/-- A named type is resolved alike with one name more on the way. -/
theorem resolveType_alike (h : AreAlikeUpTo c k follow follow') (name : QName)
    (hs : c.weight s ≤ k) :
    Alike (resolveTarget c follow (.type name)) (resolveTarget c follow' (.type name)) s := by
  by_cases hbuiltin : IsBuiltin name
  · have hrun : ∀ follow : Follow,
        resolveTarget c follow (.type name) s = .ok (builtin name, s) := by
      intro follow
      rw [resolveTarget_type, if_pos hbuiltin]
    exact (Alike.pure (builtin name) s).congr (hrun _) (hrun _)
  · cases hresolved : Table.find? (.named name) s.resolved with
    | some t =>
      have hrun : ∀ follow : Follow, resolveTarget c follow (.type name) s = .ok (t, s) := by
        intro follow
        rw [resolveTarget_type, if_neg hbuiltin, hresolved]
      exact (Alike.pure t s).congr (hrun _) (hrun _)
    | none =>
      by_cases hprogress : name ∈ s.inProgress
      · have hrun : ∀ follow : Follow,
            resolveTarget c follow (.type name) s = .error (.cyclicDerivation name) := by
          intro follow
          rw [resolveTarget_type, if_neg hbuiltin, hresolved]
          simp only [if_pos hprogress]
        exact (Alike.throw (by simp) s).congr (hrun _) (hrun _)
      · refine resolveNew_alike hbuiltin hresolved hprogress ?_
        by_cases hname : name ∈ c.typeNames ++ Table.keys c.simpleTypes
        · have hbegin := weight_begin hname hprogress hresolved
          exact resolveDeclared_alike h name (by omega)
        · rw [resolveDeclared_of_notMem follow hname, resolveDeclared_of_notMem follow' hname]
          exact .throw (by simp) _

/-- A global element is resolved alike with one name more on the way. -/
theorem resolveElement_alike (h : AreAlikeUpTo c k follow follow') (name : QName)
    (hs : c.weight s + 1 ≤ k) :
    Alike (resolveTarget c follow (.element name)) (resolveTarget c follow' (.element name)) s := by
  rw [resolveTarget, resolveTarget]
  cases hfind : Table.find? name c.elements with
  | none => exact .throw (by simp) s
  | some decl =>
    dsimp only
    cases htype : decl.type with
    | named target =>
      rw [resolveElementType, resolveElementType]
      exact .bind (.lift (isAnswer_follow target) s) fun name s₁ h₁ =>
        h.type (h₁.weight_add_le hs) name
    | complex path inner =>
      rw [resolveElementType, resolveElementType]
      apply Alike.known
      cases hfound : Table.find? (.inPlace path) s.resolved with
      | some t => exact .pure t s
      | none =>
        -- the type is declared in this element, so that one open element is left less
        have henter := weight_enter hfind htype hfound
          (s.anonymousName c.localTypeNames name.localName)
        exact .get (resolveComplex_alike h (.inPlace path) _ inner hs (by omega))
    | simple inner =>
      rw [resolveElementType, resolveElementType]
      exact resolveSimple_alike h _ inner hs
    | any => exact .pure _ s

/-- Names are resolved alike with one name more on the way than the names that are met. -/
theorem resolveTarget_alike (h : AreAlikeUpTo c k follow follow') :
    AreAlikeUpTo c (k + 1) (resolveTarget c follow) (resolveTarget c follow') := by
  intro target s hs
  cases target with
  | type name => exact resolveType_alike h name (Nat.le_of_succ_le_succ hs)
  | element name => exact resolveElement_alike h name (Nat.le_of_succ_le_succ hs)

/-- Depths that suffice for the way are alike. -/
theorem resolveWithin_alike (k : Nat) {n n' : Nat} (hn : k ≤ n) (hn' : k ≤ n') :
    AreAlikeUpTo c k (resolveWithin c n) (resolveWithin c n') := by
  induction k generalizing n n' with
  | zero =>
    intro target s hs
    have hpos := stepsLeft_pos c target s
    omega
  | succ k ih =>
    have hpos : 0 < n := Nat.lt_of_lt_of_le k.succ_pos hn
    obtain ⟨n, rfl⟩ := Nat.exists_eq_succ_of_ne_zero (Nat.ne_of_gt hpos)
    obtain ⟨n', rfl⟩ :=
      Nat.exists_eq_succ_of_ne_zero (Nat.ne_of_gt (Nat.lt_of_lt_of_le k.succ_pos hn'))
    exact resolveTarget_alike (ih (Nat.le_of_succ_le_succ hn) (Nat.le_of_succ_le_succ hn'))

/-! ## The whole resolution -/

/-- A depth that is no less than the allowed one makes no difference. -/
theorem resolveWithin_eq (c : Components) {n : Nat} (hn : c.wayLength ≤ n) (target : Target)
    (s : Resolution) : resolveWithin c n target s = resolve c target s :=
  (resolveWithin_alike _ hn le_rfl target s (stepsLeft_le_wayLength c target s)).eq

/-- The allowed depth is never reached. -/
theorem resolve_ends (c : Components) (target : Target) (s : Resolution) :
    resolve c target s ≠ .error .unfinished :=
  (resolveWithin_alike _ le_rfl le_rfl target s (stepsLeft_le_wayLength c target s)).ends

/-- Resolving a name is what its recursion says, without any depth. -/
theorem resolve_eq (c : Components) (target : Target) (s : Resolution) :
    resolve c target s = resolveTarget c (resolve c) target s := by
  have hmore : resolveWithin c (c.wayLength + 1) target s = resolve c target s :=
    resolveWithin_eq c (Nat.le_succ _) target s
  rw [← hmore]
  rfl

/-- Resolving a name in a state comes to resolving another one in another state: what the first one
gives changes with what the second one gives. -/
def ComesTo (c : Components) (call call' : Target × Resolution) : Prop :=
  ∃ follow : Follow, (∀ other, other ≠ call' → follow other.1 other.2 = resolve c other.1 other.2) ∧
    resolveTarget c follow call.1 call.2 ≠ resolve c call.1 call.2

/-- From name to name there are less steps left. -/
theorem stepsLeft_lt_of_comesTo {call call' : Target × Resolution} (h : ComesTo c call call') :
    c.stepsLeft call'.1 call'.2 < c.stepsLeft call.1 call.2 := by
  obtain ⟨follow, hfollow, hne⟩ := h
  by_contra hle
  obtain ⟨k, hk⟩ := Nat.exists_eq_succ_of_ne_zero (Nat.ne_of_gt (stepsLeft_pos c call.1 call.2))
  -- what is followed with less steps left is followed as ever, so there is no change
  have halike : AreAlikeUpTo c k follow (resolve c) := by
    intro target s hs
    have hother : (target, s) ≠ call' := by
      rintro rfl
      dsimp only at hle
      omega
    have hself := resolveWithin_alike (c := c) c.wayLength le_rfl le_rfl target s
      (stepsLeft_le_wayLength c target s)
    exact ⟨hfollow (target, s) hother, hself.ends, hself.settled⟩
  apply hne
  rw [resolve_eq]
  exact (resolveTarget_alike halike call.1 call.2 hk.le).eq

/-- There is no way from name to name without an end. -/
theorem wellFounded_comesTo (c : Components) :
    WellFounded fun call' call => ComesTo c call call' :=
  Subrelation.wf (fun h => stepsLeft_lt_of_comesTo h)
    (measure fun call : Target × Resolution => c.stepsLeft call.1 call.2).wf

/-- Names that come to one another are no more than the allowed depth. -/
theorem length_le_of_comesTo {calls : List (Target × Resolution)} (h : calls.IsChain (ComesTo c)) :
    calls.length ≤ c.wayLength := by
  have hlength : ∀ call rest, (call :: rest).IsChain (ComesTo c) →
      rest.length < c.stepsLeft call.1 call.2 := by
    intro call rest
    induction rest generalizing call with
    | nil => exact fun _ => stepsLeft_pos c call.1 call.2
    | cons next rest ih =>
      intro hchain
      rw [List.isChain_cons_cons] at hchain
      have hstep := stepsLeft_lt_of_comesTo hchain.1
      have hrest := ih next hchain.2
      rw [List.length_cons]
      omega
  cases calls with
  | nil => exact Nat.zero_le _
  | cons call rest =>
    have hfirst := hlength call rest h
    have hway := stepsLeft_le_wayLength c call.1 call.2
    rw [List.length_cons]
    omega

end SoapClient.Schema
