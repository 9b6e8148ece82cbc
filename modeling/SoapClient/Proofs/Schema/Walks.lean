import Mathlib.Data.List.Nodup
import SoapClient.Proofs.Schema.Meaning

/-!
# Walks through the types of the schemas

A walk goes through mentions of types one after the other. Where one stands for a structured type
that was not met before, the walk goes through what that type mentions, and only then on. It keeps
what it meets in order. This order is given by the mentions alone (`Walk.unique`), what was met
stays in front (`Walk.exists_eq_append`), and what is met is what the mentions lead to
(`Walk.mem_iff`).
-/

namespace SoapClient.Schema

/-- The name of a type where it is mentioned. -/
def nameMention (name : Xml.QName) : Mention := .target (.type name)

/-- The types that a content model mentions, in order. -/
def mentionsOf (content : List Content) : List Mention := (rowsOfAll false content).map Row.mention

namespace Components

/-- A mention leads to a structured type: it stands for it, or for one that leads to it. -/
def Reaches (c : Components) (mention : Mention) (y : TypeKey) : Prop :=
  ∃ x, c.StandsFor mention (.structured x) ∧ Relation.ReflTransGen c.Refers x y

/-- A mention stands for nothing new: for a kind, or for a type that was met. -/
def IsMet (c : Components) (seen : List TypeKey) (mention : Mention) : Prop :=
  ∃ μ, c.StandsFor mention μ ∧ ∀ x, μ = .structured x → x ∈ seen

/-- What is met on the way through mentions, behind what was met before. -/
inductive Walk (c : Components) : List TypeKey → List Mention → List TypeKey → Prop
  | done {seen : List TypeKey} : Walk c seen [] seen
  | pass {seen seen' : List TypeKey} {mention : Mention} {rest : List Mention} :
    c.IsMet seen mention → Walk c seen rest seen' → Walk c seen (mention :: rest) seen'
  | enter {seen inner seen' : List TypeKey} {mention : Mention} {rest : List Mention}
      {key : TypeKey} {content : List Content} :
    c.StandsFor mention (.structured key) → key ∉ seen → c.Declares key (.mk none content) →
      Walk c (seen ++ [key]) (mentionsOf content) inner → Walk c inner rest seen' →
      Walk c seen (mention :: rest) seen'

variable {c : Components} {seen mid seen' : List TypeKey} {mention mention' : Mention}
  {mentions mentions' : List Mention} {x y : TypeKey}

/-- What the content of a type leads to, the type leads to. -/
theorem reaches_of_mem_mentionsOf {content : List Content} (hx : c.Declares x (.mk none content))
    (hmention : c.StandsFor mention (.structured x)) (hmem : mention' ∈ mentionsOf content)
    (h : c.Reaches mention' y) : c.Reaches mention y := by
  obtain ⟨row, hrow, rfl⟩ := List.mem_map.mp hmem
  obtain ⟨z, hz, hzy⟩ := h
  exact ⟨x, hmention, .head (refers_of_mem hx hrow hz) hzy⟩

namespace IsMet

theorem mono (h : c.IsMet seen mention) (hsub : seen ⊆ seen') : c.IsMet seen' mention := by
  obtain ⟨μ, hμ, hseen⟩ := h
  exact ⟨μ, hμ, fun x hx => hsub (hseen x hx)⟩

/-- What a met mention stands for was met. -/
theorem mem (h : c.IsMet seen mention) (hx : c.StandsFor mention (.structured x)) : x ∈ seen := by
  obtain ⟨μ, hμ, hseen⟩ := h
  exact hseen x (hμ.unique hx)

theorem of_standsFor (h : c.IsMet seen mention')
    (hμ : ∀ μ, c.StandsFor mention' μ → c.StandsFor mention μ) : c.IsMet seen mention := by
  obtain ⟨μ, hmention, hseen⟩ := h
  exact ⟨μ, hμ μ hmention, hseen⟩

/-- A mention that stands for a kind is nothing new. -/
theorem primitive {kind : PrimitiveKind} (h : c.StandsFor mention (.primitive kind)) :
    c.IsMet seen mention :=
  ⟨_, h, fun _ hx => nomatch hx⟩

end IsMet

namespace Walk

/-- A mention of something that was met adds nothing. -/
theorem met (h : c.IsMet seen mention) : c.Walk seen [mention] seen := .pass h .done

/-- One walk after the other. -/
theorem append (h : c.Walk seen mentions mid) (h' : c.Walk mid mentions' seen') :
    c.Walk seen (mentions ++ mentions') seen' := by
  induction h with
  | done => exact h'
  | pass hmet _ ih => exact .pass hmet (ih h')
  | enter hkey hnew hdecl hinner _ _ ih => exact .enter hkey hnew hdecl hinner (ih h')

/-- A walk in two parts. -/
theorem exists_of_append (h : c.Walk seen (mentions ++ mentions') seen') :
    ∃ mid, c.Walk seen mentions mid ∧ c.Walk mid mentions' seen' := by
  induction mentions generalizing seen with
  | nil => exact ⟨seen, .done, h⟩
  | cons mention rest ih =>
    cases h with
    | pass hmet hrest =>
      obtain ⟨mid, hfirst, hsecond⟩ := ih hrest
      exact ⟨mid, .pass hmet hfirst, hsecond⟩
    | enter hkey hnew hdecl hinner hrest =>
      obtain ⟨mid, hfirst, hsecond⟩ := ih hrest
      exact ⟨mid, .enter hkey hnew hdecl hinner hfirst, hsecond⟩

/-- A mention is walked as another one that stands for the same. -/
theorem of_standsFor (h : c.Walk seen [mention'] seen')
    (hμ : ∀ μ, c.StandsFor mention' μ → c.StandsFor mention μ) : c.Walk seen [mention] seen' := by
  cases h with
  | pass hmet hrest => exact .pass (hmet.of_standsFor hμ) hrest
  | enter hkey hnew hdecl hinner hrest => exact .enter (hμ _ hkey) hnew hdecl hinner hrest

/-! ## What a walk meets -/

/-- What was met stays in front. -/
theorem exists_eq_append (h : c.Walk seen mentions seen') : ∃ added, seen' = seen ++ added := by
  induction h with
  | done => exact ⟨[], (List.append_nil _).symm⟩
  | pass _ _ ih => exact ih
  | enter _ _ _ _ _ ihinner ihrest =>
    obtain ⟨inside, rfl⟩ := ihinner
    obtain ⟨behind, rfl⟩ := ihrest
    exact ⟨_, by rw [List.append_assoc, List.append_assoc]⟩

theorem subset (h : c.Walk seen mentions seen') : seen ⊆ seen' := by
  obtain ⟨added, rfl⟩ := h.exists_eq_append
  exact List.subset_append_left _ _

/-- Nothing is met twice. -/
theorem nodup (h : c.Walk seen mentions seen') (hseen : seen.Nodup) : seen'.Nodup := by
  induction h with
  | done => exact hseen
  | pass _ _ ih => exact ih hseen
  | enter _ hnew _ _ _ ihinner ihrest =>
    refine ihrest (ihinner ?_)
    exact hseen.append (List.nodup_singleton _) (by simpa using hnew)

/-- What is mentioned on the way is met in the end. -/
theorem isMet (h : c.Walk seen mentions seen') : ∀ mention ∈ mentions, c.IsMet seen' mention := by
  induction h with
  | done => exact List.forall_mem_nil _
  | pass hmet hrest ih => exact List.forall_mem_cons.mpr ⟨hmet.mono hrest.subset, ih⟩
  | @enter _ inner _ _ _ key _ hkey _ _ hinner hrest _ ih =>
    have hmem : key ∈ inner := hinner.subset (by simp)
    refine List.forall_mem_cons.mpr ⟨⟨_, hkey, ?_⟩, ih⟩
    rintro _ ⟨⟩
    exact hrest.subset hmem

/-- What a newly met type refers to is met. -/
theorem mem_of_refers (hc : c.IsConsistent) (h : c.Walk seen mentions seen') (hx : x ∈ seen')
    (hnew : x ∉ seen) (hxy : c.Refers x y) : y ∈ seen' := by
  induction h with
  | done => exact absurd hx hnew
  | pass _ _ ih => exact ih hx hnew
  | @enter seen inner _ _ _ key content _ _ hdecl hinner hrest ihinner ihrest =>
    by_cases hmem : x ∈ inner
    · refine hrest.subset ?_
      by_cases hkey : x = key
      · -- what the type itself mentions was walked before the walk went on
        subst hkey
        obtain ⟨content', hdecl', row, hrow, hy⟩ := hxy
        have heq := hc.declares_unique hdecl hdecl'
        obtain rfl : content = content' := by injection heq
        exact (hinner.isMet _ (List.mem_map_of_mem hrow)).mem hy
      · exact ihinner hmem (by simp [hnew, hkey])
    · exact ihrest hx hmem

/-- What is met was met before, or the mentions lead to it. -/
theorem mem_or_reaches (h : c.Walk seen mentions seen') (hy : y ∈ seen') :
    y ∈ seen ∨ ∃ mention ∈ mentions, c.Reaches mention y := by
  induction h with
  | done => exact .inl hy
  | pass _ _ ih =>
    refine (ih hy).imp_right ?_
    rintro ⟨mention, hmem, hreaches⟩
    exact ⟨mention, List.mem_cons_of_mem _ hmem, hreaches⟩
  | enter hkey _ hdecl _ _ ihinner ihrest =>
    rcases ihrest hy with hy | ⟨mention, hmem, hreaches⟩
    · rcases ihinner hy with hy | ⟨mention, hmem, hreaches⟩
      · rcases List.mem_append.mp hy with hy | hy
        · exact .inl hy
        · obtain rfl := List.mem_singleton.mp hy
          exact .inr ⟨_, List.mem_cons_self, _, hkey, .refl⟩
      · exact .inr ⟨_, List.mem_cons_self, reaches_of_mem_mentionsOf hdecl hkey hmem hreaches⟩
    · exact .inr ⟨mention, List.mem_cons_of_mem _ hmem, hreaches⟩

/-- What is newly met is declared without simple content. -/
theorem exists_declares (h : c.Walk seen mentions seen') (hx : x ∈ seen') (hnew : x ∉ seen) :
    ∃ content, c.Declares x (.mk none content) := by
  induction h with
  | done => exact absurd hx hnew
  | pass _ _ ih => exact ih hx hnew
  | @enter seen inner _ _ _ key content _ _ hdecl _ _ ihinner ihrest =>
    by_cases hmem : x ∈ inner
    · by_cases hkey : x = key
      · subst hkey
        exact ⟨content, hdecl⟩
      · exact ihinner hmem (by simp [hnew, hkey])
    · exact ihrest hx hmem

/-- A walk from the start meets what the mentions lead to, and nothing else. -/
theorem mem_iff (hc : c.IsConsistent) (h : c.Walk [] mentions seen') :
    y ∈ seen' ↔ ∃ mention ∈ mentions, c.Reaches mention y := by
  constructor
  · exact fun hy => (h.mem_or_reaches hy).resolve_left List.not_mem_nil
  · rintro ⟨mention, hmem, x, hx, hxy⟩
    induction hxy with
    | refl => exact (h.isMet mention hmem).mem hx
    | tail _ hyz ih => exact h.mem_of_refers hc ih List.not_mem_nil hyz

/-- The mentions and what was met before give the order. -/
theorem unique (hc : c.IsConsistent) {seen'' : List TypeKey} (h : c.Walk seen mentions seen')
    (h' : c.Walk seen mentions seen'') : seen' = seen'' := by
  induction h generalizing seen'' with
  | done => cases h'; rfl
  | pass hmet _ ih =>
    cases h' with
    | pass _ hrest => exact ih hrest
    | enter hkey hnew => exact absurd (hmet.mem hkey) hnew
  | enter hkey hnew hdecl _ _ ihinner ihrest =>
    cases h' with
    | pass hmet => exact absurd (hmet.mem hkey) hnew
    | enter hkey' _ hdecl' hinner hrest =>
      obtain ⟨rfl⟩ := hkey.unique hkey'
      have heq := hc.declares_unique hdecl hdecl'
      injection heq with _ heq
      subst heq
      obtain rfl := ihinner hinner
      exact ihrest hrest

end Walk

end Components

end SoapClient.Schema
