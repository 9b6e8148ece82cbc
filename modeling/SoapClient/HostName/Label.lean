import SoapClient.HostName.Composition
import SoapClient.HostName.Joining
import SoapClient.HostName.Spelling
import SoapClient.Text.Punycode

/-!
Names of hosts. A name consists of labels with points between them. A label with characters beyond
ASCII can be given by a code, which must be written for a label in its own spelling. A refused
character leaves no name to read, and a name in ASCII that needs no respelling and has no codes is
read as it is.
-/

namespace SoapClient.HostName

/-- What stands in front of a code. -/
def codeMark : List Char := "xn--".toList

/-- Whether a label is in the spelling that a code is written for, and does not look like a code
itself. -/
def isSpelled (label : List Char) : Bool :=
  label.all (Standing.of · = .kept) && isComposed label &&
    (Text.afterMarker? codeMark label).isNone

/-- The label that a code is written for. -/
def decode? (code : List Char) : Option (List Char) :=
  if code = [] ∨ code.getLast? = some '-' then none
  else (Text.Punycode.decode? code).filter isSpelled

/-- The characters of a label, be it written out or as a code. -/
def characters? (label : List Char) : Option (List Char) :=
  match Text.afterMarker? codeMark label with
  | some code => decode? code
  | none => some label

/-- Whether no character of a label lacks the ones around it that it depends on. -/
def isSound (label : List Char) : Bool :=
  !label.head?.any (Direction.of · |>.isMark) && hasJoinersInPlace [] label

/-- The name that a text spells, `none` if there is no such name. -/
def read? (text : List Char) : Option (List Char) := do
  let name ← spell? text
  let labels ← (Text.cutAll '.' name).mapM characters?
  if labels.all isSound && Direction.areSettled (labels.map (·.map Direction.of)) then some name
  else none

/-- No name is read from a text with a refused character. -/
theorem read?_eq_none_of_mem {c : Char} {text : List Char} (hc : c ∈ text)
    (h : Standing.of c = .refused) : read? text = none := by
  simp only [read?, spell?_eq_none_of_mem hc h, Option.bind_eq_bind, Option.bind_none]

/-- A label in ASCII is sound. -/
theorem isSound_of_lt {label : List Char} (h : ∀ c ∈ label, c.toNat < 128) : isSound label := by
  have hn : nonJoiner ∉ label := fun hmem => absurd (h _ hmem) (by decide)
  have hj : joiner ∉ label := fun hmem => absurd (h _ hmem) (by decide)
  have hhead : label.head?.any (Direction.of · |>.isMark) = false := by
    cases label with
    | nil => rfl
    | cons c cs => simpa using Direction.isMark_of_lt (h c List.mem_cons_self)
  rw [isSound, hhead, hasJoinersInPlace_of_not_mem hn hj]
  rfl

/-- A name in ASCII is read as it is where each character is kept and no label is a code. -/
theorem read?_of_kept {text : List Char} (hk : ∀ c ∈ text, c.toNat < 128 ∧ Standing.of c = .kept)
    (hm : ∀ label ∈ Text.cutAll '.' text, Text.afterMarker? codeMark label = none) :
    read? text = some text := by
  have hlabels : ∀ labels : List (List Char),
      (∀ label ∈ labels, Text.afterMarker? codeMark label = none) →
      labels.mapM characters? = some labels := by
    intro labels h
    induction labels with
    | nil => rfl
    | cons label labels ih =>
      have hlabel : characters? label = some label := by
        rw [characters?, h label List.mem_cons_self]
      rw [List.mapM_cons, hlabel, ih fun l hl => h l (List.mem_cons_of_mem label hl)]
      rfl
  have hlt : ∀ label ∈ Text.cutAll '.' text, ∀ c ∈ label, c.toNat < 128 :=
    fun label hl c hc => (hk c (Text.mem_of_mem_cutAll hl hc)).1
  have hsound : (Text.cutAll '.' text).all isSound = true :=
    List.all_eq_true.mpr fun label hl => isSound_of_lt (hlt label hl)
  have hsettled :
      Direction.areSettled ((Text.cutAll '.' text).map (·.map Direction.of)) = true := by
    apply Direction.areSettled_of_goesRight
    simp only [List.mem_map, forall_exists_index, and_imp, forall_apply_eq_imp_iff₂]
    intro label hl c hc
    exact Direction.goesRight_of_lt (hlt label hl c hc)
  simp only [read?, spell?_of_kept fun c hc => (hk c hc).2, hlabels _ hm, hsound, hsettled,
    Option.bind_eq_bind, Option.bind_some, Bool.and_self, if_true]

end SoapClient.HostName
