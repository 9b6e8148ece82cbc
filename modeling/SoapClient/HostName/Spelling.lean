import SoapClient.HostName.Standing

/-!
The spelling of a name: each character that is replaced gives way to the one it is a form of. Only
forms of ASCII characters matter here, since a name is refused, or taken for a number, by these. The
other forms are left as they are.
-/

namespace SoapClient.HostName

/-- Characters with neighbouring code points that are forms of neighbouring ASCII characters. -/
structure Forms where
  first : Nat
  last : Nat
  /-- The character that the first one is a form of. -/
  ascii : Char

/-- Forms are written as their code points in hexadecimal digits, the last one behind a hyphen if
there are several, an equals sign and the character. -/
def Forms.ofWord? (word : List Char) : Option Forms := do
  let (codes, text) ← Text.cutAt '=' word
  let ascii ← text.head?
  match Text.cutAt '-' codes with
  | none => do
    let n ← Text.Hexadecimal.read? codes
    some ⟨n, n, ascii⟩
  | some (a, b) => some ⟨← Text.Hexadecimal.read? a, ← Text.Hexadecimal.read? b, ascii⟩

/-- The characters beyond ASCII that are forms of one ASCII character. -/
@[irreducible] def asciiForms : List Forms := (Text.words "
aa=a b2-b3=2 b9=1 ba=o 17f=s 2b0=h 2b2=j 2b3=r 2b7=w 2b8=y 2e1=l 2e2=s 2e3=x 37e=; 1d2c=a 1d2e=b
1d30-1d31=d 1d33-1d3a=g 1d3c=o 1d3e=p 1d3f=r 1d40-1d41=t 1d42=w 1d43=a 1d47=b 1d48-1d49=d 1d4d=g
1d4f=k 1d50=m 1d52=o 1d56=p 1d57-1d58=t 1d5b=v 1d62=i 1d63=r 1d64-1d65=u 1d9c=c 1da0=f 1dbb=z
1fef=` 2070=0 2071=i 2074-2079=4 207a=+ 207c== 207d-207e=( 207f=n 2080-2089=0 208a=+ 208c==
208d-208e=( 2090=a 2091=e 2092=o 2093=x 2095=h 2096-2099=k 209a=p 209b-209c=s 2102=c 210a-210b=g
210c=h 210d=h 210e=h 2110=i 2111=i 2112=l 2113=l 2115=n 2119-211b=p 211c=r 211d=r 2124=z 2128=z
212a=k 212c-212d=b 212f=e 2130-2131=e 2133=m 2134=o 2139=i 2145=d 2146-2147=d 2148-2149=i 2160=i
2164=v 2169=x 216c=l 216d-216e=c 216f=m 2170=i 2174=v 2179=x 217c=l 217d-217e=c 217f=m 2460-2468=1
24b6-24cf=a 24d0-24e9=a 24ea=0 2c7c=j 2c7d=v 3002=. a7f1=s a7f2=c a7f3=f a7f4=q fb29=+ fe10=,
fe14=; fe15=! fe33=_ fe34=_ fe35-fe36=( fe37=\x7b fe38=\x7d fe4d=_ fe4e=_ fe4f=_ fe50=, fe54=;
fe57=! fe59-fe5a=( fe5b=\x7b fe5c=\x7d fe60=& fe61-fe62=* fe63=- fe66== fe69=$ ff01-ff02=! ff04=$
ff06-ff0e=& ff10-ff19=0 ff1b=; ff1d== ff21-ff3a=a ff3f-ff5b=_ ff5d-ff5e=\x7d ff61=. 107a5=q
1ccd6-1ccef=a 1ccf0-1ccf9=0 1d400-1d419=a 1d41a-1d433=a 1d434-1d44d=a 1d44e-1d454=a 1d456-1d467=i
1d468-1d481=a 1d482-1d49b=a 1d49c=a 1d49e-1d49f=c 1d4a2=g 1d4a5-1d4a6=j 1d4a9-1d4ac=n
1d4ae-1d4b5=s 1d4b6-1d4b9=a 1d4bb=f 1d4bd-1d4c3=h 1d4c5-1d4cf=p 1d4d0-1d4e9=a 1d4ea-1d503=a
1d504-1d505=a 1d507-1d50a=d 1d50d-1d514=j 1d516-1d51c=s 1d51e-1d537=a 1d538-1d539=a 1d53b-1d53e=d
1d540-1d544=i 1d546=o 1d54a-1d550=s 1d552-1d56b=a 1d56c-1d585=a 1d586-1d59f=a 1d5a0-1d5b9=a
1d5ba-1d5d3=a 1d5d4-1d5ed=a 1d5ee-1d607=a 1d608-1d621=a 1d622-1d63b=a 1d63c-1d655=a 1d656-1d66f=a
1d670-1d689=a 1d68a-1d6a3=a 1d7ce-1d7d7=0 1d7d8-1d7e1=0 1d7e2-1d7eb=0 1d7ec-1d7f5=0 1d7f6-1d7ff=0
1f12b=c 1f12c=r 1f130-1f149=a 1fbf0-1fbf9=0").filterMap Forms.ofWord?

/-- The character that a character is a form of: itself where it is no form of an ASCII one. -/
def spelling (c : Char) : Char :=
  if c.toNat < 128 then c.toLower
  else
    match asciiForms.find? fun f => f.first ≤ c.toNat && c.toNat ≤ f.last with
    | some f => Char.ofNat (f.ascii.toNat + (c.toNat - f.first))
    | none => c

/-- What stands for a character in the spelling of a name, `none` if it is refused. -/
def respell? (c : Char) : Option (List Char) :=
  match Standing.of c with
  | .kept => some [c]
  | .replaced => some [spelling c]
  | .dropped => some []
  | .refused => none

/-- The spelling of a text, `none` if it holds a character that is refused. -/
def spell? : List Char → Option (List Char)
  | [] => some []
  | c :: cs => do
    let front ← respell? c
    let rest ← spell? cs
    some (front ++ rest)

/-- What is kept is spelled as it is. -/
theorem spell?_of_kept {cs : List Char} (h : ∀ c ∈ cs, Standing.of c = .kept) :
    spell? cs = some cs := by
  induction cs with
  | nil => rfl
  | cons c cs ih =>
    have hc : respell? c = some [c] := by simp only [respell?, h c List.mem_cons_self]
    have hcs := ih fun d hd => h d (List.mem_cons_of_mem c hd)
    simp only [spell?, hc, hcs, Option.bind_eq_bind, Option.bind_some, List.singleton_append]

/-- A text with a refused character has no spelling. -/
theorem spell?_eq_none_of_mem {c : Char} {cs : List Char} (hc : c ∈ cs)
    (h : Standing.of c = .refused) : spell? cs = none := by
  have hnone : respell? c = none := by simp only [respell?, h]
  induction cs with
  | nil => cases hc
  | cons d cs ih =>
    rw [List.mem_cons] at hc
    rcases hc with rfl | hc
    · simp only [spell?, hnone, Option.bind_eq_bind, Option.bind_none]
    · simp only [spell?, ih hc, Option.bind_eq_bind, Option.bind_none, Option.bind_fun_none]

end SoapClient.HostName
