import SoapClient.HostName.MarkOrder

/-!
Composition. Some characters can be written as one or as a letter and a mark; a name is spelled with
the one. A mark is taken to compose only with the character right in front of it. The table is that
of version 17 of the character set, for the characters that a name can hold.
-/

namespace SoapClient.HostName

/-- What composes with letters in front of it. -/
structure Compositions where
  mark : Nat
  letters : List Nat

/-- Compositions are written as code points in hexadecimal digits: the mark, an equals sign, and the
letters with commas between them. -/
def Compositions.ofWord? (word : List Char) : Option Compositions := do
  let (mark, letters) ← Text.cutAt '=' word
  some ⟨← Text.Hexadecimal.read? mark, ← (Text.cutAll ',' letters).mapM Text.Hexadecimal.read?⟩

/-- The letters and marks that compose. -/
@[irreducible] def compositions : List Compositions := (Text.words "
300=61,65,69,6e,6f,75,77,79,e2,ea,f4,fc,103,113
300=14d,1a1,1b0,3b1,3b5,3b7,3b9,3bf,3c5,3c9,3ca,3cb,435,438
300=1f00,1f01,1f10,1f11,1f20,1f21,1f30,1f31,1f40,1f41,1f50,1f51,1f60,1f61
301=61,63,65,67,69,6b,6c,6d,6e,6f,70,72,73,75 301=77,79,7a,e2,e5,e6,e7,ea,ef,f4,f5,f8,fc,103
301=113,14d,169,1a1,1b0,3b1,3b5,3b7,3b9,3bf,3c5,3c9,3ca,3cb
301=433,43a,1f00,1f01,1f10,1f11,1f20,1f21,1f30,1f31,1f40,1f41,1f50,1f51 301=1f60,1f61
302=61,63,65,67,68,69,6a,6f,73,75,77,79,7a,1ea1 302=1eb9,1ecd
303=61,65,69,6e,6f,75,76,79,e2,ea,f4,103,1a1,1b0 304=61,65,67,69,6f,75,79,e4,e6,f5,f6,fc,1eb,227
304=22f,3b1,3b9,3c5,438,443,1e37,1e5b 306=61,65,67,69,6f,75,229,3b1,3b9,3c5,430,435,436,438
306=443,1ea1 307=61,62,63,64,65,66,67,68,6d,6e,6f,70,72,73
307=74,77,78,79,7a,15b,161,1e63,105d2,105da 308=61,65,68,69,6f,74,75,77,78,79,f5,16b,3b9,3c5
308=430,435,436,437,438,43e,443,447,44b,44d,456,4d9,4e9 309=61,65,69,6f,75,79,e2,ea,f4,103,1a1,1b0
30a=61,75,77,79 30b=6f,75,443 30c=61,63,64,65,67,68,69,6a,6b,6c,6e,6f,72,73 30c=74,75,7a,fc,292
30f=61,65,69,6f,72,75,475 311=61,65,69,6f,72,75 313=3b1,3b5,3b7,3b9,3bf,3c1,3c5,3c9
314=3b1,3b5,3b7,3b9,3bf,3c1,3c5,3c9 31b=6f,75 323=61,62,64,65,68,69,6b,6c,6d,6e,6f,72,73,74
323=75,76,77,79,7a,1a1,1b0 324=75 325=61 326=73,74 327=63,64,65,67,68,6b,6c,6e,72,73,74
328=61,65,69,6f,75 32d=64,65,6c,6e,74,75 32e=68 330=65,69,75 331=62,64,68,6b,6c,6e,72,74,7a
338=3c,3d,3e,2190,2192,2194,21d0,21d2,21d4,2203,2208,220b,2223,2225
338=223c,2243,2245,2248,224d,2261,2264,2265,2272,2273,2276,2277,227a,227b
338=227c,227d,2282,2283,2286,2287,2291,2292,22a2,22a8,22a9,22ab,22b2,22b3 338=22b4,22b5
342=3b1,3b7,3b9,3c5,3c9,3ca,3cb,1f00,1f01,1f20,1f21,1f30,1f31,1f50 342=1f51,1f60,1f61 653=627
654=627,648,64a,6c1,6d2,6d5 655=627 93c=928,930,933 9be=9c7 9d7=9c7 b3e=b47 b56=b47 b57=b47
bbe=bc6,bc7 bd7=b92,bc6 c56=c46 cc2=cc6 cd5=cbf,cc6,cca cd6=cc6 d3e=d46,d47 d57=d46 dca=dd9,ddc
dcf=dd9 ddf=dd9 102e=1025 1b35=1b05,1b07,1b09,1b0b,1b0d,1b11,1b3a,1b3c,1b3e,1b3f,1b42
3099=3046,304b,304d,304f,3051,3053,3055,3057,3059,305b,305d,305f,3061,3064
3099=3066,3068,306f,3072,3075,3078,307b,309d,30a6,30ab,30ad,30af,30b1,30b3
3099=30b5,30b7,30b9,30bb,30bd,30bf,30c1,30c4,30c6,30c8,30cf,30d2,30d5,30d8
3099=30db,30ef,30f0,30f1,30f2,30fd 309a=306f,3072,3075,3078,307b,30cf,30d2,30d5,30d8,30db
110ba=11099,1109b,110a5 11127=11131,11132 1133e=11347 11357=11347 113b8=113c2 113bb=11384
113c2=1138b,113c2 113c9=11382,11390,113c2 114b0=114b9 114ba=114b9 114bd=114b9 115af=115b8,115b9
11930=11935 1611e=1611e 1611f=1611e,16121,16122,16129 16120=1611e,16121 16129=1611e
16d67=16d63,16d67,16d69").filterMap Compositions.ofWord?

/-- Whether two parts of a Korean syllable compose. -/
def composesSyllable (a b : Nat) : Bool :=
  0x1100 ≤ a && a ≤ 0x1112 && 0x1161 ≤ b && b ≤ 0x1175 ||
    0xAC00 ≤ a && a ≤ 0xD7A3 && (a - 0xAC00) % 28 = 0 && 0x11A8 ≤ b && b ≤ 0x11C2

/-- Whether a character and the one behind it compose. Before U+0300 there is no mark. -/
def compose (a b : Char) : Bool :=
  if b.toNat < 0x300 then false
  else
    composesSyllable a.toNat b.toNat ||
      compositions.any fun p => p.mark = b.toNat && p.letters.contains a.toNat

/-- Whether no two neighbours compose or are out of order. -/
def isComposed : List Char → Bool
  | a :: b :: cs => canPrecede a b && !compose a b && isComposed (b :: cs)
  | _ => true

end SoapClient.HostName
