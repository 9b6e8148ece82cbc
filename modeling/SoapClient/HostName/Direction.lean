import SoapClient.Text.ClassTable

/-!
Directions of writing. Letters are written from left to right or from right to left, and a name that
holds letters of the second kind is refused where its parts could be shown in the wrong order. The
table is that of version 17 of the character set, for the characters that a name can hold.
-/

namespace SoapClient.HostName

/-- The part that a character takes in a line of writing. -/
inductive Direction where
  | leftToRight
  | rightToLeft
  | arabicNumber
  | europeanNumber
  /-- It goes with the characters around it. -/
  | neutral
  /-- A mark on the character in front of it, which takes no room. -/
  | nonspacingMark
  /-- A mark that takes room, to the right. -/
  | spacingMark
  deriving DecidableEq

/-- The directions of characters beyond ASCII: left to right (L), right to left (R), Arabic (A) and
European numbers (E), neutral (N), marks that take no room (M) and marks that do (S). -/
@[irreducible] def directions : Text.ClassTable := .ofText "
80N b5L b6N bcE bfN c0L d7N d8L f7N f8L 2b9N 2bbL 2c2N 2d0L 2d2N 2e0L 2e5N 2eeL 2efN 300M 345L
346M 370L 374N 376L 387N 388L 3f6N 3f7L 483M 48aL 58aN 591M 5beR 5bfM 5c0R 5c1M 5c3R 5c4M 5c6R
5c7M 5d0R 606N 608R 609N 60bR 60cN 60dR 60eN 610M 61bR 64bM 660A 66aN 66bA 66dR 670M 671R 6d6M
6deN 6dfM 6e5R 6e7M 6e9N 6eaM 6eeR 6f0E 6faR 711M 712R 730M 74dR 7a6M 7b1R 7ebM 7f4R 7f6N 7faR
7fdM 7feR 816M 81aR 81bM 824R 825M 828R 829M 830R 859M 85eR 897M 8a0R 8caM 903S 904L 93aM 93bS
93cM 93dL 93eS 941M 949S 94dM 94eS 950L 951M 958L 962M 964L 981M 982S 985L 9bcM 9bdL 9beS 9c1M
9c7S 9cdM 9ceL 9d7S 9dcL 9e2M 9e6L 9f2N 9f4L 9fbN 9fcL 9feM a03S a05L a3cM a3eS a41M a59L a70M
a72L a75M a76L a81M a83S a85L abcM abdL abeS ac1M ac9S acdM ad0L ae2M ae6L af1N af9L afaM b02S
b05L b3cM b3dL b3eS b3fM b40S b41M b47S b4dM b57S b5cL b62M b66L b82M b83L bbeS bc0M bc1S bcdM
bd0L bd7S be6L bf3N c00M c01S c04M c05L c3cM c3dL c3eM c41S c46M c58L c62M c66L c78N c7fL c81M
c82S c84L cbcM cbdL cbeS cccM cd5S cdcL ce2M ce6L cf3S d00M d02S d04L d3bM d3dL d3eS d41M d46S
d4dM d4eL d57S d58L d62M d66L d81M d82S d85L dcaM dcfS dd2M dd8S de6L df2S df4L e31M e32L e33M
e3fN e40L e47M e4fL eb1M eb2L eb3M ebdL ec8M ed0L f18M f1aL f35M f36L f37M f38L f39M f3aN f3eS
f40L f71M f7fS f80M f85L f86M f88L f8dM fbeL fc6M fc7L 102bS 102dM 1031S 1032M 1038S 1039M 103bS
103dM 103fL 1056S 1058M 105aL 105eM 1061L 1062S 1065L 1067S 106eL 1071M 1075L 1082M 1083S 1085M
1087S 108dM 108eL 108fS 1090L 109aS 109dM 109eL 135dM 1360L 1390N 13a0L 1400N 1401L 169bN 16a0L
1712M 1715S 171fL 1732M 1734S 1735L 1752M 1760L 1772M 1780L 17b6S 17b7M 17beS 17c6M 17c7S 17c9M
17d4L 17dbN 17dcL 17ddM 17e0L 17f0N 1810L 1885M 1887L 18a9M 18aaL 1920M 1923S 1927M 1929S 1932M
1933S 1939M 1940N 1946L 19deN 1a00L 1a17M 1a19S 1a1bM 1a1eL 1a55S 1a56M 1a57S 1a58M 1a61S 1a62M
1a63S 1a65M 1a6dS 1a73M 1a80L 1ab0M 1b04S 1b05L 1b34M 1b35S 1b36M 1b3bS 1b3cM 1b3dS 1b42M 1b43S
1b45L 1b6bM 1b74L 1b80M 1b82S 1b83L 1ba1S 1ba2M 1ba6S 1ba8M 1baaS 1babM 1baeL 1be6M 1be7S 1be8M
1beaS 1bedM 1beeS 1befM 1bf2S 1bfcL 1c24S 1c2cM 1c34S 1c36M 1c3bL 1cd0M 1cd3L 1cd4M 1ce1S 1ce2M
1ce9L 1cedM 1ceeL 1cf4M 1cf5L 1cf7S 1cf8M 1cfaL 1dc0M 1e00L 200cN 2094L 20a0N 20d0M 2103N 2107L
2108N 210fL 2114N 2126L 2127N 212bL 212eN 2132L 2135R 213aN 213cL 2140N 214eL 2150E 2180L 2189E
218aN 2336L 237bN 2395L 2396N 26acL 26adN 2800L 2900N 2c00L 2ce5N 2cebL 2cefM 2cf2L 2cf9N 2d00L
2d7fM 2d80L 2de0M 2e00N 2e9fL 2ea0N 2ef3L 3001N 3005L 3008N 3021L 302aM 302eS 3030N 3031L 3036N
3038L 303dN 3041L 3099M 309dL 30a0N 30a1L 30fbN 30fcL 31c0N 31f0L 3200N 3244L 32c0E 32d0L 3358E
337bL 33e0E 3400L 4dc0N 4e00L a490N a4d0L a60dN a610L a66fM a673N a674M a67eN a680L a69eM a6a0L
a6f0M a6f2L a700N a722L a788N a789L a802M a803L a806M a807L a80bM a80cL a823S a825M a827S a828N
a82cM a830L a838N a840L a874N a880S a882L a8b4S a8c4M a8ceL a8e0M a8f2L a8ffM a900L a926M a92eL
a947M a952S a95fL a980M a983S a984L a9b3M a9b4S a9b6M a9baS a9bcM a9beS a9c1L a9e5M a9e6L aa29M
aa2fS aa31M aa33S aa35M aa40L aa43M aa44L aa4cM aa4dS aa50L aa7bS aa7cM aa7dS aa7eL aab0M aab1L
aab2M aab5L aab7M aab9L aabeM aac0L aac1M aac2L aaebS aaecM aaeeS aaf0L aaf5S aaf6M ab01L ab6aN
ab70L abe3S abe5M abe6S abe8M abe9S abebL abecS abedM abf0L fb1dR fb1eM fb1fR fbc3N fbd3R fd3eN
fd50R fd90N fd92R fdc8N fdf0R fdfdN fe20M fe31N fe71R ff5fN ff66L ff9eM ffa1L ffe0N 10000L 10101N
10102L 10140N 1018dL 10190N 101d0L 101fdM 10280L 102e0M 102e1E 10300L 10376M 10380L 10800R 1091fN
10920R 10a01M 10a10R 10a38M 10a40R 10ae5M 10aebR 10b39N 10b40R 10d24M 10d30A 10d40R 10d69M 10d6eN
10d6fR 10e60A 10e80R 10eabM 10eadR 10ed0N 10efaM 10f00R 10f46M 10f51R 10f82M 10f86R 11000S 11001M
11002S 11003L 11038M 11047L 11052N 11066L 11070M 11071L 11073M 11075L 1107fM 11082S 11083L 110b0S
110b3M 110b7S 110b9M 110bbL 110c2M 110d0L 11100M 11103L 11127M 1112cS 1112dM 11136L 11145S 11147L
11173M 11174L 11180M 11182S 11183L 111b3S 111b6M 111bfS 111c1L 111c9M 111cdL 111ceS 111cfM 111d0L
1122cS 1122fM 11232S 11234M 11235S 11236M 11238L 1123eM 1123fL 11241M 11280L 112dfM 112e0S 112e3M
112f0L 11300M 11302S 11305L 1133bM 1133dL 1133eS 11340M 11341S 11350L 11357S 1135dL 11362S 11366M
11380L 113b8S 113bbM 113c2S 113ceM 113cfS 113d0M 113d1L 113d2M 113d3L 113e1M 11400L 11435S 11438M
11440S 11442M 11445S 11446M 11447L 1145eM 1145fL 114b0S 114b3M 114b9S 114baM 114bbS 114bfM 114c1S
114c2M 114c4L 115afS 115b2M 115b8S 115bcM 115beS 115bfM 115c1L 115dcM 11600L 11630S 11633M 1163bS
1163dM 1163eS 1163fM 11641L 11660N 11680L 116abM 116acS 116adM 116aeS 116b0M 116b6S 116b7M 116b8L
1171dM 11720S 11722M 11726S 11727M 11730L 1182cS 1182fM 11838S 11839M 1183bL 11930S 1193bM 1193dS
1193eM 1193fL 11940S 11941L 11942S 11943M 11944L 119d1S 119d4M 119dcS 119e0M 119e1L 119e4S 11a00L
11a01M 11a07S 11a09M 11a0bL 11a33M 11a39S 11a3aL 11a3bM 11a3fL 11a47M 11a50L 11a51M 11a57S 11a59M
11a5cL 11a8aM 11a97S 11a98M 11a9aL 11b60M 11b61S 11b62M 11b65S 11b66M 11b67S 11bc0L 11c2fS 11c30M
11c3eS 11c40L 11c92M 11ca9S 11caaM 11cb1S 11cb2M 11cb4S 11cb5M 11d00L 11d31M 11d46L 11d47M 11d50L
11d8aS 11d90M 11d93S 11d95M 11d96S 11d97M 11d98L 11ef3M 11ef5S 11ef7L 11f00M 11f02L 11f03S 11f04L
11f34S 11f36M 11f3eS 11f40M 11f41S 11f42M 11f43L 11f5aM 11fb0L 11fd5N 11fffL 13440M 13441L 13447M
13460L 1611eM 1612aS 1612dM 16130L 16af0M 16af5L 16b30M 16b37L 16f4fM 16f50L 16f51S 16f8fM 16f93L
16fe2N 16fe3L 16fe4M 16ff0S 16ff2L 1bc9dM 1bc9fL 1cc00N 1cf00M 1cf50L 1d165S 1d167M 1d16aL 1d16dS
1d17bM 1d183L 1d185M 1d18cL 1d1aaM 1d1aeL 1d1e9N 1d242M 1d245N 1d2c0L 1d300N 1d360L 1d6c1N 1d6c2L
1d6dbN 1d6dcL 1d6fbN 1d6fcL 1d715N 1d716L 1d735N 1d736L 1d74fN 1d750L 1d76fN 1d770L 1d789N 1d78aL
1d7a9N 1d7aaL 1d7c3N 1d7c4L 1da00M 1da37L 1da3bM 1da6dL 1da75M 1da76L 1da84M 1da85L 1da9bM 1df00L
1e000M 1e030L 1e08fM 1e100L 1e130M 1e137L 1e2aeM 1e2c0L 1e2ecM 1e2f0L 1e2ffN 1e4d0L 1e4ecM 1e4f0L
1e5eeM 1e5f0L 1e6e3M 1e6e4L 1e6e6M 1e6e7L 1e6eeM 1e6f0L 1e6f5M 1e6feL 1e800R 1e8d0M 1e900R 1e944M
1e94bR 1eef0N 1f150L 1f16dN 1f170L 1f1adN 1f1e6L 1f240N 1f250L 1f260N 20000L"

namespace Direction

/-- The direction that a letter of the table says. -/
def ofLetter : Option Char → Direction
  | some 'R' => rightToLeft
  | some 'A' => arabicNumber
  | some 'E' => europeanNumber
  | some 'N' => neutral
  | some 'M' => nonspacingMark
  | some 'S' => spacingMark
  | _ => leftToRight

/-- The direction of a character. -/
def of (c : Char) : Direction :=
  if c.toNat < 128 then
    if c.isAlpha then leftToRight else if c.isDigit then europeanNumber else neutral
  else ofLetter (directions.letter? c)

/-- Whether a character is a mark on another one. -/
def isMark : Direction → Bool
  | nonspacingMark | spacingMark => true
  | _ => false

/-- Whether a character makes its label one that is written from right to left. -/
def turns : Direction → Bool
  | rightToLeft | arabicNumber => true
  | _ => false

/-- The directions that a label from left to right can hold. -/
def goesRight : Direction → Bool
  | rightToLeft | arabicNumber => false
  | _ => true

/-- The directions that a label from right to left can hold. -/
def goesLeft : Direction → Bool
  | leftToRight | spacingMark => false
  | _ => true

/-- Whether a label that consists of the directions is shown in one order, whatever is around it. It
starts with a letter and ends with a letter or a number, marks aside, and it holds nothing that is
written the other way. One written from right to left does not have both kinds of numbers. -/
def isSettled (label : List Direction) : Bool :=
  let final := (label.reverse.dropWhile (· = nonspacingMark)).head?
  match label with
  | [] => true
  | leftToRight :: _ | spacingMark :: _ =>
    label.all goesRight &&
      final.any fun d => d = leftToRight || d = spacingMark || d = europeanNumber
  | rightToLeft :: _ =>
    label.all goesLeft && !(label.contains arabicNumber && label.contains europeanNumber) &&
      final.any fun d => d = rightToLeft || d = arabicNumber || d = europeanNumber
  | _ => false

/-- Whether the labels of a name can be told apart in writing. Only names with letters from right to
left can fail to. -/
def areSettled (labels : List (List Direction)) : Bool :=
  !labels.any (·.any turns) || labels.all isSettled

/-- A character of ASCII is no mark. -/
theorem isMark_of_lt {c : Char} (h : c.toNat < 128) : (of c).isMark = false := by
  unfold of
  rw [if_pos h]
  split
  · rfl
  · split <;> rfl

/-- A character of ASCII is not written from right to left. -/
theorem goesRight_of_lt {c : Char} (h : c.toNat < 128) : (of c).goesRight = true := by
  unfold of
  rw [if_pos h]
  split
  · rfl
  · split <;> rfl

/-- A name that is written from left to right throughout is never refused for its directions. -/
theorem areSettled_of_goesRight {labels : List (List Direction)}
    (h : ∀ label ∈ labels, ∀ d ∈ label, d.goesRight) : areSettled labels := by
  have hturns : labels.any (·.any turns) = false := by
    simp only [List.any_eq_false, Bool.not_eq_true]
    intro label hl d hd
    have := h label hl d hd
    cases d <;> simp_all [turns, goesRight]
  simp [areSettled, hturns]

end Direction

end SoapClient.HostName
