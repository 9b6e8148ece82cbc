import SoapClient.HostName.Direction
import SoapClient.HostName.MarkOrder

/-!
Joiners: two characters without a look of their own, which say whether their neighbours are written
joined. They can stand behind a mark that takes the vowel from a consonant. One of them, which parts
letters, can also stand where letters would join. The table is that of version 17 of the character
set.
-/

namespace SoapClient.HostName

/-- On which sides a letter joins its neighbours. -/
inductive Joining where
  | none
  | left
  | right
  | both
  deriving DecidableEq

/-- The letters that join: on both sides (D), with the one behind (L) or in front (R). The others do
not (U). -/
@[irreducible] def joinings : Text.ClassTable := .ofText "
620D 621U 622R 626D 627R 628D 629R 62aD 62fR 633D 640U 641D 648R 649D 660U 66eD 671R 674U 679D
688R 69aD 6c0R 6c1D 6c3R 6ccD 6cdR 6ceD 6cfR 6d0D 6d2R 6d4U 6d5R 6deU 6eeR 6f0U 6faD 6fdU 6ffD
700U 710R 712D 715R 71aD 71eR 71fD 728R 729D 72aR 72bD 72cR 72dD 72fR 74eD 759R 75cD 76bR 76dD
771R 772D 773R 775D 778R 77aD 780U 7caD 7f4U 840R 841D 846R 848D 849R 84aD 854R 855D 856R 85eU
860D 861U 862D 866U 867R 868D 869R 883U 886D 887U 889D 88eR 88fD 8aaR 8adU 8aeR 8afD 8b1R 8b3D
8b9R 8baD 8c9U 1807D 1808U 1820D 1880U 1887D 18b0U a840D a872L a873U 10ac0D 10ac5R 10ac6U 10ac7R
10ac8U 10ac9R 10acbU 10acdL 10aceR 10ad3D 10ad7L 10ad8D 10addR 10adeD 10ae1R 10ae2U 10ae4R 10aebD
10aefR 10af0U 10b80D 10b81R 10b82D 10b83R 10b86D 10b89R 10b8aD 10b8cR 10b8dD 10b8eR 10b90D 10b91R
10b99U 10ba9R 10badD 10bafU 10d00L 10d01D 10d22R 10d23D 10d30U 10ec2R 10ec3D 10ec5U 10ec6D 10ed0U
10f30D 10f33R 10f34D 10f45U 10f51D 10f54R 10f55U 10f70D 10f74R 10f76D 10f86U 10fb0D 10fb1U 10fb2D
10fb4R 10fb7U 10fb8D 10fb9R 10fbbD 10fbdR 10fbeD 10fc0U 10fc1D 10fc2R 10fc4D 10fc5U 10fc9R 10fcaD
10fcbL 10fe0U 1e922D 1e950U"

/-- What a letter of the table says. -/
def Joining.ofLetter : Option Char → Joining
  | some 'D' => .both
  | some 'L' => .left
  | some 'R' => .right
  | _ => .none

/-- How a character joins. -/
def Joining.of (c : Char) : Joining :=
  if c.toNat < 0x600 then .none else ofLetter (joinings.letter? c)

/-- The sign that parts letters which would join. -/
def nonJoiner : Char := '\u200C'

/-- The sign that joins letters. -/
def joiner : Char := '\u200D'

/-- The letter that starts the characters, marks aside. -/
def letterOf? (cs : List Char) : Option Char :=
  (cs.dropWhile fun c => Direction.of c = .nonspacingMark).head?

/-- Whether a joiner can stand behind the characters `before`, the last of which comes first, and in
front of the characters `after`. -/
def canJoin (c : Char) (before after : List Char) : Bool :=
  before.head?.any isVowelKiller ||
    c = nonJoiner && (letterOf? before).any (Joining.of · matches .left | .both) &&
      (letterOf? after).any (Joining.of · matches .right | .both)

/-- Whether every joiner is in its place, behind the characters `before`, the last of which comes
first. -/
def hasJoinersInPlace (before : List Char) : List Char → Bool
  | [] => true
  | c :: cs =>
    (c ≠ nonJoiner && c ≠ joiner || canJoin c before cs) && hasJoinersInPlace (c :: before) cs

/-- Without joiners there is none out of place. -/
theorem hasJoinersInPlace_of_not_mem {before cs : List Char} (hn : nonJoiner ∉ cs)
    (hj : joiner ∉ cs) : hasJoinersInPlace before cs := by
  induction cs generalizing before with
  | nil => rfl
  | cons c cs ih =>
    simp only [List.mem_cons, not_or] at hn hj
    simp [hasJoinersInPlace, Ne.symm hn.1, Ne.symm hj.1, ih hn.2 hj.2]

end SoapClient.HostName
