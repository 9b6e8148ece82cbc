import SoapClient.Text.ClassTable

/-!
The order of marks. Several marks on one letter are written in the order of their ranks, which say
how near to the letter they stand. The table is that of version 17 of the character set, for the
characters that a name can hold.
-/

namespace SoapClient.HostName

/-- The ranks of characters: digits and letters in the order of ASCII. Letters and marks that keep
their place have the rank 0. -/
@[irreducible] def ranks : Text.ClassTable := .ofText "
300p 315q 316k 31aq 31bi 31ck 321g 323k 327g 329k 3341 339k 33dp 347k 34ap 34dk 350p 353k 357p
358q 359k 35bp 35cr 35ds 35fr 360s 362r 363p 3710 483p 4880 591k 592p 596k 597p 59al 59bk 59cp
5a2k 5a8p 5aak 5abp 5adl 5aeo 5afp 5b06 5b17 5b28 5b39 5b4A 5b5B 5b6C 5b7D 5b8E 5b9F 5bbG 5bcH
5bdI 5be0 5bfJ 5c00 5c1K 5c2L 5c30 5c4p 5c5k 5c60 5c7E 5d00 610p 618Q 619R 61aS 61b0 64bN 64cO
64dP 64eQ 64fR 650S 651T 652U 653p 655k 657p 65ck 65dp 65fk 6600 670V 6710 6d6p 6de0 6dfp 6e3k
6e4p 6e50 6e7p 6e90 6eak 6ebp 6edk 6ee0 711W 7120 730p 731k 732p 734k 735p 737k 73ap 73bk 73dp
73ek 73fp 742k 743p 744k 745p 746k 747p 748k 749p 74d0 7ebp 7f2k 7f3p 7f40 7fdk 7fe0 816p 81a0
81bp 8240 825p 8280 829p 8300 859k 85e0 897p 899k 89cp 8a00 8cap 8cfk 8d4p 8e3k 8e4p 8e6k 8e7p
8e9k 8eap 8edk 8f0N 8f1O 8f2P 8f3p 8f6k 8f7p 8f9k 8fbp 9000 93c3 93d0 94d5 94e0 951p 952k 953p
9550 9bc3 9bd0 9cd5 9ce0 9fep a010 a3c3 a3e0 a4d5 a510 abc3 abd0 acd5 ad00 b3c3 b3d0 b4d5 b550
bcd5 bd00 c3c3 c3d0 c4d5 c55X c56Y c580 cbc3 cbd0 ccd5 cd50 d3b5 d3d0 d4d5 d4e0 dca5 dcf0 e38Z
e3a5 e3f0 e48a e4c0 eb8b eba5 ebb0 ec8c ecc0 f18k f1a0 f35k f360 f37k f380 f39i f3a0 f71d f72e
f74f f7ae f7e0 f80e f82p f845 f850 f86p f880 fc6k fc70 10373 10380 10395 103b0 108dk 108e0 135dp
13600 17145 171f0 17345 17350 17d25 17d30 17ddp 17e00 18a9o 18aa0 1939l 193ap 193bk 19400 1a17p
1a18k 1a190 1a605 1a610 1a75p 1a7fk 1a800 1ab0p 1ab5k 1abbp 1abdk 1abe0 1abfk 1ac1p 1ac3k 1ac5p
1acak 1acbp 1addk 1ae0p 1ae6k 1ae7p 1aebs 1b000 1b343 1b350 1b445 1b450 1b6bp 1b6ck 1b6dp 1b740
1baa5 1bac0 1be63 1be70 1bf25 1bfc0 1c373 1c3b0 1cd0p 1cd30 1cd41 1cd5k 1cdap 1cdck 1ce0p 1ce10
1ce21 1ce90 1cedk 1cee0 1cf4p 1cf50 1cf8p 1cfa0 1dc0p 1dc2k 1dc3p 1dcak 1dcbp 1dcds 1dceh 1dcfk
1dd0g 1dd1p 1df6q 1df7o 1df9k 1dfaj 1dfbp 1dfcr 1dfdk 1dfep 1dffk 1e010 20d0p 20d21 20d4p 20d81
20dbp 20dd0 20e1p 20e20 20e51 20e7p 20e8k 20e9p 20ea1 20eck 20f0p 21040 2cefp 2cf30 2d7f5 2d800
2de0p 2e000 302aj 302bo 302cq 302dl 302em 30300 30994 309d0 a66fp a6700 a674p a67e0 a69ep a6a00
a6f0p a6f20 a8065 a8070 a82c5 a8300 a8c45 a8c50 a8e0p a8f20 a92bk a92e0 a9535 a95f0 a9b33 a9b40
a9c05 a9c10 aab0p aab10 aab2p aab4k aab50 aab7p aab90 aabep aac00 aac1p aac20 aaf65 ab010 abed5
abf00 fb1eM fbb20 fe20p fe27k fe2ep fe450 101fdk 102800 102e0k 102e10 10376p 103800 10a0dk 10a0e0
10a0fp 10a100 10a38p 10a391 10a3ak 10a3f5 10a400 10ae5p 10ae6k 10aeb0 10d24p 10d300 10d69p 10e600
10eabp 10ead0 10efak 10efc0 10efdk 10f000 10f46k 10f48p 10f4bk 10f4cp 10f4dk 10f510 10f82p 10f83k
10f84p 10f85k 10f860 110465 110470 110705 110710 1107f5 110800 110b95 110ba3 110bb0 11100p 111030
111335 111360 111733 111740 111c05 111c10 111ca3 111cb0 112355 112363 112370 112e93 112ea5 112f00
1133b3 1133d0 1134d5 113500 11366p 113bb0 113ce5 113d20 113e1p 114000 114425 114430 114463 114470
1145ep 1145f0 114c25 114c33 114c40 115bf5 115c03 115c10 1163f5 116400 116b65 116b73 116b80 1172b5
117300 118395 1183a3 1183b0 1193d5 1193f0 119433 119440 119e05 119e10 11a345 11a350 11a475 11a500
11a995 11a9a0 11c3f5 11c400 11d423 11d430 11d445 11d460 11d975 11d980 11f415 11f430 1612f5 168000
16af01 16af50 16b30p 16b370 16ff02 170000 1bc9e1 1bc9f0 1d165i 1d1671 1d16a0 1d16dn 1d16ei 1d17bk
1d1830 1d185p 1d18ak 1d18c0 1d1aap 1d1ae0 1d242p 1d2450 1e000p 1e1000 1e130p 1e1370 1e2aep 1e2c00
1e2ecp 1e2f00 1e4ecq 1e4eek 1e4efp 1e4f00 1e5eep 1e5efk 1e6e3p 1e7e00 1e8d0k 1e9220 1e944p 1e94a3
1e94b0"

/-- The rank of a character. Before U+0300 there is no mark. -/
def rank (c : Char) : Char :=
  if c.toNat < 0x300 then '0' else (ranks.letter? c).getD '0'

/-- Whether a character is a mark that takes the vowel from a consonant. These share a rank. -/
def isVowelKiller (c : Char) : Bool := rank c = '5'

/-- Whether a character can stand in front of another one. -/
def canPrecede (a b : Char) : Bool := rank b = '0' || rank a ≤ rank b

end SoapClient.HostName
