import SoapClient.Text.ClassTable

/-!
Which characters can stand in the name of a host. A name is compared in one spelling: of a character
with several forms, such as a capital and a small letter, one form is kept and replaces the others.
The table is that of version 17 of the character set.
-/

namespace SoapClient.HostName

/-- What becomes of a character in a name. -/
inductive Standing where
  | kept
  /-- Another spelling takes its place. -/
  | replaced
  /-- It does not count. -/
  | dropped
  /-- A name cannot hold it, or what it is a form of. -/
  | refused
  deriving DecidableEq

/-- The standing of characters beyond ASCII: kept (K), replaced (R), dropped (D) or refused (X).
Where small and capital letters take turns, those with an even code point (E) or an odd one (O) are
replaced and the others kept. -/
@[irreducible] def standings : Text.ClassTable := .ofText "
80X a1K a8X a9E acK adD aeK afX b0K b2R b4X b5R b6K b8X b9R bbK bcR bfK c0R d7K d8R dfK 100E 133R
135E 138O 140R 142O 14aE 179O 182E 187O 18aR 18cK 18eR 192K 193R 195K 196R 199K 19cR 19eK 19fR
1a1E 1a7O 1abE 1afO 1b2R 1b4O 1b8R 1b9K 1bcR 1bdK 1c4R 1ceO 1ddE 1f0K 1f1R 1f5K 1f6R 1f9E 234K
23aR 23cK 23dR 23fK 241O 244R 247E 250K 2b0R 2b9K 2d8X 2deK 2e0R 2e5K 340R 342K 343R 346K 34fD
350K 370E 378X 37bK 37eR 380X 386R 38bX 38cR 38dX 38eR 390K 391R 3a2X 3a3R 3acK 3cfR 3d7E 3f1R
3f3K 3f4R 3f6O 3faR 3fbK 3fdR 430K 460E 482K 48aE 4c1O 4cfE 530X 531R 557X 559K 587R 588K 58bX
58dK 590X 591K 5c8X 5d0K 5ebX 5efK 5f5X 606K 61cX 61dK 675R 679K 6ddX 6deK 70eX 710K 74bX 74dK
7b2X 7c0K 7fbX 7fdK 82eX 830K 83fX 840K 85cX 85eK 85fX 860K 86bX 870K 890X 897K 8e2X 8e3K 958R
960K 984X 985K 98dX 98fK 991X 993K 9a9X 9aaK 9b1X 9b2K 9b3X 9b6K 9baX 9bcK 9c5X 9c7K 9c9X 9cbK
9cfX 9d7K 9d8X 9dcR 9deX 9dfR 9e0K 9e4X 9e6K 9ffX a01K a04X a05K a0bX a0fK a11X a13K a29X a2aK
a31X a32K a33R a34X a35K a36R a37X a38K a3aX a3cK a3dX a3eK a43X a47K a49X a4bK a4eX a51K a52X
a59R a5cK a5dX a5eR a5fX a66K a77X a81K a84X a85K a8eX a8fK a92X a93K aa9X aaaK ab1X ab2K ab4X
ab5K abaX abcK ac6X ac7K acaX acbK aceX ad0K ad1X ae0K ae4X ae6K af2X af9K b00X b01K b04X b05K
b0dX b0fK b11X b13K b29X b2aK b31X b32K b34X b35K b3aX b3cK b45X b47K b49X b4bK b4eX b55K b58X
b5cR b5eX b5fK b64X b66K b78X b82K b84X b85K b8bX b8eK b91X b92K b96X b99K b9bX b9cK b9dX b9eK
ba0X ba3K ba5X ba8K babX baeK bbaX bbeK bc3X bc6K bc9X bcaK bceX bd0K bd1X bd7K bd8X be6K bfbX
c00K c0dX c0eK c11X c12K c29X c2aK c3aX c3cK c45X c46K c49X c4aK c4eX c55K c57X c58K c5bX c5cK
c5eX c60K c64X c66K c70X c77K c8dX c8eK c91X c92K ca9X caaK cb4X cb5K cbaX cbcK cc5X cc6K cc9X
ccaK cceX cd5K cd7X cdcK cdfX ce0K ce4X ce6K cf0X cf1K cf4X d00K d0dX d0eK d11X d12K d45X d46K
d49X d4aK d50X d54K d64X d66K d80X d81K d84X d85K d97X d9aK db2X db3K dbcX dbdK dbeX dc0K dc7X
dcaK dcbX dcfK dd5X dd6K dd7X dd8K de0X de6K df0X df2K df5X e01K e33R e34K e3bX e3fK e5cX e81K
e83X e84K e85X e86K e8bX e8cK ea4X ea5K ea6X ea7K eb3R eb4K ebeX ec0K ec5X ec6K ec7X ec8K ecfX
ed0K edaX edcR edeK ee0X f00K f0cR f0dK f43R f44K f48X f49K f4dR f4eK f52R f53K f57R f58K f5cR
f5dK f69R f6aK f6dX f71K f73O f76R f7aK f81R f82K f93R f94K f98X f99K f9dR f9eK fa2R fa3K fa7R
fa8K facR fadK fb9R fbaK fbdX fbeK fcdX fceK fdbX 1000K 10a0R 10c6X 10c7R 10c8X 10cdR 10ceX 10d0K
10fcR 10fdK 115fD 1161K 1249X 124aK 124eX 1250K 1257X 1258K 1259X 125aK 125eX 1260K 1289X 128aK
128eX 1290K 12b1X 12b2K 12b6X 12b8K 12bfX 12c0K 12c1X 12c2K 12c6X 12c8K 12d7X 12d8K 1311X 1312K
1316X 1318K 135bX 135dK 137dX 1380K 139aX 13a0K 13f6X 13f8R 13feX 1400K 1680X 1681K 169dX 16a0K
16f9X 1700K 1716X 171fK 1737X 1740K 1754X 1760K 176dX 176eK 1771X 1772K 1774X 1780K 17b4D 17b6K
17deX 17e0K 17eaX 17f0K 17faX 1800K 180bD 1810K 181aX 1820K 1879X 1880K 18abX 18b0K 18f6X 1900K
191fX 1920K 192cX 1930K 193cX 1940K 1941X 1944K 196eX 1970K 1975X 1980K 19acX 19b0K 19caX 19d0K
19dbX 19deK 1a1cX 1a1eK 1a5fX 1a60K 1a7dX 1a7fK 1a8aX 1a90K 1a9aX 1aa0K 1aaeX 1ab0K 1adeX 1ae0K
1aecX 1b00K 1b4dX 1b4eK 1bf4X 1bfcK 1c38X 1c3bK 1c4aX 1c4dK 1c80R 1c8aK 1c8bX 1c90R 1cbbX 1cbdR
1cc0K 1cc8X 1cd0K 1cfbX 1d00K 1d2cR 1d2fK 1d30R 1d3bK 1d3cR 1d4eK 1d4fR 1d6bK 1d78R 1d79K 1d9bR
1dc0K 1e00E 1e96K 1e9aR 1e9cK 1e9eE 1f00K 1f08R 1f10K 1f16X 1f18R 1f1eX 1f20K 1f28R 1f30K 1f38R
1f40K 1f46X 1f48R 1f4eX 1f50K 1f58X 1f59R 1f5aX 1f5bR 1f5cX 1f5dR 1f5eX 1f5fR 1f60K 1f68R 1f70O
1f7eX 1f80R 1fb0K 1fb2R 1fb5X 1fb6K 1fb7R 1fbdX 1fbeR 1fbfX 1fc2R 1fc5X 1fc6K 1fc7R 1fcdX 1fd0K
1fd3R 1fd4X 1fd6K 1fd8R 1fdcX 1fe0K 1fe3R 1fe4K 1fe8R 1fedX 1fefR 1ff0X 1ff2R 1ff5X 1ff6K 1ff7R
1ffdX 200bD 200cK 200eX 2010O 2013K 2017X 2018K 2024X 2027K 2028X 2030K 2033R 2035K 2036R 2038K
203cR 203dK 203eX 203fK 2047X 204aK 2057R 2058K 205fX 2060D 2065X 206aD 2070R 2072X 2074R 208fX
2090R 209dX 20a0K 20a8R 20a9K 20c2X 20d0K 20f1X 2102R 2104K 2105X 2107O 210aR 2114K 2115R 2117K
2119R 211eK 2120R 2123E 212bR 212eK 212fR 213aK 213bR 2141K 2145R 214aK 2150R 2180K 2183R 2184K
2189R 218aK 218cX 2190K 222cR 222eK 222fR 2231K 2329R 232bK 242aX 2440K 244bX 2460R 2488X 249cR
24ebK 2a0cR 2a0dK 2a74X 2a75R 2a77K 2adcR 2addK 2b74X 2b76K 2c00R 2c30K 2c60E 2c63R 2c65K 2c67O
2c6eR 2c71E 2c74O 2c77K 2c7cR 2c81E 2ce4K 2cebO 2cefK 2cf2R 2cf3K 2cf4X 2cf9K 2d26X 2d27K 2d28X
2d2dK 2d2eX 2d30K 2d68X 2d6fR 2d70K 2d71X 2d7fK 2d97X 2da0K 2da7X 2da8K 2dafX 2db0K 2db7X 2db8K
2dbfX 2dc0K 2dc7X 2dc8K 2dcfX 2dd0K 2dd7X 2dd8K 2ddfX 2de0K 2e5eX 2e80K 2e9aX 2e9bK 2e9fR 2ea0K
2ef3R 2ef4X 2f00R 2fd6X 3001E 3004K 3036E 3039R 303bK 3040X 3041K 3097X 3099K 309bX 309dK 309fR
30a0K 30ffR 3100X 3105K 3130X 3131R 3164D 3165R 318fX 3190K 3192R 31a0K 31e6X 31f0K 3200R 321fX
3220R 3248K 3250R 327fK 3280R 33c2X 33c3R 33c7X 33c8R 33d8X 33d9R 3400K a48dX a490K a4c7X a4d0K
a62cX a640E a66eK a680E a69dR a69eK a6f8X a700K a722E a730K a732E a772K a779O a77eE a788K a78bO
a78fE a794K a796E a7abR a7afK a7b0R a7b5E a7c5R a7c8O a7ccE a7ddX a7f1R a7f6K a7f8R a7faK a82dX
a830K a83aX a840K a878X a880K a8c6X a8ceK a8daX a8e0K a954X a95fK a97dX a980K a9ceX a9cfK a9daX
a9deK a9ffX aa00K aa37X aa40K aa4eX aa50K aa5aX aa5cK aac3X aadbK aaf7X ab01K ab07X ab09K ab0fX
ab11K ab17X ab20K ab27X ab28K ab2fX ab30K ab5cR ab60K ab69R ab6aK ab6cX ab70R abc0K abeeX abf0K
abfaX ac00K d7a4X d7b0K d7c7X d7cbK d7fcX f900R fa0eK fa10E fa14K fa15R fa1fE fa24K fa25R fa27K
fa2aR fa6eX fa70R fadaX fb00R fb07X fb13R fb18X fb1dO fb20R fb37X fb38R fb3dX fb3eR fb3fX fb40R
fb42X fb43R fb45X fb46R fbb2K fbd3R fc5eX fc64R fd3eK fd50R fd90K fd92R fdc8K fdd0X fdf0R fdfaX
fdfcR fdfdK fe00D fe10R fe12X fe14R fe16X fe17R fe19X fe20K fe30X fe31R fe45K fe47X fe4dR fe52X
fe54R fe55X fe57R fe5fX fe60R fe64X fe66R fe67X fe69R fe6aX fe71R fe72X fe73K fe74X fe77R fe78X
fe79R fe7aX fe7bR fe7cX fe7dR fe7eX fe7fR fefdX feffD ff00X ff01R ff03X ff04R ff05X ff06R ff0fX
ff10R ff1aX ff1bR ff1cX ff1dR ff1eX ff21R ff3bX ff3fR ff5cX ff5dR ffa0D ffa1R ffbfX ffc2R ffc8X
ffcaR ffd0X ffd2R ffd8X ffdaR ffddX ffe0R ffe3X ffe4R ffe7X ffe8R ffefX 10000K 1000cX 1000dK
10027X 10028K 1003bX 1003cK 1003eX 1003fK 1004eX 10050K 1005eX 10080K 100fbX 10100K 10103X 10107K
10134X 10137K 1018fX 10190K 1019dX 101a0K 101a1X 101d0K 101feX 10280K 1029dX 102a0K 102d1X 102e0K
102fcX 10300K 10324X 1032dK 1034bX 10350K 1037bX 10380K 1039eX 1039fK 103c4X 103c8K 103d6X 10400R
10428K 1049eX 104a0K 104aaX 104b0R 104d4X 104d8K 104fcX 10500K 10528X 10530K 10564X 1056fK 10570R
1057bX 1057cR 1058bX 1058cR 10593X 10594R 10596X 10597K 105a2X 105a3K 105b2X 105b3K 105baX 105bbK
105bdX 105c0K 105f4X 10600K 10737X 10740K 10756X 10760K 10768X 10780K 10781R 10786X 10787R 107b1X
107b2R 107bbX 10800K 10806X 10808K 10809X 1080aK 10836X 10837K 10839X 1083cK 1083dX 1083fK 10856X
10857K 1089fX 108a7K 108b0X 108e0K 108f3X 108f4K 108f6X 108fbK 1091cX 1091fK 1093aX 1093fK 1095aX
10980K 109b8X 109bcK 109d0X 109d2K 10a04X 10a05K 10a07X 10a0cK 10a14X 10a15K 10a18X 10a19K 10a36X
10a38K 10a3bX 10a3fK 10a49X 10a50K 10a59X 10a60K 10aa0X 10ac0K 10ae7X 10aebK 10af7X 10b00K 10b36X
10b39K 10b56X 10b58K 10b73X 10b78K 10b92X 10b99K 10b9dX 10ba9K 10bb0X 10c00K 10c49X 10c80R 10cb3X
10cc0K 10cf3X 10cfaK 10d28X 10d30K 10d3aX 10d40K 10d50R 10d66X 10d69K 10d86X 10d8eK 10d90X 10e60K
10e7fX 10e80K 10eaaX 10eabK 10eaeX 10eb0K 10eb2X 10ec2K 10ec8X 10ed0K 10ed9X 10efaK 10f28X 10f30K
10f5aX 10f70K 10f8aX 10fb0K 10fccX 10fe0K 10ff7X 11000K 1104eX 11052K 11076X 1107fK 110bdX 110beK
110c3X 110d0K 110e9X 110f0K 110faX 11100K 11135X 11136K 11148X 11150K 11177X 11180K 111e0X 111e1K
111f5X 11200K 11212X 11213K 11242X 11280K 11287X 11288K 11289X 1128aK 1128eX 1128fK 1129eX 1129fK
112aaX 112b0K 112ebX 112f0K 112faX 11300K 11304X 11305K 1130dX 1130fK 11311X 11313K 11329X 1132aK
11331X 11332K 11334X 11335K 1133aX 1133bK 11345X 11347K 11349X 1134bK 1134eX 11350K 11351X 11357K
11358X 1135dK 11364X 11366K 1136dX 11370K 11375X 11380K 1138aX 1138bK 1138cX 1138eK 1138fX 11390K
113b6X 113b7K 113c1X 113c2K 113c3X 113c5K 113c6X 113c7K 113cbX 113ccK 113d6X 113d7K 113d9X 113e1K
113e3X 11400K 1145cX 1145dK 11462X 11480K 114c8X 114d0K 114daX 11580K 115b6X 115b8K 115deX 11600K
11645X 11650K 1165aX 11660K 1166dX 11680K 116baX 116c0K 116caX 116d0K 116e4X 11700K 1171bX 1171dK
1172cX 11730K 11747X 11800K 1183cX 118a0R 118c0K 118f3X 118ffK 11907X 11909K 1190aX 1190cK 11914X
11915K 11917X 11918K 11936X 11937K 11939X 1193bK 11947X 11950K 1195aX 119a0K 119a8X 119aaK 119d8X
119daK 119e5X 11a00K 11a48X 11a50K 11aa3X 11ab0K 11af9X 11b00K 11b0aX 11b60K 11b68X 11bc0K 11be2X
11bf0K 11bfaX 11c00K 11c09X 11c0aK 11c37X 11c38K 11c46X 11c50K 11c6dX 11c70K 11c90X 11c92K 11ca8X
11ca9K 11cb7X 11d00K 11d07X 11d08K 11d0aX 11d0bK 11d37X 11d3aK 11d3bX 11d3cK 11d3eX 11d3fK 11d48X
11d50K 11d5aX 11d60K 11d66X 11d67K 11d69X 11d6aK 11d8fX 11d90K 11d92X 11d93K 11d99X 11da0K 11daaX
11db0K 11ddcX 11de0K 11deaX 11ee0K 11ef9X 11f00K 11f11X 11f12K 11f3bX 11f3eK 11f5bX 11fb0K 11fb1X
11fc0K 11ff2X 11fffK 1239aX 12400K 1246fX 12470K 12475X 12480K 12544X 12f90K 12ff3X 13000K 13430X
13440K 13456X 13460K 143fbX 14400K 14647X 16100K 1613aX 16800K 16a39X 16a40K 16a5fX 16a60K 16a6aX
16a6eK 16abfX 16ac0K 16acaX 16ad0K 16aeeX 16af0K 16af6X 16b00K 16b46X 16b50K 16b5aX 16b5bK 16b62X
16b63K 16b78X 16b7dK 16b90X 16d40K 16d7aX 16e40R 16e60K 16e9bX 16ea0R 16eb9X 16ebbK 16ed4X 16f00K
16f4bX 16f4fK 16f88X 16f8fK 16fa0X 16fe0K 16fe5X 16ff0K 16ff7X 17000K 18cd6X 18cffK 18d1fX 18d80K
18df3X 1aff0K 1aff4X 1aff5K 1affcX 1affdK 1afffX 1b000K 1b123X 1b132K 1b133X 1b150K 1b153X 1b155K
1b156X 1b164K 1b168X 1b170K 1b2fcX 1bc00K 1bc6bX 1bc70K 1bc7dX 1bc80K 1bc89X 1bc90K 1bc9aX 1bc9cK
1bca0D 1bca4X 1cc00K 1ccd6R 1ccfaK 1ccfdX 1cd00K 1ceb4X 1cebaK 1ced1X 1cee0K 1cef1X 1cf00K 1cf2eX
1cf30K 1cf47X 1cf50K 1cfc4X 1d000K 1d0f6X 1d100K 1d127X 1d129K 1d15eR 1d165K 1d173D 1d17bK 1d1bbR
1d1c1K 1d1ebX 1d200K 1d246X 1d2c0K 1d2d4X 1d2e0K 1d2f4X 1d300K 1d357X 1d360K 1d379X 1d400R 1d455X
1d456R 1d49dX 1d49eR 1d4a0X 1d4a2R 1d4a3X 1d4a5R 1d4a7X 1d4a9R 1d4adX 1d4aeR 1d4baX 1d4bbR 1d4bcX
1d4bdR 1d4c4X 1d4c5R 1d506X 1d507R 1d50bX 1d50dR 1d515X 1d516R 1d51dX 1d51eR 1d53aX 1d53bR 1d53fX
1d540R 1d545X 1d546R 1d547X 1d54aR 1d551X 1d552R 1d6a6X 1d6a8R 1d7ccX 1d7ceR 1d800K 1da8cX 1da9bK
1daa0X 1daa1K 1dab0X 1df00K 1df1fX 1df25K 1df2bX 1e000K 1e007X 1e008K 1e019X 1e01bK 1e022X 1e023K
1e025X 1e026K 1e02bX 1e030R 1e06eX 1e08fK 1e090X 1e100K 1e12dX 1e130K 1e13eX 1e140K 1e14aX 1e14eK
1e150X 1e290K 1e2afX 1e2c0K 1e2faX 1e2ffK 1e300X 1e4d0K 1e4faX 1e5d0K 1e5fbX 1e5ffK 1e600X 1e6c0K
1e6dfX 1e6e0K 1e6f6X 1e6feK 1e700X 1e7e0K 1e7e7X 1e7e8K 1e7ecX 1e7edK 1e7efX 1e7f0K 1e7ffX 1e800K
1e8c5X 1e8c7K 1e8d7X 1e900R 1e922K 1e94cX 1e950K 1e95aX 1e95eK 1e960X 1ec71K 1ecb5X 1ed01K 1ed3eX
1ee00R 1ee04X 1ee05R 1ee20X 1ee21R 1ee23X 1ee24R 1ee25X 1ee27R 1ee28X 1ee29R 1ee33X 1ee34R 1ee38X
1ee39R 1ee3aX 1ee3bR 1ee3cX 1ee42R 1ee43X 1ee47R 1ee48X 1ee49R 1ee4aX 1ee4bR 1ee4cX 1ee4dR 1ee50X
1ee51R 1ee53X 1ee54R 1ee55X 1ee57R 1ee58X 1ee59R 1ee5aX 1ee5bR 1ee5cX 1ee5dR 1ee5eX 1ee5fR 1ee60X
1ee61R 1ee63X 1ee64R 1ee65X 1ee67R 1ee6bX 1ee6cR 1ee73X 1ee74R 1ee78X 1ee79R 1ee7dX 1ee7eR 1ee7fX
1ee80R 1ee8aX 1ee8bR 1ee9cX 1eea1R 1eea4X 1eea5R 1eeaaX 1eeabR 1eebcX 1eef0K 1eef2X 1f000K 1f02cX
1f030K 1f094X 1f0a0K 1f0afX 1f0b1K 1f0c0X 1f0c1K 1f0d0X 1f0d1K 1f0f6X 1f101R 1f10bK 1f110R 1f12fK
1f130R 1f150K 1f16aR 1f16dK 1f190R 1f191K 1f1aeX 1f1e6K 1f200R 1f203X 1f210R 1f23cX 1f240R 1f249X
1f250R 1f252X 1f260K 1f266X 1f300K 1f6d9X 1f6dcK 1f6edX 1f6f0K 1f6fdX 1f700K 1f7daX 1f7e0K 1f7ecX
1f7f0K 1f7f1X 1f800K 1f80cX 1f810K 1f848X 1f850K 1f85aX 1f860K 1f888X 1f890K 1f8aeX 1f8b0K 1f8bcX
1f8c0K 1f8c2X 1f8d0K 1f8d9X 1f900K 1fa58X 1fa60K 1fa6eX 1fa70K 1fa7dX 1fa80K 1fa8bX 1fa8eK 1fac7X
1fac8K 1fac9X 1facdK 1faddX 1fadfK 1faebX 1faefK 1faf9X 1fb00K 1fb93X 1fb94K 1fbf0R 1fbfaK 1fbfbX
20000K 2a6e0X 2a700K 2b81eX 2b820K 2ceaeX 2ceb0K 2ebe1X 2ebf0K 2ee5eX 2f800R 2fa1eX 30000K 3134bX
31350K 3347aX e0100D e01f0X"

namespace Standing

/-- The standing of a character that a letter of the table says. -/
def ofLetter (letter : Option Char) (c : Char) : Standing :=
  match letter with
  | some 'K' => kept
  | some 'R' => replaced
  | some 'D' => dropped
  | some 'E' => if c.toNat % 2 = 0 then replaced else kept
  | some 'O' => if c.toNat % 2 = 0 then kept else replaced
  | _ => refused

/-- Characters that part an address or that are kept out of names besides. -/
def isDelimiter : Char → Bool
  | '%' | '#' | '/' | ':' | '<' | '>' | '?' | '@' | '[' | '\\' | ']' | '^' | '|' => true
  | _ => false

/-- The standing of a character of ASCII. Blanks, control characters and delimiters are refused. -/
def ofAscii (c : Char) : Standing :=
  if c.toNat ≤ 32 || c.toNat = 127 || isDelimiter c then refused
  else if c.isUpper then replaced
  else kept

/-- The standing of a character. -/
def of (c : Char) : Standing :=
  if c.toNat < 128 then ofAscii c else ofLetter (standings.letter? c) c

end Standing

end SoapClient.HostName
