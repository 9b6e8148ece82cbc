import SoapClient.Decimal.Shortest

/-!
How a binary64 number is laid out as a text: its shortest digits, with a point among them or with
an exponent behind them.
-/

namespace SoapClient.Decimal

/-- The decisions of a layout. -/
structure Layout where
  /-- The exponents of the leading digit that are written without an exponent. -/
  positional : Int → Bool
  /-- A whole number written without an exponent ends in `.0`. -/
  pointZero : Bool
  /-- Which of two equally near decimals is taken. -/
  tie : Tie

/-- Digits with a point `-exponent` places from their end. -/
def Scaled.positionalText (d : Scaled) (pointZero : Bool) : List Char :=
  let ds := digits d.mantissa
  if 0 ≤ d.exponent then
    ds ++ List.replicate d.exponent.toNat '0' ++ if pointZero then ['.', '0'] else []
  else
    let places := (-d.exponent).toNat
    if places < ds.length then ds.take (ds.length - places) ++ '.' :: ds.drop (ds.length - places)
    else '0' :: '.' :: List.replicate (places - ds.length) '0' ++ ds

/-- One digit before the point, the others behind it, and a signed exponent. -/
def Scaled.exponentText (d : Scaled) (lead : Int) : List Char :=
  let ds := digits d.mantissa
  let sign := if lead < 0 then '-' else '+'
  let fraction := if ds.length = 1 then [] else '.' :: ds.drop 1
  ds.take 1 ++ fraction ++ 'e' :: sign :: digits lead.natAbs

/-- The text of a number in a layout. -/
def Layout.render (layout : Layout) (x : Binary64) : List Char :=
  let sign := if x.negative then ['-'] else []
  if x.isZero then sign ++ '0' :: if layout.pointZero then ['.', '0'] else []
  else
    let d := x.shortest layout.tie
    let lead := (digitCount d.mantissa : Int) + d.exponent - 1
    sign ++
      if layout.positional lead then d.positionalText layout.pointZero else d.exponentText lead

/-- All digits are written out, without an exponent; a whole number has no point. -/
def Layout.plain : Layout := ⟨fun _ => true, false, .up⟩

end SoapClient.Decimal
