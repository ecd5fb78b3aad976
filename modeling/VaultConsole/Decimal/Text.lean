import VaultConsole.Decimal.Shortest

/-!
# Texts of floating-point numbers

A decimal is written positionally (`0.00015`) or with an exponent (`1.5e-4`); a `FloatText` says
where each is used and how the special numbers read. The two layouts of the console are
`FloatText.plain`, which never uses an exponent, and `FloatText.json`.
-/

namespace VaultConsole.Decimal

/-- The decisions of a layout of floating-point numbers. -/
structure FloatText where
  /-- Powers of ten of the first digit that are written positionally. -/
  positional : Int → Bool
  /-- Whether a number without a fraction keeps `.0` in positional notation. -/
  pointZero : Bool
  /-- Whether a positive exponent has a plus sign. -/
  plusSign : Bool
  /-- Which of two equally near shortest decimals is written. -/
  tie : Tie
  nan : String
  infinite : Bool → String

namespace FloatText

/-- Values as the console shows them: all digits, no exponent, no `.0`. -/
def plain : FloatText := ⟨fun _ => true, false, false, .up, "NaN", fun n => if n then "-inf" else "inf"⟩

/-- Values inside JSON: positional from `1e-5` up to `1e16`; what is not finite has no number. -/
def json : FloatText :=
  ⟨fun k => decide (-5 ≤ k) && decide (k < 16), true, true, .even, "null", fun _ => "null"⟩

end FloatText

/-- The power of ten of the first digit. -/
def Scientific.top (s : Scientific) : Int := s.exponent + (digitsOf s.digits).length - 1

/-- Positional notation. -/
def Scientific.positional (s : Scientific) (pointZero : Bool) : String :=
  let ds := digitsOf s.digits
  if 0 ≤ s.exponent then
    String.ofList (ds ++ List.replicate s.exponent.toNat '0') ++ (if pointZero then ".0" else "")
  else
    let places := (-s.exponent).toNat
    if places < ds.length then
      String.ofList (ds.take (ds.length - places) ++ '.' :: ds.drop (ds.length - places))
    else "0." ++ String.ofList (List.replicate (places - ds.length) '0' ++ ds)

/-- Notation with an exponent; a single digit has no point. -/
def Scientific.withExponent (s : Scientific) (plusSign : Bool) : String :=
  let head := match digitsOf s.digits with
    | [] => ""
    | [d] => String.ofList [d]
    | d :: ds => String.ofList (d :: '.' :: ds)
  let k := s.top
  head ++ "e" ++ (if k < 0 then "-" else if plusSign then "+" else "") ++ toString k.natAbs

/-- The shortest text of a number in a layout. -/
def FloatText.render (layout : FloatText) (bits : UInt64) : String :=
  match Binary64.ofBits bits with
  | .nan => layout.nan
  | .infinite negative => layout.infinite negative
  | .finite x =>
    let s := shortest layout.tie x.mantissa x.exponent
    let sign := if x.negative then "-" else ""
    if x.mantissa = 0 || layout.positional s.top then sign ++ s.positional layout.pointZero
    else sign ++ s.withExponent layout.plusSign

end VaultConsole.Decimal
