/-! # Shortest decimal text of a binary64 number

    A finite double is written with the fewest significant digits that read
    back as the same double, and among those with the digits nearest to it.
    All arithmetic is exact, on natural numbers.
-/

namespace LoginRegistry.Text

/-- A positive double as `mantissa * 2 ^ exponent`. -/
structure Binary where
  /-- The significand as an integer. -/
  mantissa : Nat
  /-- The power of two it is scaled by. -/
  exponent : Int
  /-- Whether the next smaller double is only half as far as the next larger. -/
  atPowerOfTwo : Bool

/-- A decimal number `digits * 10 ^ exponent`. -/
structure DecimalDigits where
  /-- The digits as one number. -/
  digits : Nat
  /-- The power of ten it is scaled by. -/
  exponent : Int

/-- The number of fractions of a double, `2 ^ 52`. -/
def fractions : Nat := 4503599627370496

/-- The number of biased exponents of a double, `2 ^ 11`. -/
def exponents : Nat := 2048

/-- The magnitude stored in the bits of a finite double; `none` for zero. -/
def Binary.ofBits (bits : Nat) : Option Binary :=
  let fraction := bits % fractions
  let biased : Nat := bits / fractions % exponents
  if biased = 0 then
    if fraction = 0 then none else some ⟨fraction, -1074, false⟩
  else some ⟨fractions + fraction, (biased : Int) - 1075, fraction = 0 && 1 < biased⟩

/-- Four times the value and the bounds of the numbers that round to it, over a
    common denominator: `(low, value, high, denominator)`. -/
def Binary.bounds (x : Binary) : Nat × Nat × Nat × Nat :=
  let m := 4 * x.mantissa
  let low := if x.atPowerOfTwo then m - 1 else m - 2
  let scale := Nat.pow 2 (x.exponent - 2).toNat
  (low * scale, m * scale, (m + 2) * scale, Nat.pow 2 (2 - x.exponent).toNat)

/-- The nearest multiple of `10 ^ k` that rounds to the double, if any does. -/
def Binary.onGrid? (x : Binary) (k : Int) : Option DecimalDigits :=
  let (low, value, high, den) := x.bounds
  let unit := den * Nat.pow 10 k.toNat
  let factor := Nat.pow 10 (-k).toNat
  let below := value * factor / unit
  let inside (d : Nat) : Bool :=
    if x.mantissa % 2 = 0 then low * factor ≤ d * unit && d * unit ≤ high * factor
    else low * factor < d * unit && d * unit < high * factor
  let gapBelow := value * factor - below * unit
  let gapAbove := (below + 1) * unit - value * factor
  let takeBelow := gapBelow < gapAbove || (gapBelow == gapAbove && below % 2 == 0)
  match inside below, inside (below + 1) with
  | true, true => some ⟨if takeBelow then below else below + 1, k⟩
  | true, false => some ⟨below, k⟩
  | false, true => some ⟨below + 1, k⟩
  | false, false => none

/-- Searches the grids `10 ^ k`, `10 ^ (k - 1)`, … for the first that has a hit. -/
def Binary.search (x : Binary) : Nat → Int → DecimalDigits
  | 0, k => ⟨0, k⟩
  | fuel + 1, k =>
    match x.onGrid? k with
    | some d => d
    | none => x.search fuel (k - 1)

/-- The shortest decimal of a double; every double lies on a grid between
    `10 ^ 309` and `10 ^ (-324)`. -/
def Binary.shortest (x : Binary) : DecimalDigits := x.search 640 309

/-- Positional notation while the point falls within the first sixteen digits
    or at most four zeros follow it, otherwise one digit before the point and an
    exponent with its sign. -/
def DecimalDigits.render (d : DecimalDigits) : List Char :=
  let ds := Nat.toDigits 10 d.digits
  let point : Int := ds.length + d.exponent
  if 0 ≤ d.exponent ∧ point ≤ 16 then
    ds ++ List.replicate d.exponent.toNat '0' ++ ['.', '0']
  else if 0 < point ∧ point ≤ 16 then
    ds.take point.toNat ++ '.' :: ds.drop point.toNat
  else if -5 < point ∧ point ≤ 0 then
    ['0', '.'] ++ List.replicate (-point).toNat '0' ++ ds
  else
    let power := point - 1
    let exponent := (if power < 0 then '-' else '+') :: Nat.toDigits 10 power.natAbs
    match ds with
    | [c] => c :: 'e' :: exponent
    | c :: rest => c :: '.' :: rest ++ 'e' :: exponent
    | [] => []

/-- The text of a finite double. -/
def shortestFloat (x : Float) : String :=
  let bits := x.toBits.toNat
  let sign := if bits / (fractions * exponents) = 1 then ['-'] else []
  let magnitude :=
    match Binary.ofBits bits with
    | none => ['0', '.', '0']
    | some b => b.shortest.render
  String.ofList (sign ++ magnitude)

end LoginRegistry.Text
