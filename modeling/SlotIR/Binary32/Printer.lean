import SlotIR.Binary32.Rounding

/-!
# Decimal text of single precision numbers

A finite number is written with the fewest digits that read back to it, the nearer of two such
texts being taken. Between `10 ^ -4` and `10 ^ 16` the notation is positional and keeps a fraction
digit; outside it is scientific.
-/

namespace SlotIR.Binary32

/-- A finite magnitude as a decimal `coefficient * 10 ^ exponent`, exactly. -/
def exactDecimal (x : Binary32) : Nat × Int :=
  if 0 ≤ x.exponent then (x.significand * Nat.pow 2 x.exponent.toNat, 0)
  else (x.significand * Nat.pow 5 (-x.exponent).toNat, x.exponent)

/-- The multiples of `10 ^ dropped` on both sides of `coefficient`, in units of `10 ^ dropped`, the
nearer first and the upper one first at equal distance. -/
def neighbours (coefficient dropped : Nat) : List Nat :=
  let unit := Nat.pow 10 dropped
  let below := coefficient / unit
  let rest := coefficient % unit
  if rest = 0 then [below]
  else if 2 * rest < unit then [below, below + 1]
  else [below + 1, below]

/-- The shortest decimal that reads back to the magnitude of `x`, nearest to it among those. -/
def shortestDecimal (x : Binary32) : Nat × Int :=
  let (coefficient, exponent) := x.exactDecimal
  let length := decimalLength coefficient
  let candidates := (List.range length).flatMap fun i =>
    let dropped := length - (i + 1)
    (neighbours coefficient dropped).map fun c => (c, exponent + dropped)
  (candidates.find? fun (c, e) => (ofDecimal x.negative c e) == x).getD (coefficient, exponent)

/-- Digits without their trailing zeros; a single zero stays. -/
def trimZeros (digits : List Char) : List Char :=
  match (digits.reverse.dropWhile (· == '0')).reverse with
  | [] => ['0']
  | ds => ds

/-- Positional notation of `0.digits * 10 ^ point`, with a digit on both sides of the point. -/
def positional (digits : List Char) (point : Int) : List Char :=
  if point ≤ 0 then '0' :: '.' :: (List.replicate (-point).toNat '0' ++ digits)
  else
    let whole := digits.take point.toNat
    let fraction := digits.drop point.toNat
    whole ++ List.replicate (point.toNat - whole.length) '0' ++
      '.' :: (if fraction.isEmpty then ['0'] else fraction)

/-- Scientific notation of `0.digits * 10 ^ point`, with one digit before the point. -/
def scientific (digits : List Char) (point : Int) : List Char :=
  let fraction := digits.drop 1
  let exponent := point - 1
  digits.take 1 ++ (if fraction.isEmpty then [] else '.' :: fraction) ++
    'e' :: (if exponent < 0 then ['-'] else []) ++ Nat.toDigits 10 exponent.natAbs

/-- Whether a finite number is written in positional notation. -/
def isPositional (x : Binary32) : Bool :=
  x.magnitude.val == 0 ||
    ((ofDecimal false 1 (-4)).magnitude.val ≤ x.magnitude.val &&
      x.magnitude.val < (ofDecimal false 1 16).magnitude.val)

/-- The decimal text of a number. -/
def toText (x : Binary32) : String :=
  if x.isNaN then "NaN"
  else
    let unsigned :=
      if x.isInfinite then ['i', 'n', 'f']
      else
        let (coefficient, exponent) := x.shortestDecimal
        let digits := Nat.toDigits 10 coefficient
        let point := exponent + digits.length
        if x.isPositional then positional (trimZeros digits) (if coefficient = 0 then 1 else point)
        else scientific (trimZeros digits) point
    String.ofList (if x.negative then '-' :: unsigned else unsigned)

end SlotIR.Binary32
