/-!
# Double precision numbers

The numbers that a document gives with a fraction or an exponent, in the binary format of 64 bits.
They are the multiples of a least positive number up to a greatest one, with gaps that double at
each power of two, and an infinite number on either side. A number is shown by the fewest decimal
digits that single it out among its neighbours.
-/
namespace MonkeyLang

/-- Where a number lies: at a multiple of the least positive double, or beyond all of these. -/
inductive Magnitude where
  | below
  | units (count : Int)
  | above
  deriving Repr, DecidableEq

namespace Magnitude

/-- How many times the least positive double goes into one. -/
def one : Nat := 1 <<< 1074

/-- Where an integer lies. -/
def ofInt (value : Int) : Magnitude := units (value * one)

/-- Whether a number lies before another one or at the same place. -/
def atMost : Magnitude → Magnitude → Bool
  | below, _ => true
  | _, above => true
  | units a, units b => decide (a ≤ b)
  | _, _ => false

end Magnitude

/-- A number of double precision: its sign, and the 63 bits that tell its size. Eleven of them are
the exponent; all of these set with a fraction besides would be no number. -/
structure Double where
  negative : Bool
  code : Nat
  isNumber : code ≤ 2047 <<< 52
  deriving Repr, DecidableEq

namespace Double

/-- The significant bits, with the leading one that the code leaves out for all but the smallest
numbers. -/
def significand (x : Double) : Nat :=
  if x.code < 1 <<< 52 then x.code else x.code % (1 <<< 52) + 1 <<< 52

/-- How often the least unit is doubled. -/
def doublings (x : Double) : Nat := x.code >>> 52 - 1

/-- The size of a finite number, as a multiple of the least positive one. -/
def units (x : Double) : Nat := x.significand <<< x.doublings

/-- Whether a number is one of the two infinite ones. -/
def isInfinite (x : Double) : Bool := x.code == 2047 <<< 52

/-- Where a number lies. Both zeros lie at one place. -/
def magnitude (x : Double) : Magnitude :=
  match x.isInfinite, x.negative with
  | true, true => .below
  | true, false => .above
  | false, true => .units (-(x.units : Int))
  | false, false => .units x.units

/-- Whether a number is finite and has no fraction. -/
def isWhole (x : Double) : Bool := !x.isInfinite && x.units % Magnitude.one == 0

/-! ## Decimal digits -/

/-- A number by its decimal digits and the power of ten that the last of them counts. -/
structure Decimal where
  digits : Nat
  power : Int
  deriving Repr, DecidableEq

/-- The ends of the range of numbers for which a finite number is the closest double, in quarters
of the least unit. Below a power of two the doubles are twice as dense. -/
def bounds (x : Double) : Nat × Nat :=
  let quarter := 1 <<< x.doublings
  let dense := x.significand = 1 <<< 52 ∧ 0 < x.doublings
  (4 * x.units - (if dense then quarter else 2 * quarter), 4 * x.units + 2 * quarter)

/-- The number of decimal digits before the point, or less than zero for the zeros behind it. -/
def decimalPlaces (x : Double) : Int :=
  let places := (List.range 633).find? fun place =>
    x.units * Nat.pow 10 (323 - place) < Magnitude.one * Nat.pow 10 (place - 323)
  (places.getD 633 : Int) - 323

/-- Whether a decimal is in the range of numbers for which a finite number is the closest double.
The ends of the range belong to it when the last significant bit is not set. -/
def isClosestTo (x : Double) (decimal : Decimal) : Bool :=
  -- A power of ten turns the sizes on both sides into integers.
  let scale := Nat.pow 10 (-decimal.power).toNat
  let size := decimal.digits * (4 * Magnitude.one * Nat.pow 10 decimal.power.toNat)
  let (low, high) := x.bounds
  if x.significand % 2 = 0 then low * scale ≤ size ∧ size ≤ high * scale
  else low * scale < size ∧ size < high * scale

/-- The decimal of so many digits that is closest to a finite number, if that one is the closest
double to a decimal of so many digits. -/
def closest? (x : Double) (count : Nat) : Option Decimal :=
  let power := x.decimalPlaces - count
  let size := 4 * x.units * Nat.pow 10 (-power).toNat
  let step := 4 * Magnitude.one * Nat.pow 10 power.toNat
  let lower : Decimal := ⟨size / step, power⟩
  let upper : Decimal := ⟨size / step + 1, power⟩
  match x.isClosestTo lower, x.isClosestTo upper with
  | true, true =>
    let (rise, fall) := (upper.digits * step - size, size - lower.digits * step)
    some (if rise < fall ∨ rise = fall ∧ lower.digits % 2 = 1 then upper else lower)
  | true, false => some lower
  | false, true => some upper
  | false, false => none

/-- A decimal that is found for a number singles it out. -/
theorem isClosestTo_of_closest? {x : Double} {count : Nat} {decimal : Decimal}
    (found : x.closest? count = some decimal) : x.isClosestTo decimal = true := by
  simp only [closest?] at found
  split at found
  · rename_i lower upper
    obtain rfl := Option.some.inj found
    split
    · exact upper
    · exact lower
  · rename_i lower _
    exact Option.some.inj found ▸ lower
  · rename_i _ upper
    exact Option.some.inj found ▸ upper
  · exact nomatch found

/-- The shortest decimal that singles out a finite number; seventeen digits are always enough. -/
def shortest (x : Double) : Decimal :=
  if x.units = 0 then ⟨0, 0⟩
  else ((List.range 17).findSome? fun count => x.closest? (count + 1)).getD ⟨0, 0⟩

/-- A decimal of many places before or behind the point, with its exponent. -/
def scientific (digits : String) (exponent : Int) : String :=
  let power := toString exponent.natAbs
  String.ofList (digits.toList.take 1) ++ (if digits.length = 1 then "" else ".")
    ++ String.ofList (digits.toList.drop 1) ++ (if exponent < 0 then "e-" else "e+")
    ++ "".pushn '0' (2 - power.length) ++ power

/-- A decimal with its point, zeros filling up the places between. -/
def positional (digits : String) (places : Int) : String :=
  if places ≤ 0 then "0." ++ "".pushn '0' places.natAbs ++ digits
  else if digits.length ≤ places.toNat then
    digits ++ "".pushn '0' (places.toNat - digits.length) ++ ".0"
  else
    String.ofList (digits.toList.take places.toNat) ++ "."
      ++ String.ofList (digits.toList.drop places.toNat)

/-- A number as messages show it. -/
def shown (x : Double) : String :=
  (if x.negative then "-" else "") ++
    if x.isInfinite then "inf"
    else if x.units = 0 then "0.0"
    else
      let decimal := x.shortest
      let written := toString decimal.digits
      let digits := String.ofList (written.toList.reverse.dropWhile (· == '0')).reverse
      let places := decimal.power + written.length
      if -4 < places ∧ places ≤ 16 then positional digits places
      else scientific digits (places - 1)

end Double

end MonkeyLang
