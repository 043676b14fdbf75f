/-!
# Numerals

Numbers in option values: digits of a base up to sixteen, of either case, after
an optional plus sign. A numeral may have any number of leading zeros; it is
refused when it has no digit, when it has a character that is no digit of the
base, and when it denotes a number at or above a given limit.
-/

namespace Memfs.Text

/-- The value of a digit, `a` and `A` standing for ten. -/
def digitValue (c : Char) : Option Nat :=
  if '0' ≤ c ∧ c ≤ '9' then some (c.toNat - '0'.toNat)
  else if 'a' ≤ c ∧ c ≤ 'z' then some (c.toNat - 'a'.toNat + 10)
  else if 'A' ≤ c ∧ c ≤ 'Z' then some (c.toNat - 'A'.toNat + 10)
  else none

/-- The value of a digit that `base` has. -/
def digitBelow (base : Nat) (c : Char) : Option Nat :=
  (digitValue c).filter (· < base)

/-- The number that the digits `cs` go on to write after `n`. -/
def digitsFrom (base : Nat) (n : Nat) : List Char → Option Nat
  | [] => some n
  | c :: rest => do digitsFrom base (n * base + (← digitBelow base c)) rest

/-- A numeral without its sign: at least one digit. -/
def unsignedNumeral (base : Nat) : List Char → Option Nat
  | [] => none
  | cs => digitsFrom base 0 cs

/-- The number below `limit` that a numeral of `base` denotes. -/
def numeral (base limit : Nat) (cs : List Char) : Option Nat :=
  (match cs with
    | '+' :: digits => unsignedNumeral base digits
    | digits => unsignedNumeral base digits).filter (· < limit)

/-- Decimal, or hexadecimal after `0x` or `0X`. -/
def decimalOrHex (limit : Nat) : List Char → Option Nat
  | '0' :: 'x' :: digits => numeral 16 limit digits
  | '0' :: 'X' :: digits => numeral 16 limit digits
  | digits => numeral 10 limit digits

/-- A number in octal, without leading zeros. -/
def octal (n : Nat) : String :=
  String.ofList (Nat.toDigits 8 n)

/-- A number in lower-case hexadecimal, without leading zeros. -/
def hex (n : Nat) : String :=
  String.ofList (Nat.toDigits 16 n)

end Memfs.Text
