import Memfs.Text.Numeral
import Memfs.Text.Split

/-!
# Mount parameters

A mount is told what to do by parameters: a key, and for most keys a value. A
filesystem type describes the keys that it takes in a table, each with the form
of its value. Decoding a parameter looks its key up there and reads the value in
that form. Written out, the parameters stand in one text, separated by commas,
the value after the first equals sign.
-/

namespace Memfs

/-- The form of a parameter's value. -/
inductive ParameterForm where
  /-- A number below 2^32 in octal. -/
  | octal
  /-- A number below 2^32 in decimal, or in hexadecimal after `0x`. -/
  | number
  /-- No value. -/
  | flag
  | text
  deriving DecidableEq, Repr

/-- A key that a filesystem type takes. -/
structure ParameterSpec where
  name : String
  form : ParameterForm
  /-- What the type knows the key by. -/
  tag : Nat
  deriving DecidableEq, Repr

/-- A parameter as it is given. -/
structure Parameter where
  key : String
  value : Option String
  deriving DecidableEq, Repr

/-- A value that was read in its key's form. -/
inductive ParameterValue where
  | number (n : Nat)
  | flag
  | text (t : String)
  deriving DecidableEq, Repr

/-- The number, if the value is one. -/
def ParameterValue.number? : ParameterValue → Option Nat
  | number n => some n
  | _ => none

/-- Why the value of a known key is refused. -/
inductive ParameterFault where
  /-- The text is no numeral of the key's form. -/
  | malformed
  /-- The key takes no value and has one, or takes one and has none. -/
  | misplaced
  deriving DecidableEq, Repr

/-- A decoded parameter: the key's tag and its value. -/
structure Setting where
  tag : Nat
  value : ParameterValue
  deriving DecidableEq, Repr

namespace ParameterForm

/-- Numbers in parameters lie below this limit. -/
def numberLimit : Nat := UInt32.size

/-- Reads the value of a key in its form. -/
def read (form : ParameterForm) (value : Option String) :
    Except ParameterFault ParameterValue :=
  match form, value with
  | flag, none => .ok .flag
  | text, some v => .ok (.text v)
  | octal, some v => ofNumeral (Text.numeral 8 numberLimit v.toList)
  | number, some v => ofNumeral (Text.decimalOrHex numberLimit v.toList)
  | _, _ => .error .misplaced
where
  /-- A numeral that was read, or the fault that there was none. -/
  ofNumeral : Option Nat → Except ParameterFault ParameterValue
    | some n => .ok (.number n)
    | none => .error .malformed

end ParameterForm

namespace Parameter

/-- Decodes a parameter by a table; of two entries for a key the first counts. A
key that is not in the table is left to others. -/
def decode (specs : List ParameterSpec) (param : Parameter) :
    Except ParameterFault (Option Setting) :=
  match specs.find? (·.name == param.key) with
  | none => .ok none
  | some spec => do
    let value ← spec.form.read param.value
    return some ⟨spec.tag, value⟩

/-- One option of an option string. -/
def ofOption (option : String) : Parameter :=
  match Text.cut '=' option with
  | some (key, value) => ⟨key, some value⟩
  | none => ⟨option, none⟩

/-- The parameters of an option string. Empty options are passed over. -/
def ofOptions (options : String) : List Parameter :=
  (Text.segments ',' options).map ofOption

end Parameter

end Memfs
