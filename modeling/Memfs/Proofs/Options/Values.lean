import Memfs.Proofs.Configuring
import Memfs.Proofs.Runs
import Memfs.Proofs.Options.Numerals

/-!
# Numeric values

Which texts a numeric key takes, and for which number. A decimal numeral and the prefix of a
hexadecimal one both begin with a zero, and the program tells them apart by what follows. It
could go by the whole text as well: the letter of the prefix is no digit of base ten, so no
text is both, and `Writes` needs no order between its cases.

Everything is said of a key where it is first in a table, whatever else the table has. A
table may have the key once more behind, with another form, and that entry counts for
nothing.
-/

namespace Memfs

namespace ParameterForm

/-- The text writes the number in a numeric form. -/
inductive Writes : ParameterForm → List Char → Nat → Prop
  | octal {cs n} (digits : Text.Denotes 8 cs n) : Writes octal cs n
  | decimal {cs n} (digits : Text.Denotes 10 cs n) : Writes number cs n
  | hex {cs n} (digits : Text.Denotes 16 cs n) : Writes number ('0' :: 'x' :: cs) n
  | upperHex {cs n} (digits : Text.Denotes 16 cs n) : Writes number ('0' :: 'X' :: cs) n

/-- A number as it is printed in a numeric form. -/
def printed : ParameterForm → Nat → List String
  | octal, n => [Text.octal n]
  | number, n => [toString n, "0x" ++ Text.hex n]
  | _, _ => []

end ParameterForm

variable {limit n : Nat} {cs : List Char}

namespace Text

/-- The letter of the prefix is no digit of base ten. -/
theorem not_denotes_marked {c : Char} (letter : c = 'x' ∨ c = 'X') :
    ¬ Denotes 10 ('0' :: c :: cs) n := by
  have foreign : ∀ value, ¬ IsDigit 10 c value := by
    intro value digit
    rw [← digitBelow_eq_some (by decide)] at digit
    rcases letter with rfl | rfl <;> cases digit
  rintro ⟨digits, values, sign, -, all, -⟩
  have unsigned : digits = '0' :: c :: cs := by
    rcases sign with rfl | signed
    · rfl
    · cases signed
  subst unsigned
  cases all with
  | cons _ rest =>
      cases rest with
      | cons digit _ => exact foreign _ digit

theorem decimalOrHex_eq_some :
    decimalOrHex limit cs = some n ↔ ParameterForm.Writes .number cs n ∧ n < limit := by
  have hexadecimal : ∀ {digits}, numeral 16 limit digits = some n ↔ Denotes 16 digits n ∧ n < limit :=
    numeral_eq_some (Nat.le_refl 16)
  unfold decimalOrHex
  split
  · next digits =>
      rw [hexadecimal]
      refine and_congr_left fun _ => ⟨.hex, fun h => ?_⟩
      cases h with
      | decimal digits => exact absurd digits (not_denotes_marked (.inl rfl))
      | hex digits => exact digits
  · next digits =>
      rw [hexadecimal]
      refine and_congr_left fun _ => ⟨.upperHex, fun h => ?_⟩
      cases h with
      | decimal digits => exact absurd digits (not_denotes_marked (.inr rfl))
      | upperHex digits => exact digits
  · next lower upper =>
      rw [numeral_eq_some (by decide)]
      refine and_congr_left fun _ => ⟨.decimal, fun h => ?_⟩
      cases h with
      | decimal digits => exact digits
      | hex digits => exact absurd rfl (lower _)
      | upperHex digits => exact absurd rfl (upper _)

end Text

/-! ## Reading a value -/

namespace ParameterForm

variable {form : ParameterForm} {text : String}

/-- The form is one of the two whose values are numbers. -/
def IsNumeric (form : ParameterForm) : Prop := form = octal ∨ form = number

/-- The number that a value is read as in a numeric form. -/
def read? (form : ParameterForm) (cs : List Char) : Option Nat :=
  match form with
  | octal => Text.numeral 8 numberLimit cs
  | number => Text.decimalOrHex numberLimit cs
  | _ => none

theorem read?_eq_some : form.read? cs = some n ↔ form.Writes cs n ∧ n < 2 ^ 32 := by
  cases form with
  | octal =>
      refine (Text.numeral_eq_some (by decide)).trans (and_congr_left fun _ => ⟨.octal, ?_⟩)
      rintro ⟨digits⟩
      exact digits
  | number => exact Text.decimalOrHex_eq_some
  | flag | text => exact ⟨nofun, nofun⟩

theorem read_some (numeric : form.IsNumeric) :
    form.read (some text) = read.ofNumeral (form.read? text.toList) := by
  rcases numeric with rfl | rfl <;> rfl

theorem read_none (numeric : form.IsNumeric) : form.read none = .error .misplaced := by
  rcases numeric with rfl | rfl <;> rfl

/-- What is printed is a text for the number. -/
theorem writes_printed (mem : text ∈ form.printed n) : form.Writes text.toList n := by
  cases form with
  | octal =>
      cases List.mem_singleton.1 mem
      rw [Text.octal, String.toList_ofList]
      exact .octal (Text.denotes_toDigits (by decide) (by decide) n)
  | number =>
      rcases List.mem_cons.1 mem with rfl | mem
      · have decimal : (toString n).toList = Nat.toDigits 10 n := String.toList_ofList
        rw [decimal]
        exact .decimal (Text.denotes_toDigits (by decide) (by decide) n)
      · cases List.mem_singleton.1 mem
        have hexadecimal : ("0x" ++ Text.hex n).toList = '0' :: 'x' :: Nat.toDigits 16 n := by
          rw [String.toList_append, Text.hex, String.toList_ofList, String.toList_ofList]
          rfl
        rw [hexadecimal]
        exact .hex (Text.denotes_toDigits (by decide) (by decide) n)
  | flag | text => cases mem

end ParameterForm

/-! ## Decoding a numeric parameter -/

variable {w : World} {c : ContextId} {x : Context} {spec : ParameterSpec}
  {before after : List ParameterSpec}

/-- How the values of a numeric key are decoded in a context: each text that writes a number
of 32 bits gives the number, what is printed being such a text, and every other value is
refused. Only a missing value leaves a notice. -/
structure DecodesNumbers (w : World) (c : ContextId) (spec : ParameterSpec) : Prop where
  number : ∀ text n,
    Action.decode c ⟨spec.name, some text⟩ w = .ok (some ⟨spec.tag, .number n⟩) w ↔
      spec.form.Writes text.toList n ∧ n < 2 ^ 32
  refused : ∀ text, (¬ ∃ n, spec.form.Writes text.toList n ∧ n < 2 ^ 32) →
    Action.decode c ⟨spec.name, some text⟩ w = .error .invalidOption w
  missing : Action.decode c ⟨spec.name, none⟩ w
    = .error .invalidOption (w.note (.badValue spec.name))
  printed : ∀ n < 2 ^ 32, ∀ text ∈ spec.form.printed n,
    Action.decode c ⟨spec.name, some text⟩ w = .ok (some ⟨spec.tag, .number n⟩) w

namespace Action

/-- Of two entries for a key the first counts. -/
theorem find?_first (first : ∀ other ∈ before, other.name ≠ spec.name) :
    (before ++ spec :: after).find? (·.name == spec.name) = some spec := by
  have passed : before.find? (·.name == spec.name) = none := by
    simpa [List.find?_eq_none] using first
  rw [List.find?_append, passed, Option.none_or]
  exact List.find?_cons_of_pos (beq_self_eq_true spec.name)

/-- A key of the table is decoded as its value is read. -/
theorem decode_eq (found : w.contexts.get? c = some x)
    (table : x.type.parameters = before ++ spec :: after)
    (first : ∀ other ∈ before, other.name ≠ spec.name) {value : Option String} :
    decode c ⟨spec.name, value⟩ w = match spec.form.read value with
      | .ok value => .ok (some ⟨spec.tag, value⟩) w
      | .error .malformed => .error .invalidOption w
      | .error .misplaced => .error .invalidOption (w.note (.badValue spec.name)) := by
  have decoded : Parameter.decode x.type.parameters ⟨spec.name, value⟩
      = (spec.form.read value).map fun value => some ⟨spec.tag, value⟩ := by
    unfold Parameter.decode
    rw [table, find?_first first]
    rfl
  unfold decode
  rw [bind_of_ok (context_of_get? found), decoded]
  rcases spec.form.read value with (_ | _) | _ <;> rfl

/-- The values of a numeric key are decoded exactly. -/
theorem decode_numeric (found : w.contexts.get? c = some x)
    (table : x.type.parameters = before ++ spec :: after)
    (first : ∀ other ∈ before, other.name ≠ spec.name) (numeric : spec.form.IsNumeric) :
    DecodesNumbers w c spec := by
  have decoded : ∀ {text n}, spec.form.Writes text.toList n ∧ n < 2 ^ 32 →
      decode c ⟨spec.name, some text⟩ w = .ok (some ⟨spec.tag, .number n⟩) w := by
    intro text n writes
    rw [decode_eq found table first, ParameterForm.read_some numeric,
      ParameterForm.read?_eq_some.2 writes]
    rfl
  have refused : ∀ text, (¬ ∃ n, spec.form.Writes text.toList n ∧ n < 2 ^ 32) →
      decode c ⟨spec.name, some text⟩ w = .error .invalidOption w := by
    intro text none
    have unread : spec.form.read? text.toList = Option.none :=
      Option.eq_none_iff_forall_ne_some.2 fun n read =>
        none ⟨n, ParameterForm.read?_eq_some.1 read⟩
    rw [decode_eq found table first, ParameterForm.read_some numeric, unread]
    rfl
  constructor
  case number =>
    intro text n
    refine ⟨fun h => ?_, decoded⟩
    by_cases some : ∃ m, spec.form.Writes text.toList m ∧ m < 2 ^ 32
    · obtain ⟨m, writes⟩ := some
      cases h.symm.trans (decoded writes)
      exact writes
    · cases h.symm.trans (refused text some)
  case refused => exact refused
  case missing =>
    rw [decode_eq found table first, ParameterForm.read_none numeric]
  case printed =>
    intro n small text mem
    exact decoded ⟨ParameterForm.writes_printed mem, small⟩

/-- A table may have a numeric key behind another, and a flag of the same name after it. -/
theorem decode_numeric_shadowing :
    let size : ParameterSpec := ⟨"size", .number, 5⟩
    let parameters := [⟨"mask", .octal, 3⟩, size, ⟨"size", .flag, 9⟩]
    let w := (World.fresh (.steady 0 0 1)).run [.newContext { name := "other", parameters }]
    ∃ x, w.contexts.get? 0 = some x ∧ x.type.parameters = parameters ∧
      DecodesNumbers w 0 size := by
  intro size parameters w
  have known : (w.contexts.get? 0).map (·.type.parameters) = some parameters := by decide +kernel
  obtain ⟨x, found, table⟩ := Option.map_eq_some_iff.1 known
  have first : ∀ other ∈ [(⟨"mask", .octal, 3⟩ : ParameterSpec)], other.name ≠ size.name := by
    decide
  exact ⟨x, found, table, decode_numeric found table first (.inr rfl)⟩

end Action

end Memfs
