import Memfs.Parameter
import Mathlib.Data.Nat.Digits.Defs
import Mathlib.Data.List.Forall2

/-!
# What a numeral denotes

The decoder of numerals walks along the digits with a number in its hand. Here is what it
decides, without the walk: a numeral is a plus sign or none and at least one digit of the
base, and it denotes the sum of its digits, each times its power of the base. `digitsFrom`
is read off digit by digit, in either direction, and the rest is which of the characters
are digits.

What is printed in a base is a numeral of it for the same number.
-/

namespace Memfs.Text

variable {base limit n : Nat} {cs : List Char}

/-- The character is the digit of the base with this value, a letter being of either case. -/
def IsDigit (base : Nat) (c : Char) (value : Nat) : Prop :=
  value < base ∧ (c = Nat.digitChar value ∨ c = (Nat.digitChar value).toUpper)

/-- The digits of the base, one at least and perhaps after a plus sign, denote the number. -/
def Denotes (base : Nat) (cs : List Char) (n : Nat) : Prop :=
  ∃ digits values, (cs = digits ∨ cs = '+' :: digits) ∧ digits ≠ [] ∧
    List.Forall₂ (IsDigit base) digits values ∧ n = Nat.ofDigits base values.reverse

/-! ## Digits -/

theorem digitValue_digitChar : ∀ d < 16,
    digitValue (Nat.digitChar d) = some d ∧ digitValue (Nat.digitChar d).toUpper = some d := by
  decide

/-- What has a value is a digit or a letter, of which there are few enough to look at. -/
theorem digitValue_ofNat : ∀ k < 128, ∀ d < 16, digitValue (Char.ofNat k) = some d →
    Char.ofNat k = Nat.digitChar d ∨ Char.ofNat k = (Nat.digitChar d).toUpper := by
  decide +kernel

theorem toNat_lt_of_digitValue {c : Char} {d : Nat} (h : digitValue c = some d) :
    c.toNat < 128 := by
  have le : ∀ {top : Char}, c ≤ top → c.toNat ≤ top.toNat := fun h => h
  unfold digitValue at h
  split at h
  · next digit => exact Nat.lt_of_le_of_lt (le digit.2) (by decide)
  · split at h
    · next lower => exact Nat.lt_of_le_of_lt (le lower.2) (by decide)
    · split at h
      · next upper => exact Nat.lt_of_le_of_lt (le upper.2) (by decide)
      · cases h

theorem digitBelow_eq_some (small : base ≤ 16) {c : Char} {d : Nat} :
    digitBelow base c = some d ↔ IsDigit base c d := by
  unfold digitBelow IsDigit
  rw [Option.filter_eq_some_iff, decide_eq_true_iff, and_comm, and_congr_right_iff]
  intro below
  have below16 : d < 16 := Nat.lt_of_lt_of_le below small
  constructor
  · intro h
    have few := digitValue_ofNat c.toNat (toNat_lt_of_digitValue h) d below16
    rw [Char.ofNat_toNat] at few
    exact few h
  · rintro (rfl | rfl)
    · exact (digitValue_digitChar d below16).1
    · exact (digitValue_digitChar d below16).2

/-- The sign is no digit. -/
theorem not_isDigit_plus (small : base ≤ 16) {d : Nat} : ¬ IsDigit base '+' d := by
  rw [← digitBelow_eq_some small]
  exact nofun

theorem digitsFrom_eq_some (small : base ≤ 16) {acc : Nat} :
    digitsFrom base acc cs = some n ↔ ∃ values, List.Forall₂ (IsDigit base) cs values ∧
      n = values.foldl (fun m d => m * base + d) acc := by
  induction cs generalizing acc with
  | nil =>
      rw [digitsFrom, Option.some.injEq]
      constructor
      · rintro rfl
        exact ⟨[], .nil, rfl⟩
      · rintro ⟨_, ⟨⟩, rfl⟩
        rfl
  | cons c rest ih =>
      simp only [digitsFrom, bind, Option.bind_eq_some_iff, digitBelow_eq_some small, ih]
      constructor
      · rintro ⟨d, digit, values, digits, rfl⟩
        exact ⟨d :: values, .cons digit digits, rfl⟩
      · rintro ⟨_, digits, rfl⟩
        cases digits with
        | cons digit digits => exact ⟨_, digit, _, digits, rfl⟩

/-! ## Numerals -/

theorem unsignedNumeral_eq_some (small : base ≤ 16) :
    unsignedNumeral base cs = some n ↔ cs ≠ [] ∧
      ∃ values, List.Forall₂ (IsDigit base) cs values ∧ n = Nat.ofDigits base values.reverse := by
  have powers : ∀ values : List Nat, Nat.ofDigits base values.reverse
      = values.foldl (fun m d => m * base + d) 0 := by
    intro values
    rw [Nat.ofDigits_eq_foldr, List.foldr_reverse]
    congr
    funext m d
    rw [Nat.cast_id, Nat.add_comm, Nat.mul_comm]
  simp only [powers]
  cases cs with
  | nil => simp [unsignedNumeral]
  | cons c rest =>
      rw [unsignedNumeral, digitsFrom_eq_some small]
      · simp
      · simp

/-- The decoder takes a numeral for the number that it denotes, if that is small enough. -/
theorem numeral_eq_some (small : base ≤ 16) :
    numeral base limit cs = some n ↔ Denotes base cs n ∧ n < limit := by
  unfold numeral Denotes
  rw [Option.filter_eq_some_iff, decide_eq_true_iff, and_congr_left_iff]
  intro _
  constructor
  · intro h
    split at h
    · next digits =>
        obtain ⟨some, values, digits, rfl⟩ := (unsignedNumeral_eq_some small).1 h
        exact ⟨_, values, .inr rfl, some, digits, rfl⟩
    · obtain ⟨some, values, digits, rfl⟩ := (unsignedNumeral_eq_some small).1 h
      exact ⟨_, values, .inl rfl, some, digits, rfl⟩
  · rintro ⟨digits, values, rfl | rfl, some, digit, rfl⟩
    · have decoded := (unsignedNumeral_eq_some small).2 ⟨some, values, digit, rfl⟩
      split
      · next rest =>
          cases digit with
          | cons sign _ => exact absurd sign (not_isDigit_plus small)
      · exact decoded
    · exact (unsignedNumeral_eq_some small).2 ⟨some, values, digit, rfl⟩

/-- A numeral denotes one number. -/
theorem Denotes.unique (small : base ≤ 16) {m : Nat} (h : Denotes base cs m)
    (h' : Denotes base cs n) : m = n := by
  have one : numeral base (max m n + 1) cs = some m := (numeral_eq_some small).2 ⟨h, by omega⟩
  have other : numeral base (max m n + 1) cs = some n := (numeral_eq_some small).2 ⟨h', by omega⟩
  exact Option.some.inj (one.symm.trans other)

/-! ## Printing -/

/-- What is printed in a base denotes the number that was printed. -/
theorem denotes_toDigits (base1 : 1 < base) (small : base ≤ 16) (n : Nat) :
    Denotes base (Nat.toDigits base n) n := by
  have digits : ∃ values, List.Forall₂ (IsDigit base) (Nat.toDigits base n) values ∧
      n = Nat.ofDigits base values.reverse := by
    induction n using Nat.strongRecOn with
    | ind n ih =>
        have last : n % base < base := Nat.mod_lt _ (by omega)
        rw [Nat.toDigits_eq_if base1]
        split
        · next below =>
            exact ⟨[n], .cons ⟨below, .inl rfl⟩ .nil, by simp⟩
        · next above =>
            obtain ⟨values, digits, e⟩ := ih (n / base) (Nat.div_lt_self (by omega) base1)
            refine ⟨values ++ [n % base], ?_, ?_⟩
            · exact List.rel_append digits (.cons ⟨last, .inl rfl⟩ .nil)
            · rw [List.reverse_append, List.reverse_singleton, List.singleton_append,
                Nat.ofDigits_cons, ← e]
              exact (Nat.mod_add_div n base).symm
  obtain ⟨values, digits, e⟩ := digits
  exact ⟨_, values, .inl rfl, Nat.toDigits_ne_nil, digits, e⟩

end Memfs.Text
