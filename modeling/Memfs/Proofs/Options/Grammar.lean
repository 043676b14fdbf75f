import Memfs.Mount.Registry
import Memfs.Proofs.Cuts
import Memfs.Proofs.Options.Numerals
import Mathlib.Data.List.Induction

/-!
# The grammar of option strings

What an option string asks for, without the order in which the program looks at it. The
string has parameters, and a parameter is refused for what it is or for what stands
before it. Of several modes the last one counts; of several sources the second is
refused.

`Settings.take` does what the program does with one parameter, and `takeAll` with all of
them. The two descriptions are matched from the back: what a list with one more
parameter at its end asks for depends on the list before it only through the settings
so far, and a source was given exactly when the settings have one.
-/

namespace Memfs

namespace Options

/-! ## What is asked for -/

/-- The parameters of an option string: the parts between its commas that are not empty,
each cut at its first equals sign. -/
def parameters (options : String) : List Parameter :=
  ((options.toList.splitOn ',').filter (· ≠ [])).map fun part =>
    { key := String.ofList (part.takeWhile (· ≠ '='))
      value := if '=' ∈ part then some (String.ofList (part.dropWhile (· ≠ '=')).tail) else none }

theorem ofOptions_eq (options : String) : Parameter.ofOptions options = parameters options := by
  unfold Parameter.ofOptions parameters Text.segments
  rw [Text.partsOf_eq_splitOn, List.map_map]
  have nonempty : ∀ part : List Char, (!part.isEmpty) = decide (part ≠ []) := by
    intro part
    cases part <;> rfl
  simp only [nonempty]
  refine List.map_congr_left fun part _ => ?_
  unfold Function.comp Parameter.ofOption Text.cut
  rw [String.toList_ofList, Text.cutAt_eq]
  by_cases mem : '=' ∈ part
  · simp only [if_pos mem, Option.map_some]
  · have whole : part.takeWhile (· ≠ '=') = part := by
      refine List.takeWhile_eq_self_iff.2 fun c hc => decide_eq_true fun e => mem (e ▸ hc)
    simp only [if_neg mem, Option.map_none, whole]

/-- A parameter that comes after others is refused: it has no key, it asks for a mode
that is no octal numeral of 32 bits, or for a source that is missing or not the first. -/
inductive Refused (before : List Parameter) (param : Parameter) : Error → Prop
  | nameless (key : param.key = "") : Refused before param .invalidArgument
  | mode (key : param.key = "mode")
      (value : ¬ ∃ text n, param.value = some text ∧ Text.Denotes 8 text.toList n ∧ n < 2 ^ 32) :
      Refused before param .invalidOption
  | source (key : param.key = "source")
      (value : param.value = none ∨ ∃ other ∈ before, other.key = "source") :
      Refused before param .invalidOption

/-- None of the parameters is refused. -/
def Accepted (params : List Parameter) : Prop :=
  ∀ before param after, params = before ++ param :: after → ∀ e, ¬ Refused before param e

/-- The first of the parameters that is refused is refused with this error. -/
def FirstRefused (params : List Parameter) (e : Error) : Prop :=
  ∃ before param after, params = before ++ param :: after ∧ Accepted before ∧
    Refused before param e

/-- The mode and the source of a mount. -/
structure Settings where
  mode : Mode := defaultRootMode
  source : Option String := none
  deriving DecidableEq, Repr

/-- The settings are those that the parameters ask for. -/
structure Asked (params : List Parameter) (s : Settings) : Prop where
  /-- Of several modes the last one counts, with the bits for permissions. -/
  mode : ∀ {before text after n}, params = before ++ ⟨"mode", some text⟩ :: after →
    (∀ param ∈ after, param.key ≠ "mode") → Text.Denotes 8 text.toList n →
      s.mode.bits.toNat = n &&& 0o7777
  noMode : (∀ param ∈ params, param.key ≠ "mode") → s.mode.bits = 0o755
  source : ∀ {text}, ⟨"source", some text⟩ ∈ params → s.source = some text
  noSource : (∀ param ∈ params, param.key ≠ "source") → s.source = none

/-- The parameters that have an effect. -/
def relevant (params : List Parameter) : List Parameter :=
  params.filter fun param => param.key = "mode" ∨ param.key = "source"

/-! ## What is done with a parameter -/

variable {s t : Settings} {before params : List Parameter} {param : Parameter} {e : Error}

/-- The number that a parameter asks for as a mode. -/
def number? (param : Parameter) : Option Nat :=
  param.value.bind fun text => Text.numeral 8 ParameterForm.numberLimit text.toList

theorem number?_eq_some {n : Nat} : number? param = some n ↔
    ∃ text, param.value = some text ∧ Text.Denotes 8 text.toList n ∧ n < 2 ^ 32 := by
  unfold number?
  rw [Option.bind_eq_some_iff]
  exact exists_congr fun text => and_congr_right fun _ => Text.numeral_eq_some (by decide)

namespace Settings

/-- The settings after one more parameter. -/
def take (s : Settings) (param : Parameter) : Except Error Settings :=
  if param.key = "" then .error .invalidArgument
  else if param.key = "mode" then
    match number? param with
    | some n => .ok { s with mode := ⟨n.toUInt16 &&& Mode.permissionMask⟩ }
    | none => .error .invalidOption
  else if param.key = "source" then
    match s.source, param.value with
    | none, some text => .ok { s with source := some text }
    | _, _ => .error .invalidOption
  else .ok s

/-- The settings after all the parameters. -/
def takeAll (params : List Parameter) : Except Error Settings := params.foldlM take {}

/-- A parameter that is taken changes one of the settings or none. -/
theorem take_ok (h : s.take param = .ok t) :
    (param.key = "mode" ∧ ∃ n, number? param = some n ∧
        t = { s with mode := ⟨n.toUInt16 &&& Mode.permissionMask⟩ }) ∨
      (param.key = "source" ∧ s.source = none ∧ ∃ text, param.value = some text ∧
        t = { s with source := some text }) ∨
      (param.key ≠ "mode" ∧ param.key ≠ "source" ∧ t = s) := by
  unfold take at h
  split at h
  · cases h
  · split at h
    · next key =>
        split at h
        · next n number =>
            cases h
            exact .inl ⟨key, n, number, rfl⟩
        · cases h
    · next other =>
        split at h
        · next key =>
            split at h
            · next text none value =>
                cases h
                exact .inr (.inl ⟨key, none, text, value, rfl⟩)
            · cases h
        · next foreign =>
            cases h
            exact .inr (.inr ⟨other, foreign, rfl⟩)

theorem take_mode (h : s.take param = .ok t) (other : param.key ≠ "mode") : t.mode = s.mode := by
  rcases take_ok h with ⟨key, -⟩ | ⟨-, -, text, -, rfl⟩ | ⟨-, -, rfl⟩
  · exact absurd key other
  · rfl
  · rfl

theorem take_source (h : s.take param = .ok t) (other : param.key ≠ "source") :
    t.source = s.source := by
  rcases take_ok h with ⟨-, n, -, rfl⟩ | ⟨key, -⟩ | ⟨-, -, rfl⟩
  · rfl
  · exact absurd key other
  · rfl

theorem take_error (h : s.take param = .error e) :
    (param.key = "" ∧ e = .invalidArgument) ∨
      (param.key = "mode" ∧ number? param = none ∧ e = .invalidOption) ∨
      (param.key = "source" ∧ (s.source.isSome = true ∨ param.value = none) ∧
        e = .invalidOption) := by
  unfold take at h
  split at h
  · next key =>
      cases h
      exact .inl ⟨key, rfl⟩
  · split at h
    · next key =>
        split at h
        · cases h
        · next none =>
            cases h
            exact .inr (.inl ⟨key, none, rfl⟩)
    · split at h
      · next key =>
          split at h
          · cases h
          · next taken =>
              cases h
              refine .inr (.inr ⟨key, ?_, rfl⟩)
              cases source : s.source with
              | some _ => exact .inl rfl
              | none =>
                  cases value : param.value with
                  | none => exact .inr rfl
                  | some text => exact absurd value (taken text source)
      · cases h

/-- A parameter is refused for what the grammar says, provided that the settings tell
whether there was a source. -/
theorem take_eq_error (given : s.source.isSome = true ↔ ∃ other ∈ before, other.key = "source") :
    s.take param = .error e ↔ Refused before param e := by
  constructor
  · intro h
    rcases take_error h with ⟨key, rfl⟩ | ⟨key, none, rfl⟩ | ⟨key, bad, rfl⟩
    · exact .nameless key
    · refine .mode key fun ⟨text, n, found⟩ => ?_
      cases none.symm.trans (number?_eq_some.2 ⟨text, found⟩)
    · exact .source key (bad.symm.imp_right given.1)
  · rintro (key | ⟨key, bad⟩ | ⟨key, bad⟩) <;> unfold take
    · rw [if_pos key]
    · rw [if_neg (by rw [key]; decide), if_pos key]
      split
      · next n number =>
          obtain ⟨text, found⟩ := number?_eq_some.1 number
          exact absurd ⟨text, n, found⟩ bad
      · rfl
    · rw [if_neg (by rw [key]; decide), if_neg (by rw [key]; decide), if_pos key]
      split
      · next text none value =>
          rcases bad with absent | earlier
          · rw [absent] at value
            cases value
          · have some := given.2 earlier
            rw [none] at some
            cases some
      · rfl

end Settings

/-! ## What is done with all of them -/

/-- A split of a list with one more element at its end is at that element or before it. -/
theorem concat_eq_append_cons {α : Type} {xs before after : List α} {x y : α} :
    xs ++ [x] = before ++ y :: after ↔
      (after = [] ∧ xs = before ∧ x = y) ∨
        ∃ rest, after = rest ++ [x] ∧ xs = before ++ y :: rest := by
  rcases List.eq_nil_or_concat after with rfl | ⟨rest, z, rfl⟩
  · rw [List.append_singleton_inj]
    simp
  · rw [List.concat_eq_append, ← List.cons_append, ← List.append_assoc, List.append_singleton_inj]
    constructor
    · rintro ⟨rfl, rfl⟩
      exact .inr ⟨rest, rfl, rfl⟩
    · rintro (⟨none, -⟩ | ⟨rest', e, rfl⟩)
      · exact absurd none (by simp)
      · obtain ⟨rfl, rfl⟩ := List.append_singleton_inj.1 e
        exact ⟨rfl, rfl⟩

theorem accepted_concat :
    Accepted (params ++ [param]) ↔ Accepted params ∧ ∀ e, ¬ Refused params param e := by
  constructor
  · intro accepted
    refine ⟨fun before other after split => ?_, accepted params param [] rfl⟩
    exact accepted before other (after ++ [param]) (by rw [split, List.append_assoc]; rfl)
  · rintro ⟨accepted, last⟩ before other after split
    rcases concat_eq_append_cons.1 split with ⟨-, rfl, rfl⟩ | ⟨rest, -, split⟩
    · exact last
    · exact accepted before other rest split

namespace Settings

theorem takeAll_concat :
    takeAll (params ++ [param]) = takeAll params >>= (take · param) := by
  unfold takeAll
  rw [List.foldlM_append]
  refine bind_congr fun s => ?_
  simp

theorem takeAll_concat_eq_ok : takeAll (params ++ [param]) = .ok s ↔
    ∃ t, takeAll params = .ok t ∧ t.take param = .ok s := by
  rw [takeAll_concat]
  cases takeAll params with
  | error e => exact ⟨nofun, nofun⟩
  | ok t =>
      refine ⟨fun h => ⟨t, rfl, h⟩, ?_⟩
      rintro ⟨_, ⟨⟩, h⟩
      exact h

/-- The bits that are kept of the number that a mode asks for. -/
theorem masked_toNat {n : Nat} :
    (n.toUInt16 &&& Mode.permissionMask).toNat = n &&& 0o7777 := by
  rw [UInt16.toNat_and]
  show (n % 65536) &&& (2 ^ 12 - 1) = n &&& (2 ^ 12 - 1)
  rw [Nat.and_two_pow_sub_one_eq_mod, Nat.and_two_pow_sub_one_eq_mod]
  omega

end Settings

open Settings

/-- One more parameter at the end. -/
theorem Asked.take (asked : Asked params s) (h : s.take param = .ok t) :
    Asked (params ++ [param]) t where
  mode := by
    intro before text after n split last denotes
    rcases concat_eq_append_cons.1 split with ⟨rfl, rfl, rfl⟩ | ⟨rest, rfl, rfl⟩
    · rcases take_ok h with ⟨-, n', number, rfl⟩ | ⟨key, -⟩ | ⟨key, -⟩
      · obtain ⟨_, ⟨⟩, denotes', -⟩ := number?_eq_some.1 number
        rw [denotes.unique (by decide) denotes']
        exact masked_toNat
      · exact absurd (show "mode" = "source" from key) (by decide)
      · exact absurd rfl key
    · rw [take_mode h (last param (by simp))]
      exact asked.mode rfl (fun p mem => last p (List.mem_append_left _ mem)) denotes
  noMode none := by
    rw [take_mode h (none param (by simp))]
    exact asked.noMode fun p mem => none p (List.mem_append_left _ mem)
  source := by
    intro text mem
    rcases List.mem_append.1 mem with mem | mem
    · have before := asked.source mem
      rcases take_ok h with ⟨-, _, -, rfl⟩ | ⟨-, none, -⟩ | ⟨-, -, rfl⟩
      · exact before
      · cases before.symm.trans none
      · exact before
    · cases List.mem_singleton.1 mem
      rcases take_ok h with ⟨key, -⟩ | ⟨-, -, text', value, rfl⟩ | ⟨-, key, -⟩
      · exact absurd (show "source" = "mode" from key) (by decide)
      · exact value.symm
      · exact absurd rfl key
  noSource none := by
    rw [take_source h (none param (by simp))]
    exact asked.noSource fun p mem => none p (List.mem_append_left _ mem)

namespace Settings

/-- Whether there was a source is told by the settings. -/
theorem given_take (given : s.source.isSome = true ↔ ∃ other ∈ params, other.key = "source")
    (h : s.take param = .ok t) :
    t.source.isSome = true ↔ ∃ other ∈ params ++ [param], other.key = "source" := by
  have more : (∃ other ∈ params ++ [param], other.key = "source") ↔
      s.source.isSome = true ∨ param.key = "source" := by
    rw [given]
    constructor
    · rintro ⟨other, mem, key⟩
      rcases List.mem_append.1 mem with mem | mem
      · exact .inl ⟨other, mem, key⟩
      · cases List.mem_singleton.1 mem
        exact .inr key
    · rintro (⟨other, mem, key⟩ | key)
      · exact ⟨other, List.mem_append_left _ mem, key⟩
      · exact ⟨param, by simp, key⟩
  rw [more]
  by_cases key : param.key = "source"
  · rcases take_ok h with ⟨mode, -⟩ | ⟨-, -, text, -, rfl⟩ | ⟨-, other, -⟩
    · exact absurd (key.symm.trans mode) (by decide)
    · simp [key]
    · exact absurd key other
  · rw [take_source h key]
    simp [key]

/-- Parameters that were all taken were all accepted, and the settings are those that
they ask for. -/
theorem takeAll_ok (h : takeAll params = .ok s) : Accepted params ∧ Asked params s ∧
    (s.source.isSome = true ↔ ∃ param ∈ params, param.key = "source") := by
  induction params using List.reverseRecOn generalizing s with
  | nil =>
      cases h
      refine ⟨fun before param after split => ?_, ⟨fun split => ?_, fun _ => rfl, ?_, fun _ => rfl⟩,
        by simp⟩
      · exact absurd split.symm (by simp)
      · exact absurd split.symm (by simp)
      · exact fun mem => absurd mem List.not_mem_nil
  | append_singleton params param ih =>
      obtain ⟨t, earlier, taken⟩ := takeAll_concat_eq_ok.1 h
      obtain ⟨accepted, asked, given⟩ := ih earlier
      refine ⟨accepted_concat.2 ⟨accepted, fun e refused => ?_⟩, asked.take taken,
        given_take given taken⟩
      cases taken.symm.trans ((take_eq_error given).2 refused)

/-- The error is that of the first parameter that is refused. -/
theorem takeAll_error (h : takeAll params = .error e) : FirstRefused params e := by
  induction params using List.reverseRecOn with
  | nil => cases h
  | append_singleton params param ih =>
      rw [takeAll_concat] at h
      cases earlier : takeAll params with
      | error e' =>
          rw [earlier] at h
          cases h
          obtain ⟨before, first, after, rfl, accepted, refused⟩ := ih earlier
          exact ⟨before, first, after ++ [param], by simp, accepted, refused⟩
      | ok s =>
          rw [earlier] at h
          obtain ⟨accepted, -, given⟩ := takeAll_ok earlier
          have refused : s.take param = .error e := h
          exact ⟨params, param, [], rfl, accepted, (take_eq_error given).1 refused⟩

theorem takeAll_eq_error : takeAll params = .error e ↔ FirstRefused params e := by
  refine ⟨takeAll_error, ?_⟩
  rintro ⟨before, param, after, rfl, accepted, refused⟩
  cases earlier : takeAll before with
  | error e' =>
      obtain ⟨start, first, rest, split, -, refused⟩ := takeAll_error earlier
      exact absurd refused (accepted start first rest split e')
  | ok s =>
      obtain ⟨-, -, given⟩ := takeAll_ok earlier
      have stops := (take_eq_error given).2 refused
      unfold takeAll at earlier ⊢
      rw [List.foldlM_append, earlier]
      show (do let t ← s.take param; after.foldlM take t) = _
      rw [stops]
      rfl

/-- It is the accepted parameters that are all taken. -/
theorem exists_takeAll_eq_ok : (∃ s, takeAll params = .ok s) ↔ Accepted params := by
  refine ⟨fun ⟨s, h⟩ => (takeAll_ok h).1, fun accepted => ?_⟩
  cases h : takeAll params with
  | ok s => exact ⟨s, rfl⟩
  | error e =>
      obtain ⟨before, param, after, split, -, refused⟩ := takeAll_error h
      exact absurd refused (accepted before param after split e)

/-- A mode has bits for permissions only. -/
theorem permissions_of_takeAll (h : takeAll params = .ok s) :
    s.mode.permissions = s.mode.bits := by
  induction params using List.reverseRecOn generalizing s with
  | nil =>
      cases h
      rfl
  | append_singleton params param ih =>
      obtain ⟨t, earlier, taken⟩ := takeAll_concat_eq_ok.1 h
      have before : t.mode.permissions = t.mode.bits := ih earlier
      rcases take_ok taken with ⟨-, n, -, rfl⟩ | ⟨-, -, text, -, rfl⟩ | ⟨-, -, rfl⟩
      · show (n.toUInt16 &&& Mode.permissionMask) &&& Mode.permissionMask = _
        rw [UInt16.and_assoc, UInt16.and_self]
      · exact before
      · exact before

/-- Parameters with other keys have no effect. -/
theorem takeAll_relevant (h : takeAll params = .ok s) : takeAll (relevant params) = .ok s := by
  induction params using List.reverseRecOn generalizing s with
  | nil => exact h
  | append_singleton params param ih =>
      obtain ⟨t, earlier, taken⟩ := takeAll_concat_eq_ok.1 h
      have before : takeAll (relevant params) = .ok t := ih earlier
      have append : relevant (params ++ [param]) = relevant params ++ relevant [param] :=
        List.filter_append ..
      rw [append]
      unfold relevant at before ⊢
      by_cases counts : param.key = "mode" ∨ param.key = "source"
      · rw [List.filter_singleton (a := param), decide_eq_true counts, cond_true]
        exact takeAll_concat_eq_ok.2 ⟨t, before, taken⟩
      · rcases take_ok taken with ⟨key, -⟩ | ⟨key, -⟩ | ⟨-, -, rfl⟩
        · exact absurd (.inl key) counts
        · exact absurd (.inr key) counts
        · rw [List.filter_singleton (a := param), decide_eq_false counts, cond_false,
            List.append_nil]
          exact before

end Settings

end Options

end Memfs
