import Memfs.Proofs.Creation
import Memfs.Proofs.Quiet
import Mathlib.Data.String.Basic

/-!
# Crowded directories

As long as no budget is set, one directory after another can be made in a root, each under
a name that is free. The root gains a link each time, as a counter of 32 bits counts; and of
the instance there is nothing but the root and the directories. So the counter can be told
for any number of them, also where it has come round to zero.

That the directories can be made has to be shown, for what is said of a creation elsewhere is
said of one that succeeds. The names are the numbers in decimal: they differ, they are short
enough, and they have no character that a name may not have.
-/

namespace Memfs

open World

variable {w : World}

/-! ## Making without budgets -/

/-- No operation sets a budget. -/
theorem World.blind_unlimited : Blind fun w => ∀ kind, w.host.room kind = none where
  host onward free kind := onward.unlimited kind (free kind)
  nodes := id
  bindings := id
  files := id

/-- Without budgets nothing but the name can stand in the way of a new directory. -/
theorem Action.mkdir_of_unlimited {dir : BindingId} {m : NodeId} {i : InstanceId} {name : String}
    {mode : Mode} (checked : checkName name = .ok ()) (bound : w.nodeOf dir = some m)
    (isDir : w.isDirectory m = true) (lives : w.LivesIn m i) (free : w.child? dir name = none)
    (unlimited : ∀ kind, w.host.room kind = none) : ∃ b v, mkdir dir name mode w = .ok b v := by
  obtain ⟨host, acquired⟩ := Host.acquire_of_unlimited (unlimited .binding)
  let u : World := { w with host, bindings := w.bindings.push { name, parent := some dir } }
  have fresh : newBinding dir name w = .ok w.bindings.nextId u :=
    newBinding_eq_ok.2 ⟨host, acquired, rfl, rfl⟩
  have rich : host.room .node = none := by
    have onward : w.host.Onward host := (Host.Still.of_acquire acquired nofun).toOnward
    exact onward.unlimited _ (unlimited _)
  obtain ⟨n, v, made⟩ : ∃ n v,
      newNode i (some m) (mode.withType Mode.directoryType) .none u = .ok n v := by
    cases made : newNode i (some m) (mode.withType Mode.directoryType) .none u with
    | ok n v => exact ⟨n, v, rfl⟩
    | error e v =>
        obtain ⟨_, refused, -⟩ := newDirectory_error made
        obtain ⟨_, granted⟩ := Host.acquire_of_unlimited rich
        cases granted.symm.trans refused
  have home : homeOf m u = .ok i u := homeOf_eq_ok.2 ⟨lives, rfl⟩
  let placed := ((v.instantiate w.bindings.nextId n).pin w.bindings.nextId).touch m
  have bare : makeAt m w.bindings.nextId (mode.withType Mode.directoryType) .none u
      = .ok () placed := by
    rw [makeAt, bind_of_ok home, bind_of_ok made]
    exact place_eq_ok.2 rfl
  have done : makeDirectoryAt m w.bindings.nextId mode u = .ok () (placed.addLink m) := by
    rw [makeDirectoryAt, bind_of_ok bare]
    exact modify_eq_ok.2 rfl
  have found : freshBinding dir name w = .ok w.bindings.nextId u := by
    rw [freshBinding, bind_of_ok (get_eq_ok.2 ⟨rfl, rfl⟩), free]
    exact fresh
  refine ⟨w.bindings.nextId, placed.addLink m, ?_⟩
  rw [mkdir, bind_of_ok (test_eq_ok.2 ⟨checked, rfl⟩),
    bind_of_ok (directoryOf_eq_ok.2 ⟨bound, isDir, rfl⟩), makeName, bind_of_ok found,
    bind_of_ok (orLetGo_eq_ok.2 done)]
  rfl

theorem World.Gained.card_ids_le {v : World} {dir b : BindingId} {m n : NodeId} {name : String}
    {x : Node} {links : UInt32} (g : w.Gained v dir m name b n x links) :
    v.bindings.ids.card ≤ w.bindings.ids.card + 1 := by
  have more : v.bindings.ids ⊆ insert b w.bindings.ids := by
    intro c mem
    by_cases new : c = b
    · exact Finset.mem_insert.2 (.inl new)
    · refine Finset.mem_insert.2 (.inr (Table.mem_ids.2 ?_))
      have there := Table.mem_ids.1 mem
      rw [Table.has, g.bindings c new] at there
      split at there
      · rwa [Option.isSome_map] at there
      · exact there
  exact (Finset.card_le_card more).trans (Finset.card_insert_le b _)

/-! ## Numbers as names -/

theorem utf8Len_le (cs : List Char) : String.utf8Len cs ≤ 4 * cs.length := by
  induction cs with
  | nil => exact Nat.le_refl 0
  | cons c cs ih =>
      have le := c.utf8Size_le_four
      rw [String.utf8Len, List.length_cons]
      omega

/-- Numbers are good names. -/
theorem checkName_repr {k : Nat} (small : k < 10 ^ 10) : checkName k.repr = .ok () := by
  have digits : ∀ {c}, c ∈ k.repr.toList → c.isDigit = true := by
    intro c mem
    rw [Nat.repr_eq_ofList_toDigits, String.toList_ofList] at mem
    exact Nat.isDigit_of_mem_toDigits (by decide) (by decide) mem
  have without : ∀ {c : Char}, c.isDigit = false → c ∉ k.repr.toList := by
    intro c other mem
    exact Bool.false_ne_true (other.symm.trans (digits mem))
  have special : ¬ (k.repr = "" ∨ k.repr = "." ∨ k.repr = "..") := by
    rintro (e | e | e)
    · exact Nat.repr_ne_empty e
    · exact without (c := '.') rfl (by rw [e]; decide)
    · exact without (c := '.') rfl (by rw [e]; decide)
  have plain : ¬ (k.repr.toList.contains '/' || k.repr.toList.contains '\x00') = true := by
    simp only [Bool.or_eq_true, List.contains_iff_mem]
    exact not_or.2 ⟨without rfl, without rfl⟩
  have short : k.repr.utf8ByteSize ≤ nameLimit := by
    have le := utf8Len_le (Nat.toDigits 10 k)
    have length : (Nat.toDigits 10 k).length ≤ 10 :=
      (Nat.length_toDigits_le_iff (by decide) (by decide)).2 small
    rw [Nat.repr_eq_ofList_toDigits, String.utf8ByteSize_ofList, nameLimit]
    omega
  unfold checkName
  rw [if_neg special, if_neg plain, if_neg (Nat.not_lt.2 short)]

theorem repr_injective {j k : Nat} (same : j.repr = k.repr) : j = k := by
  rw [Nat.repr_eq_ofList_toDigits, Nat.repr_eq_ofList_toDigits, String.ofList_inj] at same
  rw [← Nat.ofDigitChars_toDigits (b := 10) (n := j) (by decide) (by decide), same,
    Nat.ofDigitChars_toDigits (by decide) (by decide)]

/-! ## The crowd -/

/-- Mounts an instance and makes as many directories in its root. -/
def crowding (count : Nat) : List Call :=
  [.register builtInType, .mount "tagfs" ""] ++
    (List.range count).map fun k => .operate (.mkdir 0 k.repr ⟨0o755⟩)

/-- The root of an instance has `k` directories in it, which are called `0`, `1` and so on, and
nothing else is there. -/
structure Crowded (k : Nat) (w : World) : Prop where
  root : (w.instances.get? 0).bind (·.root) = some 0
  bound : w.nodeOf 0 = some 0
  lives : w.LivesIn 0 0
  isDir : w.isDirectory 0 = true
  links : (w.nodes.get? 0).map (·.links) = some (UInt32.ofNat (2 + k))
  names : ∀ {name b}, w.child? 0 name = some b → ∃ j < k, name = j.repr
  few : w.bindings.ids.card ≤ k + 1
  unlimited : ∀ kind, w.host.room kind = none

namespace Crowded

variable {k : Nat}

theorem inTree (h : Crowded k w) : w.InTree 0 0 := by
  obtain ⟨inst, hi, hroot⟩ := Option.bind_eq_some_iff.1 h.root
  exact ⟨inst, 0, hi, hroot, .refl⟩

/-- Nobody has made a directory yet. -/
theorem mounted :
    Crowded 0 ((World.fresh (.steady 0 0 1)).run [.register builtInType, .mount "tagfs" ""]) where
  root := by decide +kernel
  bound := by decide +kernel
  lives := by
    have home : ((((World.fresh (.steady 0 0 1)).run
        [.register builtInType, .mount "tagfs" ""]).nodes.get? 0).map (·.home)) = some 0 := by
      decide +kernel
    obtain ⟨x, hx, home⟩ := Option.map_eq_some_iff.1 home
    exact ⟨x, hx, home, by decide +kernel⟩
  isDir := by decide +kernel
  links := by decide +kernel
  names := fun {name b} entry => by
    have empty : (((World.fresh (.steady 0 0 1)).run
        [.register builtInType, .mount "tagfs" ""]).bindings.get? 0).map (·.children.isEmpty)
          = some true := by decide +kernel
    obtain ⟨x, hx, empty⟩ := Option.map_eq_some_iff.1 empty
    rw [child?_of_get? hx, Std.TreeMap.getElem?_of_isEmpty empty] at entry
    cases entry
  few := by decide +kernel
  unlimited := fun kind => by
    cases kind <;> decide +kernel

/-- The next number is free, so that the next directory is made. -/
theorem step (h : Crowded k w) (s : Sound w []) (barred : w.Barred) (small : k < 2 ^ 32) :
    Crowded (k + 1) (w.after (.operate (.mkdir 0 k.repr ⟨0o755⟩))) := by
  have free : w.child? 0 k.repr = none := by
    rw [Option.eq_none_iff_forall_ne_some]
    intro b taken
    obtain ⟨j, before, same⟩ := h.names taken
    rw [repr_injective same] at before
    exact Nat.lt_irrefl j before
  have quiet := World.blind_unlimited.quiet.operate h.unlimited (.mkdir 0 k.repr ⟨0o755⟩)
  obtain ⟨b, v, done⟩ : ∃ b v, Action.mkdir 0 k.repr ⟨0o755⟩ w = .ok b v :=
    Action.mkdir_of_unlimited (checkName_repr (by omega)) h.bound h.isDir h.lives free h.unlimited
  have after : w.after (.operate (.mkdir 0 k.repr ⟨0o755⟩)) = v := by
    show Action.into (do let _ ← Action.mkdir 0 k.repr ⟨0o755⟩) w = v
    rw [Action.into, Action.bind_of_ok done]
    rfl
  obtain ⟨m, y, x, bound, hy, -, -, gained⟩ :=
    s.gained_next barred (c := .directory ⟨0o755⟩) done
  cases h.bound.symm.trans bound
  obtain ⟨_, time, hy', hv⟩ := gained.directory
  cases hy.symm.trans hy'
  obtain ⟨z, hz, hn⟩ := nodeOf_eq_some_iff.1 h.bound
  have other : 0 ≠ b := by
    rintro rfl
    cases hz.symm.trans gained.unborn.1
  have top := gained.bindings 0 other
  rw [if_pos rfl, hz, Option.map_some] at top
  rw [after]
  exact {
    root := by
      rw [gained.rest.2.1]
      exact h.root
    bound := (nodeOf_of_get? top).trans hn
    lives := by
      obtain ⟨x, hx, home, there⟩ := h.lives
      cases hy.symm.trans hx
      refine ⟨_, hv, home, ?_⟩
      rw [gained.rest.2.1]
      exact there
    isDir := by
      have was := h.isDir
      unfold isDirectory at was ⊢
      rw [hy] at was
      rw [hv]
      exact was
    links := by
      have was := h.links
      rw [hy, Option.map_some] at was
      have sum : y.links + 1 = UInt32.ofNat (2 + k + 1) := by
        rw [Option.some.inj was]
        exact (UInt32.ofNat_add (2 + k) 1).symm
      rw [hv]
      exact congrArg some sum
    names := fun {name c} entry => by
      rw [gained.entries] at entry
      split at entry
      · next new => exact ⟨k, Nat.lt_succ_self k, new.2⟩
      · obtain ⟨j, before, named⟩ := h.names entry
        exact ⟨j, Nat.lt_succ_of_lt before, named⟩
    few := gained.card_ids_le.trans (Nat.succ_le_succ h.few)
    unlimited := after ▸ quiet.into }

end Crowded

end Memfs
