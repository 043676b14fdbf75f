import Memfs.Proofs.Tables
import Memfs.World.Settle

/-!
# What the ledger owes

The ledger only counts what was handed out and what came back. The difference,
`net`, is what ought to be in use. `Charged` says that it is: as many nodes,
bindings and pages as the tables hold, and as many configurations as instances and
contexts keep, together with those that wait to be given back.

Counts are compared as integers, so a release without an allocation would show as a
negative number instead of vanishing in a subtraction that stops at zero.
-/

namespace Memfs

/-- A counter was to be lowered that stood at zero. -/
def Notice.atZero : Notice → Bool
  | .noLinkToDrop _ | .noPinToDrop _ => true
  | _ => false

/-- The device that is put back, if that is what the notice says. -/
def Notice.release? : Notice → Option (DeviceSort × String)
  | .releasing sort device => some (sort, device)
  | _ => none

/-- An inode number that was drawn, and whether a node was made with it. -/
structure Draw where
  ino : UInt64
  node : Bool
  deriving DecidableEq, Repr

/-- The inode number that was drawn, if that is what the notice says. -/
def Notice.draw? : Notice → Option Draw
  | .newNode ino _ => some ⟨ino, true⟩
  | .bogusMode _ ino => some ⟨ino, false⟩
  | _ => none

/-- The notice tells of no counter at zero, of no device that is put back and of no number that
was drawn. -/
structure Notice.Calm (notice : Notice) : Prop where
  counted : notice.atZero = false
  holding : notice.release? = none
  undrawn : notice.draw? = none

namespace Host

variable {host host' host'' : Host} {kind k : Resource}

/-- How often a counter was to be lowered that stood at zero. -/
def misses (host : Host) : Nat := host.journal.countP Notice.atZero

/-- The caller is the same, and no counter was found at zero in between. -/
structure Alike (host host' : Host) : Prop where
  uid : host'.uid = host.uid
  gid : host'.gid = host.gid
  misses : host'.misses = host.misses

namespace Alike

theorem refl : host.Alike host := ⟨rfl, rfl, rfl⟩

theorem trans (h : host.Alike host') (h' : host'.Alike host'') : host.Alike host'' :=
  ⟨h'.uid.trans h.uid, h'.gid.trans h.gid, h'.misses.trans h.misses⟩

theorem note {notice : Notice} (h : notice.atZero = false) : host.Alike (host.note notice) := by
  refine ⟨rfl, rfl, ?_⟩
  unfold Host.misses Host.note
  simp [h]

theorem released {n : Nat} : host.Alike (host.release kind n) := ⟨rfl, rfl, rfl⟩

/-- A number was drawn and the clock was read. -/
theorem drawn : host.Alike host.drawIno.2.readClock.2 := ⟨rfl, rfl, rfl⟩

end Alike

/-- Allocations less releases. -/
def net (host : Host) (kind : Resource) : Int :=
  (host.ledger.get kind).allocated - (host.ledger.get kind).released

theorem live_eq_toNat_net : host.live kind = (host.net kind).toNat := by
  unfold live net Tally.live
  omega

@[simp]
theorem net_note {notice : Notice} : (host.note notice).net k = host.net k := rfl

@[simp]
theorem net_drawIno : host.drawIno.2.net k = host.net k := rfl

@[simp]
theorem net_readClock : host.readClock.2.net k = host.net k := rfl

@[simp]
theorem net_release {n : Nat} :
    (host.release kind n).net k = host.net k - if k = kind then n else 0 := by
  unfold net release
  rw [Ledger.get_set]
  split
  · next h =>
      subst h
      simp only [Tally.credit]
      omega
  · simp

@[simp]
theorem net_setBudget {budget : Option Nat} : (host.setBudget kind budget).net k = host.net k := by
  unfold net setBudget
  rw [Ledger.get_set]
  split
  · next h =>
      subst h
      rfl
  · rfl

theorem charge_allocated {t t' : Tally} (h : t.charge = some t') :
    t'.allocated = t.allocated + 1 ∧ t'.released = t.released := by
  unfold Tally.charge at h
  split at h
  · cases h
    exact ⟨rfl, rfl⟩
  · cases h
  · cases h
    exact ⟨rfl, rfl⟩

/-- An allocation that is granted counts, and one that is refused does not. -/
theorem net_of_acquire {granted : Bool} (h : host.acquire kind = (granted, host')) :
    host'.net k = host.net k + if granted = true ∧ k = kind then 1 else 0 := by
  unfold acquire at h
  cases hc : (host.ledger.get kind).charge with
  | none =>
      rw [hc] at h
      cases h
      simp
  | some t =>
      rw [hc] at h
      cases h
      obtain ⟨ha, hr⟩ := charge_allocated hc
      unfold net
      simp only [Ledger.get_set]
      by_cases e : k = kind
      · subst e
        simp only [if_true, and_self, ha, hr]
        omega
      · simp [e]

theorem net_of_acquired (h : host.acquire kind = (true, host')) :
    host'.net k = host.net k + if k = kind then 1 else 0 := by
  rw [net_of_acquire h]
  simp

theorem net_of_refused (h : host.acquire kind = (false, host')) : host'.net k = host.net k := by
  rw [net_of_acquire h]
  simp

/-- An allocation, granted or refused, is no matter of credentials and counters. -/
theorem alike_of_acquire {granted : Bool} (h : host.acquire kind = (granted, host')) :
    host.Alike host' := by
  unfold acquire at h
  split at h
  · cases h
    exact ⟨rfl, rfl, rfl⟩
  · cases h
    exact .note rfl

/-- The loop of several allocations takes all that are left or gives back all that were
taken. -/
theorem acquireAll_go {granted : Bool} (n : Nat) : ∀ {taken : Nat} {host : Host},
    acquireAll.go kind taken n host = (granted, host') →
      host.Alike host' ∧ ∀ k, host'.net k = host.net k
        + if k = kind then (if granted then (n : Int) else -taken) else 0 := by
  induction n with
  | zero =>
      intro taken host h
      cases h
      exact ⟨.refl, fun k => by simp⟩
  | succ n ih =>
      intro taken host h
      rw [acquireAll.go] at h
      split at h
      · next next acquired =>
          obtain ⟨alike, net⟩ := ih h
          refine ⟨(alike_of_acquire acquired).trans alike, fun k => ?_⟩
          rw [net, net_of_acquired acquired]
          by_cases e : k = kind
          · simp only [if_pos e]
            split
            · omega
            · omega
          · simp [e]
      · next next refused =>
          have alike := alike_of_acquire refused
          cases h
          refine ⟨alike.trans .released, fun k => ?_⟩
          rw [net_release, net_of_refused refused]
          by_cases e : k = kind
          · simp only [if_pos e, Bool.false_eq_true, if_false]
            omega
          · simp [e]

/-- Several allocations count if all are granted, and not at all otherwise. -/
theorem net_of_acquireAll {granted : Bool} {n : Nat}
    (h : host.acquireAll kind n = (granted, host')) :
    host'.net k = host.net k + if granted = true ∧ k = kind then (n : Int) else 0 := by
  obtain ⟨-, net⟩ := acquireAll_go n h
  rw [net]
  by_cases e : k = kind
  · cases granted with
    | true => simp
    | false => simp
  · simp [e]

/-! ### Budgets -/

/-- How many more allocations of a kind may be taken, if that is limited. -/
def room (host : Host) (kind : Resource) : Option Nat := (host.ledger.get kind).budget

@[simp]
theorem room_note {notice : Notice} : (host.note notice).room k = host.room k := rfl

@[simp]
theorem room_release {n : Nat} : (host.release kind n).room k = host.room k := by
  unfold room release
  rw [Ledger.get_set]
  split
  · next h =>
      subst h
      rfl
  · rfl

theorem room_setBudget {budget : Option Nat} : (host.setBudget kind budget).room kind = budget := by
  unfold room setBudget
  rw [Ledger.get_set, if_pos rfl]

/-- An allocation is granted while the budget lasts, and uses up one of it. -/
theorem room_of_acquire {granted : Bool} (h : host.acquire kind = (granted, host')) :
    (granted = true ∧ ((host.room kind = none ∧ host'.room kind = none) ∨
      ∃ n, host.room kind = some (n + 1) ∧ host'.room kind = some n)) ∨
    (granted = false ∧ host.room kind = some 0 ∧ host'.room kind = some 0) := by
  unfold acquire Tally.charge at h
  unfold room
  cases budget : (host.ledger.get kind).budget with
  | none =>
      rw [budget] at h
      cases h
      exact .inl ⟨rfl, .inl ⟨rfl, by simp only [Ledger.get_set, if_true]⟩⟩
  | some left =>
      rw [budget] at h
      cases left with
      | zero =>
          cases h
          exact .inr ⟨rfl, rfl, budget⟩
      | succ n =>
          cases h
          exact .inl ⟨rfl, .inr ⟨n, rfl, by simp only [Ledger.get_set, if_true]⟩⟩

/-- What has no budget is granted. -/
theorem acquire_of_unlimited (free : host.room kind = none) :
    ∃ host', host.acquire kind = (true, host') := by
  cases acquired : host.acquire kind with
  | mk granted host' =>
      rcases room_of_acquire acquired with ⟨rfl, -⟩ | ⟨-, spent, -⟩
      · exact ⟨host', rfl⟩
      · cases free.symm.trans spent

theorem room_of_acquireAll_go {granted : Bool} (n : Nat) : ∀ {taken : Nat} {host : Host},
    acquireAll.go kind taken n host = (granted, host') →
      granted = (host.room kind).all (n ≤ ·) ∧
      host'.room kind = if granted then (host.room kind).map (· - n) else some 0 := by
  induction n with
  | zero =>
      intro taken host h
      cases h
      cases host'.room kind with
      | none => exact ⟨rfl, rfl⟩
      | some left => simp
  | succ n ih =>
      intro taken host h
      rw [acquireAll.go] at h
      split at h
      · next next acquired =>
          obtain ⟨rfl, left⟩ := ih h
          rcases room_of_acquire acquired with ⟨-, ⟨before, after⟩ | ⟨m, before, after⟩⟩ | ⟨no, -⟩
          · rw [before] at *
            rw [after] at left
            rw [after]
            exact ⟨rfl, left⟩
          · rw [after] at left
            rw [before, after]
            refine ⟨by simp, ?_⟩
            rw [left]
            simp
          · cases no
      · next next refused =>
          rcases room_of_acquire refused with ⟨no, -⟩ | ⟨-, before, after⟩
          · cases no
          · cases h
            rw [before, room_release, after]
            exact ⟨rfl, rfl⟩

/-- Several allocations are granted if the budget has room for all of them. What is
refused one of them has used the budget up. -/
theorem room_of_acquireAll {granted : Bool} {n : Nat}
    (h : host.acquireAll kind n = (granted, host')) :
    granted = (host.room kind).all (n ≤ ·) ∧
      host'.room kind = if granted then (host.room kind).map (· - n) else some 0 :=
  room_of_acquireAll_go n h

end Host

/-- How many configurations there are in the data of a mount: one or none. -/
def PrivateData.configs (data : Option PrivateData) : Nat :=
  (data.bind (·.config?)).elim 0 fun _ => 1

/-- How many configurations a step gives back. -/
def Task.configs : Task → Nat
  | .dispose data => PrivateData.configs (some data)
  | _ => 0

/-- The configurations that wait to be given back. -/
def waitingConfigs (todo : List Task) : Nat := (todo.map Task.configs).sum

@[simp]
theorem waitingConfigs_nil : waitingConfigs [] = 0 := rfl

@[simp]
theorem waitingConfigs_cons {task : Task} {todo : List Task} :
    waitingConfigs (task :: todo) = task.configs + waitingConfigs todo := rfl

@[simp]
theorem waitingConfigs_append {todo rest : List Task} :
    waitingConfigs (todo ++ rest) = waitingConfigs todo + waitingConfigs rest := by
  simp [waitingConfigs]

theorem waitingConfigs_eq_zero {todo : List Task} (h : ∀ task ∈ todo, task.configs = 0) :
    waitingConfigs todo = 0 := by
  induction todo with
  | nil => rfl
  | cons task rest ih =>
      rw [waitingConfigs_cons, h task List.mem_cons_self,
        ih fun other ho => h other (List.mem_cons_of_mem _ ho)]

@[simp]
theorem waitingConfigs_dispose {data : Option PrivateData} :
    waitingConfigs (data.toList.map .dispose) = PrivateData.configs data := by
  cases data with
  | none => rfl
  | some data => simp [Task.configs]

@[simp]
theorem waitingConfigs_letGo {α : Type} {owned : Option α} {ref : α → Ref} :
    waitingConfigs (owned.toList.map fun a => .letGo (ref a)) = 0 := by
  cases owned with
  | none => rfl
  | some a => simp [Task.configs]

theorem Binding.waitingConfigs_owned {x : Binding} : waitingConfigs x.owned = 0 := by
  refine waitingConfigs_eq_zero fun task h => ?_
  unfold Binding.owned at h
  rcases List.mem_append.1 h with h | h
  · obtain ⟨n, -, rfl⟩ := List.mem_map.1 h
    rfl
  · obtain ⟨c, -, rfl⟩ := List.mem_map.1 h
    rfl

theorem Binding.waitingConfigs_dissolution {x : Binding} : waitingConfigs x.dissolution = 0 := by
  refine waitingConfigs_eq_zero fun task h => ?_
  obtain ⟨c, -, rfl | rfl | rfl⟩ := Binding.mem_dissolution.1 h
  · rfl
  · rfl
  · rfl

/-- An instance that is gone leaves its configuration to be given back. -/
theorem Instance.waitingConfigs_owned {i : Instance} :
    waitingConfigs i.owned = PrivateData.configs i.data := by
  unfold Instance.owned
  simp

/-- What the ledger says is in use is what the tables hold. -/
structure Charged (w : World) (todo : List Task) : Prop where
  nodes : w.host.net .node = w.nodes.sum fun _ => 1
  bindings : w.host.net .binding = w.bindings.sum fun _ => 1
  pages : w.host.net .page = w.nodes.sum (·.content.held)
  configs : w.host.net .config
    = w.instances.sum (PrivateData.configs ·.data) + w.contexts.sum (PrivateData.configs ·.data)
      + waitingConfigs todo

end Memfs
