import Mathlib.Data.Finset.Card
import Memfs.PageMap.Flat
import Memfs.Proofs.Loops

/-!
# A page map pays for the pages that it holds

Several page maps may charge one host, so what a host has in use does not say what is due to
one of them. `Tenant` keeps the account of one map through all its commands. Between two of
them the host may have been used by others, and its budget may have been set; so each command
comes with the host that it finds, which may be any.

A page comes to be held by a write and goes by a cut, and by nothing else. So the pages that
are held are known from the past alone (`Tenant.held_run`), as those of a write that no later
cut has reached.
-/

namespace Memfs

variable {map : PageMap} {host host' : Host} {kind : Resource} {offset len i n : Nat} {src : Bytes}

/-! ## The totals of the ledger -/

namespace Host

/-- How many allocations were ever taken. -/
def taken (host : Host) (kind : Resource) : Nat := (host.ledger.get kind).allocated

/-- How many allocations were ever given back. -/
def returned (host : Host) (kind : Resource) : Nat := (host.ledger.get kind).released

theorem net_eq : host.net kind = (host.taken kind : Int) - host.returned kind := rfl

theorem taken_release : (host.release kind n).taken kind = host.taken kind := by
  unfold taken release
  rw [Ledger.get_set, if_pos rfl]
  rfl

theorem returned_release : (host.release kind n).returned kind = host.returned kind + n := by
  unfold returned release
  rw [Ledger.get_set, if_pos rfl]
  rfl

theorem totals_of_acquired (h : host.acquire kind = (true, host')) :
    host'.taken kind = host.taken kind + 1 ∧ host'.returned kind = host.returned kind := by
  unfold acquire at h
  split at h
  · next tally charged =>
      cases h
      unfold taken returned
      rw [Ledger.get_set, if_pos rfl]
      exact charge_allocated charged
  · cases h

theorem totals_of_refused (h : host.acquire kind = (false, host')) :
    host'.taken kind = host.taken kind ∧ host'.returned kind = host.returned kind := by
  unfold acquire at h
  split at h
  · cases h
  · cases h
    exact ⟨rfl, rfl⟩

/-- The loop of several allocations adds all that are left to what was taken; or it adds those
that there was room for, and all that were taken to what was given back. -/
theorem totals_of_acquireAll_go {granted : Bool} (n : Nat) : ∀ {before : Nat} {host : Host},
    acquireAll.go kind before n host = (granted, host') →
      (granted = true ∧ host'.taken kind = host.taken kind + n ∧
        host'.returned kind = host.returned kind) ∨
      (granted = false ∧ ∃ m < n, host.room kind = some m ∧
        host'.taken kind = host.taken kind + m ∧
        host'.returned kind = host.returned kind + (before + m)) := by
  induction n with
  | zero =>
      intro before host h
      cases h
      exact .inl ⟨rfl, rfl, rfl⟩
  | succ n ih =>
      intro before host h
      rw [acquireAll.go] at h
      split at h
      · next next acquired =>
          obtain ⟨taken, returned⟩ := totals_of_acquired acquired
          rcases ih h with ⟨yes, taken', returned'⟩ | ⟨no, m, few, room, taken', returned'⟩
          · exact .inl ⟨yes, by omega, by omega⟩
          · rcases room_of_acquire acquired with ⟨-, ⟨-, after⟩ | ⟨k, before, after⟩⟩ | ⟨no', -⟩
            · rw [after] at room
              cases room
            · rw [after] at room
              cases room
              exact .inr ⟨no, m + 1, by omega, before, by omega, by omega⟩
            · cases no'
      · next next refused =>
          obtain ⟨taken, returned⟩ := totals_of_refused refused
          rcases room_of_acquire refused with ⟨yes, -⟩ | ⟨-, room, -⟩
          · cases yes
          · cases h
            refine .inr ⟨rfl, 0, Nat.succ_pos n, room, ?_, ?_⟩
            · rw [taken_release, taken, Nat.add_zero]
            · rw [returned_release, returned, Nat.add_zero]

/-- Several allocations, and what they add to the totals. -/
theorem totals_of_acquireAll {granted : Bool} (h : host.acquireAll kind n = (granted, host')) :
    (granted = true ∧ host'.taken kind = host.taken kind + n ∧
      host'.returned kind = host.returned kind) ∨
    (granted = false ∧ ∃ m < n, host.room kind = some m ∧
      host'.taken kind = host.taken kind + m ∧
      host'.returned kind = host.returned kind + m) := by
  simpa only [Nat.zero_add] using totals_of_acquireAll_go n h

end Host

/-! ## Pages -/

/-- How many pages there are to `size` bytes. -/
def pagesOf (size : Nat) : Nat := (size + pageSize - 1) / pageSize

theorem lt_pagesOf : i < pagesOf n ↔ i * pageSize < n := by
  unfold pagesOf pageSize
  omega

/-- One of the `len` bytes from the offset on lies in the page. -/
def Touches (offset len i : Nat) : Prop :=
  ∃ pos, offset ≤ pos ∧ pos < offset + len ∧ pos / pageSize = i

namespace PageMap

/-- The map holds the page. -/
def Holds (map : PageMap) (i : Nat) : Prop := map.pages.contains i = true

theorem mem_touched_iff : i ∈ touched offset len ↔ Touches offset len i := by
  rw [mem_touched]
  unfold Touches pageSize
  constructor
  · rintro ⟨first, last, some⟩
    exact ⟨max offset (i * 4096), by omega, by omega, by omega⟩
  · rintro ⟨pos, first, last, rfl⟩
    exact ⟨by omega, by omega, by omega⟩

theorem mem_missing_iff :
    i ∈ map.missing offset len ↔ Touches offset len i ∧ ¬ map.Holds i := by
  unfold missing Holds
  rw [List.mem_filter, mem_touched_iff, Bool.not_eq_true', Bool.not_eq_true]

theorem holds_store : (map.store offset src).Holds i ↔ Touches offset src.size i ∨ map.Holds i := by
  unfold Holds
  rw [contains_store, Bool.or_eq_true, decide_eq_true_iff, mem_touched_iff]

theorem holds_resized : (map.resized n).Holds i ↔ map.Holds i ∧ i < pagesOf n := by
  unfold Holds
  rw [contains_eq, contains_eq, getElem?_resized, lt_pagesOf]
  by_cases below : i * pageSize < n
  · rw [if_pos below, Option.isSome_map]
    exact (and_iff_left below).symm
  · rw [if_neg below]
    exact iff_of_false Bool.false_ne_true fun h => below h.2

/-- A write of no byte, or of bytes that touch pages that are paid for by now. -/
theorem taken_of_write_ok {map' : PageMap} (h : map.write host offset src = (.ok map', host')) :
    (∀ i, map'.Holds i ↔ Touches offset src.size i ∨ map.Holds i) ∧
      map'.size = (if src.size = 0 then map.size else max map.size (offset + src.size)) ∧
      host'.taken .page = host.taken .page + (map.missing offset src.size).length ∧
      host'.returned .page = host.returned .page := by
  unfold write at h
  split at h
  · next none =>
      cases h
      have none : src.size = 0 := by simpa using none
      have idle : ∀ i, ¬ Touches offset src.size i := fun i ⟨pos, first, last, _⟩ => by omega
      refine ⟨fun i => (or_iff_right (idle i)).symm, (if_pos none).symm, ?_, rfl⟩
      rw [missing, touched, if_pos none]
      rfl
  · next some =>
      have some : src.size ≠ 0 := by simpa using some
      split at h
      · cases h
      · split at h
        · next next granted =>
            cases h
            rcases Host.totals_of_acquireAll granted with ⟨-, taken, returned⟩ | ⟨no, -⟩
            · exact ⟨fun i => holds_store, (if_neg some).symm, taken, returned⟩
            · cases no
        · cases h

/-- A write that reaches too far takes nothing. One that is refused a page, after as many as
there was room for, has given these back. -/
theorem returned_of_write_error {e : Error} (h : map.write host offset src = (.error e, host')) :
    (e = .fileTooLarge ∧ offsetLimit < offset + src.size ∧ host' = host) ∨
      (e = .backingStore ∧ ∃ m < (map.missing offset src.size).length,
        host.room .page = some m ∧
        host'.taken .page = host.taken .page + m ∧
        host'.returned .page = host.returned .page + m) := by
  unfold write at h
  split at h
  · cases h
  · split at h
    · next beyond =>
        cases h
        exact .inl ⟨rfl, beyond, rfl⟩
    · split at h
      · cases h
      · next next refused =>
          cases h
          rcases Host.totals_of_acquireAll refused with ⟨yes, -⟩ | ⟨-, few⟩
          · cases yes
          · exact .inr ⟨rfl, few⟩

theorem answer_write_ok {offset : UInt64} {map' : PageMap}
    (h : map.write host offset.toNat src = (.ok map', host')) :
    answer (.write offset src) (map, host)
      = ({ result := .ok src.size, size := map'.size }, (map', host')) := by
  simp only [answer, h]

theorem answer_write_error {offset : UInt64} {e : Error}
    (h : map.write host offset.toNat src = (.error e, host')) :
    answer (.write offset src) (map, host)
      = ({ result := .error e, size := map.size }, (map, host')) := by
  simp only [answer, h]

end PageMap

/-! ## The account of one map -/

/-- A command, and the host that it finds. -/
structure Visit where
  host : Host
  command : Command

/-- The size that a command cuts or extends the content to. -/
def Command.cut? : Command → Option Nat
  | .truncate size => some size.toNat
  | .clear => some 0
  | _ => none

/-- A map, and what the hosts have handed out for it less what came back. -/
structure Tenant where
  map : PageMap := {}
  balance : Int := 0

namespace Tenant

/-- What a visit is answered. -/
def answer (s : Tenant) (v : Visit) : Answer := (PageMap.answer v.command (s.map, v.host)).1

/-- The host behind a visit. -/
def hostAfter (s : Tenant) (v : Visit) : Host := (PageMap.answer v.command (s.map, v.host)).2.2

/-- The map after a visit, and its account. -/
def step (s : Tenant) (v : Visit) : Tenant where
  map := (PageMap.answer v.command (s.map, v.host)).2.1
  balance := s.balance + ((s.hostAfter v).net .page - v.host.net .page)

/-- An empty map after a list of visits. -/
def run (past : List Visit) : Tenant := past.foldl step {}

/-- No page is held beyond the end of the content. -/
def Within (s : Tenant) : Prop := ∀ i, s.map.Holds i → i < pagesOf s.map.size

/-- What the hosts have handed out for the map is what it holds. -/
def Even (s : Tenant) : Prop := s.balance = s.map.held

/-- The visit was a write that was done, and it touched the page. -/
def Wrote (s : Tenant) (v : Visit) (i : Nat) : Prop :=
  ∃ offset src, v.command = .write offset src ∧ (s.answer v).result = .ok src.size ∧
    Touches offset.toNat src.size i

variable {s t : Tenant} {v : Visit} {past : List Visit}

theorem run_concat : run (past ++ [v]) = (run past).step v := by
  rw [run, List.foldl_concat]
  rfl

/-! ### One visit -/

/-- What a visit comes to: bytes are written, the content is cut or extended, or nothing is
changed. -/
inductive Outcome (s : Tenant) (v : Visit) : Tenant → Prop
  | written {offset : UInt64} {src : Bytes} {map' : PageMap} {host' : Host}
      (done : s.map.write v.host offset.toNat src = (.ok map', host'))
      (uncut : v.command.cut? = none)
      (wrote : ∀ i, s.Wrote v i ↔ Touches offset.toNat src.size i) :
      Outcome s v ⟨map', s.balance + (host'.net .page - v.host.net .page)⟩
  | cut {n : Nat} (cut : v.command.cut? = some n) (unwritten : ∀ i, ¬ s.Wrote v i) :
      Outcome s v ⟨s.map.resized n,
        s.balance + ((s.map.resize v.host n).2.net .page - v.host.net .page)⟩
  | kept (uncut : v.command.cut? = none) (unwritten : ∀ i, ¬ s.Wrote v i) : Outcome s v s

theorem not_wrote (other : ∀ offset src, v.command ≠ .write offset src) (i : Nat) :
    ¬ s.Wrote v i :=
  fun ⟨offset, src, same, _⟩ => other offset src same

theorem outcome_write_ok {offset : UInt64} {map' : PageMap}
    (done : s.map.write host offset.toNat src = (.ok map', host')) :
    s.Outcome ⟨host, .write offset src⟩ (s.step ⟨host, .write offset src⟩) := by
  have answered := PageMap.answer_write_ok done
  have stepped : s.step ⟨host, .write offset src⟩
      = ⟨map', s.balance + (host'.net .page - host.net .page)⟩ := by
    unfold step hostAfter
    rw [answered]
  rw [stepped]
  refine .written done rfl fun i => ⟨?_, fun touches => ⟨offset, src, rfl, ?_, touches⟩⟩
  · rintro ⟨offset, src, same, -, touches⟩
    cases same
    exact touches
  · unfold answer
    rw [answered]

theorem outcome_write_error {offset : UInt64} {e : Error}
    (failed : s.map.write host offset.toNat src = (.error e, host')) :
    s.Outcome ⟨host, .write offset src⟩ (s.step ⟨host, .write offset src⟩) := by
  have answered := PageMap.answer_write_error failed
  have stepped : s.step ⟨host, .write offset src⟩ = s := by
    unfold step hostAfter
    rw [answered, (PageMap.write_error failed).2, Int.sub_self, Int.add_zero]
  rw [stepped]
  refine .kept rfl ?_
  rintro i ⟨offset, src, same, done, -⟩
  cases same
  unfold answer at done
  rw [answered] at done
  cases done

theorem outcome : s.Outcome v (s.step v) := by
  obtain ⟨host, command⟩ := v
  have idle {host' : Host} (same : host'.net .page = host.net .page) :
      (⟨s.map, s.balance + (host'.net .page - host.net .page)⟩ : Tenant) = s := by
    rw [same, Int.sub_self, Int.add_zero]
  cases command with
  | write offset src =>
      cases done : s.map.write host offset.toNat src with
      | mk outcome host' =>
        cases outcome with
        | ok map' => exact outcome_write_ok done
        | error e => exact outcome_write_error done
  | read offset buffer =>
      have stepped : s.step ⟨host, .read offset buffer⟩ = s := idle rfl
      rw [stepped]
      exact .kept rfl (not_wrote nofun)
  | truncate size => exact .cut rfl (not_wrote nofun)
  | clear => exact .cut rfl (not_wrote nofun)
  | setBudget budget =>
      have stepped : s.step ⟨host, .setBudget budget⟩ = s := idle Host.net_setBudget
      rw [stepped]
      exact .kept rfl (not_wrote nofun)

namespace Outcome

/-- A page is held because it was written just now, or still. -/
theorem holds (o : s.Outcome v t) : t.map.Holds i
    ↔ s.Wrote v i ∨ s.map.Holds i ∧ ∀ n, v.command.cut? = some n → i < pagesOf n := by
  cases o with
  | written done uncut wrote =>
      rw [(PageMap.taken_of_write_ok done).1, wrote, uncut]
      exact or_congr_right (and_iff_left nofun).symm
  | cut cut unwritten =>
      rw [PageMap.holds_resized, cut, or_iff_right (unwritten i)]
      simp only [Option.some.injEq, forall_eq']
  | kept uncut unwritten =>
      rw [uncut, or_iff_right (unwritten i)]
      exact (and_iff_left nofun).symm

theorem within (o : s.Outcome v t) (h : s.Within) : t.Within := by
  intro i holds
  cases o with
  | written done uncut wrote =>
      obtain ⟨pages, size, -⟩ := PageMap.taken_of_write_ok done
      rw [size, lt_pagesOf]
      rcases (pages i).1 holds with ⟨pos, first, last, rfl⟩ | before
      · have : pos / pageSize * pageSize ≤ pos := Nat.div_mul_le_self ..
        rw [if_neg (by omega)]
        omega
      · have := lt_pagesOf.1 (h i before)
        split
        · exact this
        · omega
  | cut cut unwritten => exact (PageMap.holds_resized.1 holds).2
  | kept uncut unwritten => exact h i holds

theorem even (o : s.Outcome v t) (h : s.Even) : t.Even := by
  unfold Even at h
  cases o with
  | @written offset src map' host' done uncut wrote =>
      have net := (PageMap.write_ok done).2 .page
      rw [if_pos rfl] at net
      show s.balance + (host'.net .page - v.host.net .page) = (map'.held : Int)
      rw [net, h]
      omega
  | @cut n cut unwritten =>
      have net : (s.map.resize v.host n).2.net .page
          = v.host.net .page + (((s.map.resized n).held : Int) - s.map.held) := by
        rw [PageMap.net_resize, if_pos rfl]
        rfl
      show s.balance + ((s.map.resize v.host n).2.net .page - v.host.net .page)
        = ((s.map.resized n).held : Int)
      rw [net, h]
      omega
  | kept uncut unwritten => exact h

end Outcome

/-! ### Whole pasts -/

theorem within_run : (run past).Within := by
  induction past using List.reverseRecOn with
  | nil => exact fun i holds => absurd holds (by simp [run, PageMap.Holds])
  | append_singleton past v ih =>
      rw [run_concat]
      exact outcome.within ih

theorem even_run : (run past).Even := by
  induction past using List.reverseRecOn with
  | nil => rfl
  | append_singleton past v ih =>
      rw [run_concat]
      exact outcome.even ih

/-- The page was touched by a write that was done, and no later cut has reached it. -/
def Lasting (past : List Visit) (i : Nat) : Prop :=
  ∃ before v later, past = before ++ v :: later ∧ (run before).Wrote v i ∧
    ∀ u ∈ later, ∀ n, u.command.cut? = some n → i < pagesOf n

theorem lasting_concat : Lasting (past ++ [v]) i
    ↔ (run past).Wrote v i ∨ Lasting past i ∧ ∀ n, v.command.cut? = some n → i < pagesOf n := by
  constructor
  · rintro ⟨before, u, later, same, wrote, spared⟩
    rcases List.eq_nil_or_concat' later with rfl | ⟨later, last, rfl⟩
    · obtain ⟨rfl, last⟩ := List.append_inj' same rfl
      cases last
      exact .inl wrote
    · have same : past ++ [v] = before ++ u :: later ++ [last] := by
        rw [same, List.append_assoc, List.cons_append]
      obtain ⟨rfl, last⟩ := List.append_inj' same rfl
      cases last
      refine .inr ⟨⟨before, u, later, rfl, wrote, fun u hu => ?_⟩, ?_⟩
      · exact spared u (List.mem_append_left _ hu)
      · exact spared v (List.mem_append_right _ List.mem_cons_self)
  · rintro (wrote | ⟨⟨before, u, later, rfl, wrote, spared⟩, last⟩)
    · exact ⟨past, v, [], rfl, wrote, nofun⟩
    · refine ⟨before, u, later ++ [v], by simp, wrote, fun u hu => ?_⟩
      rcases List.mem_append.1 hu with hu | hu
      · exact spared u hu
      · cases List.mem_singleton.1 hu
        exact last

/-- The pages that are held are those that the past has left. -/
theorem holds_run : (run past).map.Holds i ↔ Lasting past i := by
  induction past using List.reverseRecOn with
  | nil =>
      refine iff_of_false (by simp [run, PageMap.Holds]) ?_
      rintro ⟨before, v, later, same, -⟩
      exact List.append_ne_nil_of_right_ne_nil before (List.cons_ne_nil v later) same.symm
  | append_singleton past v ih => rw [run_concat, outcome.holds, lasting_concat, ih]

end Tenant

open Tenant

/-- A page map that was empty at first, after any commands on hosts with any budgets. What was
handed out for it and did not come back are the pages that it holds. These are the ones that
a write has touched and that no later cut has reached, and none is beyond the end. The next
write takes the pages that it touches and the map lacks; or it is refused one of them, and
has given back as many as it was granted before, which is what the budget had room for. -/
theorem pages_paid_for (past : List Visit) :
    let s := run past
    s.balance = s.map.held ∧
    (∀ i, s.map.Holds i ↔ Lasting past i) ∧
    (∀ i, s.map.Holds i → i < pagesOf s.map.size) ∧
    ∀ (host : Host) (offset : UInt64) (src : Bytes),
      let v : Visit := ⟨host, .write offset src⟩
      let host' := s.hostAfter v
      ∃ lacking : Finset Nat,
        (∀ i, i ∈ lacking ↔ Touches offset.toNat src.size i ∧ ¬ s.map.Holds i) ∧
        match (s.answer v).result with
        | .ok n => n = src.size ∧
            host'.taken .page = host.taken .page + lacking.card ∧
            host'.returned .page = host.returned .page
        | .error e => (s.step v).map = s.map ∧
            ((e = .fileTooLarge ∧ host' = host) ∨
              (e = .backingStore ∧ ∃ k, 0 < k ∧ k ≤ lacking.card ∧
                host.room .page = some (k - 1) ∧
                host'.taken .page = host.taken .page + (k - 1) ∧
                host'.returned .page = host.returned .page + (k - 1))) := by
  intro s
  refine ⟨even_run, fun i => holds_run, within_run, fun host offset src => ?_⟩
  intro v host'
  have card : (s.map.missing offset.toNat src.size).toFinset.card
      = (s.map.missing offset.toNat src.size).length :=
    List.toFinset_card_of_nodup (PageMap.nodup_touched.filter _)
  refine ⟨(s.map.missing offset.toNat src.size).toFinset, fun i => ?_, ?_⟩
  · rw [List.mem_toFinset, PageMap.mem_missing_iff]
  · rw [card]
    cases done : s.map.write host offset.toNat src with
    | mk outcome after =>
      cases outcome with
      | ok map' =>
          have answered := PageMap.answer_write_ok done
          obtain ⟨-, -, taken, returned⟩ := PageMap.taken_of_write_ok done
          simp only [v, host', answer, hostAfter, answered]
          exact ⟨trivial, taken, returned⟩
      | error e =>
          have answered := PageMap.answer_write_error done
          simp only [v, host', answer, hostAfter, step, answered, true_and]
          rcases PageMap.returned_of_write_error done with
            ⟨far, -, same⟩ | ⟨refused, m, few, room, taken, returned⟩
          · exact .inl ⟨far, same⟩
          · exact .inr ⟨refused, m + 1, Nat.succ_pos m, few, room, taken, returned⟩

end Memfs
