import Memfs.PageMap.Flat
import Memfs.Proofs.Contents
import Memfs.Proofs.Loops

/-!
# A page map is a string of bytes

Whatever is asked of a page map, it answers as a plain string of bytes does. `Mirrors`
is what the two have in common between two commands: the string that the map stands
for, the pages that were paid for, and what is left of the budget. Every command keeps
it and is answered alike; so it goes by induction on the commands, once for the map and
once for its page loops, of which nothing but the pages and bytes is looked at.
-/

namespace Memfs

/-- A page map with its host, and a plain string of bytes that stands for them. -/
structure Mirrors (state : PageMap × Host) (s : Flat) : Prop where
  shows : state.1.Shows s.bytes
  held : ∀ i, state.1.pages.contains i = s.paid.contains i
  budget : state.2.room .page = s.budget
  bounded : s.bytes.length ≤ offsetLimit

namespace Mirrors

open PageMap

variable {map map' : PageMap} {host host' : Host} {s : Flat} {offset len size : Nat} {src : Bytes}

theorem begin : Mirrors ({}, host) { budget := host.room .page } where
  shows := .empty
  held i := by simp
  budget := rfl
  bounded := Nat.zero_le _

theorem size_eq (m : Mirrors (map, host) s) : map.size = s.bytes.length := m.shows.size

/-- Nothing else of a map is looked at than its pages and its bytes. -/
theorem same (m : Mirrors (map, host) s) (alike : map.Same map') : Mirrors (map', host) s where
  shows := ⟨alike.size.trans m.shows.size, fun p => (alike.byteAt p).trans (m.shows.byteAt p)⟩
  held i := (alike.contains i).trans (m.held i)
  budget := m.budget
  bounded := m.bounded

theorem missing_eq (m : Mirrors (map, host) s) : map.missing offset len = s.unpaid offset len := by
  unfold missing Flat.unpaid
  simp only [m.held]

/-- A write that is done is done to the string as well. -/
theorem write_ok (m : Mirrors (map, host) s) (h : map.write host offset src = (.ok map', host')) :
    (s.write offset src.toList).1 = .ok src.size ∧
      Mirrors (map', host') (s.write offset src.toList).2 := by
  unfold PageMap.write at h
  split at h
  · next none =>
      cases h
      have none : src = #[] := by simpa using none
      subst none
      exact ⟨rfl, m⟩
  · next some =>
      have some : src.toList ≠ [] := by simpa using some
      have length : src.toList.length = src.size := Array.length_toList
      split at h
      · cases h
      · next stored =>
          split at h
          · next granted =>
              cases h
              obtain ⟨enough, left⟩ := Host.room_of_acquireAll granted
              rw [m.missing_eq, m.budget] at enough left
              have bytes := m.shows.store offset some
              simp only [Flat.write, length, if_neg some, if_neg stored, ← enough, if_true]
              refine ⟨trivial, bytes, fun i => ?_, left, ?_⟩
              · rw [contains_store, m.held]
                cases paid : s.paid.contains i with
                | true => simp [List.contains_iff_mem.1 paid]
                | false => simp_all [Flat.unpaid]
              · rw [← bytes.size, size_store, m.size_eq]
                have := m.bounded
                omega
          · cases h

/-- A write that fails changes no byte. -/
theorem write_error {e : Error} (m : Mirrors (map, host) s)
    (h : map.write host offset src = (.error e, host')) :
    (s.write offset src.toList).1 = .error e ∧
      Mirrors (map, host') (s.write offset src.toList).2 := by
  unfold PageMap.write at h
  split at h
  · cases h
  · next some =>
      have some : src.toList ≠ [] := by simpa using some
      have length : src.toList.length = src.size := Array.length_toList
      simp only [Flat.write, length, if_neg some]
      split at h
      · next beyond =>
          cases h
          rw [if_pos beyond]
          exact ⟨rfl, m⟩
      · next stored =>
          split at h
          · cases h
          · next refused =>
              cases h
              obtain ⟨enough, left⟩ := Host.room_of_acquireAll refused
              rw [m.missing_eq, m.budget] at enough left
              simp only [if_neg stored, ← enough, Bool.false_eq_true, if_false]
              exact ⟨trivial, m.shows, m.held, left, m.bounded⟩

theorem truncate (m : Mirrors (map, host) s) (h : size ≤ offsetLimit) :
    Mirrors (map.resize host size) (s.truncate size) where
  shows := m.shows.resized
  held i := by
    show (map.resized size).pages.contains i = (s.paid.filter _).contains i
    have held := m.held i
    rw [contains_eq] at held ⊢
    rw [getElem?_resized]
    by_cases below : i * pageSize < size
    · rw [if_pos below, Option.isSome_map, held]
      simp [below]
    · rw [if_neg below]
      simp [below]
  budget := by
    show (host.release .page _).room .page = s.budget
    rw [Host.room_release, m.budget]
  bounded := by
    show (s.bytes.resize size).length ≤ offsetLimit
    rw [ByteString.length_resize]
    exact h

theorem readInto (m : Mirrors (map, host) s) (offset : Nat) (buffer : Bytes) :
    map.readInto offset buffer = ((s.bytes.slice offset buffer.size).length,
      (s.bytes.slice offset buffer.size
        ++ buffer.toList.drop (s.bytes.slice offset buffer.size).length).toArray) := by
  have got := m.shows.read offset buffer.size
  have length : (map.read offset buffer.size).size = (s.bytes.slice offset buffer.size).length := by
    rw [← got, Array.length_toList]
  unfold PageMap.readInto
  rw [← length, ← got]
  refine Prod.ext rfl (Array.toList_inj.1 ?_)
  simp [List.take_of_length_le]

/-- Every command is answered alike, and keeps what the two have in common. -/
theorem answer {state : PageMap × Host} (m : Mirrors state s) (command : Command) :
    (PageMap.answer command state).1 = (Flat.answer command s).1 ∧
      Mirrors (PageMap.answer command state).2 (Flat.answer command s).2 := by
  obtain ⟨map, host⟩ := state
  cases command with
  | write offset src =>
      cases done : map.write host offset.toNat src with
      | mk outcome host' =>
        cases outcome with
        | ok map' =>
            obtain ⟨result, m'⟩ := m.write_ok done
            simp only [PageMap.answer, Flat.answer, done, result, m'.size_eq]
            exact ⟨trivial, m'⟩
        | error e =>
            obtain ⟨result, m'⟩ := m.write_error done
            simp only [PageMap.answer, Flat.answer, done, result, m'.size_eq]
            exact ⟨trivial, m'⟩
  | read offset buffer =>
      have same := m.readInto offset.toNat buffer
      simp only [PageMap.answer, Flat.answer, same, m.size_eq]
      exact ⟨trivial, m⟩
  | truncate size =>
      exact ⟨rfl, m.truncate (Nat.le_pred_of_lt size.toNat_lt)⟩
  | clear =>
      have cut := m.truncate (Nat.zero_le _)
      have string : (s.truncate 0).bytes = [] := List.length_eq_zero_iff.1 ByteString.length_resize
      have pages : (s.truncate 0).paid = [] := by simp [Flat.truncate]
      refine ⟨rfl, ?_, fun i => ?_, cut.budget, Nat.zero_le _⟩
      · have shows := cut.shows
        rw [string] at shows
        exact shows
      · have held := cut.held i
        rw [pages] at held
        exact held
  | setBudget budget =>
      exact ⟨by simp only [PageMap.answer, Flat.answer, m.size_eq],
        m.shows, m.held, Host.room_setBudget, m.bounded⟩

/-- So it is by the page loops: none of their sums and indices is out of range. -/
theorem checkedAnswer {state : PageMap × Host} (m : Mirrors state s) (command : Command) :
    ∃ state', checkedAnswer? command state = some ((Flat.answer command s).1, state') ∧
      Mirrors state' (Flat.answer command s).2 := by
  obtain ⟨same, m'⟩ := m.answer command
  obtain ⟨map, host⟩ := state
  cases command with
  | write offset src =>
      simp only [PageMap.answer] at same m'
      simp only [checkedAnswer?]
      cases done : map.write host offset.toNat src with
      | mk outcome host' =>
        rw [done] at same m'
        cases outcome with
        | ok map' =>
            obtain ⟨checked, looped, alike⟩ := writeFrom?_ok done
            refine ⟨(checked, host'), ?_, m'.same alike⟩
            rw [looped, ← same]
            simp only [Option.bind_eq_bind, Option.bind_some, alike.size]
        | error e =>
            refine ⟨(map, host'), ?_, m'⟩
            rw [writeFrom?_error done, ← same]
            rfl
  | read offset buffer =>
      have bounded : map.size ≤ offsetLimit := by
        rw [m.size_eq]
        exact m.bounded
      refine ⟨(map, host), ?_, m⟩
      rw [← same]
      simp only [checkedAnswer?, readInto?_eq bounded, Option.bind_eq_bind, Option.bind_some]
      rfl
  | truncate size => exact ⟨_, by rw [← same]; rfl, m'⟩
  | clear => exact ⟨_, by rw [← same]; rfl, m'⟩
  | setBudget budget => exact ⟨_, by rw [← same]; rfl, m'⟩

theorem answers {state : PageMap × Host} (m : Mirrors state s) (commands : List Command) :
    Memfs.answers PageMap.answer state commands = Memfs.answers Flat.answer s commands := by
  induction commands generalizing state s with
  | nil => rfl
  | cons command rest ih =>
      obtain ⟨same, m'⟩ := m.answer command
      rw [Memfs.answers, Memfs.answers, same, ih m']

theorem checkedAnswers {state : PageMap × Host} (m : Mirrors state s) (commands : List Command) :
    answers? checkedAnswer? state commands = some (Memfs.answers Flat.answer s commands) := by
  induction commands generalizing state s with
  | nil => rfl
  | cons command rest ih =>
      obtain ⟨state', answered, m'⟩ := m.checkedAnswer command
      rw [answers?, answered]
      simp only [Option.bind_eq_bind, Option.bind_some, ih m']
      rfl

end Mirrors

/-- An empty page map answers any commands as the empty string does, on a host with any
budget; and so do its page loops, in which nothing is ever out of range. -/
theorem answers_flat (host : Host) (commands : List Command) :
    answers PageMap.answer ({}, host) commands
        = answers Flat.answer { budget := host.room .page } commands ∧
      answers? PageMap.checkedAnswer? ({}, host) commands
        = some (answers Flat.answer { budget := host.room .page } commands) :=
  ⟨Mirrors.begin.answers commands, Mirrors.begin.checkedAnswers commands⟩

end Memfs
