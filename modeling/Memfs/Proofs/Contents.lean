import Memfs.ByteString
import Memfs.PageMap.Lemmas
import Memfs.Proofs.Charges

/-!
# What a page map stands for

A page map shows a string of bytes: as many as its size says, and behind them zeroes in
all pages, held or not. The zeroes behind the end are what makes the map a string that
can grow: a byte that was cut off, or that a page holds beyond what was written, would
come to light with the next extension. Each operation is followed on the string by the
one of the same meaning.
-/

namespace Memfs.PageMap

/-- The map stands for the string `s`, and for zeroes behind it. -/
structure Shows (map : PageMap) (s : ByteString) : Prop where
  size : map.size = s.length
  byteAt : ∀ pos, map.byteAt pos = s.getD pos 0

namespace Shows

variable {map : PageMap} {s : ByteString} {offset len size : Nat} {src : Bytes}

theorem empty {flags : MappingFlags} : Shows { flags } [] where
  size := rfl
  byteAt pos := by simp [PageMap.byteAt, pageAt_eq, Page.byteAt_blank]

theorem store (h : map.Shows s) (offset : Nat) (some : src.toList ≠ []) :
    (map.store offset src).Shows (s.overwrite offset src.toList) where
  size := by
    rw [size_store, ByteString.length_overwrite some, h.size,
      show src.toList.length = src.size from Array.length_toList]
  byteAt pos := by
    rw [byteAt_store, ByteString.getD_overwrite, h.byteAt, Array.length_toList,
      Array.getD_eq_getD_getElem?, List.getD_eq_getElem?_getD (l := src.toList),
      Array.getElem?_toList]

theorem resized (h : map.Shows s) : (map.resized size).Shows (s.resize size) where
  size := by rw [size_resized, ByteString.length_resize]
  byteAt pos := by rw [byteAt_resized, ByteString.getD_resize, h.byteAt]

theorem read (h : map.Shows s) (offset len : Nat) :
    (map.read offset len).toList = s.slice offset len := by
  refine List.ext_getElem? fun k => ?_
  rw [Array.getElem?_toList, getElem?_read, ByteString.getElem?_slice, h.size, h.byteAt]
  by_cases within : k < min len (s.length - offset)
  · rw [if_pos within, if_pos (by omega), List.getD_eq_getElem?_getD,
      List.getElem?_eq_getElem (by omega)]
    rfl
  · rw [if_neg within]
    split
    · rw [List.getElem?_eq_none (by omega)]
    · rfl

/-- A string may be told to end where nothing but zeroes follow. -/
theorem setSize {zeroes : Nat} (h : map.Shows (s ++ List.replicate zeroes 0)) :
    (map.setSize s.length).Shows s where
  size := rfl
  byteAt pos := by
    refine (h.byteAt pos).trans ?_
    rw [List.getD_eq_getElem?_getD, List.getD_eq_getElem?_getD, List.getElem?_append,
      List.getElem?_replicate]
    split
    · rfl
    · next behind =>
        rw [List.getElem?_eq_none (Nat.le_of_not_lt behind)]
        split
        · rfl
        · rfl

/-- A write that was done. -/
theorem write {map' : PageMap} {host host' : Host} (h : map.Shows s)
    (done : map.write host offset src = (.ok map', host')) :
    map'.Shows (s.overwrite offset src.toList) := by
  unfold PageMap.write at done
  split at done
  · next none =>
      have none : src.toList = [] := by simpa using none
      cases done
      rw [none, ByteString.overwrite, if_pos rfl]
      exact h
  · next some =>
      split at done
      · cases done
      · split at done
        · cases done
          exact h.store offset (by simpa using some)
        · cases done

/-- A write within the range of offsets is done if the host has the pages for it. -/
theorem write_granted (h : map.Shows s) {host : Host} (fits : offset + src.size ≤ offsetLimit)
    (granted : (host.room .page).all ((map.missing offset src.size).length ≤ ·) = true) :
    ∃ map' host', map.write host offset src = (.ok map', host') ∧
      map'.Shows (s.overwrite offset src.toList) := by
  unfold PageMap.write
  split
  · next none =>
      have none : src.toList = [] := by simpa using none
      refine ⟨map, host, rfl, ?_⟩
      rw [none, ByteString.overwrite, if_pos rfl]
      exact h
  · next some =>
      rw [if_neg (Nat.not_lt.2 fits)]
      have some : src.toList ≠ [] := by simpa using some
      have stored : (map.store offset src).Shows (s.overwrite offset src.toList) :=
        h.store offset some
      cases taken : host.acquireAll .page (map.missing offset src.size).length with
      | mk done host' =>
        have done_eq := (Host.room_of_acquireAll taken).1
        rw [granted] at done_eq
        subst done_eq
        exact ⟨map.store offset src, host', rfl, stored⟩

end Shows

/-- It is refused if the host has not. Nothing is always granted. -/
theorem write_refused {map : PageMap} {host : Host} {offset : Nat} {src : Bytes}
    (fits : offset + src.size ≤ offsetLimit)
    (refused : (host.room .page).all ((map.missing offset src.size).length ≤ ·) = false) :
    ∃ host', map.write host offset src = (.error .backingStore, host') := by
  unfold PageMap.write
  split
  · next none =>
      have none : src.size = 0 := by simpa using none
      have free : (host.room .page).all ((map.missing offset src.size).length ≤ ·) = true := by
        rw [none]
        cases host.room .page <;> simp [missing, touched]
      rw [free] at refused
      cases refused
  · rw [if_neg (Nat.not_lt.2 fits)]
    cases taken : host.acquireAll .page (map.missing offset src.size).length with
    | mk done host' =>
      have done_eq := (Host.room_of_acquireAll taken).1
      rw [refused] at done_eq
      subst done_eq
      exact ⟨host', rfl⟩

end Memfs.PageMap
