/-!
# Plain strings of bytes

The content of a file as its users see it: a list of bytes that is cut, extended with
zeroes and overwritten in place. `getD_resize` and `getD_overwrite` say what each of
these does to the byte at a position, the bytes behind the end being read as zeroes.
-/

namespace Memfs

/-- The content of a file, byte by byte. -/
abbrev ByteString := List UInt8

namespace ByteString

/-- The first `size` bytes; where there are fewer, zeroes follow. -/
def resize (s : ByteString) (size : Nat) : ByteString :=
  s.take size ++ List.replicate (size - s.length) 0

/-- The string with `src` from `offset` on. It grows as far as it has to, and zeroes
fill what lies between its old end and `offset`. Writing nothing changes nothing. -/
def overwrite (s : ByteString) (offset : Nat) (src : ByteString) : ByteString :=
  if src = [] then s
  else
    let grown := s.resize (max s.length (offset + src.length))
    grown.take offset ++ src ++ grown.drop (offset + src.length)

/-- Up to `len` bytes from `offset` on. -/
def slice (s : ByteString) (offset len : Nat) : ByteString := (s.drop offset).take len

variable {s src : ByteString} {size offset len pos : Nat}

@[simp]
theorem length_resize : (s.resize size).length = size := by
  simp only [resize, List.length_append, List.length_take, List.length_replicate]
  omega

theorem getD_resize : (s.resize size).getD pos 0 = if pos < size then s.getD pos 0 else 0 := by
  simp only [resize, List.getD_eq_getElem?_getD, List.getElem?_append, List.length_take,
    List.getElem?_take, List.getElem?_replicate]
  by_cases kept : pos < min size s.length
  · rw [if_pos kept, if_pos (by omega), if_pos (by omega)]
  · rw [if_neg kept]
    by_cases within : pos < size
    · rw [if_pos within, if_pos (by omega), List.getElem?_eq_none (by omega)]
      rfl
    · rw [if_neg within, if_neg (by omega)]
      rfl

theorem length_overwrite (some : src ≠ []) :
    (s.overwrite offset src).length = max s.length (offset + src.length) := by
  simp only [overwrite, if_neg some, List.length_append, List.length_take, List.length_drop,
    length_resize]
  omega

theorem getD_overwrite : (s.overwrite offset src).getD pos 0
    = if offset ≤ pos ∧ pos < offset + src.length then src.getD (pos - offset) 0
      else s.getD pos 0 := by
  unfold overwrite
  split
  · next none =>
      subst none
      rw [if_neg (by simp)]
  · have grown := @getD_resize s (max s.length (offset + src.length)) pos
    have longer : (s.resize (max s.length (offset + src.length))).length
        = max s.length (offset + src.length) := length_resize
    generalize s.resize (max s.length (offset + src.length)) = g at grown longer
    simp only [List.getD_eq_getElem?_getD] at grown ⊢
    have before : (g.take offset).length = offset := by
      rw [List.length_take]
      omega
    by_cases left : pos < offset
    · rw [if_neg (by omega), List.append_assoc, List.getElem?_append_left (by omega),
        List.getElem?_take, if_pos left, grown, if_pos (by omega)]
    · by_cases inside : pos < offset + src.length
      · rw [if_pos (by omega), List.append_assoc, List.getElem?_append_right (by omega),
          List.getElem?_append_left (by omega), before]
      · rw [if_neg (by omega), List.getElem?_append_right (by rw [List.length_append]; omega),
          List.length_append, before, List.getElem?_drop,
          show offset + src.length + (pos - (offset + src.length)) = pos by omega, grown]
        split
        · rfl
        · rw [List.getElem?_eq_none (by omega)]
          rfl

@[simp]
theorem length_slice : (s.slice offset len).length = min len (s.length - offset) := by
  simp [slice]

theorem getElem?_slice {k : Nat} :
    (s.slice offset len)[k]? = if k < len then s[offset + k]? else none := by
  simp [slice, List.getElem?_take, List.getElem?_drop]

end ByteString

end Memfs
