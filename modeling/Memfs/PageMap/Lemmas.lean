import Memfs.PageMap

/-!
# Page maps, byte by byte

What the operations on a page map do to the bytes that it stands for. A write
changes the bytes that it covers and no other, whichever pages they fall in; cutting
or extending leaves the bytes below the new end as they were and makes all others
zero. Nothing here asks how the pages were filled: the statements hold of every map.
-/

namespace Memfs

namespace Page

theorem byteAt_blank (k : Nat) : blank.byteAt k = 0 := by
  simp [byteAt, blank]

/-- Beyond the bytes that a page stores it is zero. -/
theorem byteAt_of_size_le {page : Page} {k : Nat} (h : page.bytes.size ≤ k) :
    page.byteAt k = 0 := by
  simp [byteAt, Array.getD_eq_getD_getElem?, Array.getElem?_eq_none h]

theorem byteAt_overlay (page : Page) (start : Nat) (src : Bytes) (k : Nat) :
    (page.overlay start src).byteAt k
      = if start ≤ k ∧ k < start + src.size then src.getD (k - start) 0 else page.byteAt k := by
  by_cases stored : k < max page.bytes.size (start + src.size)
  · rw [byteAt, overlay, Array.getD_eq_getD_getElem?, Array.getElem?_ofFn, dif_pos stored]
    rfl
  · rw [byteAt_of_size_le (by simp only [overlay, Array.size_ofFn]; omega),
      if_neg (by omega), byteAt_of_size_le (by omega)]

theorem byteAt_cutAt (page : Page) (start k : Nat) :
    (page.cutAt start).byteAt k = if k < start then page.byteAt k else 0 := by
  simp only [byteAt, cutAt, Array.getD_eq_getD_getElem?, Array.getElem?_extract]
  by_cases below : k < start
  · rw [if_pos below]
    by_cases stored : k < page.bytes.size
    · rw [if_pos (by omega), Nat.zero_add]
    · rw [if_neg (by omega), Array.getElem?_eq_none (by omega)]
  · rw [if_neg below, if_neg (by omega)]
    rfl

end Page

namespace PageMap

theorem pageAt_eq (map : PageMap) (index : Nat) :
    map.pageAt index = (map.pages[index]?).getD Page.blank := by
  rw [pageAt, Std.TreeMap.getD_eq_getD_getElem?]

/-- Pages inserted one after another, each under its own index. -/
theorem getElem?_foldl_insert (page : Nat → Page) (indices : List Nat)
    (pages : Std.TreeMap Nat Page) (i : Nat) :
    (indices.foldl (fun pages i => pages.insert i (page i)) pages)[i]?
      = if i ∈ indices then some (page i) else pages[i]? := by
  induction indices generalizing pages with
  | nil => simp
  | cons a rest ih =>
    rw [List.foldl_cons, ih]
    by_cases later : i ∈ rest
    · simp [later]
    · by_cases here : a = i
      · simp [here]
      · have : i ≠ a := fun e => here e.symm
        simp [later, this, here, Std.TreeMap.getElem?_insert]

/-- A write touches the pages that share a byte with it. -/
theorem mem_touched {offset len i : Nat} :
    i ∈ touched offset len
      ↔ i * pageSize < offset + len ∧ offset < (i + 1) * pageSize ∧ len ≠ 0 := by
  unfold touched pageSize
  split
  · simp_all
  · rw [List.mem_range'_1]
    omega

/-- A write covers `src.size` bytes from its offset on and leaves all others. -/
theorem byteAt_store (map : PageMap) (offset : Nat) (src : Bytes) (pos : Nat) :
    (map.store offset src).byteAt pos
      = if offset ≤ pos ∧ pos < offset + src.size then src.getD (pos - offset) 0
        else map.byteAt pos := by
  have cut : pos = pos / pageSize * pageSize + pos % pageSize := by
    have := Nat.div_add_mod pos pageSize
    rw [Nat.mul_comm] at this
    omega
  have positive : 0 < pageSize := by decide
  have small : pos % pageSize < pageSize := Nat.mod_lt _ positive
  generalize index : pos / pageSize = i at *
  generalize inPage : pos % pageSize = k at *
  have next : (i + 1) * pageSize = i * pageSize + pageSize := by rw [Nat.add_mul, Nat.one_mul]
  generalize first : i * pageSize = base at *
  simp only [byteAt, index, inPage, store, pageAt_eq, getElem?_foldl_insert, mem_touched, next,
    first]
  by_cases here : base < offset + src.size ∧ offset < base + pageSize ∧ src.size ≠ 0
  · rw [if_pos here, Option.getD_some, written, Page.byteAt_overlay, first, next, ← pageAt_eq,
      Array.size_extract]
    by_cases inside : offset ≤ pos ∧ pos < offset + src.size
    · rw [if_pos inside, if_pos (by omega), Array.getD_eq_getD_getElem?,
        Array.getD_eq_getD_getElem?, Array.getElem?_extract, if_pos (by omega)]
      congr 2
      omega
    · rw [if_neg inside, if_neg (by omega)]
  · rw [if_neg here, if_neg (by omega)]

theorem size_store (map : PageMap) (offset : Nat) (src : Bytes) :
    (map.store offset src).size = max map.size (offset + src.size) := rfl

/-- The pages below the new end stay, the last of them cut there. -/
theorem getElem?_resized (map : PageMap) (size i : Nat) :
    (map.resized size).pages[i]?
      = if i * pageSize < size then
          (map.pages[i]?).map fun page =>
            if i = size / pageSize then page.cutAt (size % pageSize) else page
        else none := by
  have kept : i < (size + pageSize - 1) / pageSize ↔ i * pageSize < size := by
    unfold pageSize
    omega
  have all (o : Option Page) : o.filter (fun _ => true) = o := by cases o <;> rfl
  simp only [resized, Std.TreeMap.getElem?_modify, Std.TreeMap.getElem?_filter]
  by_cases last : size / pageSize = i
  · subst last
    by_cases below : size / pageSize * pageSize < size <;> simp [kept, below, all]
  · have other : i ≠ size / pageSize := fun e => last e.symm
    by_cases below : i * pageSize < size <;> simp [kept, last, other, below, all]

/-- Cutting or extending leaves the bytes below the new end and makes all others
zero. -/
theorem byteAt_resized (map : PageMap) (size pos : Nat) :
    (map.resized size).byteAt pos = if pos < size then map.byteAt pos else 0 := by
  simp only [byteAt, pageAt_eq, getElem?_resized]
  have positions : pos / pageSize * pageSize < size ↔
      pos < size ∨ (size ≤ pos ∧ pos / pageSize = size / pageSize ∧ size % pageSize ≠ 0) := by
    unfold pageSize
    omega
  have within : pos / pageSize = size / pageSize →
      (pos % pageSize < size % pageSize ↔ pos < size) := by
    unfold pageSize
    omega
  by_cases reached : pos / pageSize * pageSize < size
  · rw [if_pos reached]
    cases map.pages[pos / pageSize]? with
    | none => simp [Page.byteAt_blank]
    | some page =>
      by_cases last : pos / pageSize = size / pageSize
      · simp [last, Page.byteAt_cutAt, within last]
      · have : pos < size := by
          have := positions.1 reached
          omega
        simp [last, this]
  · have : ¬ pos < size := fun h => reached (positions.2 (.inl h))
    rw [if_neg reached, if_neg this]
    simp [Page.byteAt_blank]

theorem size_resized (map : PageMap) (size : Nat) : (map.resized size).size = size := rfl

theorem size_read (map : PageMap) (offset len : Nat) :
    (map.read offset len).size = min len (map.size - offset) := by
  simp [read]

/-- What is read are the bytes from the offset on. -/
theorem getElem?_read (map : PageMap) (offset len k : Nat) :
    (map.read offset len)[k]?
      = if k < min len (map.size - offset) then some (map.byteAt (offset + k)) else none := by
  rw [read, Array.getElem?_ofFn]
  by_cases inside : k < min len (map.size - offset)
  · rw [dif_pos inside, if_pos inside]
  · rw [dif_neg inside, if_neg inside]

end PageMap

end Memfs
