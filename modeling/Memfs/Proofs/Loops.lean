import Memfs.PageMap.Lemmas
import Memfs.PageMap.Loops
import Memfs.Proofs.Pages

/-!
# The page loops stay in range

A turn of a page loop moves a part of the bytes that are left and stays in the page
that it is in, so the bytes are in the frame of the page and in the caller's buffer, and
their positions are offsets. Each loop goes by induction on the bytes that are left: it
has a value, and the value is what `byteAt` says without a loop.

For a read, all positions are below the size of the map, which is an offset itself. For
a write, the last position was tested before the loop; and the loop finds every page
that it needs, because the missing ones were taken before.
-/

namespace Memfs

namespace Bytes

theorem slice?_eq (bytes : Bytes) (start size : Nat) (h : start + size ≤ bytes.size) :
    ∃ part, bytes.slice? start size = some part ∧ part.size = size ∧
      ∀ k, k < size → part[k]? = bytes[start + k]? := by
  refine ⟨_, if_pos h, ?_, fun k hk => ?_⟩
  · rw [Array.size_extract]
    omega
  · rw [Array.getElem?_extract, if_pos (by omega)]

theorem splice?_eq (bytes : Bytes) (start : Nat) (src : Bytes) (h : start + src.size ≤ bytes.size) :
    ∃ whole, bytes.splice? start src = some whole ∧ whole.size = bytes.size ∧
      ∀ k, whole[k]? = if start ≤ k ∧ k < start + src.size then src[k - start]? else bytes[k]? := by
  have before : (bytes.extract 0 start).size = start := by
    rw [Array.size_extract]
    omega
  refine ⟨_, if_pos h, ?_, fun k => ?_⟩
  · simp only [Array.size_append, Array.size_extract]
    omega
  · rw [Array.append_assoc, Array.getElem?_append, Array.getElem?_append, before]
    by_cases left : k < start
    · rw [if_pos left, if_neg (by omega), Array.getElem?_extract, if_pos (by omega), Nat.zero_add]
    · rw [if_neg left]
      by_cases inside : k < start + src.size
      · rw [if_pos (by omega), if_pos (by omega)]
      · rw [if_neg (by omega), if_neg (by omega), Array.getElem?_extract]
        split
        · congr 1
          omega
        · rw [Array.getElem?_eq_none (by omega)]

end Bytes

theorem offsetSum?_eq {a b : Nat} (h : a + b ≤ offsetLimit) : offsetSum? a b = some (a + b) :=
  if_pos h

namespace Page

theorem size_frame {page : Page} : page.frame.size = pageSize := by
  simp [frame]

theorem getElem?_frame {page : Page} {k : Nat} (h : k < pageSize) :
    page.frame[k]? = some (page.byteAt k) := by
  rw [frame, Array.getElem?_ofFn, dif_pos h]

end Page

namespace PageMap

variable {map : PageMap} {pages : Std.TreeMap Nat Page} {offset len pos size left : Nat}
  {src buffer : Bytes}

theorem stride_le_left : stride pos left ≤ left := Nat.min_le_left ..

theorem stride_le_page (pos left : Nat) : pos % pageSize + stride pos left ≤ pageSize := by
  have : pos % pageSize < pageSize := Nat.mod_lt _ (by decide)
  unfold stride
  omega

/-- The positions of one turn are in one page. -/
theorem same_page (pos k : Nat) (h : pos % pageSize + k < pageSize) :
    (pos + k) / pageSize = pos / pageSize ∧ (pos + k) % pageSize = pos % pageSize + k := by
  unfold pageSize at *
  omega

theorem chunk?_eq (map : PageMap) (h : pos % pageSize + size ≤ pageSize) :
    ∃ chunk, map.chunk? pos size = some chunk ∧ chunk.size = size ∧
      ∀ k, k < size → chunk[k]? = some (map.byteAt (pos + k)) := by
  have stored : ∀ k, k < size → map.byteAt (pos + k)
      = (map.pageAt (pos / pageSize)).byteAt (pos % pageSize + k) := fun k hk => by
    obtain ⟨index, inPage⟩ := same_page pos k (by omega)
    rw [byteAt, index, inPage]
  unfold chunk?
  cases held : map.pages[pos / pageSize]? with
  | none =>
      refine ⟨_, rfl, Array.size_replicate, fun k hk => ?_⟩
      rw [Array.getElem?_replicate, if_pos hk, stored k hk, pageAt_eq, held]
      exact congrArg some (Page.byteAt_blank _).symm
  | some page =>
      obtain ⟨chunk, found, length, bytes⟩ :=
        Bytes.slice?_eq page.frame (pos % pageSize) size (by rw [Page.size_frame]; exact h)
      refine ⟨chunk, found, length, fun k hk => ?_⟩
      rw [bytes k hk, Page.getElem?_frame (by omega), stored k hk, pageAt_eq, held]
      rfl

/-- What the loop has left to read goes to its place in the buffer, and nothing else is
changed there. -/
theorem readLoop?_eq (map : PageMap) (offset len done : Nat) (buffer : Bytes)
    (stored : offset + len ≤ offsetLimit) (started : done ≤ len) (fits : len ≤ buffer.size) :
    ∃ filled, map.readLoop? offset len done buffer = some (len, filled) ∧
      filled.size = buffer.size ∧ ∀ k, filled[k]?
        = if done ≤ k ∧ k < len then some (map.byteAt (offset + k)) else buffer[k]? := by
  induction rest : len - done using Nat.strongRecOn generalizing done buffer with
  | _ rest ih =>
    rw [readLoop?]
    split
    · next unfinished =>
        have moved := stride_pos (offset + done) (Nat.sub_pos_of_lt unfinished)
        have within : stride (offset + done) (len - done) ≤ len - done := stride_le_left
        obtain ⟨chunk, read, length, bytes⟩ :=
          chunk?_eq map (stride_le_page (offset + done) (len - done))
        rw [offsetSum?_eq (by omega)]
        simp only [Option.bind_eq_bind, Option.bind_some]
        generalize stride (offset + done) (len - done) = size at *
        obtain ⟨buffer', copied, sameSize, place⟩ :=
          Bytes.splice?_eq buffer done chunk (by omega)
        obtain ⟨filled, looped, filledSize, filledAt⟩ :=
          ih (len - (done + size)) (by omega) (done + size) buffer' (by omega) (by omega) rfl
        refine ⟨filled, by simp only [read, copied, looped, Option.bind_some],
          filledSize.trans sameSize, fun k => ?_⟩
        rw [filledAt, place, length]
        by_cases here : done ≤ k ∧ k < done + size
        · rw [if_neg (by omega), if_pos here, if_pos (by omega), bytes _ (by omega)]
          congr 2
          omega
        · rw [if_neg here]
          by_cases later : done + size ≤ k ∧ k < len
          · rw [if_pos later, if_pos (by omega)]
          · rw [if_neg later, if_neg (by omega)]
    · next finished =>
        have : done = len := by omega
        subst this
        exact ⟨buffer, rfl, rfl, fun k => by rw [if_neg (by omega)]⟩

/-- The loop reads what is read without it. -/
theorem readInto?_eq (bounded : map.size ≤ offsetLimit) :
    map.readInto? offset buffer = some ((map.read offset buffer.size).size,
      map.read offset buffer.size ++ buffer.extract (map.read offset buffer.size).size) := by
  have length : (map.read offset buffer.size).size = min buffer.size (map.size - offset) :=
    size_read ..
  unfold readInto?
  split
  · next behind =>
      have none : map.read offset buffer.size = #[] := by
        rw [← Array.size_eq_zero_iff, length]
        omega
      simp [none]
  · next inside =>
      obtain ⟨filled, looped, filledSize, filledAt⟩ := readLoop?_eq map offset
        (min buffer.size (map.size - offset)) 0 buffer (by omega) (Nat.zero_le _)
        (Nat.min_le_left ..)
      rw [looped, length]
      congr 2
      refine Array.ext_getElem? fun k => ?_
      rw [filledAt, Array.getElem?_append, length, getElem?_read]
      by_cases read : k < min buffer.size (map.size - offset)
      · rw [if_pos (by omega), if_pos read, if_pos read]
      · rw [if_neg (by omega), if_neg read, Array.getElem?_extract]
        split
        · congr 1
          omega
        · rw [Array.getElem?_eq_none (by omega)]

/-! ## Writing -/

theorem contains_eq {pages : Std.TreeMap Nat Page} {i : Nat} :
    pages.contains i = (pages[i]?).isSome :=
  Std.TreeMap.contains_eq_isSome_getElem?

theorem patch?_eq (chunk : Bytes) (held : pages.contains (pos / pageSize) = true)
    (h : pos % pageSize + chunk.size ≤ pageSize) :
    ∃ patched, patch? pages pos chunk = some patched ∧
      (∀ i, patched.contains i = pages.contains i) ∧
      ∀ p, ({ pages := patched } : PageMap).byteAt p
        = if pos ≤ p ∧ p < pos + chunk.size then chunk.getD (p - pos) 0
          else ({ pages } : PageMap).byteAt p := by
  rw [contains_eq] at held
  obtain ⟨page, found⟩ := Option.isSome_iff_exists.1 held
  obtain ⟨frame, copied, -, place⟩ := Bytes.splice?_eq page.frame (pos % pageSize) chunk
    (by rw [Page.size_frame]; exact h)
  refine ⟨pages.insert (pos / pageSize) ⟨frame⟩, by simp [patch?, found, copied], fun i => ?_,
    fun p => ?_⟩
  · rw [Std.TreeMap.contains_insert]
    by_cases here : pos / pageSize = i
    · subst here
      simp [contains_eq, held]
    · simp [here]
  · simp only [byteAt, pageAt_eq, Std.TreeMap.getElem?_insert, Nat.compare_eq_eq]
    by_cases here : pos / pageSize = p / pageSize
    · -- both positions are in the patched page, where only their distance from its start matters
      have small : p % pageSize < pageSize := Nat.mod_lt _ (by decide)
      have inside : (pos % pageSize ≤ p % pageSize ∧ p % pageSize < pos % pageSize + chunk.size)
          ↔ (pos ≤ p ∧ p < pos + chunk.size) := by
        unfold pageSize at *
        omega
      have distance : p % pageSize - pos % pageSize = p - pos := by
        unfold pageSize at *
        omega
      rw [if_pos here, ← here, found, Option.getD_some, Option.getD_some, Page.byteAt,
        Array.getD_eq_getD_getElem?, place]
      by_cases moved : pos ≤ p ∧ p < pos + chunk.size
      · rw [if_pos moved, if_pos (inside.2 moved), distance, Array.getD_eq_getD_getElem?]
      · rw [if_neg moved, if_neg (fun m => moved (inside.1 m)), Page.getElem?_frame small]
        rfl
    · rw [if_neg here, if_neg]
      unfold pageSize at *
      omega

/-- What the loop has left to write goes to its place, and nothing else is changed. -/
theorem writeLoop?_eq (offset : Nat) (src : Bytes) (done : Nat) (pages : Std.TreeMap Nat Page)
    (stored : offset + src.size ≤ offsetLimit) (started : done ≤ src.size)
    (held : ∀ i ∈ touched offset src.size, pages.contains i = true) :
    ∃ written, writeLoop? offset src done pages = some (src.size, written) ∧
      (∀ i, written.contains i = pages.contains i) ∧
      ∀ p, ({ pages := written } : PageMap).byteAt p
        = if offset + done ≤ p ∧ p < offset + src.size then src.getD (p - offset) 0
          else ({ pages } : PageMap).byteAt p := by
  induction rest : src.size - done using Nat.strongRecOn generalizing done pages with
  | _ rest ih =>
    rw [writeLoop?]
    split
    · next unfinished =>
        have moved := stride_pos (offset + done) (Nat.sub_pos_of_lt unfinished)
        have within : stride (offset + done) (src.size - done) ≤ src.size - done := stride_le_left
        have inPage := stride_le_page (offset + done) (src.size - done)
        rw [offsetSum?_eq (by omega)]
        simp only [Option.bind_eq_bind, Option.bind_some]
        generalize stride (offset + done) (src.size - done) = size at *
        obtain ⟨chunk, taken, length, bytes⟩ :=
          Bytes.slice?_eq src done size (by omega)
        have here : (offset + done) / pageSize ∈ touched offset src.size := by
          rw [mem_touched]
          unfold pageSize
          omega
        obtain ⟨patched, copied, sameHeld, place⟩ :=
          patch?_eq chunk (held _ here) (by rw [length]; exact inPage)
        obtain ⟨written, looped, writtenHeld, writtenAt⟩ :=
          ih (src.size - (done + size)) (by omega) (done + size) patched (by omega)
            (fun i hi => (sameHeld i).trans (held i hi)) rfl
        refine ⟨written, by simp only [taken, copied, looped, Option.bind_some],
          fun i => (writtenHeld i).trans (sameHeld i), fun p => ?_⟩
        rw [writtenAt, place, length]
        by_cases now : offset + done ≤ p ∧ p < offset + done + size
        · rw [if_neg (by omega), if_pos now, if_pos (by omega), Array.getD_eq_getD_getElem?,
            bytes _ (by omega), Array.getD_eq_getD_getElem?]
          congr 2
          omega
        · rw [if_neg now]
          by_cases later : offset + (done + size) ≤ p ∧ p < offset + src.size
          · rw [if_pos later, if_pos (by omega)]
          · rw [if_neg later, if_neg (by omega)]
    · next finished =>
        have : done = src.size := by omega
        subst this
        exact ⟨pages, rfl, fun _ => rfl, fun p => by rw [if_neg (by omega)]⟩

theorem mem_missing {i : Nat} : i ∈ map.missing offset len
    ↔ i ∈ touched offset len ∧ map.pages.contains i = false := by
  simp [missing]

theorem contains_foldl_insert (page : Nat → Page) (indices : List Nat)
    (pages : Std.TreeMap Nat Page) (i : Nat) :
    (indices.foldl (fun pages i => pages.insert i (page i)) pages).contains i
      = (decide (i ∈ indices) || pages.contains i) := by
  rw [contains_eq, getElem?_foldl_insert, contains_eq]
  by_cases inserted : i ∈ indices
  · rw [if_pos inserted, decide_eq_true inserted]
    rfl
  · rw [if_neg inserted, decide_eq_false inserted, Bool.false_or]

theorem contains_supplied {i : Nat} : (map.supplied offset len).contains i
    = (decide (i ∈ touched offset len) || map.pages.contains i) := by
  rw [supplied, contains_foldl_insert]
  by_cases touches : i ∈ touched offset len
  · cases held : map.pages.contains i with
    | true => simp
    | false => rw [decide_eq_true touches, decide_eq_true (mem_missing.2 ⟨touches, held⟩)]
  · rw [decide_eq_false touches, decide_eq_false fun lacks => touches (mem_missing.1 lacks).1]

/-- A page of zeroes in the place of one that is not held makes no difference. -/
theorem byteAt_supplied {p : Nat} :
    ({ pages := map.supplied offset len } : PageMap).byteAt p = map.byteAt p := by
  simp only [byteAt, pageAt_eq, supplied, getElem?_foldl_insert, mem_missing]
  by_cases lacking : p / pageSize ∈ touched offset len ∧ map.pages.contains (p / pageSize) = false
  · have absent : map.pages[p / pageSize]? = none := by
      rw [← Option.not_isSome_iff_eq_none, ← contains_eq, lacking.2]
      exact Bool.false_ne_true
    rw [if_pos lacking, absent]
    rfl
  · rw [if_neg lacking]

theorem contains_store {i : Nat} : (map.store offset src).pages.contains i
    = (decide (i ∈ touched offset src.size) || map.pages.contains i) :=
  contains_foldl_insert ..

/-- The maps hold the same pages and the same bytes. -/
structure Same (map map' : PageMap) : Prop where
  size : map'.size = map.size
  contains : ∀ i, map'.pages.contains i = map.pages.contains i
  byteAt : ∀ p, map'.byteAt p = map.byteAt p

/-- The loop writes what is written without it. -/
theorem writeFrom?_ok {map' : PageMap} {host host' : Host}
    (h : map.write host offset src = (.ok map', host')) :
    ∃ checked, map.writeFrom? host offset src = some (.ok (src.size, checked), host') ∧
      map'.Same checked := by
  unfold write at h
  unfold writeFrom?
  split at h
  · next none =>
      cases h
      rw [if_pos none, show src.size = 0 by simpa using none]
      exact ⟨map, rfl, rfl, fun _ => rfl, fun _ => rfl⟩
  · next some =>
      rw [if_neg some]
      split at h
      · cases h
      · next stored =>
          rw [offsetSum?_eq (by omega)]
          split at h
          · next granted =>
              cases h
              obtain ⟨written, looped, writtenHeld, writtenAt⟩ := writeLoop?_eq offset src 0
                (map.supplied offset src.size) (by omega) (Nat.zero_le _) fun i hi => by
                  rw [contains_supplied, decide_eq_true hi, Bool.true_or]
              refine ⟨{ map with pages := written, size := max map.size (offset + src.size) }, ?_,
                rfl, fun i => ?_, fun p => ?_⟩
              · simp only [granted, looped, Option.bind_eq_bind, Option.bind_some]
              · rw [contains_store]
                exact (writtenHeld i).trans contains_supplied
              · rw [byteAt_store]
                refine (writtenAt p).trans ?_
                rw [byteAt_supplied, Nat.add_zero]
          · cases h

theorem writeFrom?_error {e : Error} {host host' : Host}
    (h : map.write host offset src = (.error e, host')) :
    map.writeFrom? host offset src = some (.error e, host') := by
  unfold write at h
  unfold writeFrom?
  split at h
  · cases h
  · next some =>
      rw [if_neg some]
      unfold offsetSum?
      split at h
      · next beyond =>
          cases h
          rw [if_neg (by omega)]
      · next stored =>
          rw [if_pos (by omega)]
          split at h
          · cases h
          · next refused =>
              cases h
              simp only [refused]

end PageMap

end Memfs
