import Memfs.PageMap

/-!
# The page loops

Reads and writes go page by page: each turn of the loop moves the bytes that lie in one
page, between the page and a part of the caller's buffer. Here the loops stand as they
run on machine words and arrays, with every sum and every index checked: a sum beyond
the range of offsets has no value, nor has a part of an array that is not within it.
A frame is a page in full, with the zeroes that `Page` leaves out.

`read` and `store` say the same without a loop. That the loops always have a value, and
which one, is proved of them in `Proofs/Flat`.
-/

namespace Memfs

/-- The sum of two offsets, if it is in range. -/
def offsetSum? (a b : Nat) : Option Nat := if a + b ≤ offsetLimit then some (a + b) else none

namespace Bytes

/-- `size` bytes from `start` on, if there are as many. -/
def slice? (bytes : Bytes) (start size : Nat) : Option Bytes :=
  if start + size ≤ bytes.size then some (bytes.extract start (start + size)) else none

/-- The bytes with `src` from `start` on, if it fits there. -/
def splice? (bytes : Bytes) (start : Nat) (src : Bytes) : Option Bytes :=
  if start + src.size ≤ bytes.size then
    some (bytes.extract 0 start ++ src ++ bytes.extract (start + src.size))
  else none

end Bytes

/-- All bytes of a page. -/
def Page.frame (page : Page) : Bytes := Array.ofFn (n := pageSize) fun k => page.byteAt k

namespace PageMap

/-- How many bytes a turn of the loop moves: those that are left, as far as they are in
the page of `pos`. -/
def stride (pos left : Nat) : Nat := min left (pageSize - pos % pageSize)

theorem stride_pos (pos : Nat) {left : Nat} (h : 0 < left) : 0 < stride pos left := by
  have : pos % pageSize < pageSize := Nat.mod_lt _ (by decide)
  unfold stride
  omega

/-- `size` bytes of one page, `pos` being the position of the first of them. -/
def chunk? (map : PageMap) (pos size : Nat) : Option Bytes :=
  match map.pages[pos / pageSize]? with
  | some page => page.frame.slice? (pos % pageSize) size
  | none => some (Array.replicate size 0)

/-- Copies the bytes from `offset` on into a buffer, `done` of `len` being there
already. -/
def readLoop? (map : PageMap) (offset len done : Nat) (buffer : Bytes) : Option (Nat × Bytes) :=
  if _unfinished : done < len then do
    let pos ← offsetSum? offset done
    let size := stride pos (len - done)
    let chunk ← map.chunk? pos size
    let buffer ← buffer.splice? done chunk
    map.readLoop? offset len (done + size) buffer
  else some (done, buffer)
termination_by len - done
decreasing_by
  have := stride_pos pos (Nat.sub_pos_of_lt _unfinished)
  omega

/-- Reads into a buffer. Behind what was read the buffer is as it was. -/
def readInto? (map : PageMap) (offset : Nat) (buffer : Bytes) : Option (Nat × Bytes) :=
  if map.size ≤ offset then some (0, buffer)
  else map.readLoop? offset (min buffer.size (map.size - offset)) 0 buffer

/-- Copies `chunk` into the page of `pos`. A page that is not held is passed over. -/
def patch? (pages : Std.TreeMap Nat Page) (pos : Nat) (chunk : Bytes) :
    Option (Std.TreeMap Nat Page) :=
  match pages[pos / pageSize]? with
  | some page => do
    let frame ← page.frame.splice? (pos % pageSize) chunk
    some (pages.insert (pos / pageSize) ⟨frame⟩)
  | none => some pages

/-- Copies `src` into the pages from `offset` on, `done` bytes of it being there
already. -/
def writeLoop? (offset : Nat) (src : Bytes) (done : Nat) (pages : Std.TreeMap Nat Page) :
    Option (Nat × Std.TreeMap Nat Page) :=
  if _unfinished : done < src.size then do
    let pos ← offsetSum? offset done
    let size := stride pos (src.size - done)
    let chunk ← src.slice? done size
    let pages ← patch? pages pos chunk
    writeLoop? offset src (done + size) pages
  else some (done, pages)
termination_by src.size - done
decreasing_by
  have := stride_pos pos (Nat.sub_pos_of_lt _unfinished)
  omega

/-- The pages with a page of zeroes for each one that a write lacks. -/
def supplied (map : PageMap) (offset len : Nat) : Std.TreeMap Nat Page :=
  (map.missing offset len).foldl (fun pages index => pages.insert index Page.blank) map.pages

/-- Writes `src` at `offset`: takes the pages that are missing, then copies. -/
def writeFrom? (map : PageMap) (host : Host) (offset : Nat) (src : Bytes) :
    Option (Except Error (Nat × PageMap) × Host) :=
  if src.isEmpty then some (.ok (0, map), host)
  else match offsetSum? offset src.size with
    | none => some (.error .fileTooLarge, host)
    | some last =>
      match host.acquireAll .page (map.missing offset src.size).length with
      | (false, host) => some (.error .backingStore, host)
      | (true, host) => do
        let (done, pages) ← writeLoop? offset src 0 (map.supplied offset src.size)
        some (.ok (done, { map with pages, size := max map.size last }), host)

end PageMap

end Memfs
