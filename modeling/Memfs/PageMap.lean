import Memfs.Flags
import Memfs.Host
import Std.Data.TreeMap

/-!
# Page maps

The content of a node is kept in pages of 4096 bytes. Only the pages that a
write has touched are held, each of them charged to the host; all others read as
zeroes, as do the bytes of a held page beyond the last one written. So a map
stands for a string of `size` bytes, and `byteAt` says which.

A write takes all the pages that it lacks before it stores a byte. If the host
refuses one of them, those already taken go back and the map stays as it was.
-/

namespace Memfs

/-- A string of bytes. -/
abbrev Bytes := Array UInt8

/-- The bytes of one page. -/
def pageSize : Nat := 4096

/-- No byte has this offset or a greater one. -/
def offsetLimit : Nat := UInt64.size - 1

/-- A page: its bytes up to some point, after which all are zero. -/
structure Page where
  bytes : Bytes
  deriving DecidableEq, Repr

namespace Page

/-- The page of zeroes. -/
def blank : Page := ⟨#[]⟩

def byteAt (page : Page) (k : Nat) : UInt8 := page.bytes.getD k 0

/-- The page with `src` written from `start` on. -/
def overlay (page : Page) (start : Nat) (src : Bytes) : Page where
  bytes := Array.ofFn (n := max page.bytes.size (start + src.size)) fun k =>
    if start ≤ k.val ∧ k.val < start + src.size then src.getD (k.val - start) 0
    else page.byteAt k.val

/-- The page with zeroes from `start` on. -/
def cutAt (page : Page) (start : Nat) : Page := ⟨page.bytes.extract 0 start⟩

end Page

/-- The content of one node. -/
structure PageMap where
  /-- The pages held, by their index. -/
  pages : Std.TreeMap Nat Page := ∅
  /-- The length of the content. -/
  size : Nat := 0
  flags : MappingFlags := ⟨0⟩

namespace PageMap

/-- How many pages are held. -/
def held (map : PageMap) : Nat := map.pages.size

/-- The page with this index, which is blank unless it is held. -/
def pageAt (map : PageMap) (index : Nat) : Page := map.pages.getD index Page.blank

/-- The byte that is stored at an offset, whether or not it lies below the size. -/
def byteAt (map : PageMap) (offset : Nat) : UInt8 :=
  (map.pageAt (offset / pageSize)).byteAt (offset % pageSize)

/-- Up to `len` bytes from `offset` on, as far as the content goes. -/
def read (map : PageMap) (offset len : Nat) : Bytes :=
  Array.ofFn (n := min len (map.size - offset)) fun k => map.byteAt (offset + k)

/-- The indices of the pages that a write of `len` bytes at `offset` touches. -/
def touched (offset len : Nat) : List Nat :=
  if len = 0 then []
  else
    let first := offset / pageSize
    List.range' first ((offset + len - 1) / pageSize + 1 - first)

/-- Those of the touched pages that are not yet held. -/
def missing (map : PageMap) (offset len : Nat) : List Nat :=
  (touched offset len).filter fun index => !map.pages.contains index

/-- The page `index` after a write of `src` at `offset`. -/
def written (map : PageMap) (offset : Nat) (src : Bytes) (index : Nat) : Page :=
  let first := max offset (index * pageSize)
  let last := min (offset + src.size) ((index + 1) * pageSize)
  (map.pageAt index).overlay (first - index * pageSize)
    (src.extract (first - offset) (last - offset))

/-- The map after a write of `src` at `offset`. -/
def store (map : PageMap) (offset : Nat) (src : Bytes) : PageMap :=
  { map with
    pages := (touched offset src.size).foldl
      (fun pages index => pages.insert index (map.written offset src index)) map.pages
    size := max map.size (offset + src.size) }

/-- Writes `src` at `offset`, growing the content where needed. Writing nothing
changes nothing, at whatever offset. -/
def write (map : PageMap) (host : Host) (offset : Nat) (src : Bytes) :
    Except Error PageMap × Host :=
  if src.isEmpty then (.ok map, host)
  else if offsetLimit < offset + src.size then (.error .fileTooLarge, host)
  else
    match host.acquireAll .page (map.missing offset src.size).length with
    | (true, host) => (.ok (map.store offset src), host)
    | (false, host) => (.error .backingStore, host)

/-- The map cut or extended to `size` bytes. The pages that lie wholly beyond the
end are dropped and the last one that is left has zeroes there, so that bytes cut
off do not come back when the content grows again. -/
def resized (map : PageMap) (size : Nat) : PageMap :=
  let kept := map.pages.filter fun index _ => index < (size + pageSize - 1) / pageSize
  { map with
    pages := kept.modify (size / pageSize) (·.cutAt (size % pageSize))
    size }

/-- Cuts or extends the content to `size` bytes and gives the dropped pages back. -/
def resize (map : PageMap) (host : Host) (size : Nat) : PageMap × Host :=
  let after := map.resized size
  (after, host.release .page (map.held - after.held))

/-- Sets the length alone, without touching a page. -/
def setSize (map : PageMap) (size : Nat) : PageMap := { map with size }

def addFlags (map : PageMap) (flags : MappingFlags) : PageMap :=
  { map with flags := map.flags.union flags }

def removeFlags (map : PageMap) (flags : MappingFlags) : PageMap :=
  { map with flags := map.flags.without flags }

end PageMap

end Memfs
