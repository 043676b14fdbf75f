import Memfs.ByteString
import Memfs.PageMap.Loops

/-!
# Commands to a page map

What may be asked of a page map with its host, and what the answers are: once of the
map as it stands, once of its loops with every index checked, and once of a plain
string of bytes. The plain string keeps besides its bytes only what decides when a page
is refused: which pages were paid for, and how many may still be taken.

The three answer alike, whatever is asked in whatever order (`Proofs/Flat`).
-/

namespace Memfs

/-- What may be asked of a page map. -/
inductive Command where
  | write (offset : UInt64) (src : Bytes)
  | read (offset : UInt64) (buffer : Bytes)
  | truncate (size : UInt64)
  | clear
  /-- How many pages may be taken from now on, if that is limited. -/
  | setBudget (budget : Option Nat)

/-- What is seen of a command: its result, the buffer of a read, and the size behind
it. -/
structure Answer where
  result : Except Error Nat
  buffer : Bytes := #[]
  size : Nat

/-- The answers to a list of commands. -/
def answers {σ : Type} (step : Command → σ → Answer × σ) : σ → List Command → List Answer
  | _, [] => []
  | s, command :: rest => (step command s).1 :: answers step (step command s).2 rest

/-- The answers to a list of commands, unless one of them has none. -/
def answers? {σ : Type} (step : Command → σ → Option (Answer × σ)) :
    σ → List Command → Option (List Answer)
  | _, [] => some []
  | s, command :: rest => do
    let (answer, s) ← step command s
    let others ← answers? step s rest
    return answer :: others

namespace PageMap

/-- Reads into a buffer: how many bytes were read, and the buffer, which behind them is
as it was. -/
def readInto (map : PageMap) (offset : Nat) (buffer : Bytes) : Nat × Bytes :=
  let got := map.read offset buffer.size
  (got.size, got ++ buffer.extract got.size)

/-- Drops every page. -/
def clear (map : PageMap) (host : Host) : PageMap × Host := map.resize host 0

/-- The answer of a page map, and the map and the host behind it. -/
def answer : Command → PageMap × Host → Answer × (PageMap × Host)
  | .write offset src, (map, host) =>
    match map.write host offset.toNat src with
    | (.ok map, host) => ({ result := .ok src.size, size := map.size }, (map, host))
    | (.error e, host) => ({ result := .error e, size := map.size }, (map, host))
  | .read offset buffer, (map, host) =>
    let (n, buffer) := map.readInto offset.toNat buffer
    ({ result := .ok n, buffer, size := map.size }, (map, host))
  | .truncate size, (map, host) =>
    let (map, host) := map.resize host size.toNat
    ({ result := .ok 0, size := map.size }, (map, host))
  | .clear, (map, host) =>
    let (map, host) := map.clear host
    ({ result := .ok 0, size := map.size }, (map, host))
  | .setBudget budget, (map, host) =>
    ({ result := .ok 0, size := map.size }, (map, host.setBudget .page budget))

/-- The same with the page loops, in which every sum and every index is checked. -/
def checkedAnswer? : Command → PageMap × Host → Option (Answer × (PageMap × Host))
  | .write offset src, (map, host) => do
    match ← map.writeFrom? host offset.toNat src with
    | (.ok (n, map), host) => some ({ result := .ok n, size := map.size }, (map, host))
    | (.error e, host) => some ({ result := .error e, size := map.size }, (map, host))
  | .read offset buffer, (map, host) => do
    let (n, buffer) ← map.readInto? offset.toNat buffer
    some ({ result := .ok n, buffer, size := map.size }, (map, host))
  | command, state => some (answer command state)

end PageMap

/-- A plain string of bytes, and the account of the pages that it is charged for. -/
structure Flat where
  bytes : ByteString := []
  /-- The pages that were paid for and not given back. -/
  paid : List Nat := []
  /-- How many more pages may be taken; without a budget, all are. -/
  budget : Option Nat

namespace Flat

/-- The pages that a write touches and that are not yet paid for. -/
def unpaid (s : Flat) (offset len : Nat) : List Nat :=
  (PageMap.touched offset len).filter fun index => !s.paid.contains index

/-- Writes `src` at `offset`, or changes no byte. A write that is refused a page has
used the budget up. -/
def write (s : Flat) (offset : Nat) (src : ByteString) : Except Error Nat × Flat :=
  if src = [] then (.ok 0, s)
  else if offsetLimit < offset + src.length then (.error .fileTooLarge, s)
  else
    let fresh := s.unpaid offset src.length
    if s.budget.all (fresh.length ≤ ·) then
      (.ok src.length,
        { bytes := s.bytes.overwrite offset src
          paid := fresh ++ s.paid
          budget := s.budget.map (· - fresh.length) })
    else (.error .backingStore, { s with budget := some 0 })

/-- Cuts or extends the string and gives back the pages behind its end. -/
def truncate (s : Flat) (size : Nat) : Flat :=
  { s with
    bytes := s.bytes.resize size
    paid := s.paid.filter fun index => index * pageSize < size }

/-- The answer of a plain string of bytes, and the string behind it. -/
def answer : Command → Flat → Answer × Flat
  | .write offset src, s =>
    let (result, s) := s.write offset.toNat src.toList
    ({ result, size := s.bytes.length }, s)
  | .read offset buffer, s =>
    let got := s.bytes.slice offset.toNat buffer.size
    ({ result := .ok got.length
       buffer := (got ++ buffer.toList.drop got.length).toArray
       size := s.bytes.length }, s)
  | .truncate size, s => ({ result := .ok 0, size := size.toNat }, s.truncate size.toNat)
  | .clear, s => ({ result := .ok 0, size := 0 }, { s with bytes := [], paid := [] })
  | .setBudget budget, s => ({ result := .ok 0, size := s.bytes.length }, { s with budget })

end Flat

end Memfs
