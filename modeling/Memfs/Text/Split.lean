/-!
# Cutting text at a character

Paths are cut at `/`, option strings at `,` and one option at its first `=`.
The two cuts below work on lists of characters, so that they recurse on their
argument; the functions on `String` wrap them.
-/

namespace Memfs.Text

/-- The parts of a list between the occurrences of `sep`. There is always one
part more than there are separators, so the empty list has one empty part. -/
def partsOf (sep : Char) : List Char → List (List Char)
  | [] => [[]]
  | c :: rest =>
    if c = sep then [] :: partsOf sep rest
    else match partsOf sep rest with
      | [] => [[c]]
      | part :: parts => (c :: part) :: parts

/-- What stands before the first `sep` and what stands after it. -/
def cutAt (sep : Char) : List Char → Option (List Char × List Char)
  | [] => none
  | c :: rest =>
    if c = sep then some ([], rest)
    else (cutAt sep rest).map fun (before, after) => (c :: before, after)

/-- The non-empty parts of `text` between the occurrences of `sep`. -/
def segments (sep : Char) (text : String) : List String :=
  ((partsOf sep text.toList).filter (!·.isEmpty)).map String.ofList

/-- `text` cut at its first `sep`. -/
def cut (sep : Char) (text : String) : Option (String × String) :=
  (cutAt sep text.toList).map fun (before, after) => (String.ofList before, String.ofList after)

theorem partsOf_ne_nil (sep : Char) (cs : List Char) : partsOf sep cs ≠ [] := by
  induction cs with
  | nil => simp [partsOf]
  | cons c rest ih =>
    rw [partsOf]
    split
    · simp
    · split <;> simp

end Memfs.Text
