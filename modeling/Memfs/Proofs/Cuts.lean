import Memfs.Text.Split
import Mathlib.Data.List.SplitOn
import Mathlib.Data.List.TakeWhile

/-!
# Cuts and joins of text

The two cuts recurse on their argument so that they run well. Here they are in the terms of
lists, in which more is known about them: the cut at every separator is `List.splitOn`, and
the cut at the first one is `takeWhile` and `dropWhile`. What is joined by a separator comes
back when it is cut, if no part has the separator in it.
-/

namespace Memfs.Text

theorem partsOf_eq_splitOn (sep : Char) (cs : List Char) : partsOf sep cs = cs.splitOn sep := by
  induction cs with
  | nil => rfl
  | cons c rest ih =>
      rw [partsOf, List.splitOn_cons_eq_if_modifyHead, ih]
      by_cases cuts : c = sep
      · rw [if_pos cuts, if_pos (beq_iff_eq.2 cuts)]
      · rw [if_neg cuts, if_neg (mt beq_iff_eq.1 cuts)]
        cases parts : rest.splitOn sep with
        | nil => exact absurd (ih.trans parts) (partsOf_ne_nil sep rest)
        | cons part parts => rfl

theorem cutAt_eq (sep : Char) (cs : List Char) : cutAt sep cs =
    if sep ∈ cs then some (cs.takeWhile (· ≠ sep), (cs.dropWhile (· ≠ sep)).tail) else none := by
  induction cs with
  | nil => rfl
  | cons c rest ih =>
      rw [cutAt]
      by_cases same : c = sep
      · simp [same]
      · rw [if_neg same, ih]
        by_cases mem : sep ∈ rest
        · simp [same, mem]
        · simp [mem, Ne.symm same]

theorem not_mem_intercalate {c sep : Char} (other : c ≠ sep) {parts : List (List Char)}
    (h : ∀ part ∈ parts, c ∉ part) : c ∉ [sep].intercalate parts := by
  induction parts with
  | nil => simp
  | cons first rest ih =>
      have tail := ih fun part hpart => h part (List.mem_cons_of_mem _ hpart)
      have head := h first List.mem_cons_self
      cases rest with
      | nil => rwa [List.intercalate_singleton]
      | cons next rest =>
          rw [List.intercalate_cons_cons, List.mem_append, List.mem_append, List.mem_singleton]
          rintro ((inFirst | same) | later)
          · exact head inFirst
          · exact other same
          · exact tail later

/-- Names that are joined by slashes are found again, unless one is empty or has a slash
in it. -/
theorem segments_intercalate {names : List String}
    (h : ∀ name ∈ names, name ≠ "" ∧ '/' ∉ name.toList) :
    segments '/' ("/" ++ "/".intercalate names) = names := by
  have chars : ("/" ++ "/".intercalate names).toList
      = '/' :: ['/'].intercalate (names.map String.toList) := by
    rw [String.toList_append, String.toList_intercalate]
    rfl
  have full : (names.map String.toList).filter (!·.isEmpty) = names.map String.toList := by
    rw [List.filter_eq_self]
    intro cs hcs
    obtain ⟨name, hname, rfl⟩ := List.mem_map.1 hcs
    rw [Bool.not_eq_true', List.isEmpty_eq_false_iff, ne_eq, String.toList_eq_nil_iff]
    exact (h name hname).1
  have back : (names.map String.toList).map String.ofList = names := by
    rw [List.map_map]
    exact List.map_id'' (fun name => String.ofList_toList) names
  unfold segments
  rw [chars, partsOf, if_pos rfl, partsOf_eq_splitOn, List.filter_cons_of_neg (by decide)]
  cases names with
  | nil => rfl
  | cons first rest =>
      rw [List.splitOn_intercalate '/' ?_ (by simp), full, back]
      intro cs hcs
      obtain ⟨name, hname, rfl⟩ := List.mem_map.1 hcs
      exact (h name hname).2

end Memfs.Text
