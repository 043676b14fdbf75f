import Memfs.PageMap
import Memfs.Proofs.Charges

/-!
# The pages of a node and the charge for them

Every page that is held was paid for, one allocation each. A write that gets all the
pages that it lacks holds as many more as it paid for; one that is refused a page has
paid for none, and the map is as it was. Cutting gives back what it drops.
-/

namespace Memfs

namespace PageMap

variable {map map' : PageMap} {host host' : Host} {offset size : Nat} {src : Bytes} {e : Error}

theorem nodup_touched {len : Nat} : (touched offset len).Nodup := by
  unfold touched
  split
  · exact List.nodup_nil
  · exact List.nodup_range'

theorem size_foldl_insert (page : Nat → Page) {indices : List Nat} (hnodup : indices.Nodup)
    (pages : Std.TreeMap Nat Page) :
    (indices.foldl (fun pages i => pages.insert i (page i)) pages).size
      = pages.size + (indices.filter fun i => !pages.contains i).length := by
  induction indices generalizing pages with
  | nil => rfl
  | cons i rest ih =>
      obtain ⟨hi, hrest⟩ := List.nodup_cons.1 hnodup
      have others : (rest.filter fun j => !(pages.insert i (page i)).contains j)
          = rest.filter fun j => !pages.contains j := by
        refine List.filter_congr fun j hj => ?_
        have hne : i ≠ j := fun e => hi (e ▸ hj)
        rw [Std.TreeMap.contains_insert]
        simp [hne]
      rw [List.foldl_cons, ih hrest, others, Std.TreeMap.size_insert, List.filter_cons]
      cases h : pages.contains i with
      | true => simp
      | false =>
          simp
          omega

/-- A write holds the pages that it lacked. -/
theorem held_store :
    (map.store offset src).held = map.held + (map.missing offset src.size).length :=
  size_foldl_insert _ nodup_touched _

theorem held_resized_le : (map.resized size).held ≤ map.held := by
  unfold held resized
  rw [Std.TreeMap.size_modify]
  exact Std.TreeMap.size_filter_le_size

theorem write_ok (h : map.write host offset src = (.ok map', host')) :
    host.Alike host' ∧ ∀ k,
      host'.net k = host.net k + if k = .page then (map'.held : Int) - map.held else 0 := by
  unfold write at h
  split at h
  · cases h
    exact ⟨.refl, fun k => by simp⟩
  · split at h
    · cases h
    · split at h
      · next next acquired =>
          obtain ⟨alike, -⟩ := Host.acquireAll_go _ acquired
          cases h
          refine ⟨alike, fun k => ?_⟩
          rw [Host.net_of_acquireAll acquired, held_store]
          by_cases e : k = .page
          · simp [e]
          · simp [e]
      · cases h

theorem write_error (h : map.write host offset src = (.error e, host')) :
    host.Alike host' ∧ ∀ k, host'.net k = host.net k := by
  unfold write at h
  split at h
  · cases h
  · split at h
    · cases h
      exact ⟨.refl, fun _ => rfl⟩
    · split at h
      · cases h
      · next next refused =>
          obtain ⟨alike, -⟩ := Host.acquireAll_go _ refused
          cases h
          refine ⟨alike, fun k => ?_⟩
          simp [Host.net_of_acquireAll refused]

theorem net_resize {k : Resource} : (map.resize host size).2.net k
    = host.net k + if k = .page then ((map.resize host size).1.held : Int) - map.held else 0 := by
  have : (map.resized size).held ≤ map.held := held_resized_le
  unfold resize
  simp only [Host.net_release]
  split
  · omega
  · simp

end PageMap

end Memfs
