import Memfs.Proofs.Loops
import Memfs.SectorDevice.Transfers

/-!
# A device gives back what was written last

Whether a transfer is refused is a matter of its sectors, of its buffer and of the size of the
device, which no transfer changes. One that is not refused moves bytes that are all on the
device, so where they begin and end is in range like the size itself, and the words agree with
the numbers.

`Holds` says which bytes a device has after a past of transfers. One more transfer adds itself
to the past, so it goes by induction on the past, grown at its end.
-/

namespace Memfs

variable {n pos : Nat} {past : List Transfer} {dev : SectorDevice} {t : Transfer} {name : String}

theorem offsetProduct?_eq {a b : Nat} (h : a * b ≤ offsetLimit) :
    offsetProduct? a b = some (a * b) :=
  if_pos h

/-! ## What was written last -/

theorem lastWritten_concat : lastWritten n (past ++ [t]) pos
    = if t.gives n pos then t.buffer.getD (pos - t.start) 0 else lastWritten n past pos := by
  unfold lastWritten
  rw [List.reverse_concat, List.find?_cons]
  cases t.gives n pos with
  | true => rfl
  | false => rfl

namespace SectorDevice

/-! ## What a transfer does -/

theorem span_ok (fits : t.Fits dev.sectors) :
    dev.span t.sector.toNat t.count.toNat t.buffer.size = .ok (t.start, t.size) := by
  obtain ⟨there, room⟩ := fits
  unfold span
  rw [if_neg (Nat.not_lt.2 there)]
  exact if_neg (Nat.not_lt.2 room)

theorem span_outside (outside : dev.sectors < t.sector.toNat + t.count.toNat) :
    dev.span t.sector.toNat t.count.toNat t.buffer.size = .error .invalidSector :=
  if_pos outside

theorem span_short (there : t.sector.toNat + t.count.toNat ≤ dev.sectors)
    (short : t.buffer.size < t.size) :
    dev.span t.sector.toNat t.count.toNat t.buffer.size = .error .bufferTooSmall := by
  unfold span
  rw [if_neg (Nat.not_lt.2 there)]
  exact if_pos short

theorem span_error (unfit : ¬ t.Fits dev.sectors) :
    ∃ e, dev.span t.sector.toNat t.count.toNat t.buffer.size = .error e := by
  by_cases there : t.sector.toNat + t.count.toNat ≤ dev.sectors
  · exact ⟨_, span_short there (Nat.not_le.1 fun room => unfit ⟨there, room⟩)⟩
  · exact ⟨_, span_outside (Nat.not_le.1 there)⟩

/-- A transfer that is refused changes neither the device nor the buffer. -/
theorem transfer_refused {e : DeviceError}
    (refused : dev.span t.sector.toNat t.count.toNat t.buffer.size = .error e) :
    dev.transfer t = (⟨.error e, t.buffer⟩, dev) := by
  unfold transfer
  cases t.direction with
  | read =>
      simp only [read, refused]
      rfl
  | write =>
      simp only [write, refused]
      rfl

theorem transfer_read (fits : t.Fits dev.sectors) (reads : t.direction = .read) :
    dev.transfer t
      = (⟨.ok (), dev.data.extract t.start (t.start + t.size) ++ t.buffer.extract t.size⟩, dev) := by
  unfold transfer
  simp only [reads, read, span_ok fits]
  rfl

theorem transfer_write (fits : t.Fits dev.sectors) (writes : t.direction = .write) :
    dev.transfer t = (⟨.ok (), t.buffer⟩,
      { dev with
        data := dev.data.extract 0 t.start ++ t.buffer.extract 0 t.size
          ++ dev.data.extract (t.start + t.size) }) := by
  unfold transfer
  simp only [writes, write, span_ok fits]
  rfl

/-- The sectors that fit are all within the bytes of the device. -/
theorem end_le_size (fits : t.Fits dev.sectors) : t.start + t.size ≤ dev.data.size := by
  obtain ⟨there, -⟩ := fits
  unfold sectors sectorSize at there
  unfold Transfer.start Transfer.size sectorSize
  omega

theorem size_chunk (fits : t.Fits dev.sectors) :
    (dev.data.extract t.start (t.start + t.size)).size = t.size := by
  rw [Array.size_extract, Nat.min_eq_left (end_le_size fits), Nat.add_sub_cancel_left]

theorem size_payload (fits : t.Fits n) : (t.buffer.extract 0 t.size).size = t.size := by
  rw [Array.size_extract, Nat.min_eq_left fits.2, Nat.sub_zero]

/-- The bytes from the device stand at the front of the buffer. -/
theorem splice_buffer (fits : t.Fits dev.sectors) :
    t.buffer.splice? 0 (dev.data.extract t.start (t.start + t.size))
      = some (dev.data.extract t.start (t.start + t.size) ++ t.buffer.extract t.size) := by
  unfold Bytes.splice?
  rw [size_chunk fits, Nat.zero_add, if_pos fits.2, Array.extract_zero, Array.empty_append]

/-- The bytes from the front of the buffer stand on the device. -/
theorem splice_data (fits : t.Fits dev.sectors) :
    dev.data.splice? t.start (t.buffer.extract 0 t.size)
      = some (dev.data.extract 0 t.start ++ t.buffer.extract 0 t.size
          ++ dev.data.extract (t.start + t.size)) := by
  unfold Bytes.splice?
  rw [size_payload fits, if_pos (end_le_size fits)]

/-- The sectors are looked at first, and then the buffer. -/
theorem transfer_result : (dev.transfer t).1.result
    = if dev.sectors < t.sector.toNat + t.count.toNat then .error .invalidSector
      else if t.buffer.size < t.size then .error .bufferTooSmall else .ok () := by
  by_cases outside : dev.sectors < t.sector.toNat + t.count.toNat
  · rw [transfer_refused (span_outside outside), if_pos outside]
  · have there : t.sector.toNat + t.count.toNat ≤ dev.sectors := Nat.not_lt.1 outside
    rw [if_neg outside]
    by_cases short : t.buffer.size < t.size
    · rw [transfer_refused (span_short there short), if_pos short]
    · have fits : t.Fits dev.sectors := ⟨there, Nat.not_lt.1 short⟩
      rw [if_neg short]
      cases way : t.direction with
      | read => rw [transfer_read fits way]
      | write => rw [transfer_write fits way]

/-- What is read are the bytes of the device. The rest of the buffer is as it was. -/
theorem read_buffer (fits : t.Fits dev.sectors) (reads : t.direction = .read) :
    (dev.transfer t).1.buffer.size = t.buffer.size ∧ ∀ k : Nat, (dev.transfer t).1.buffer[k]?
      = if k < t.size then dev.data[t.start + k]? else t.buffer[k]? := by
  have whole : t.start + t.size ≤ dev.data.size := end_le_size fits
  have room : t.size ≤ t.buffer.size := fits.2
  have moved := size_chunk fits
  obtain ⟨buffer, spliced, size, bytes⟩ :=
    Bytes.splice?_eq t.buffer 0 (dev.data.extract t.start (t.start + t.size)) (by omega)
  rw [splice_buffer fits] at spliced
  rw [transfer_read fits reads, Option.some.inj spliced]
  refine ⟨size, fun k => ?_⟩
  rw [bytes, moved, Nat.zero_add]
  by_cases inside : k < t.size
  · rw [if_pos ⟨Nat.zero_le _, inside⟩, if_pos inside, Array.getElem?_extract, if_pos (by omega)]
    rfl
  · rw [if_neg (fun h => inside h.2), if_neg inside]

/-- What is written are the bytes of the buffer. The rest of the device is as it was. -/
theorem write_data (fits : t.Fits dev.sectors) (writes : t.direction = .write) :
    (dev.transfer t).2.data.size = dev.data.size ∧ ∀ pos : Nat, (dev.transfer t).2.data[pos]?
      = if t.Covers pos then t.buffer[pos - t.start]? else dev.data[pos]? := by
  have whole : t.start + t.size ≤ dev.data.size := end_le_size fits
  have room : t.size ≤ t.buffer.size := fits.2
  have moved := size_payload fits
  obtain ⟨data, spliced, size, bytes⟩ :=
    Bytes.splice?_eq dev.data t.start (t.buffer.extract 0 t.size) (by omega)
  rw [splice_data fits] at spliced
  rw [transfer_write fits writes, Option.some.inj spliced]
  refine ⟨size, fun pos => ?_⟩
  rw [bytes, moved]
  by_cases covered : t.Covers pos
  · obtain ⟨first, last⟩ := covered
    rw [if_pos ⟨first, last⟩, if_pos ⟨first, last⟩, Array.getElem?_extract, if_pos (by omega),
      Nat.zero_add]
  · exact (if_neg covered).trans (if_neg covered).symm

/-! ## In machine words -/

theorem span?_eq (bounded : dev.data.size ≤ offsetLimit) :
    dev.span? t.sector t.count t.buffer.size
      = some (dev.span t.sector.toNat t.count.toNat t.buffer.size) := by
  have size : dev.sectors * sectorSize ≤ dev.data.size := Nat.div_mul_le_self ..
  unfold span?
  by_cases there : t.sector.toNat + t.count.toNat ≤ dev.sectors
  · have products : t.start + t.size ≤ dev.sectors * sectorSize := by
      unfold Transfer.start Transfer.size
      rw [← Nat.add_mul]
      exact Nat.mul_le_mul_right _ there
    have sum : t.sector.toNat + t.count.toNat ≤ offsetLimit := by
      unfold sectorSize at size
      omega
    have count : t.count.toNat * sectorSize ≤ offsetLimit := by
      unfold Transfer.size at products
      omega
    have start : t.sector.toNat * sectorSize ≤ offsetLimit := by
      unfold Transfer.start at products
      omega
    have last : t.sector.toNat * sectorSize + t.count.toNat * sectorSize ≤ offsetLimit :=
      (products.trans size).trans bounded
    simp only [offsetSum?_eq sum, if_neg (Nat.not_lt.2 there), offsetProduct?_eq count,
      offsetProduct?_eq start, offsetSum?_eq last, Option.bind_eq_bind, Option.bind_some]
    unfold span
    rw [if_neg (Nat.not_lt.2 there)]
    split
    · rfl
    · rfl
  · have outside : dev.sectors < t.sector.toNat + t.count.toNat := Nat.not_le.1 there
    rw [span_outside outside]
    cases sum : offsetSum? t.sector.toNat t.count.toNat with
    | none => rfl
    | some last =>
        obtain ⟨-, rfl⟩ := Option.ite_some_none_eq_some.1 sum
        exact if_pos outside

/-- The words never fail, and say the same. -/
theorem transfer?_eq (bounded : dev.data.size ≤ offsetLimit) :
    dev.transfer? t = some (dev.transfer t) := by
  unfold transfer?
  rw [span?_eq bounded]
  simp only [Option.bind_eq_bind, Option.bind_some]
  by_cases fits : t.Fits dev.sectors
  · rw [span_ok fits]
    cases way : t.direction with
    | read =>
        have chunk : dev.data.slice? t.start t.size
            = some (dev.data.extract t.start (t.start + t.size)) := if_pos (end_le_size fits)
        rw [transfer_read fits way]
        simp only [chunk, splice_buffer fits, Option.bind_some]
    | write =>
        have room : 0 + t.size ≤ t.buffer.size := (Nat.zero_add _).trans_le fits.2
        have chunk : t.buffer.slice? 0 t.size = some (t.buffer.extract 0 (0 + t.size)) :=
          if_pos room
        rw [transfer_write fits way]
        simp only [chunk, Nat.zero_add, splice_data fits, Option.bind_some]
  · obtain ⟨e, refused⟩ := span_error fits
    rw [refused, transfer_refused refused]

/-! ## Whole pasts -/

/-- A device of `n` sectors holds what its past has written. -/
structure Holds (n : Nat) (past : List Transfer) (dev : SectorDevice) : Prop where
  size : dev.data.size = n * sectorSize
  bytes : ∀ pos, pos < n * sectorSize → dev.data[pos]? = some (lastWritten n past pos)

namespace Holds

theorem sectors (h : Holds n past dev) : dev.sectors = n := by
  rw [SectorDevice.sectors, h.size, Nat.mul_div_cancel _ (by decide)]

theorem blank : Holds n [] (blank name n) where
  size := Array.size_replicate
  bytes pos there := by
    rw [SectorDevice.blank, Array.getElem?_replicate, if_pos there]
    rfl

/-- One more transfer is one more of the past. -/
theorem transfer (h : Holds n past dev) : Holds n (past ++ [t]) (dev.transfer t).2 := by
  have kept (silent : ∀ pos, t.gives n pos = false) : Holds n (past ++ [t]) dev := by
    refine ⟨h.size, fun pos there => ?_⟩
    rw [lastWritten_concat, silent, if_neg Bool.false_ne_true, h.bytes pos there]
  by_cases fits : t.Fits n
  · have fits' : t.Fits dev.sectors := h.sectors.symm ▸ fits
    cases way : t.direction with
    | read =>
        rw [transfer_read fits' way]
        exact kept fun pos => by simp [Transfer.gives, way]
    | write =>
        obtain ⟨size, bytes⟩ := write_data fits' way
        refine ⟨size.trans h.size, fun pos there => ?_⟩
        rw [bytes, lastWritten_concat]
        by_cases covered : t.Covers pos
        · have gives : t.gives n pos = true := decide_eq_true ⟨way, fits, covered⟩
          have room : pos - t.start < t.buffer.size := by
            have := fits.2
            have := covered.1
            have := covered.2
            omega
          rw [if_pos covered, if_pos gives, Array.getD_eq_getD_getElem?,
            Array.getElem?_eq_getElem room]
          rfl
        · have silent : t.gives n pos = false := decide_eq_false fun h => covered h.2.2
          rw [if_neg covered, silent, if_neg Bool.false_ne_true, h.bytes pos there]
  · obtain ⟨e, refused⟩ := span_error (h.sectors.symm ▸ fits)
    rw [transfer_refused refused]
    exact kept fun pos => decide_eq_false fun h => fits h.2.1

end Holds

theorem run_concat : dev.run (past ++ [t]) = ((dev.run past).transfer t).2 := by
  rw [run, List.foldl_concat]
  rfl

theorem holds_run : Holds n past ((blank name n).run past) := by
  induction past using List.reverseRecOn with
  | nil => exact .blank
  | append_singleton past t ih =>
      rw [run_concat]
      exact ih.transfer

/-- Nor do the words fail on the way. -/
theorem run?_eq (bounded : n * sectorSize ≤ offsetLimit) :
    (blank name n).run? past = some ((blank name n).run past) := by
  induction past using List.reverseRecOn with
  | nil => rfl
  | append_singleton past t ih =>
      have h : Holds n past ((blank name n).run past) := holds_run
      rw [run?] at ih ⊢
      rw [List.foldlM_append, ih, run_concat]
      simp only [Option.bind_eq_bind, Option.bind_some, List.foldlM_cons, List.foldlM_nil,
        transfer?_eq (h.size.trans_le bounded), Option.map_some]
      rfl

end SectorDevice

open SectorDevice

/-- A device of `n` sectors that can be addressed, after any transfers. No word was out of range
so far, and none is in the next transfer, which is refused if it reaches beyond the last
sector, and else if the buffer is too short. What is refused changes nothing. What is written
changes these bytes of the device to those of the buffer. What is read is what was written
last to each of the bytes, or zero. -/
theorem gives_back_last (name : String) (n : Nat) (addressed : n * sectorSize ≤ offsetLimit)
    (past : List Transfer) :
      let dev := (blank name n).run past
    (blank name n).run? past = some dev ∧
      ∀ t : Transfer,
        let seen := (dev.transfer t).1
        let next := (dev.transfer t).2
        dev.transfer? t = some (seen, next) ∧
        (seen.result = .error .invalidSector ↔ n < t.sector.toNat + t.count.toNat) ∧
        (seen.result = .error .bufferTooSmall ↔
          t.sector.toNat + t.count.toNat ≤ n ∧ t.buffer.size < t.count.toNat * sectorSize) ∧
        (seen.result = .ok () ↔ t.Fits n) ∧
        (¬ t.Fits n → seen.buffer = t.buffer ∧ next = dev) ∧
        (t.Fits n → t.direction = .write → seen.buffer = t.buffer ∧ next.name = dev.name ∧
          next.data.size = dev.data.size ∧ ∀ pos : Nat,
            next.data[pos]? = if t.Covers pos then t.buffer[pos - t.start]? else dev.data[pos]?) ∧
        (t.Fits n → t.direction = .read → next = dev ∧ seen.buffer.size = t.buffer.size ∧
          ∀ k : Nat, seen.buffer[k]?
            = if k < t.size then some (lastWritten n past (t.start + k)) else t.buffer[k]?) := by
  intro dev
  have holds : Holds n past dev := holds_run
  refine ⟨run?_eq addressed, fun t => ?_⟩
  intro seen next
  have result : seen.result = if n < t.sector.toNat + t.count.toNat then .error .invalidSector
      else if t.buffer.size < t.size then .error .bufferTooSmall else .ok () :=
    holds.sectors ▸ transfer_result
  have here (fits : t.Fits n) : t.Fits dev.sectors := holds.sectors.symm ▸ fits
  refine ⟨transfer?_eq (holds.size.trans_le addressed), ?_, ?_, ?_, fun unfit => ?_,
    fun fits writes => ?_, fun fits reads => ?_⟩
  · rw [result]
    split
    · next outside => exact iff_of_true rfl outside
    · next there =>
        refine iff_of_false ?_ there
        split
        · exact nofun
        · exact nofun
  · rw [result]
    split
    · next outside => exact iff_of_false nofun fun h => absurd outside (Nat.not_lt.2 h.1)
    · next there =>
        split
        · next short => exact iff_of_true rfl ⟨Nat.not_lt.1 there, short⟩
        · next room => exact iff_of_false nofun fun h => room h.2
  · rw [result]
    split
    · next outside => exact iff_of_false nofun fun h => absurd outside (Nat.not_lt.2 h.1)
    · next there =>
        split
        · next short => exact iff_of_false nofun fun h => absurd short (Nat.not_lt.2 h.2)
        · next room => exact iff_of_true rfl ⟨Nat.not_lt.1 there, Nat.not_lt.1 room⟩
  · obtain ⟨e, refused⟩ := span_error (holds.sectors.symm ▸ unfit)
    have same : dev.transfer t = (⟨.error e, t.buffer⟩, dev) := transfer_refused refused
    exact ⟨congrArg (·.1.buffer) same, congrArg (·.2) same⟩
  · have done := transfer_write (here fits) writes
    obtain ⟨size, bytes⟩ := write_data (here fits) writes
    exact ⟨congrArg (·.1.buffer) done, congrArg (·.2.name) done, size, bytes⟩
  · have done := transfer_read (here fits) reads
    obtain ⟨size, bytes⟩ := read_buffer (here fits) reads
    refine ⟨congrArg (·.2) done, size, fun k => (bytes k).trans ?_⟩
    by_cases moved : k < t.size
    · have there : t.start + k < n * sectorSize := by
        have : t.start + t.size ≤ dev.data.size := end_le_size (here fits)
        rw [holds.size] at this
        omega
      rw [if_pos moved, if_pos moved, holds.bytes _ there]
    · rw [if_neg moved, if_neg moved]

/-- Two writes that overlap in one sector, and a read of both sectors into a longer buffer. -/
theorem gives_back_last_overlapping :
    let past : List Transfer := [⟨.write, 0, 2, Array.replicate 1030 1⟩,
      ⟨.write, 1, 1, Array.replicate 512 2⟩, ⟨.write, 3, 1, Array.replicate 512 3⟩]
    let t : Transfer := ⟨.read, 0, 2, Array.replicate 1025 255⟩
    let done := ((blank "ram" 3).run past).transfer t
    3 * sectorSize ≤ offsetLimit ∧ done.1.result = .ok () ∧ done.1.buffer[511]? = some 1 ∧
      done.1.buffer[512]? = some 2 ∧ done.1.buffer[1024]? = some 255 := by
  intro past t
  have addressed : 3 * sectorSize ≤ offsetLimit := by decide
  have fits : t.Fits 3 := by simp [t, Transfer.Fits, Transfer.size, sectorSize]
  obtain ⟨-, -, -, ok, -, -, read⟩ := (gives_back_last "ram" 3 addressed past).2 t
  obtain ⟨-, -, bytes⟩ := read fits rfl
  generalize ((blank "ram" 3).run past).transfer t = done at ok bytes ⊢
  refine ⟨addressed, ok.2 fits, (bytes 511).trans ?_, (bytes 512).trans ?_,
    (bytes 1024).trans ?_⟩
  all_goals
    simp [past, t, lastWritten, Transfer.gives, Transfer.Fits, Transfer.Covers, Transfer.start,
      Transfer.size, sectorSize]

end Memfs
