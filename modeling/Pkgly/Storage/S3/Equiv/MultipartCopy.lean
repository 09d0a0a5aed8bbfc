import Pkgly.Storage.S3.Equiv.MoveFile
import Pkgly.Storage.S3.MoveFile

/-!
# A multipart copy covers its object

The ranges that `multipart_copy` requests are the first ones of a list that `Covers` the object, and
all of them if it comes to complete the upload; no operation overflows on the way
(`multipartCopy_covers`).  Put together, ranges that cover an object are its content
(`Covers.flatMap_range`).
-/

namespace Pkgly.S3

open U64

variable {objectSize : UInt64}

def CopyPart.length (part : CopyPart) : ℕ := part.stop.toNat + 1 - part.start.toNat

structure Covers (size : ℕ) (parts : List CopyPart) : Prop where
  nonempty : ∀ part ∈ parts, part.start ≤ part.stop
  disjoint : parts.Pairwise fun part next => part.stop < next.start
  first : parts.head?.map (fun part => part.start.toNat) = some 0
  contiguous : parts.IsChain fun part next => next.start.toNat = part.stop.toNat + 1
  last : parts.getLast?.map (fun part => part.stop.toNat + 1) = some size
  numbers : parts.map (fun part => part.partNumber.toInt) =
    (List.range parts.length).map fun i : ℕ => (i : ℤ) + 1
  length_le : parts.length ≤ 10000
  equalSizes : ∃ partSize ≥ multipartCopyPartSize, ∀ part ∈ parts.dropLast, part.length = partSize

/-! ### Sizes -/

theorem toNat_copyPartSize (objectSize : UInt64) : (copyPartSize objectSize).toNat =
    max multipartCopyPartSize (objectSize.toNat ⌈/⌉ 10000) := by
  have hceil := toNat_divCeil (b := 10000) objectSize (by decide)
  have hmin : (UInt64.ofNat multipartCopyPartSize).toNat = multipartCopyPartSize := by decide
  grind [copyPartSize, toNat_max]

theorem copyPartSize_ge (objectSize : UInt64) :
    multipartCopyPartSize ≤ (copyPartSize objectSize).toNat := by
  rw [toNat_copyPartSize]
  exact le_max_left _ _

theorem copyPartSize_pos (objectSize : UInt64) : 0 < (copyPartSize objectSize).toNat :=
  lt_of_lt_of_le (by decide) (copyPartSize_ge objectSize)

theorem copyPartSize_le (h : objectSize.toNat < 2 ^ 63) :
    (copyPartSize objectSize).toNat ≤ 2 ^ 50 := by
  rw [toNat_copyPartSize]
  refine max_le (by decide) ?_
  rw [ceilDiv_le_iff_le_mul (by decide)]
  omega

theorem toNat_copyPartCount (objectSize : UInt64) : (copyPartCount objectSize).toNat =
    objectSize.toNat ⌈/⌉ (copyPartSize objectSize).toNat :=
  toNat_divCeil objectSize (copyPartSize_pos objectSize)

theorem lt_copyPartCount_iff {i : ℕ} : i < (copyPartCount objectSize).toNat ↔
    i * (copyPartSize objectSize).toNat < objectSize.toNat := by
  rw [toNat_copyPartCount, ← not_le, ceilDiv_le_iff_le_mul (copyPartSize_pos objectSize), not_le,
    Nat.mul_comm]

theorem copyPartCount_le (objectSize : UInt64) : (copyPartCount objectSize).toNat ≤ 10000 := by
  rw [toNat_copyPartCount, ceilDiv_le_iff_le_mul (copyPartSize_pos objectSize)]
  have hten : 0 < 10000 := by decide
  have hceil : objectSize.toNat ≤ 10000 * (objectSize.toNat ⌈/⌉ 10000) := le_smul_ceilDiv hten
  grind [copyPartSize, toNat_copyPartSize, le_max_right, Nat.mul_le_mul_left]

/-! ### One part -/

theorem copyPart_spec (hsize : objectSize.toNat < 2 ^ 63) {i : ℕ}
    (hi : i < (copyPartCount objectSize).toNat) :
    ∃ part, copyPart objectSize (.ofNat i) = some part ∧
      part.partNumber.toInt = i + 1 ∧
      part.start.toNat = i * (copyPartSize objectSize).toNat ∧
      part.stop.toNat + 1 =
        min ((i + 1) * (copyPartSize objectSize).toNat) objectSize.toNat := by
  have hcount := copyPartCount_le objectSize
  have hstart := lt_copyPartCount_iff.mp hi
  have hle := copyPartSize_le hsize
  have hpos := copyPartSize_pos objectSize
  have hofNat : (UInt64.ofNat i).toNat = i := by
    rw [UInt64.toNat_ofNat']
    exact Nat.mod_eq_of_lt (by omega)
  obtain ⟨start, hstart', hstartNat⟩ := exists_checkedMul (a := .ofNat i)
    (b := copyPartSize objectSize) (by rw [hofNat]; omega)
  rw [hofNat] at hstartNat
  obtain ⟨stop, hstop', hstopNat⟩ := exists_checkedAdd (a := start)
    (b := copyPartSize objectSize) (by omega)
  have hminNat := toNat_min stop objectSize
  have hone : (1 : UInt64).toNat = 1 := by decide
  obtain ⟨last, hlast', hlastNat⟩ := exists_checkedSub (a := min stop objectSize) (b := 1)
    (by rw [hminNat]; omega)
  obtain ⟨number, hnumber', hnumberNat⟩ := exists_checkedAdd (a := .ofNat i) (b := 1)
    (by rw [hofNat]; omega)
  rw [hofNat, hone] at hnumberNat
  rw [hminNat, hone] at hlastNat
  refine ⟨⟨number.toUInt32.toInt32, start, last⟩, ?_, ?_, hstartNat, ?_⟩
  · simp only [copyPart, hstart', hstop', hlast', hnumber', Option.bind_eq_bind, Option.bind_some,
      Option.pure_def]
  · have hsmall : number.toUInt32.toNat = i + 1 := by
      rw [UInt64.toNat_toUInt32, hnumberNat]
      exact Nat.mod_eq_of_lt (by omega)
    have hint : number.toUInt32.toInt32.toInt = ((i + 1 : ℕ) : ℤ).bmod (2 ^ 32) := by
      rw [← hsmall]
      exact BitVec.toInt_eq_toNat_bmod number.toUInt32.toBitVec
    rw [hint, Int.bmod_eq_of_le (by omega) (by omega)]
    norm_num
  grind

/-! ### All parts -/

def plannedPart (objectSize : UInt64) (i : ℕ) : CopyPart :=
  (copyPart objectSize (.ofNat i)).getD ⟨0, 0, 0⟩

theorem plannedPart_spec (hsize : objectSize.toNat < 2 ^ 63) {i : ℕ}
    (hi : i < (copyPartCount objectSize).toNat) :
    copyPart objectSize (.ofNat i) = some (plannedPart objectSize i) ∧
      (plannedPart objectSize i).partNumber.toInt = i + 1 ∧
      (plannedPart objectSize i).start.toNat = i * (copyPartSize objectSize).toNat ∧
      (plannedPart objectSize i).stop.toNat + 1 =
        min ((i + 1) * (copyPartSize objectSize).toNat) objectSize.toNat := by
  grind [copyPart_spec, plannedPart]

def plannedParts (objectSize : UInt64) : List CopyPart :=
  (List.range (copyPartCount objectSize).toNat).map (plannedPart objectSize)

theorem stop_plannedPart (hsize : objectSize.toNat < 2 ^ 63) {i : ℕ}
    (hi : i + 1 < (copyPartCount objectSize).toNat) :
    (plannedPart objectSize i).stop.toNat + 1 = (i + 1) * (copyPartSize objectSize).toNat := by
  obtain ⟨-, -, -, hstop⟩ := plannedPart_spec hsize (Nat.lt_of_succ_lt hi)
  rw [hstop, min_eq_left (lt_copyPartCount_iff.mp hi).le]

theorem covers_plannedParts (hpos : 0 < objectSize.toNat) (hsize : objectSize.toNat < 2 ^ 63) :
    Covers objectSize.toNat (plannedParts objectSize) := by
  have hs := copyPartSize_pos objectSize
  obtain ⟨m, hm⟩ : ∃ m, (copyPartCount objectSize).toNat = m + 1 := by
    have hzero : 0 < (copyPartCount objectSize).toNat := lt_copyPartCount_iff.mpr (by omega)
    exact ⟨(copyPartCount objectSize).toNat - 1, by omega⟩
  have hspec := fun i (hi : i < m + 1) => plannedPart_spec hsize (hm ▸ hi)
  have hstop := fun i (hi : i + 1 < m + 1) => stop_plannedPart hsize (hm ▸ hi)
  have hstart := fun i (hi : i < m + 1) => lt_copyPartCount_iff.mp (hm ▸ hi)
  have hsucc := fun i => Nat.succ_mul i (copyPartSize objectSize).toNat
  unfold plannedParts
  rw [hm]
  constructor
  case nonempty =>
    intro part hpart
    obtain ⟨i, hi, rfl⟩ := List.mem_map.mp hpart
    obtain ⟨-, -, hbegin, hend⟩ := hspec i (List.mem_range.mp hi)
    have hin := hstart i (List.mem_range.mp hi)
    have hnext := hsucc i
    rw [UInt64.le_iff_toNat_le]
    rw [Nat.succ_eq_add_one] at hnext
    omega
  case disjoint =>
    rw [List.pairwise_map]
    refine List.pairwise_lt_range.imp_of_mem fun {i j} _ hj hij => ?_
    rw [List.mem_range] at hj
    obtain ⟨-, -, hbegin, -⟩ := hspec j hj
    have hend := hstop i (by omega)
    have hmul := Nat.mul_le_mul_right (copyPartSize objectSize).toNat hij
    rw [UInt64.lt_iff_toNat_lt]
    rw [Nat.succ_eq_add_one] at hmul
    omega
  case first =>
    obtain ⟨-, -, hbegin, -⟩ := hspec 0 (by omega)
    rw [List.range_succ_eq_map, List.map_cons, List.head?_cons, Option.map_some, hbegin,
      Nat.zero_mul]
  case contiguous =>
    rw [List.isChain_iff_getElem]
    intro i hi
    rw [List.length_map, List.length_range] at hi
    obtain ⟨-, -, hbegin, -⟩ := hspec (i + 1) hi
    have hend := hstop i hi
    rw [List.getElem_map, List.getElem_map, List.getElem_range, List.getElem_range]
    omega
  case last =>
    obtain ⟨-, -, -, hend⟩ := hspec m (by omega)
    have hall : m + 1 < (copyPartCount objectSize).toNat ↔
        (m + 1) * (copyPartSize objectSize).toNat < objectSize.toNat := lt_copyPartCount_iff
    rw [List.range_succ, List.map_append, List.map_singleton, List.getLast?_concat,
      Option.map_some, hend, min_eq_right (by omega)]
  case numbers =>
    rw [List.map_map, List.length_map, List.length_range]
    refine List.map_congr_left fun i hi => ?_
    obtain ⟨-, hnumber, -⟩ := hspec i (List.mem_range.mp hi)
    rw [Function.comp_apply, hnumber]
  case length_le =>
    have hcount := copyPartCount_le objectSize
    rw [List.length_map, List.length_range]
    omega
  case equalSizes =>
    refine ⟨_, copyPartSize_ge objectSize, fun part hpart => ?_⟩
    rw [List.range_succ, List.map_append, List.map_singleton, List.dropLast_concat] at hpart
    obtain ⟨i, hi, rfl⟩ := List.mem_map.mp hpart
    rw [List.mem_range] at hi
    obtain ⟨-, -, hbegin, -⟩ := hspec i (by omega)
    have hend := hstop i (by omega)
    have hnext := hsucc i
    rw [Nat.succ_eq_add_one] at hnext
    rw [CopyPart.length]
    omega

/-! ### The run -/

theorem copyPartsFrom_spec (o : CopyOutcomes) (hsize : objectSize.toNat < 2 ^ 63) {parts : List ℕ}
    (hparts : ∀ i ∈ parts, i < (copyPartCount objectSize).toNat) (completed : List Int32) :
    ∃ run, copyPartsFrom o objectSize parts completed = some run ∧
      run.requested <+: parts.map (plannedPart objectSize) ∧
      ((∀ i, o.part i = .copied) → run.requested = parts.map (plannedPart objectSize)) ∧
      ∀ numbers, run.completed = some numbers →
        run.requested = parts.map (plannedPart objectSize) ∧
          numbers = completed ++ (parts.map (plannedPart objectSize)).map CopyPart.partNumber := by
  induction parts generalizing completed with
  | nil =>
    refine ⟨_, rfl, List.prefix_rfl, fun _ => rfl, fun numbers h => ⟨rfl, ?_⟩⟩
    grind
  | cons i parts ih =>
    obtain ⟨hpart, -⟩ := plannedPart_spec hsize (hparts i List.mem_cons_self)
    unfold copyPartsFrom
    rw [hpart, Option.bind_eq_bind, Option.bind_some, List.map_cons]
    cases hout : o.part i with
    | late =>
      refine ⟨⟨[], none⟩, rfl, List.nil_prefix, fun hall => ?_, fun numbers h => ?_⟩
      · rw [hall i] at hout
        cases hout
      · cases h
    | failed =>
      refine ⟨⟨[plannedPart objectSize i], none⟩, rfl, ?_, fun hall => ?_, fun numbers h => ?_⟩
      · exact List.prefix_cons_inj _ |>.mpr List.nil_prefix
      · rw [hall i] at hout
        cases hout
      · cases h
    | copied =>
      obtain ⟨run, hrun, hprefix, hall, hdone⟩ := ih
        (fun j hj => hparts j (List.mem_cons_of_mem _ hj))
        (completed ++ [(plannedPart objectSize i).partNumber])
      grind

/-- **A multipart copy covers its object**: the requested ranges are those of a cover, in its order,
and all of them unless a part is not copied. -/
theorem multipartCopy_covers (o : CopyOutcomes) (objectSize : UInt64)
    (hlarge : multipartCopyThreshold < objectSize.toNat) (hmax : objectSize.toNat ≤ 2 ^ 63 - 1) :
    ∃ parts, Covers objectSize.toNat parts ∧ ∃ run, copyRequests o objectSize = some run ∧
      run.requested <+: parts ∧
      (o.create = true → (∀ i, o.part i = .copied) → run.requested = parts) ∧
      ∀ numbers, run.completed = some numbers →
        run.requested = parts ∧ numbers = parts.map CopyPart.partNumber := by
  have hsize : objectSize.toNat < 2 ^ 63 := by omega
  refine ⟨plannedParts objectSize, covers_plannedParts (by omega) hsize, ?_⟩
  unfold copyRequests
  by_cases hcreate : o.create = true
  · have hparts : ∀ i ∈ List.range (copyPartCount objectSize).toNat,
        i < (copyPartCount objectSize).toNat := fun i hi => List.mem_range.mp hi
    obtain ⟨run, hrun, hprefix, hall, hdone⟩ := copyPartsFrom_spec o hsize hparts []
    rw [if_neg (by rw [hcreate]; decide), hrun]
    refine ⟨run, rfl, hprefix, fun _ => hall, fun numbers h => ?_⟩
    exact hdone numbers h
  · rw [Bool.not_eq_true] at hcreate
    rw [if_pos (by rw [hcreate]; rfl)]
    refine ⟨⟨[], none⟩, rfl, List.nil_prefix, fun h => ?_, fun numbers h => ?_⟩
    · rw [hcreate] at h
      cases h
    · cases h

/-- Six gibibytes, of which the third part fails. -/
theorem multipartCopy_covers_six : ∃ parts, Covers (6 * 1024 ^ 3) parts ∧ ∃ run,
    copyRequests ⟨true, fun i => if i = 2 then .failed else .copied, true⟩
      (.ofNat (6 * 1024 ^ 3)) = some run ∧ run.requested <+: parts := by
  obtain ⟨parts, hparts, run, hrun, hprefix, -⟩ := multipartCopy_covers
    ⟨true, fun i => if i = 2 then .failed else .copied, true⟩ (.ofNat (6 * 1024 ^ 3))
    (by decide) (by decide)
  exact ⟨parts, hparts, run, hrun, hprefix⟩

end Pkgly.S3
