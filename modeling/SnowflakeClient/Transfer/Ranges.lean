import SnowflakeClient.Transfer.Basic

/-!
# The ranges of a multi-part download

`SnowflakeS3Client::doMultiPartDownload` (`cpp/SnowflakeS3Client.cpp`) asks for a large object in
parts of `DATA_SIZE_THRESHOLD` bytes. The part number is an `unsigned int`, so the offsets of a
part are computed modulo `2 ^ 32`; the file size is a `long`.

* `ranges_partition_iff`: the ranges are a partition of the object iff its size is no multiple of
  the part size and fits 820 parts.
-/

namespace Snowflake

open CInt

/-- `int partNum`. -/
def partNum (srcFileSize : Nat) : Int := toI32 (toI32 (srcFileSize / dataSizeThreshold) + 1)

/-- The rounds of `for (unsigned int i = 0; i < partNum; i++)`. -/
def partCount (srcFileSize : Nat) : Nat := toU32 (partNum srcFileSize)

/-- `i == partNum - 1`, a comparison of `unsigned int`. -/
def isLastPart (srcFileSize i : Nat) : Bool := decide (i = toU32 (partNum srcFileSize - 1))

/-- The range `bytes=first-last` of a request. -/
structure ByteRange where
  first : Nat
  last : Nat
  deriving DecidableEq, Repr

def ByteRange.Holds (range : ByteRange) (byte : Nat) : Prop :=
  range.first ≤ byte ∧ byte ≤ range.last

/-- The range of part `i`. The products are `unsigned int`, `srcFileSize - 1` is a `long`. -/
def byteRange (srcFileSize i : Nat) : ByteRange where
  first := toU32 (i * dataSizeThreshold)
  last :=
    if isLastPart srcFileSize i then srcFileSize - 1
    else toU32 ((i + 1) * dataSizeThreshold - 1)

/-- `int partSize` in the job of part `i`. -/
def partSize (srcFileSize i : Nat) : Int :=
  if isLastPart srcFileSize i then toI32 (srcFileSize - toU32 (i * dataSizeThreshold))
  else dataSizeThreshold

/-- The ranges of all parts are a partition of the object, and each job knows the size of its
part. -/
structure RangesPartition (srcFileSize : Nat) : Prop where
  nonempty : ∀ i < partCount srcFileSize,
    (byteRange srcFileSize i).first ≤ (byteRange srcFileSize i).last
  disjoint : ∀ i < partCount srcFileSize, ∀ j < partCount srcFileSize, i ≠ j →
    ∀ byte, (byteRange srcFileSize i).Holds byte → ¬ (byteRange srcFileSize j).Holds byte
  consecutive : ∀ i, i + 1 < partCount srcFileSize →
    (byteRange srcFileSize (i + 1)).first = (byteRange srcFileSize i).last + 1
  cover : ∀ byte, (∃ i < partCount srcFileSize, (byteRange srcFileSize i).Holds byte) ↔
    byte < srcFileSize
  size : ∀ i < partCount srcFileSize, partSize srcFileSize i =
    (byteRange srcFileSize i).last + 1 - (byteRange srcFileSize i).first
  size_le : ∀ i < partCount srcFileSize, partSize srcFileSize i ≤ dataSizeThreshold

variable {srcFileSize : Nat}

theorem partCount_eq : partCount srcFileSize = (srcFileSize / 5242880 + 1) % 2 ^ 32 := by
  unfold partCount partNum toU32 toI32 dataSizeThreshold
  omega

theorem isLastPart_iff {i : Nat} :
    isLastPart srcFileSize i = true ↔ i = srcFileSize / 5242880 % 2 ^ 32 := by
  unfold isLastPart partNum toU32 toI32 dataSizeThreshold
  rw [decide_eq_true_iff]
  omega

/-! ## Small objects: no offset wraps -/

theorem toU32_offset {i : Nat} (hi : i ≤ 819) : toU32 (i * dataSizeThreshold) = i * 5242880 := by
  have hoffset : (i * dataSizeThreshold : Int) = (i * 5242880 : Nat) := by
    rw [dataSizeThreshold]
    omega
  rw [hoffset, toU32_natCast (by omega)]

theorem toU32_end {i : Nat} (hi : i < 819) :
    toU32 ((i + 1) * dataSizeThreshold - 1) = (i + 1) * 5242880 - 1 := by
  have hend : ((i + 1) * dataSizeThreshold - 1 : Int) = ((i + 1) * 5242880 - 1 : Nat) := by
    rw [dataSizeThreshold]
    omega
  rw [hend, toU32_natCast (by omega)]

section Small

variable (hsmall : srcFileSize < 820 * 5242880) {i : Nat}
include hsmall

theorem partCount_small : partCount srcFileSize = srcFileSize / 5242880 + 1 := by
  rw [partCount_eq]
  omega

theorem isLastPart_small : isLastPart srcFileSize i = true ↔ i = srcFileSize / 5242880 := by
  rw [isLastPart_iff]
  omega

theorem first_small (hi : i ≤ srcFileSize / 5242880) :
    (byteRange srcFileSize i).first = i * 5242880 :=
  toU32_offset (by omega)

/-- Either the part is full, or it ends with the object. -/
theorem last_small (hi : i ≤ srcFileSize / 5242880) :
    (byteRange srcFileSize i).last = min ((i + 1) * 5242880 - 1) (srcFileSize - 1) := by
  simp only [byteRange, isLastPart_small hsmall]
  split
  · omega
  · rw [toU32_end (by omega)]
    omega

theorem partSize_small (hi : i ≤ srcFileSize / 5242880) :
    partSize srcFileSize i = min 5242880 (srcFileSize - i * 5242880) := by
  simp only [partSize, isLastPart_small hsmall]
  split
  · rw [toU32_offset (by omega), toI32_of_lt (by omega) (by omega)]
    omega
  · rw [dataSizeThreshold]
    omega

theorem rangesPartition_small (hmod : srcFileSize % 5242880 ≠ 0) : RangesPartition srcFileSize := by
  have hcount := partCount_small hsmall
  refine ⟨fun i hi => ?_, fun i hi j hj hij byte => ?_, fun i hi => ?_, fun byte => ⟨?_, ?_⟩,
    fun i hi => ?_, fun i hi => ?_⟩
  · rw [first_small hsmall (by omega), last_small hsmall (by omega)]
    omega
  · simp only [ByteRange.Holds]
    rw [first_small hsmall (by omega), last_small hsmall (by omega), first_small hsmall (by omega),
      last_small hsmall (by omega)]
    omega
  · rw [first_small hsmall (by omega), last_small hsmall (by omega)]
    omega
  · rintro ⟨i, hi, hbyte⟩
    rw [ByteRange.Holds, first_small hsmall (by omega), last_small hsmall (by omega)] at hbyte
    omega
  · intro hbyte
    -- The byte is in the part it has by its offset.
    refine ⟨byte / 5242880, by omega, ?_⟩
    rw [ByteRange.Holds, first_small hsmall (by omega), last_small hsmall (by omega)]
    omega
  · rw [partSize_small hsmall (by omega), first_small hsmall (by omega),
      last_small hsmall (by omega)]
    omega
  · rw [partSize_small hsmall (by omega), dataSizeThreshold]
    omega

end Small

/-! ## Where the ranges go wrong -/

/-- The last part of a size that is a multiple of the part size is empty. -/
theorem not_rangesPartition_of_multiple (hsmall : srcFileSize < 820 * 5242880)
    (hpos : 0 < srcFileSize) (hmod : srcFileSize % 5242880 = 0) :
    ¬ RangesPartition srcFileSize := by
  intro h
  have hne := h.nonempty (srcFileSize / 5242880) (by rw [partCount_small hsmall]; omega)
  rw [first_small hsmall (by omega), last_small hsmall (by omega)] at hne
  omega

/-- The end of part 819 does not fit 32 bits. -/
theorem not_nonempty_819 (hlast : ¬ isLastPart srcFileSize 819 = true) :
    ¬ (byteRange srcFileSize 819).first ≤ (byteRange srcFileSize 819).last := by
  simp only [byteRange, if_neg hlast]
  decide +kernel

/-- So 821 parts are too many. If the number of parts wraps and is small, the last part is too
large. -/
theorem not_rangesPartition_of_large (hlarge : 820 * 5242880 ≤ srcFileSize) :
    ¬ RangesPartition srcFileSize := by
  intro h
  have hcount := @partCount_eq srcFileSize
  by_cases hmany : 820 < partCount srcFileSize
  · refine not_nonempty_819 ?_ (h.nonempty 819 (by omega))
    rw [isLastPart_iff]
    omega
  · by_cases hzero : partCount srcFileSize = 0
    · obtain ⟨i, hi, -⟩ := (h.cover 0).mpr (by omega)
      omega
    · have hi : partCount srcFileSize - 1 < partCount srcFileSize := by omega
      have hlast : isLastPart srcFileSize (partCount srcFileSize - 1) = true := by
        rw [isLastPart_iff]
        omega
      have hle := h.size_le _ hi
      rw [h.size _ hi] at hle
      simp only [byteRange, if_pos hlast] at hle
      rw [toU32_offset (by omega), dataSizeThreshold] at hle
      omega

/-- The ranges that `doMultiPartDownload` asks for are a partition of the object iff its last part
is not empty and no offset wraps. -/
theorem ranges_partition_iff (hsize : dataSizeThreshold < srcFileSize) :
    RangesPartition srcFileSize ↔
      srcFileSize % dataSizeThreshold ≠ 0 ∧ srcFileSize < 820 * dataSizeThreshold := by
  unfold dataSizeThreshold at hsize ⊢
  constructor
  · intro h
    have hsmall : srcFileSize < 820 * 5242880 := by
      by_contra hlarge
      exact not_rangesPartition_of_large (by omega) h
    exact ⟨fun hmod => not_rangesPartition_of_multiple hsmall (by omega) hmod h, hsmall⟩
  · rintro ⟨hmod, hsmall⟩
    exact rangesPartition_small hsmall hmod

/-- One byte more than a part. -/
theorem ranges_partition_iff_twoParts : RangesPartition 5242881 :=
  (ranges_partition_iff (by decide)).mpr (by decide +kernel)

/-- Two full parts: part 2 is `bytes=10485760-10485759`. One byte more than 820 full parts: part 819
is `bytes=4293918720-4194303`. -/
theorem ranges_not_partition : ¬ RangesPartition 10485760 ∧ ¬ RangesPartition 4299161601 := by
  constructor
  · intro h
    exact absurd (h.nonempty 2 (by decide +kernel)) (by decide +kernel)
  · intro h
    exact absurd (h.nonempty 819 (by decide +kernel)) (by decide +kernel)

end Snowflake
