import LibApta.Lib.Crc
import LibApta.Serialization.Guarantees

/-!
# What the checksums protect

The checksum of a byte string is the remainder of its polynomial by the polynomial of Castagnoli, in
reflected order and complemented before and after. A container that was accepted has the checksum of
its header and of the payload of each of its sections, so that a burst of at most 32 bits in one of
them makes the parser reject it, whatever its options (`crc_protects`).
-/

namespace LibApta.Container

open LittleEndian Polynomial

/-! ## The checksum as a remainder -/

/-- The polynomial of Castagnoli. -/
noncomputable def castagnoli : (ZMod 2)[X] :=
  X ^ 32 + X ^ 28 + X ^ 27 + X ^ 26 + X ^ 25 + X ^ 23 + X ^ 22 + X ^ 20 + X ^ 19 + X ^ 18 + X ^ 14 +
    X ^ 13 + X ^ 11 + X ^ 10 + X ^ 9 + X ^ 8 + X ^ 6 + 1

/-- The constant of the shift loop is that polynomial without its leading term. -/
theorem generator_eq_castagnoli : Crc.generator 32 0x82F63B78 = castagnoli := by
  have hbits : Crc.registerBits 32 0x82F63B78 =
      [false, false, false, true, true, true, true, false, true, true, false, true, true, true, false,
        false, false, true, true, false, true, true, true, true, false, true, false, false, false,
        false, false, true] := by decide
  rw [Crc.generator, Crc.reflected, hbits, castagnoli]
  simp [Crc.message_cons, Crc.bit]
  ring

/-- The polynomial of all 32 places. -/
noncomputable def allOnes : (ZMod 2)[X] := Crc.reflected 32 0xFFFFFFFF

/-- The polynomial of a byte string, in the order of the checksum. -/
noncomputable def bytesPolynomial (data : Bytes) : (ZMod 2)[X] :=
  Crc.message (Crc.byteBits (data.map UInt8.toNat))

theorem crcByte_eq_feed (crc : ℕ) (byte : UInt8) :
    crcByte crc byte = Crc.feed 0x82F63B78 crc byte.toNat := by
  have hbit : crcBit = Crc.shiftBit 0x82F63B78 := rfl
  unfold crcByte Crc.feed
  rw [hbit]
  rfl

theorem foldl_crcByte (data : Bytes) (crc : ℕ) :
    data.foldl crcByte crc = (data.map UInt8.toNat).foldl (Crc.feed 0x82F63B78) crc := by
  have hstep : crcByte = fun crc byte => Crc.feed 0x82F63B78 crc byte.toNat := by
    funext crc byte
    exact crcByte_eq_feed crc byte
  rw [List.foldl_map, hstep]

theorem poly_lt : 0x82F63B78 < 2 ^ 32 := by decide

theorem start_lt : 0xFFFFFFFF < 2 ^ 32 := by decide

theorem toNat_bytes_lt (data : Bytes) : ∀ byte ∈ data.map UInt8.toNat, byte < 2 ^ 8 := by
  rintro byte hbyte
  obtain ⟨byte, -, rfl⟩ := List.mem_map.mp hbyte
  exact byte.toNat_lt

/-- The checksum is the complemented remainder of the byte string behind a complemented start. -/
theorem crc32c_remainder (data : Bytes) :
    Crc.reflected 32 (crc32c data) =
      (X ^ (8 * data.length) * allOnes + X ^ 32 * bytesPolynomial data) %ₘ castagnoli + allOnes := by
  have hremainder := Crc.remainder_feed poly_lt (by decide) (data.map UInt8.toNat)
    (toNat_bytes_lt data) start_lt
  rw [generator_eq_castagnoli, List.length_map] at hremainder
  rw [crc32c, Crc.reflected_xor, foldl_crcByte, hremainder]
  rfl

/-! ## Bursts -/

/-- The bits of a byte string, in the order of the checksum. -/
def bitsOf (data : Bytes) : List Bool := Crc.byteBits (data.map UInt8.toNat)

/-- A burst changes the checksum. -/
theorem crc32c_ne_of_burst {data data' : Bytes} (hlength : data'.length = data.length)
    (hburst : Crc.Burst 32 (bitsOf data) (bitsOf data')) : crc32c data' ≠ crc32c data := by
  intro hsame
  have hconstant : (Crc.generator 32 0x82F63B78).coeff 0 = 1 := by
    rw [generator_eq_castagnoli, castagnoli]
    simp
  have hlengths : (data.map UInt8.toNat).length = (data'.map UInt8.toNat).length := by
    rw [List.length_map, List.length_map, hlength]
  refine Crc.feed_ne_of_burst poly_lt (by decide) hconstant (toNat_bytes_lt data)
    (toNat_bytes_lt data') hlengths start_lt hburst ?_
  rw [← foldl_crcByte, ← foldl_crcByte]
  exact (Nat.xor_left_inj.mp hsame).symm

/-- Two byte strings are the same but for a region. -/
structure SameOutside (offset size : ℕ) (bytes bytes' : Bytes) : Prop where
  length : bytes'.length = bytes.length
  outside : ∀ i, i < offset ∨ offset + size ≤ i → bytes'[i]? = bytes[i]?

/-- In a region a non-empty pattern of bits within a burst of 32 is flipped. -/
structure FlipsBurst (offset size : ℕ) (bytes bytes' : Bytes) : Prop where
  same : SameOutside offset size bytes bytes'
  burst : Crc.Burst 32 (bitsOf (slice bytes offset size)) (bitsOf (slice bytes' offset size))

variable {offset size : ℕ} {bytes bytes' : Bytes}

theorem SameOutside.slice (h : SameOutside offset size bytes bytes') {inner width : ℕ}
    (hoff : ∀ i, inner ≤ i → i < inner + width → i < offset ∨ offset + size ≤ i) :
    slice bytes' inner width = slice bytes inner width := by
  apply List.ext_getElem?
  intro i
  rw [LittleEndian.slice, LittleEndian.slice, List.getElem?_take, List.getElem?_take,
    List.getElem?_drop, List.getElem?_drop]
  split_ifs with hi
  · exact h.outside _ (hoff _ (by omega) (by omega))
  · rfl

/-- What is flipped in a region within the bytes changes the checksum of the region. -/
theorem FlipsBurst.crc_ne (h : FlipsBurst offset size bytes bytes')
    (hfits : offset + size ≤ bytes.length) :
    crc32c (slice bytes' offset size) ≠ crc32c (slice bytes offset size) := by
  refine crc32c_ne_of_burst ?_ h.burst
  rw [length_slice hfits, length_slice (h.same.length ▸ hfits)]

/-! ## Containers -/

/-- A header is read of the first 96 bytes. -/
theorem headerOf_congr
    (h : ∀ inner width, inner + width ≤ 96 → slice bytes' inner width = slice bytes inner width) :
    headerOf bytes' = headerOf bytes := by
  have hfield (width inner : ℕ) (hle : inner + width ≤ 96) :
      field width bytes' inner = field width bytes inner := congrArg number (h inner width hle)
  simp (disch := omega) only [headerOf, hfield, h]

/-- A directory is read of its own bytes. -/
theorem directory_congr {start count : ℕ}
    (h : ∀ inner width, start ≤ inner → inner + width ≤ start + count * directoryEntrySize →
      slice bytes' inner width = slice bytes inner width) :
    directory bytes' start count = directory bytes start count := by
  refine congrArg (List.map entryOf) (List.map_congr_left fun index hindex => h _ _ (by omega) ?_)
  have hindex := List.mem_range.mp hindex
  simp only [directoryEntrySize]
  omega

/-- A burst needs bits. -/
theorem FlipsBurst.size_pos (h : FlipsBurst offset size bytes bytes') : 0 < size := by
  obtain ⟨before, middle, middle', after, hbits, hbits', -, -, hne⟩ := h.burst
  by_contra hzero
  obtain rfl : size = 0 := by omega
  have hmiddle : middle = [] := by
    have hnil : ([] : List Bool) = before ++ middle ++ after := by
      rw [← hbits, slice, List.take_zero]
      rfl
    simp only [List.nil_eq, List.append_eq_nil_iff] at hnil
    exact hnil.1.2
  have hmiddle' : middle' = [] := by
    have hnil : ([] : List Bool) = before ++ middle' ++ after := by
      rw [← hbits', slice, List.take_zero]
      rfl
    simp only [List.nil_eq, List.append_eq_nil_iff] at hnil
    exact hnil.1.2
  exact hne (hmiddle.trans hmiddle'.symm)

/-- A part of a container that has a checksum: the header up to its own, or the payload of a section. -/
inductive Protected (bytes : Bytes) : ℕ → ℕ → Prop where
  | header : Protected bytes 0 92
  | payload (entry : Entry) (hmem : entry ∈ (headerOf bytes).directory bytes) :
      Protected bytes entry.offset entry.storedSize

/-- Of two byte strings that differ by a burst in a protected part, only one is a container. -/
theorem FlipsBurst.rejected {strict strict' : Bool} {input input' : WovrInput}
    (hcontainer : ContainerOk strict bytes input) (hpart : Protected bytes offset size)
    (h : FlipsBurst offset size bytes bytes') : ¬ ContainerOk strict' bytes' input' := by
  intro hcontainer'
  have hsize := hcontainer.headerOk.size
  cases hpart with
  | header =>
      have hcrc : (headerOf bytes').crc = (headerOf bytes).crc :=
        congrArg number (h.same.slice fun i hfirst _ => .inr (by omega))
      refine h.crc_ne (hsize.trans' (by decide)) ?_
      rw [hcontainer'.headerOk.crc, hcontainer.headerOk.crc, hcrc]
  | payload entry hmem =>
      have hpos := h.size_pos
      have hentry := hcontainer.entry hmem
      have hlow : 96 ≤ (headerOf bytes).headerSize := hcontainer.headerOk.headerSize
      have hheader : headerOf bytes' = headerOf bytes := by
        refine headerOf_congr fun inner width hle => h.same.slice fun i _ hi => .inl ?_
        by_contra hover
        exact hentry.offHeader ⟨hpos.ne', by omega, by omega, by omega⟩
      have hdirectory : (headerOf bytes').directory bytes' = (headerOf bytes).directory bytes := by
        rw [hheader]
        refine directory_congr fun inner width hstart hle => h.same.slice fun i hfirst hi => ?_
        by_contra hover
        exact hentry.offDirectory ⟨hpos.ne', by omega, by omega, by omega⟩
      have hentry' := hcontainer'.entry (hdirectory ▸ hmem)
      refine h.crc_ne hentry.fits ?_
      exact hentry'.crc.trans hentry.crc.symm

/-- **What the checksums protect.** The checksum is the remainder by the polynomial of Castagnoli,
complemented before and after; and whatever burst of at most 32 bits is flipped in the header or in the
payload of a section of a container that the parser accepts, the parser rejects what comes out, under
any options. -/
theorem crc_protects :
    (∀ data : Bytes, Crc.reflected 32 (crc32c data) =
      (X ^ (8 * data.length) * allOnes + X ^ 32 * bytesPolynomial data) %ₘ castagnoli + allOnes) ∧
    ∀ (sizes : Sizes) (options : Option ParseOptions) (buffer : Buffer) (context : Context),
      (resultParse sizes options buffer.bytes context).status = .ok () →
      ∀ (offset size : ℕ) (flipped : Buffer), Protected buffer.bytes offset size →
        FlipsBurst offset size buffer.bytes flipped.bytes →
        ∀ (sizes' : Sizes) (options' : Option ParseOptions) (context' : Context),
          ∃ code, (resultParse sizes' options' flipped.bytes context').status = .error code := by
  refine ⟨crc32c_remainder, ?_⟩
  intro sizes options buffer context haccepted offset size flipped hpart hflips sizes' options' context'
  obtain ⟨_, _, _, _, _, -, haccepts, -⟩ := resultParse_ok haccepted
  cases hstatus : (resultParse sizes' options' flipped.bytes context').status with
  | error code => exact ⟨code, rfl⟩
  | ok =>
      obtain ⟨_, _, _, _, _, -, haccepts', -⟩ := resultParse_ok hstatus
      exact absurd haccepts'.base.container (hflips.rejected haccepts.base.container hpart)

/-- The small container with the lowest bit of its first byte flipped. -/
def flippedContainer : Buffer where
  bytes := 0x40 :: smallContainer.drop 1
  size_le := by decide +kernel

theorem crc_protects_flipped : ∃ code,
    (resultParse sampleSizes none flippedContainer.bytes ⟨freshHeap, 0⟩).status = .error code := by
  have hflips : FlipsBurst 0 92 smallContainer flippedContainer.bytes := by
    refine ⟨⟨by decide +kernel, fun i hi => ?_⟩, [], [true], [false],
      (bitsOf (slice smallContainer 0 92)).drop 1, by decide +kernel, by decide +kernel, rfl,
      by decide, by decide⟩
    obtain ⟨j, rfl⟩ : ∃ j, i = j + 1 := ⟨i - 1, by omega⟩
    rw [flippedContainer, List.getElem?_cons_succ, List.getElem?_drop, Nat.add_comm]
  exact crc_protects.2 sampleSizes (strictOptions 0 0) ⟨smallContainer, by decide +kernel⟩
    ⟨freshHeap, 0⟩ (smallContainer_accepted 0) 0 92 flippedContainer .header hflips sampleSizes none
    ⟨freshHeap, 0⟩

end LibApta.Container
