import LibApta.Desktop.WavDecoder

/-!
# The chunks of a WAV file

A file that the walk accepts is a sequence of padded chunks inside the RIFF chunk, with one format
chunk and one data chunk. The walk commits no fault, so none of its sums wraps and it ends.
-/

namespace LibApta.Wav

open Check LittleEndian

/-! ## Reading inside the file -/

section Reading

variable {readFails : ℕ → Bool} {file bytes : List UInt8} {offset size : ℕ}

theorem safe_readExact : Safe (readExact readFails file offset size) := by
  unfold readExact fileReadAt
  refine safe_bind ?_ fun bytes _ => safe_bind (safe_rejectIf _ _) fun _ _ => safe_ok _
  split_ifs <;> simp

/-- An exact read gives the bytes of the file. -/
theorem readExact_eq_ok (h : readExact readFails file offset size = .ok bytes) :
    bytes = slice file offset size ∧ bytes.length = size ∧ offset ≤ file.length := by
  unfold readExact at h
  obtain ⟨read, hread, h⟩ := bind_eq_ok.mp h
  obtain ⟨_, hlength, h⟩ := bind_eq_ok.mp h
  obtain rfl := Except.ok.inj h
  have hlength := not_not.mp (rejectIf_eq_ok.mp hlength)
  unfold fileReadAt at hread
  split_ifs at hread with hbehind hempty
  · cases hread
  · obtain rfl := Except.ok.inj hread
    refine ⟨?_, hlength, by omega⟩
    obtain rfl : 0 = size := hlength
    rw [slice, List.take_zero]
  · cases hread
  · exact ⟨(Except.ok.inj hread).symm, hlength, by omega⟩

/-- A read of bytes that the file has succeeds when the stream does. -/
theorem readExact_of_le (hinside : offset + size ≤ file.length) (hlimit : offset ≤ int64Max)
    (hstream : readFails offset = false) :
    readExact readFails file offset size = .ok (slice file offset size) := by
  have hread : fileReadAt readFails file offset size = .ok (slice file offset size) := by
    unfold fileReadAt
    rw [if_neg (by omega)]
    split_ifs with hempty hfails
    · obtain rfl : size = 0 := by omega
      rw [slice, List.take_zero]
    · simp [hstream] at hfails
    · rfl
  unfold readExact
  rw [hread, ok_bind, length_slice hinside, rejectIf, if_neg (not_not.mpr rfl), ok_bind]

end Reading

/-! ## Sequences of chunks -/

/-- A chunk: its identifier, and the offset and the size of its payload. -/
structure Chunk where
  id : List UInt8
  offset : ℕ
  size : ℕ
deriving DecidableEq

/-- The chunk whose header is at an offset. -/
def chunkAt (file : List UInt8) (cursor : ℕ) : Chunk where
  id := slice file cursor 4
  offset := cursor + 8
  size := field 4 file (cursor + 4)

/-- The bytes of a chunk with its header and its padding. -/
def Chunk.padded (chunk : Chunk) : ℕ := 8 + chunk.size + chunk.size % 2

/-- The chunks from a cursor up to a limit, with no room for another one behind them. -/
inductive Chunks (file : List UInt8) (limit : ℕ) : ℕ → List Chunk → Prop
  | stop {cursor : ℕ} : limit < cursor + 8 → Chunks file limit cursor []
  | chunk {cursor : ℕ} {rest : List Chunk} :
      cursor + (chunkAt file cursor).padded ≤ limit →
      Chunks file limit (cursor + (chunkAt file cursor).padded) rest →
        Chunks file limit cursor (chunkAt file cursor :: rest)

/-- A chunk lies behind its header and in front of the limit. -/
theorem Chunks.inside {file : List UInt8} {limit cursor : ℕ} {chunks : List Chunk}
    (h : Chunks file limit cursor chunks) {chunk : Chunk} (hmem : chunk ∈ chunks) :
    cursor + 8 ≤ chunk.offset ∧ chunk.offset + chunk.size ≤ limit ∧
      chunk = chunkAt file (chunk.offset - 8) := by
  induction h with
  | stop _ => cases hmem
  | @chunk cursor rest hfits _ ih =>
      obtain rfl | hrest := List.mem_cons.mp hmem
      · refine ⟨le_rfl, ?_, rfl⟩
        unfold Chunk.padded at hfits
        simp only [chunkAt] at hfits ⊢
        omega
      · obtain ⟨hoffset, hrest⟩ := ih hrest
        exact ⟨by unfold Chunk.padded at hoffset; omega, hrest⟩

/-- The chunks with an identifier. -/
def withId (id : List UInt8) (chunks : List Chunk) : List Chunk :=
  chunks.filter fun chunk => decide (chunk.id = id)

/-! ## The walk -/

section Walk

variable {readFails : ℕ → Bool} {file : List UInt8} {riffEnd : ℕ}

theorem safe_parseFmt (chunkSize : ℕ) (bytes : List UInt8) : Safe (parseFmt chunkSize bytes) := by
  have hlength : 40 ≤ (bytes ++ List.replicate (40 - bytes.length) (0 : UInt8)).length := by
    rw [List.length_append, List.length_replicate]
    omega
  have hread : ∀ width offset, offset + width ≤ 40 → Safe (read width
      (bytes ++ List.replicate (40 - bytes.length) 0) offset : Check ErrorCode ℕ) :=
    fun width offset h => safe_read.mpr (h.trans hlength)
  unfold parseFmt
  refine safe_bind (hread 2 0 (by omega)) fun parsedFormat _ => ?_
  refine safe_bind (hread 2 2 (by omega)) fun channelCount _ => ?_
  refine safe_bind (hread 4 4 (by omega)) fun sampleRate _ => ?_
  refine safe_bind (hread 4 8 (by omega)) fun byteRate _ => ?_
  refine safe_bind (hread 2 12 (by omega)) fun blockAlign _ => ?_
  refine safe_bind (hread 2 14 (by omega)) fun bitsPerSample _ => ?_
  split_ifs
  · exact safe_ok _
  refine safe_bind (hread 2 16 (by omega)) fun extraSize _ => ?_
  refine safe_bind (safe_view.mpr (by omega)) fun suffix _ => ?_
  refine safe_bind (safe_rejectIf _ _) fun _ _ => ?_
  refine safe_bind (hread 2 24 (by omega)) fun subformat _ => ?_
  refine safe_bind (hread 2 18 (by omega)) fun validBits _ => ?_
  refine safe_bind (safe_rejectIf _ _) fun _ _ => ?_
  exact safe_bind (hread 4 20 (by omega)) fun channelMask _ => safe_ok _

/-- The numbers of a format are those of its fields. -/
theorem parseFmt_lt {chunkSize : ℕ} {bytes : List UInt8} {fmt : Fmt}
    (h : parseFmt chunkSize bytes = .ok fmt) : fmt.sampleRate < 256 ^ 4 ∧ fmt.blockAlign < 256 ^ 2 := by
  unfold parseFmt at h
  obtain ⟨parsedFormat, -, h⟩ := bind_eq_ok.mp h
  obtain ⟨channelCount, -, h⟩ := bind_eq_ok.mp h
  obtain ⟨sampleRate, hrate, h⟩ := bind_eq_ok.mp h
  obtain ⟨byteRate, -, h⟩ := bind_eq_ok.mp h
  obtain ⟨blockAlign, halign, h⟩ := bind_eq_ok.mp h
  obtain ⟨bitsPerSample, -, h⟩ := bind_eq_ok.mp h
  have hbounds : sampleRate < 256 ^ 4 ∧ blockAlign < 256 ^ 2 := by
    rw [(read_eq_ok.mp hrate).2, (read_eq_ok.mp halign).2]
    exact ⟨field_lt, field_lt⟩
  split_ifs at h
  · exact Except.ok.inj h ▸ hbounds
  obtain ⟨extraSize, -, h⟩ := bind_eq_ok.mp h
  obtain ⟨suffix, -, h⟩ := bind_eq_ok.mp h
  obtain ⟨_, -, h⟩ := bind_eq_ok.mp h
  obtain ⟨subformat, -, h⟩ := bind_eq_ok.mp h
  obtain ⟨validBits, -, h⟩ := bind_eq_ok.mp h
  obtain ⟨_, -, h⟩ := bind_eq_ok.mp h
  obtain ⟨channelMask, -, h⟩ := bind_eq_ok.mp h
  exact Except.ok.inj h ▸ hbounds

/-- A format that can be selected has samples of three bytes, or of two or four. -/
theorem selectFormat_eq_ok {waveFormat bitsPerSample : ℕ} {format : SampleFormat}
    (h : selectFormat waveFormat bitsPerSample = .ok format) :
    format = .s24Le ∨ bitsPerSample = 16 ∨ bitsPerSample = 32 := by
  unfold selectFormat at h
  split_ifs at h with hpcm h16 h24 h32 hfloat
  · exact .inr (.inl h16)
  · exact .inl (Except.ok.inj h).symm
  · exact .inr (.inr h32)
  · cases h
  · exact .inr (.inr hfloat.2)
  · cases h

theorem safe_selectFormat (waveFormat bitsPerSample : ℕ) :
    Safe (selectFormat waveFormat bitsPerSample) := by
  unfold selectFormat
  split_ifs <;> simp

theorem safe_visitChunk (id : List UInt8) (payloadOffset chunkSize : ℕ) (found : Found) :
    Safe (visitChunk readFails file id payloadOffset chunkSize found) := by
  unfold visitChunk
  split_ifs
  · refine safe_bind (safe_rejectIf _ _) fun _ _ => safe_bind safe_readExact fun _ _ => ?_
    exact safe_bind (safe_parseFmt _ _) fun _ _ => safe_ok _
  · exact safe_bind (safe_rejectIf _ _) fun _ _ => safe_ok _
  · exact safe_ok _

/-- The walk commits no fault with a step for each eight bytes. -/
theorem safe_walkChunks (hlimit : riffEnd ≤ 4294967295 + 8) {fuel cursor : ℕ} (found : Found)
    (hcursor : cursor ≤ riffEnd) (hfuel : riffEnd < cursor + 8 * fuel) :
    Safe (walkChunks readFails file riffEnd fuel cursor found) := by
  induction fuel generalizing cursor found with
  | zero => omega
  | succ fuel ih =>
      unfold walkChunks
      refine safe_bind (safe_within.mpr (by unfold uint64Max; omega)) fun payload hpayload => ?_
      obtain ⟨-, rfl⟩ := within_eq_ok.mp hpayload
      split_ifs with hend
      · exact safe_ok _
      refine safe_bind safe_readExact fun header hheader => ?_
      have hlength := (readExact_eq_ok hheader).2.1
      refine safe_bind (safe_view.mpr (by omega)) fun id _ => ?_
      refine safe_bind (safe_read.mpr (by omega)) fun chunkSize hchunkSize => ?_
      refine safe_bind (safe_minus.mpr (by omega)) fun room hroom => ?_
      obtain ⟨-, rfl⟩ := minus_eq_ok.mp hroom
      refine safe_bind (safe_rejectIf _ _) fun _ hfits => ?_
      have hfits := rejectIf_eq_ok.mp hfits
      refine safe_bind (safe_within.mpr (by unfold uint64Max; omega)) fun next hnext => ?_
      obtain ⟨-, rfl⟩ := within_eq_ok.mp hnext
      refine safe_bind (safe_rejectIf _ _) fun _ hpadded => ?_
      have hpadded := rejectIf_eq_ok.mp hpadded
      refine safe_bind (safe_visitChunk _ _ _ _) fun found _ => ?_
      exact ih found (by omega) (by omega)

/-- What the walk finds for one kind of chunk: what it had found before, or the only one behind. -/
def Visited {α : Type} (place : α → Chunk → Prop) (before after : Option α) (chunks : List Chunk) :
    Prop :=
  (chunks = [] ∧ after = before) ∨
    ∃ chunk a, chunks = [chunk] ∧ before = none ∧ after = some a ∧ place a chunk

/-- A chunk of the kind is the only one when it has just been found. -/
theorem Visited.cons {α : Type} {place : α → Chunk → Prop} {a : α} {after : Option α} {chunk : Chunk}
    {chunks : List Chunk} (h : Visited place (some a) after chunks) (hplace : place a chunk) :
    Visited place none after (chunk :: chunks) := by
  obtain ⟨rfl, rfl⟩ | ⟨_, _, _, hbefore, _⟩ := h
  · exact .inr ⟨chunk, a, rfl, rfl, rfl, hplace⟩
  · cases hbefore

/-- The place of the data of a chunk. -/
def IsData (place : ℕ × ℕ) (chunk : Chunk) : Prop := place = (chunk.offset, chunk.size)

/-- The format that a chunk of the file says. -/
def IsFmt (file : List UInt8) (fmt : Fmt) (chunk : Chunk) : Prop :=
  parseFmt chunk.size (slice file chunk.offset (min chunk.size 40)) = .ok fmt

theorem visitChunk_eq_ok {chunk : Chunk} {found after : Found}
    (h : visitChunk readFails file chunk.id chunk.offset chunk.size found = .ok after) :
    (chunk.id = fmtId ∧ found.fmt = none ∧ after.data = found.data ∧
        ∃ fmt, after.fmt = some fmt ∧ IsFmt file fmt chunk) ∨
      (chunk.id = dataId ∧ found.data = none ∧ after.fmt = found.fmt ∧
        after.data = some (chunk.offset, chunk.size)) ∨
      (chunk.id ≠ fmtId ∧ chunk.id ≠ dataId ∧ after = found) := by
  unfold visitChunk at h
  split_ifs at h with hfmt hdata
  · obtain ⟨_, hfirst, h⟩ := bind_eq_ok.mp h
    obtain ⟨bytes, hbytes, h⟩ := bind_eq_ok.mp h
    obtain ⟨fmt, hparse, h⟩ := bind_eq_ok.mp h
    obtain rfl := Except.ok.inj h
    obtain rfl := (readExact_eq_ok hbytes).1
    have hnone := (not_or.mp (rejectIf_eq_ok.mp hfirst)).1
    exact .inl ⟨hfmt, Option.not_isSome_iff_eq_none.mp hnone, rfl, fmt, rfl, hparse⟩
  · obtain ⟨_, hfirst, h⟩ := bind_eq_ok.mp h
    obtain rfl := Except.ok.inj h
    exact .inr (.inl ⟨hdata, Option.not_isSome_iff_eq_none.mp (rejectIf_eq_ok.mp hfirst), rfl, rfl⟩)
  · exact .inr (.inr ⟨hfmt, hdata, (Except.ok.inj h).symm⟩)

/-- The walk follows the chunks of the file and finds at most one format and one data chunk. -/
theorem walkChunks_eq_ok {fuel cursor : ℕ} {found after : Found}
    (h : walkChunks readFails file riffEnd fuel cursor found = .ok after) :
    ∃ chunks, Chunks file riffEnd cursor chunks ∧
      Visited IsData found.data after.data (withId dataId chunks) ∧
      Visited (IsFmt file) found.fmt after.fmt (withId fmtId chunks) := by
  induction fuel generalizing cursor found with
  | zero => cases h
  | succ fuel ih =>
      unfold walkChunks at h
      obtain ⟨payload, hpayload, h⟩ := bind_eq_ok.mp h
      obtain ⟨-, rfl⟩ := within_eq_ok.mp hpayload
      split_ifs at h with hend
      · obtain rfl := Except.ok.inj h
        exact ⟨[], .stop hend, .inl ⟨rfl, rfl⟩, .inl ⟨rfl, rfl⟩⟩
      obtain ⟨header, hheader, h⟩ := bind_eq_ok.mp h
      obtain ⟨rfl, hlength, -⟩ := readExact_eq_ok hheader
      obtain ⟨id, hid, h⟩ := bind_eq_ok.mp h
      obtain ⟨-, rfl⟩ := view_eq_ok.mp hid
      obtain ⟨chunkSize, hchunkSize, h⟩ := bind_eq_ok.mp h
      obtain ⟨-, rfl⟩ := read_eq_ok.mp hchunkSize
      rw [slice_slice (by omega), field_slice (by omega), Nat.add_zero] at h
      obtain ⟨room, -, h⟩ := bind_eq_ok.mp h
      obtain ⟨_, -, h⟩ := bind_eq_ok.mp h
      obtain ⟨next, hnext, h⟩ := bind_eq_ok.mp h
      obtain ⟨-, rfl⟩ := within_eq_ok.mp hnext
      obtain ⟨_, hpadded, h⟩ := bind_eq_ok.mp h
      obtain ⟨visited, hvisit, h⟩ := bind_eq_ok.mp h
      obtain ⟨chunks, hchunks, hdata, hfmt⟩ := ih h
      have hpadding : cursor + 8 + field 4 file (cursor + 4) + field 4 file (cursor + 4) % 2 =
          cursor + (chunkAt file cursor).padded := by
        simp only [Chunk.padded, chunkAt]
        omega
      rw [hpadding] at hpadded hchunks
      refine ⟨chunkAt file cursor :: chunks,
        .chunk (not_lt.mp (not_or.mp (rejectIf_eq_ok.mp hpadded)).2) hchunks, ?_⟩
      unfold withId
      -- The chunk is the format, or the data, or of no interest.
      obtain ⟨hid, hnone, hsame, fmt, hfound, hplace⟩ | ⟨hid, hnone, hsame, hfound⟩ |
        ⟨hnotFmt, hnotData, rfl⟩ := @visitChunk_eq_ok _ _ (chunkAt file cursor) _ _ hvisit
      · rw [List.filter_cons_of_neg (by simp [hid, fmtId, dataId]),
          List.filter_cons_of_pos (by simp [hid]), hnone, ← hsame]
        rw [hfound] at hfmt
        exact ⟨hdata, hfmt.cons hplace⟩
      · rw [List.filter_cons_of_pos (by simp [hid]),
          List.filter_cons_of_neg (by simp [hid, fmtId, dataId]), hnone, ← hsame]
        rw [hfound] at hdata
        exact ⟨hdata.cons rfl, hfmt⟩
      · rw [List.filter_cons_of_neg (by simpa using hnotData),
          List.filter_cons_of_neg (by simpa using hnotFmt)]
        exact ⟨hdata, hfmt⟩

end Walk

end LibApta.Wav
