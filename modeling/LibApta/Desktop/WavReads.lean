import LibApta.Desktop.WavChunks

/-!
# Reading a WAV file

A decoder that was opened stands for the data chunk of its file. Whatever is read and released in
between, a read delivers the frames it is asked for as far as the data goes, so blocks that follow
each other from the first frame to the last make up the data.
-/

namespace LibApta.Wav

open Check LittleEndian

/-! ## Opened decoders -/

/-- The decoder stands for the data chunk of a file, the only one of its RIFF chunk. -/
structure Opened (file : List UInt8) (decoder : Decoder) : Prop where
  data : ∃ chunks chunk, Chunks file (field 4 file 4 + 8) 12 chunks ∧
    withId dataId chunks = [chunk] ∧ decoder.dataOffset = chunk.offset ∧ decoder.dataSize = chunk.size
  riff : field 4 file 4 + 8 ≤ file.length
  limit : file.length ≤ int64Max
  align : 0 < decoder.blockAlign
  whole : decoder.dataSize % decoder.blockAlign = 0
  total : decoder.totalFrames = decoder.dataSize / decoder.blockAlign
  width : decoder.blockAlign = decoder.channelCount * (decoder.bitsPerSample / 8)
  format : decoder.sampleFormat = .s24Le ∨ decoder.bitsPerSample = 16 ∨ decoder.bitsPerSample = 32

section Opening

variable {opening : Opening} {file : List UInt8} {decoder : Decoder}

/-- Opening commits no fault. -/
theorem safe_openPath : Safe (openPath opening file) := by
  unfold openPath
  refine safe_bind (safe_rejectIf _ _) fun _ _ => ?_
  refine safe_bind (safe_rejectIf _ _) fun _ _ => ?_
  refine safe_bind (safe_rejectIf _ _) fun _ _ => ?_
  refine safe_bind (safe_rejectIf _ _) fun _ hsize => ?_
  have hsize := rejectIf_eq_ok.mp hsize
  refine safe_bind safe_readExact fun riff hriff => ?_
  obtain ⟨rfl, hlength, -⟩ := readExact_eq_ok hriff
  refine safe_bind (safe_view.mpr (by omega)) fun id _ => ?_
  refine safe_bind (safe_view.mpr (by omega)) fun form _ => ?_
  refine safe_bind (safe_rejectIf _ _) fun _ _ => ?_
  refine safe_bind (safe_read.mpr (by omega)) fun riffSize hriffSize => ?_
  obtain ⟨-, rfl⟩ := read_eq_ok.mp hriffSize
  have hfield : field 4 (slice file 0 12) 4 < 256 ^ 4 := field_lt
  refine safe_bind (safe_within.mpr (by unfold uint64Max; omega)) fun riffEnd hriffEnd => ?_
  obtain ⟨-, rfl⟩ := within_eq_ok.mp hriffEnd
  refine safe_bind (safe_rejectIf _ _) fun _ hinside => ?_
  have hinside := rejectIf_eq_ok.mp hinside
  refine safe_bind (safe_walkChunks (by omega) _ (by omega) (by omega)) fun found hfound => ?_
  obtain ⟨chunks, -, -, hfmt⟩ := walkChunks_eq_ok hfound
  split
  · next fmt dataOffset dataSize hfmtFound _ =>
      obtain ⟨-, hnone⟩ | ⟨chunk, a, -, -, hsome, hplace⟩ := hfmt
      · rw [hfmtFound] at hnone
        cases hnone
      obtain rfl := Option.some.inj (hfmtFound.symm.trans hsome)
      obtain ⟨hrate, halign⟩ := parseFmt_lt hplace
      have hproduct : fmt.sampleRate * fmt.blockAlign ≤ 256 ^ 4 * 256 ^ 2 :=
        Nat.mul_le_mul hrate.le halign.le
      refine safe_bind (safe_within.mpr (by unfold uint64Max; omega)) fun byteRate _ => ?_
      refine safe_bind (safe_rejectIf _ _) fun _ _ => ?_
      refine safe_bind (safe_selectFormat _ _) fun format _ => ?_
      exact safe_bind (safe_rejectIf _ _) fun _ _ => safe_ok _
  · exact safe_reject _

theorem openPath_eq_ok (h : openPath opening file = .ok decoder) :
    Opened file decoder ∧ decoder.buffer = [] ∧ decoder.borrowed = false := by
  unfold openPath at h
  obtain ⟨_, -, h⟩ := bind_eq_ok.mp h
  obtain ⟨_, -, h⟩ := bind_eq_ok.mp h
  obtain ⟨_, hsized, h⟩ := bind_eq_ok.mp h
  obtain ⟨_, -, h⟩ := bind_eq_ok.mp h
  obtain ⟨riff, hriff, h⟩ := bind_eq_ok.mp h
  obtain ⟨rfl, -, -⟩ := readExact_eq_ok hriff
  obtain ⟨id, -, h⟩ := bind_eq_ok.mp h
  obtain ⟨form, -, h⟩ := bind_eq_ok.mp h
  obtain ⟨_, -, h⟩ := bind_eq_ok.mp h
  obtain ⟨riffSize, hriffSize, h⟩ := bind_eq_ok.mp h
  obtain ⟨-, rfl⟩ := read_eq_ok.mp hriffSize
  rw [field_slice (by omega), Nat.zero_add] at h
  obtain ⟨riffEnd, hriffEnd, h⟩ := bind_eq_ok.mp h
  obtain ⟨-, rfl⟩ := within_eq_ok.mp hriffEnd
  obtain ⟨_, hinside, h⟩ := bind_eq_ok.mp h
  have hinside := not_or.mp (rejectIf_eq_ok.mp hinside)
  obtain ⟨found, hfound, h⟩ := bind_eq_ok.mp h
  obtain ⟨chunks, hchunks, hdata, -⟩ := walkChunks_eq_ok hfound
  split at h
  · next fmt dataOffset dataSize _ hdataFound =>
      obtain ⟨-, hnone⟩ | ⟨chunk, place, honly, -, hsome, hplace⟩ := hdata
      · rw [hdataFound] at hnone
        cases hnone
      rw [hdataFound] at hsome
      obtain ⟨hoffset, hsize⟩ := Prod.mk.inj ((Option.some.inj hsome).trans hplace)
      obtain ⟨byteRate, -, h⟩ := bind_eq_ok.mp h
      obtain ⟨_, hfits, h⟩ := bind_eq_ok.mp h
      obtain ⟨sampleFormat, hformat, h⟩ := bind_eq_ok.mp h
      obtain ⟨_, -, h⟩ := bind_eq_ok.mp h
      obtain rfl := Except.ok.inj h
      have hfits := rejectIf_eq_ok.mp hfits
      simp only [not_or, not_not] at hfits
      obtain ⟨-, -, -, -, -, -, hwidth, halign, hwhole, -⟩ := hfits
      refine ⟨?_, rfl, rfl⟩
      exact {
        data := ⟨chunks, chunk, hchunks, honly, hoffset, hsize⟩
        riff := not_lt.mp hinside.2
        limit := not_lt.mp (not_or.mp (rejectIf_eq_ok.mp hsized)).2
        align := Nat.pos_of_ne_zero halign
        whole := hwhole
        total := rfl
        width := hwidth
        format := selectFormat_eq_ok hformat }
  · cases h

end Opening

/-! ## One read -/

/-- The bytes of frames of the data. -/
def frames (file : List UInt8) (opened : Decoder) (first count : ℕ) : List UInt8 :=
  slice file (opened.dataOffset + first * opened.blockAlign) (count * opened.blockAlign)

/-- What a decoder that may have lent its buffer answers to a read. -/
structure Answer (file : List UInt8) (opened : Decoder) (borrowed : Bool) (call : ReadCall)
    (delivery : Delivery) : Prop where
  endOfInput : delivery = .endOfInput ↔ call.argumentsValid = true ∧
    call.requestedFrames.toNat ≠ 0 ∧ borrowed = false ∧ opened.totalFrames ≤ call.firstFrame.toNat
  block : ∀ first count data, delivery = .block first count data →
    first = call.firstFrame.toNat ∧ first < opened.totalFrames ∧
      count = min call.requestedFrames.toNat (opened.totalFrames - first) ∧
        data = frames file opened first count
  delivered : call.argumentsValid = true → call.requestedFrames.toNat ≠ 0 → borrowed = false →
    call.firstFrame.toNat < opened.totalFrames → call.granted = true →
      (∀ offset, call.readFails offset = false) → ∃ first count data, delivery = .block first count data

/-- A decoder differs from the opened one in its buffer and in whether that is lent. -/
def Opens (opened decoder : Decoder) : Prop :=
  ∃ buffer borrowed, decoder = { opened with buffer := buffer, borrowed := borrowed }

section Reading

variable {file : List UInt8} {opened decoder : Decoder} {call : ReadCall}

theorem Opened.inside (h : Opened file opened) :
    opened.dataOffset + opened.dataSize ≤ file.length ∧
      opened.dataOffset + opened.dataSize ≤ 4294967295 + 8 := by
  obtain ⟨chunks, chunk, hchunks, honly, hoffset, hsize⟩ := h.data
  have hmem : chunk ∈ withId dataId chunks := honly ▸ List.mem_singleton_self chunk
  obtain ⟨-, hinside, -⟩ := hchunks.inside (List.mem_of_mem_filter hmem)
  have hfield : field 4 file 4 < 256 ^ 4 := field_lt
  rw [hoffset, hsize]
  exact ⟨hinside.trans h.riff, hinside.trans (by omega)⟩

theorem Opened.size_eq (h : Opened file opened) :
    opened.totalFrames * opened.blockAlign = opened.dataSize := by
  rw [h.total]
  exact Nat.div_mul_cancel (Nat.dvd_of_mod_eq_zero h.whole)

/-- Frames of the data lie in the data. -/
theorem Opened.frames_le (h : Opened file opened) {first count : ℕ}
    (hlast : first + count ≤ opened.totalFrames) :
    first * opened.blockAlign + count * opened.blockAlign ≤ opened.dataSize := by
  rw [← h.size_eq, ← Nat.add_mul]
  exact Nat.mul_le_mul_right _ hlast

/-- Numbers that are written back in the order of the host change nothing. -/
theorem convertWidth_eq {width count : ℕ} {buffer : List UInt8}
    (hroom : count * width ≤ buffer.length) : convertWidth width count buffer = .ok buffer := by
  refine loop_fixed fun index _ hindex => ?_
  have hinside : index * width + width ≤ buffer.length := by
    rw [← Nat.succ_mul]
    exact (Nat.mul_le_mul_right _ (by omega)).trans hroom
  rw [read_of_le hinside, ok_bind, encode_field hinside, patch, length_slice hinside,
    take_append_slice_append_drop]

theorem Opened.convertNative_eq (h : Opened file opened) {count : ℕ} {buffer : List UInt8}
    (hroom : count * opened.blockAlign ≤ buffer.length) :
    convertNative opened (count * opened.blockAlign) buffer = .ok buffer := by
  unfold convertNative
  split_ifs with h24 h16 h32
  · rfl
  · have hwidth : count * opened.blockAlign = count * opened.channelCount * 2 := by
      rw [h.width, h16, Nat.mul_assoc]
    refine convertWidth_eq (le_trans ?_ hroom)
    omega
  · have hwidth : count * opened.blockAlign = count * opened.channelCount * 4 := by
      rw [h.width, h32, Nat.mul_assoc]
    refine convertWidth_eq (le_trans ?_ hroom)
    omega
  · obtain hformat | hformat | hformat := h.format
    · exact absurd hformat h24
    · exact absurd hformat h16
    · exact absurd hformat h32

theorem grow_length {byteCount : ℕ} {buffer : List UInt8}
    (h : decoder.grow call byteCount = some buffer) : byteCount ≤ buffer.length := by
  unfold Decoder.grow at h
  split_ifs at h with hroom hgranted
  · exact Option.some.inj h ▸ hroom
  · rw [← Option.some.inj h, List.length_append, List.length_replicate]
    omega

theorem grow_ne_none {byteCount : ℕ} (hgranted : call.granted = true) :
    decoder.grow call byteCount ≠ none := by
  unfold Decoder.grow
  rw [hgranted]
  split_ifs with hroom hrefused
  · exact Option.some_ne_none _
  · exact absurd hrefused (by decide)
  · exact Option.some_ne_none _

/-- Filling the buffer either delivers the bytes at an offset or is refused with the read. -/
theorem fill_cases (call : ReadCall) (byteOffset count : ℕ) {byteCount : ℕ} (hroom : byteCount ≤ decoder.buffer.length)
    (hconvert : ∀ buffer : List UInt8, byteCount ≤ buffer.length →
      convertNative decoder byteCount buffer = .ok buffer) :
    (∃ buffer, decoder.fill file call byteOffset byteCount count =
        .ok (.block call.firstFrame.toNat count (slice file byteOffset byteCount),
          { decoder with buffer := buffer, borrowed := true })) ∨
      (∃ code, decoder.fill file call byteOffset byteCount count = .ok (.refused code, decoder)) ∧
        ∀ bytes, readExact call.readFails file byteOffset byteCount ≠ .ok bytes := by
  unfold Decoder.fill
  have hsafe : Safe (readExact call.readFails file byteOffset byteCount) := safe_readExact
  obtain ⟨bytes, hread, hattempt⟩ | ⟨code, hread, hattempt⟩ := safe_attempt hsafe
  · obtain ⟨rfl, hlength, -⟩ := readExact_eq_ok hread
    have hpatched : (patch decoder.buffer 0 (slice file byteOffset byteCount)).length =
        decoder.buffer.length := length_patch (by omega)
    have hfront : slice (patch decoder.buffer 0 (slice file byteOffset byteCount)) 0 byteCount =
        slice file byteOffset byteCount := by
      rw [patch, List.take_zero, List.nil_append, slice, List.drop_zero, List.take_left' hlength]
    refine .inl ⟨patch decoder.buffer 0 (slice file byteOffset byteCount), ?_⟩
    rw [hattempt, ok_bind]
    simp only
    rw [hconvert _ (hpatched ▸ hroom), attempt, ok_bind]
    simp only
    rw [view_of_le (by omega), ok_bind, hfront]
  · refine .inr ⟨?_, fun bytes hbytes => ?_⟩
    · rw [hattempt, ok_bind]
      cases code with
      | corruptData => exact ⟨_, rfl⟩
      | _ => exact ⟨_, rfl⟩
    · rw [hread] at hbytes
      cases hbytes

/-- A read that is refused at once. -/
theorem answer_refused {borrowed : Bool} {code : ErrorCode}
    (h : call.argumentsValid = true → call.requestedFrames.toNat ≠ 0 → borrowed = false →
      call.firstFrame.toNat < opened.totalFrames → call.granted = true →
        (∀ offset, call.readFails offset = false) → False)
    (hlast : call.argumentsValid = true → call.requestedFrames.toNat ≠ 0 → borrowed = false →
      call.firstFrame.toNat < opened.totalFrames) :
    Answer file opened borrowed call (.refused code) where
  endOfInput := by
    refine iff_of_false (fun heq => by cases heq) ?_
    rintro ⟨hvalid, hsome, hfree, hend⟩
    exact absurd (hlast hvalid hsome hfree) (not_lt.mpr hend)
  block _ _ _ heq := by cases heq
  delivered hvalid hsome hfree hfirst hgranted hstream :=
    (h hvalid hsome hfree hfirst hgranted hstream).elim

/-- Every read of an opened decoder has an answer, and commits no fault. -/
theorem readFrames_answers (h : Opened file opened) (hopens : Opens opened decoder) :
    ∃ delivery after, readFrames file call decoder = .ok (delivery, after) ∧
      Opens opened after ∧ Answer file opened decoder.borrowed call delivery := by
  obtain ⟨hinside, hsmall⟩ := h.inside
  have halign := h.align
  have hkept := hopens
  obtain ⟨block, borrowed, rfl⟩ := hopens
  unfold readFrames
  simp only
  by_cases hargs : (!call.argumentsValid) = true ∨ call.requestedFrames.toNat = 0
  · refine ⟨.refused .invalidArgument, _, if_pos hargs, hkept, answer_refused ?_ ?_⟩
    · intro hvalid hsome
      simp [hvalid, hsome] at hargs
    · intro hvalid hsome
      simp [hvalid, hsome] at hargs
  rw [if_neg hargs]
  simp only [not_or, Bool.not_eq_true', Bool.not_eq_false] at hargs
  by_cases hborrowed : borrowed = true
  · refine ⟨.refused .busy, _, if_pos hborrowed, hkept, answer_refused ?_ ?_⟩
    · exact fun _ _ hfree => absurd (hfree.symm.trans hborrowed) Bool.false_ne_true
    · exact fun _ _ hfree => absurd (hfree.symm.trans hborrowed) Bool.false_ne_true
  rw [if_neg hborrowed]
  by_cases hend : opened.totalFrames ≤ call.firstFrame.toNat
  · refine ⟨.endOfInput, _, if_pos hend, hkept, ⟨iff_of_true rfl ?_, ?_, ?_⟩⟩
    · exact ⟨hargs.1, hargs.2, Bool.not_eq_true _ ▸ hborrowed, hend⟩
    · exact fun _ _ _ heq => by cases heq
    · exact fun _ _ _ hfirst => absurd hfirst (not_lt.mpr hend)
  rw [if_neg hend]
  have hfirst := not_le.mp hend
  -- The frames that are read are frames of the data, so no product or sum leaves its type.
  obtain ⟨count, hcount⟩ : ∃ count, count =
    min call.requestedFrames.toNat (opened.totalFrames - call.firstFrame.toNat) := ⟨_, rfl⟩
  have hframes : call.firstFrame.toNat * opened.blockAlign + count * opened.blockAlign ≤
      opened.dataSize := h.frames_le (by omega)
  have hclip : (if opened.totalFrames - call.firstFrame.toNat < call.requestedFrames.toNat then
      opened.totalFrames - call.firstFrame.toNat else call.requestedFrames.toNat) = count := by
    rw [hcount]
    split_ifs <;> omega
  rw [minus_eq_ok.mpr ⟨hfirst.le, rfl⟩, ok_bind]
  simp only [hclip]
  have hcountFits : count * opened.blockAlign ≤ uint64Max := by unfold uint64Max; omega
  have hfirstFits : call.firstFrame.toNat * opened.blockAlign ≤ uint64Max - opened.dataOffset := by
    unfold uint64Max
    omega
  rw [if_neg (not_lt.mpr ((Nat.le_div_iff_mul_le halign).mpr hcountFits)), within_of_le hcountFits,
    ok_bind, minus_eq_ok.mpr ⟨by unfold uint64Max; omega, rfl⟩, ok_bind,
    if_neg (not_lt.mpr ((Nat.le_div_iff_mul_le halign).mpr hfirstFits)),
    within_of_le (hfirstFits.trans (Nat.sub_le _ _)), ok_bind,
    within_of_le (by unfold uint64Max; omega), ok_bind]
  cases hgrow : Decoder.grow { opened with buffer := block, borrowed := borrowed } call
      (count * opened.blockAlign) with
  | none =>
      refine ⟨_, _, rfl, hkept, answer_refused ?_ fun _ _ _ => hfirst⟩
      exact fun _ _ _ _ hgranted _ => grow_ne_none hgranted hgrow
  | some buffer =>
      have hconvert : ∀ bytes : List UInt8, count * opened.blockAlign ≤ bytes.length →
          convertNative { opened with buffer := buffer, borrowed := borrowed }
            (count * opened.blockAlign) bytes = .ok bytes :=
        fun bytes hroom => h.convertNative_eq hroom
      obtain ⟨filled, hfill⟩ | ⟨⟨code, hfill⟩, hunread⟩ := fill_cases call
        (opened.dataOffset + call.firstFrame.toNat * opened.blockAlign) count (grow_length hgrow)
        hconvert
      · refine ⟨_, _, hfill, ⟨_, _, rfl⟩, ⟨iff_of_false (fun heq => by cases heq) ?_, ?_, ?_⟩⟩
        · exact fun hand => hend hand.2.2.2
        · intro first number data heq
          obtain ⟨rfl, rfl, rfl⟩ := Delivery.block.inj heq
          exact ⟨rfl, hfirst, hcount, rfl⟩
        · exact fun _ _ _ _ _ _ => ⟨_, _, _, rfl⟩
      · refine ⟨_, _, hfill, ⟨_, _, rfl⟩, answer_refused ?_ fun _ _ _ => hfirst⟩
        intro _ _ _ _ _ hstream
        refine hunread _ (readExact_of_le ?_ ?_ (hstream _))
        · omega
        · exact (by omega : _ ≤ file.length).trans h.limit

end Reading

/-! ## Sequences of reads -/

/-- The decoders that reads and releases lead to. -/
inductive Reachable (file : List UInt8) (opened : Decoder) : Decoder → Prop
  | start : Reachable file opened opened
  | read {decoder after : Decoder} {call : ReadCall} {delivery : Delivery} :
      Reachable file opened decoder → readFrames file call decoder = .ok (delivery, after) →
        Reachable file opened after
  | release {decoder : Decoder} : Reachable file opened decoder →
      Reachable file opened (releaseFrames decoder)

/-- A block of frames. -/
structure Block where
  firstFrame : ℕ
  frameCount : ℕ
  data : List UInt8

/-- The block is delivered by a read of some sequence of reads. -/
def Delivered (file : List UInt8) (opened : Decoder) (block : Block) : Prop :=
  ∃ decoder call after, Reachable file opened decoder ∧
    readFrames file call decoder = .ok (.block block.firstFrame block.frameCount block.data, after)

/-- The blocks follow each other from one frame to another. -/
def Follow : ℕ → ℕ → List Block → Prop
  | first, past, [] => first = past
  | first, past, block :: rest =>
      block.firstFrame = first ∧ Follow (first + block.frameCount) past rest

/-- The decoder reads the data of its file: it stands for the data chunk, every read in every sequence
of reads commits no fault and has its answer, and blocks that partition the frames are the data. -/
structure ReadsData (file : List UInt8) (opened : Decoder) : Prop where
  chunk : Opened file opened
  inside : opened.dataOffset + opened.dataSize ≤ file.length
  answers : ∀ decoder, Reachable file opened decoder → ∀ call, ∃ delivery after,
    readFrames file call decoder = .ok (delivery, after) ∧
      Answer file opened decoder.borrowed call delivery
  whole : ∀ blocks, (∀ block ∈ blocks, Delivered file opened block) →
    Follow 0 opened.totalFrames blocks →
      (blocks.map Block.data).flatten = slice file opened.dataOffset opened.dataSize

section Sequences

variable {file : List UInt8} {opened decoder : Decoder}

theorem Reachable.opens (h : Opened file opened) (hreach : Reachable file opened decoder) :
    Opens opened decoder := by
  induction hreach with
  | start => exact ⟨_, _, rfl⟩
  | read _ hread ih =>
      obtain ⟨delivery, after, hanswer, hopens, -⟩ := readFrames_answers h ih
      rw [hread] at hanswer
      obtain ⟨-, rfl⟩ := Prod.mk.inj (Except.ok.inj hanswer)
      exact hopens
  | release _ ih =>
      obtain ⟨buffer, borrowed, rfl⟩ := ih
      exact ⟨_, _, rfl⟩

theorem Delivered.data_eq (h : Opened file opened) {block : Block}
    (hblock : Delivered file opened block) :
    block.data = frames file opened block.firstFrame block.frameCount := by
  obtain ⟨decoder, call, after, hreach, hread⟩ := hblock
  obtain ⟨delivery, _, hanswer, -, hspec⟩ := readFrames_answers h (hreach.opens h)
  rw [hread] at hanswer
  obtain ⟨rfl, -⟩ := Prod.mk.inj (Except.ok.inj hanswer)
  exact (hspec.block _ _ _ rfl).2.2.2

/-- Frames behind frames. -/
theorem frames_append (first count more : ℕ) :
    frames file opened first count ++ frames file opened (first + count) more =
      frames file opened first (count + more) := by
  unfold frames slice
  rw [Nat.add_mul first, Nat.add_mul count, List.take_add, List.drop_drop, Nat.add_assoc]

theorem frames_of_follow {blocks : List Block} {first past : ℕ}
    (hdata : ∀ block ∈ blocks, block.data = frames file opened block.firstFrame block.frameCount)
    (hfollow : Follow first past blocks) :
    first ≤ past ∧ (blocks.map Block.data).flatten = frames file opened first (past - first) := by
  induction blocks generalizing first with
  | nil =>
      obtain rfl : first = past := hfollow
      refine ⟨le_rfl, ?_⟩
      rw [frames, Nat.sub_self, Nat.zero_mul, slice, List.take_zero]
      rfl
  | cons block rest ih =>
      obtain ⟨hblock, hrest⟩ := List.forall_mem_cons.mp hdata
      obtain ⟨rfl, hfollow⟩ := hfollow
      obtain ⟨hle, hflatten⟩ := ih hrest hfollow
      refine ⟨(Nat.le_add_right _ _).trans hle, ?_⟩
      rw [List.map_cons, List.flatten_cons, hflatten, hblock, frames_append]
      congr 1
      omega

theorem Opened.readsData (h : Opened file opened) : ReadsData file opened where
  chunk := h
  inside := h.inside.1
  answers decoder hreach call := by
    obtain ⟨delivery, after, hread, -, hanswer⟩ := readFrames_answers h (hreach.opens h)
    exact ⟨delivery, after, hread, hanswer⟩
  whole blocks hblocks hfollow := by
    rw [(frames_of_follow (fun block hmem => (hblocks block hmem).data_eq h) hfollow).2, frames,
      Nat.zero_mul, Nat.add_zero, Nat.sub_zero, h.size_eq]

end Sequences

/-- Opening commits no fault, and what is opened reads the data of its file. -/
theorem openPath_readsData (opening : Opening) (file : List UInt8) :
    Safe (openPath opening file) ∧
      ∀ decoder, openPath opening file = .ok decoder → ReadsData file decoder :=
  ⟨safe_openPath, fun _ h => (openPath_eq_ok h).1.readsData⟩

/-! ## A read behind the end -/

/-- A file of one frame of sixteen bits. -/
def oneFrame : List UInt8 :=
  riffId ++ encode 4 38 ++ waveId ++ fmtId ++ encode 4 16 ++ encode 2 1 ++ encode 2 1 ++
    encode 4 8000 ++ encode 4 16000 ++ encode 2 2 ++ encode 2 16 ++ dataId ++ encode 4 2 ++ [7, 9]

/-- A read of one frame that meets no failure. -/
def readOne (firstFrame : UInt64) : ReadCall := ⟨true, firstFrame, 1, true, 0, fun _ => false⟩

/-- Behind the end, a read is refused while a block is lent. -/
theorem readFrames_busy_behind_end :
    ¬∀ (opening : Opening) (file : List UInt8) (opened : Decoder),
      openPath opening file = .ok opened → ∀ decoder, Reachable file opened decoder →
        ∀ call delivery after, readFrames file call decoder = .ok (delivery, after) →
          (delivery = .endOfInput ↔ opened.totalFrames ≤ call.firstFrame.toNat) := by
  intro hclaim
  have hopened : openPath ⟨true, true, true, true, fun _ => false, true⟩ oneFrame =
      .ok ⟨44, 2, 1, 8000, 1, 16, 2, .s16Native, .mono, [], false⟩ := by decide
  have hlent : readFrames oneFrame (readOne 0)
      ⟨44, 2, 1, 8000, 1, 16, 2, .s16Native, .mono, [], false⟩ =
        .ok (.block 0 1 [7, 9], ⟨44, 2, 1, 8000, 1, 16, 2, .s16Native, .mono, [7, 9], true⟩) := by
    decide
  have hend := hclaim _ _ _ hopened _ (.read .start hlent) (readOne 1) (.refused .busy) _ rfl
  exact absurd (hend.mpr le_rfl) (by decide)

end LibApta.Wav
