import FengShui.Reactive.Truncation

/-!
# When a frame reader throws

Bytes that come in need not be frames of the writer. `Readable` is the condition on them under which
`readNext` does not throw (`returns_readNext`): the announced lengths leave room for what is read,
the strings are UTF-8, a SETUP frame is all there but for its payload, and a REQUEST_CHANNEL frame
has its payload.
-/

namespace FengShui.Reactive

open ByteString Effect ReactiveReadBuffer ReactiveReader ReactiveResponder List

/-- The metadata of a payload, where they are all there, leave a length that is not negative. -/
def PayloadSafe (metaPresent : Bool) (size : ℤ) (content : Uint8List) : Prop :=
  metaPresent = true → 3 ≤ content.length → ofBytesBE (content.take 3) ≤ (content.drop 3).length →
    3 + (ofBytesBE (content.take 3) : ℤ) ≤ size

/-- The payload is all there. -/
def PayloadThere (metaPresent : Bool) (size : ℤ) (content : Uint8List) : Prop :=
  size ≤ content.length ∧ (metaPresent = true → 3 ≤ content.length →
    3 + (ofBytesBE (content.take 3) : ℤ) ≤ size)

/-- The fixed fields and the mime types of a SETUP frame are there, and its payload is safe. -/
def SetupSafe (header : FrameHeader) (body : Uint8List) : Prop :=
  12 ≤ body.length ∧ ∃ metadataMimeType dataMimeType left tail,
    takeMimeType (body.drop 12) = some (metadataMimeType, left) ∧
      takeMimeType left = some (dataMimeType, tail) ∧
      let size : ℤ := header.frameLength + tail.length - body.length - 6
      0 < size → PayloadSafe header.metaPresent size tail

/-- What follows a header does not make the reader throw. -/
def BodySafe (accepting activated : Bool) (header : FrameHeader) (body : Uint8List) : Prop :=
  match header.type with
  | reactiveFrameSetup => accepting = true → activated = false → SetupSafe header body
  | reactiveFrameKeepalive =>
    4 ≤ body.length → 10 < header.frameLength →
      PayloadSafe header.metaPresent (header.frameLength - 10) (body.drop 4)
  | reactiveFrameRequestChannel =>
    accepting = true → 4 ≤ body.length → 0 < header.frameLength ∧ (10 < header.frameLength →
      PayloadThere header.metaPresent (header.frameLength - 10) (body.drop 4))
  | reactiveFramePayload =>
    accepting = true → 6 < header.frameLength →
      PayloadSafe header.metaPresent (header.frameLength - 6) body
  | reactiveFrameError =>
    4 ≤ body.length → 10 < header.frameLength → header.frameLength ≤ body.length + 6 →
      ∃ message, utf8Decode ((body.drop 4).take (header.frameLength - 10)) = .ok message
  | _ => True

/-- The header in the first nine bytes. -/
def headerAt (bytes : Uint8List) : FrameHeader where
  frameLength := ofBytesBE (bytes.take 3)
  streamId := ofBytesBE ((bytes.drop 3).take 4)
  type := (bytes.getD 7 0).toNat >>> 2
  flags := (bytes.getD 8 0).toNat
  metaPresent := (bytes.getD 7 0).toNat &&& 0x01 == 1

/-- The bytes at the reader do not make it throw. -/
def Readable (accepting activated : Bool) (bytes : Uint8List) : Prop :=
  reactiveFrameHeaderSize ≤ bytes.length →
    BodySafe accepting activated (headerAt bytes) (bytes.drop reactiveFrameHeaderSize)

section Primitives

variable {pre rest : Uint8List} {checkpoint : ℕ}

variable {post : Option Uint8List → ReactiveReadBuffer → Prop}

theorem returns_readBytes {length : ℤ} :
    Returns (cursor pre rest checkpoint) (readBytes length) post ↔ 0 ≤ length ∧
      if length ≤ rest.length then
        post (some (rest.take length.toNat))
          (cursor (pre ++ rest.take length.toNat) (rest.drop length.toNat) checkpoint)
      else post none (cursor pre rest checkpoint) := by
  unfold Returns
  rcases lt_or_ge length 0 with hneg | hpos
  · rw [readBytes_cursor_neg pre rest checkpoint hneg]
    exact iff_of_false id fun h => absurd h.1 (not_le.mpr hneg)
  rw [and_iff_right hpos]
  by_cases hlen : length ≤ rest.length
  · have htaken : length = (rest.take length.toNat).length := by
      rw [length_take]
      omega
    have hread := readBytes_cursor pre (rest.drop length.toNat) checkpoint _ htaken
    rw [take_append_drop] at hread
    rw [hread, if_pos hlen]
  · rw [readBytes_cursor_short pre rest checkpoint (not_le.mp hlen), if_neg hlen]

theorem returns_readUint8List {length : ℤ} :
    Returns (cursor pre rest checkpoint) (readUint8List length) post ↔ 0 ≤ length ∧
      if length ≤ rest.length then
        post (some (rest.take length.toNat))
          (cursor (pre ++ rest.take length.toNat) (rest.drop length.toNat) checkpoint)
      else post none (cursor pre rest checkpoint) := returns_readBytes

theorem returns_readInt24 {post : Option ℕ → ReactiveReadBuffer → Prop} :
    Returns (cursor pre rest checkpoint) readInt24 post ↔
      if 3 ≤ rest.length then post (some (ofBytesBE (rest.take 3)))
        (cursor (pre ++ rest.take 3) (rest.drop 3) checkpoint)
      else post none (cursor pre rest checkpoint) := by
  unfold readInt24
  rw [returns_bind, returns_readBytes, and_iff_right (by decide)]
  simp only [Nat.ofNat_le_cast]
  rfl

theorem returns_readInt32 {post : Option ℕ → ReactiveReadBuffer → Prop} :
    Returns (cursor pre rest checkpoint) readInt32 post ↔
      if 4 ≤ rest.length then post (some (ofBytesBE (rest.take 4)))
        (cursor (pre ++ rest.take 4) (rest.drop 4) checkpoint)
      else post none (cursor pre rest checkpoint) := by
  unfold readInt32
  rw [returns_bind, returns_readBytes, and_iff_right (by decide)]
  simp only [Nat.ofNat_le_cast]
  rfl

/-- The size of the payload, by what was read of the body so far. -/
theorem returns_payloadSize {header : FrameHeader} {taken : Uint8List}
    {post : ℤ → ReactiveReadBuffer → Prop} :
    Returns (cursor (pre ++ taken) rest checkpoint) (payloadSize header pre.length) post ↔
      post (header.frameLength - 6 - taken.length) (cursor (pre ++ taken) rest checkpoint) := by
  unfold payloadSize
  have hsize : (header.frameLength : ℤ) + reactiveFrameLengthFieldSize -
      ((cursor (pre ++ taken) rest checkpoint).readerIndex -
        ((pre.length : ℤ) - reactiveFrameHeaderSize)) = header.frameLength - 6 - taken.length := by
    simp only [reactiveFrameLengthFieldSize, reactiveFrameHeaderSize, readerIndex_cursor,
      length_append]
    push_cast
    omega
  dsimp only
  rw [returns_get_bind, hsize]
  exact Iff.rfl

end Primitives

section Payload

variable {pre rest : Uint8List} {checkpoint : ℕ} {size : ℤ}

/-- The metadata, with their length in front. -/
theorem returns_readMetadata {post : Option (Uint8List × ℤ) → ReactiveReadBuffer → Prop} :
    Returns (cursor pre rest checkpoint) (readMetadata true size) post ↔
      if 3 ≤ rest.length then
        let length := ofBytesBE (rest.take 3)
        if length ≤ (rest.drop 3).length then
          post (some ((rest.drop 3).take length, size - 3 - length))
            (cursor (pre ++ rest.take 3 ++ (rest.drop 3).take length)
              ((rest.drop 3).drop length) checkpoint)
        else post none (cursor (pre ++ rest.take 3) (rest.drop 3) checkpoint)
      else post (some (emptyBytes, size)) (cursor pre rest checkpoint) := by
  unfold readMetadata
  rw [if_pos rfl, returns_bind, returns_readInt24]
  by_cases hlen : 3 ≤ rest.length
  · rw [if_pos hlen, if_pos hlen]
    dsimp only
    generalize ofBytesBE (rest.take 3) = length
    -- Metadata of length 0 is not read, and leaves the cursor behind the length.
    by_cases hpos : length > 0
    · rw [if_pos hpos, returns_bind, returns_readUint8List, and_iff_right (Int.natCast_nonneg _)]
      simp only [Nat.cast_le, Int.toNat_natCast]
      split <;> exact Iff.rfl
    · obtain rfl : length = 0 := Nat.eq_zero_of_not_pos hpos
      rw [if_neg hpos, if_pos (Nat.zero_le _), take_zero, append_nil, drop_zero]
      exact Iff.rfl
  · rw [if_neg hlen, if_neg hlen]
    exact Iff.rfl

theorem returns_readPayload (hsize : 0 < size) (metaPresent : Bool) :
    Returns (cursor pre rest checkpoint) (readPayload metaPresent size) (fun _ _ => True) ↔
      PayloadSafe metaPresent size rest := by
  unfold readPayload PayloadSafe
  rw [returns_bind]
  cases metaPresent with
  | false =>
    refine iff_of_true ?_ nofun
    change Returns _ (readUint8List size >>= _) _
    rw [returns_bind, returns_readUint8List]
    refine ⟨hsize.le, ?_⟩
    split <;> trivial
  | true =>
    rw [returns_readMetadata]
    by_cases hlen : 3 ≤ rest.length
    · rw [if_pos hlen]
      dsimp only
      by_cases hmeta : ofBytesBE (rest.take 3) ≤ (rest.drop 3).length
      · rw [if_pos hmeta, returns_bind, returns_readUint8List]
        simp only [hlen, hmeta, true_implies]
        -- The data's length is what metadata leaves of the frame: negative if it leaves less than
        -- nothing.
        constructor
        · rintro ⟨hnonneg, -⟩
          omega
        · intro h
          refine ⟨by omega, ?_⟩
          split <;> trivial
      · rw [if_neg hmeta]
        exact iff_of_true trivial fun _ _ h => absurd h hmeta
    · rw [if_neg hlen]
      refine iff_of_true ?_ fun _ h => absurd h hlen
      change Returns _ (readUint8List size >>= _) _
      rw [returns_bind, returns_readUint8List]
      refine ⟨hsize.le, ?_⟩
      split <;> trivial

theorem returns_readPayload_isSome (hsize : 0 < size) (metaPresent : Bool) :
    Returns (cursor pre rest checkpoint) (readPayload metaPresent size)
        (fun payload _ => payload.isSome) ↔ PayloadThere metaPresent size rest := by
  have hplain : Returns (cursor pre rest checkpoint) (readPayload false size)
      (fun payload _ => payload.isSome) ↔ size ≤ rest.length := by
    unfold readPayload
    change Returns _ (readUint8List size >>= _) _ ↔ _
    rw [returns_bind, returns_readUint8List, and_iff_right hsize.le]
    by_cases hsize : size ≤ rest.length
    · rw [if_pos hsize]
      exact iff_of_true rfl hsize
    · rw [if_neg hsize]
      exact iff_of_false nofun hsize
  unfold PayloadThere
  cases metaPresent with
  | false => exact hplain.trans (and_iff_left nofun).symm
  | true =>
    unfold readPayload
    rw [returns_bind, returns_readMetadata]
    by_cases hlen : 3 ≤ rest.length
    · rw [if_pos hlen]
      simp only [hlen, true_implies]
      have hrest : (rest.drop 3).length = rest.length - 3 := length_drop
      -- Where the metadata is not whole the payload is null, whatever the data's length.
      by_cases hmeta : ofBytesBE (rest.take 3) ≤ (rest.drop 3).length
      · rw [if_pos hmeta, returns_bind, returns_readUint8List]
        have hleft : ((rest.drop 3).drop (ofBytesBE (rest.take 3))).length =
            rest.length - 3 - ofBytesBE (rest.take 3) := by rw [length_drop, hrest]
        by_cases hdata : size - 3 - ofBytesBE (rest.take 3) ≤
            ((rest.drop 3).drop (ofBytesBE (rest.take 3))).length
        · rw [if_pos hdata]
          constructor
          · rintro ⟨hnonneg, -⟩
            omega
          · intro h
            exact ⟨by omega, rfl⟩
        · rw [if_neg hdata]
          refine iff_of_false (fun h => by cases h.2) fun h => hdata ?_
          omega
      · rw [if_neg hmeta]
        refine iff_of_false nofun fun h => hmeta ?_
        omega
    · rw [if_neg hlen]
      exact hplain.trans (and_iff_left fun _ h => absurd h hlen).symm

/-- A payload that nothing may be left for. -/
theorem returns_readOptionalPayload (header : FrameHeader) :
    Returns (cursor pre rest checkpoint) (readOptionalPayload header size) (fun _ _ => True) ↔
      (0 < size → PayloadSafe header.metaPresent size rest) := by
  unfold readOptionalPayload
  split
  · rename_i hsize
    rw [returns_readPayload hsize]
    exact ⟨fun h _ => h, fun h => h hsize⟩
  · rename_i hsize
    exact iff_of_true trivial fun h => absurd h hsize

end Payload

section Frames

variable {pre body : Uint8List} {checkpoint : ℕ} (header : FrameHeader)

/-- What follows the fixed fields of a SETUP frame. -/
theorem returns_readSetupVariable {fixed content : Uint8List} (interval lifetime : ℕ) :
    Returns (cursor (pre ++ fixed) content checkpoint)
        (readSetupVariable header pre.length interval lifetime) (fun _ _ => True) ↔
      ∃ metadataMimeType dataMimeType left tail,
        takeMimeType content = some (metadataMimeType, left) ∧
          takeMimeType left = some (dataMimeType, tail) ∧
          let size : ℤ := header.frameLength + tail.length - (fixed.length + content.length) - 6
          0 < size → PayloadSafe header.metaPresent size tail := by
  -- Both mime types are there: what is left decides.
  have hpay (m d : DartString) (left tail : Uint8List)
      (hm : takeMimeType content = some (m, left)) (hd : takeMimeType left = some (d, tail)) :
      Returns (cursor (pre ++ fixed) content checkpoint)
          (readSetupVariable header pre.length interval lifetime) (fun _ _ => True) ↔
        (0 < (header.frameLength + tail.length - (fixed.length + content.length) - 6 : ℤ) →
          PayloadSafe header.metaPresent
            (header.frameLength + tail.length - (fixed.length + content.length) - 6) tail) := by
    obtain ⟨first, rfl, h1⟩ := readMimeType_cursor (pre ++ fixed) [] checkpoint hm
    obtain ⟨second, rfl, h2⟩ := readMimeType_cursor (pre ++ fixed ++ first) [] checkpoint hd
    rw [append_nil] at h1 h2
    rw [append_nil] at h1 h2
    have hsize : (header.frameLength : ℤ) - 6 - (fixed ++ (first ++ second)).length =
        header.frameLength + tail.length - (fixed.length + (first ++ (second ++ tail)).length) -
            6 := by
      simp only [length_append]
      push_cast
      omega
    have hcursor : pre ++ fixed ++ first ++ second = pre ++ (fixed ++ (first ++ second)) := by
      simp only [append_assoc]
    unfold readSetupVariable
    dsimp only
    rw [returns_bind, returns_of_ok h1, returns_bind, returns_of_ok h2, hcursor, returns_bind,
      returns_payloadSize, returns_bind, hsize]
    change Returns _ _ (fun _ _ => True) ↔ _
    exact returns_readOptionalPayload header
  constructor
  · intro h
    obtain ⟨frame, buffer, hok⟩ := returns_iff_ok.mp h
    obtain ⟨m, d, left, tail, hm, hd⟩ := takeMimeType_of_readSetupVariable _ _ hok
    exact ⟨m, d, left, tail, hm, hd, (hpay m d left tail hm hd).mp h⟩
  · rintro ⟨m, d, left, tail, hm, hd, h⟩
    exact (hpay m d left tail hm hd).mpr h

theorem exists_append_of_le {bytes : Uint8List} {n : ℕ} (h : n ≤ bytes.length) :
    ∃ front back, bytes = front ++ back ∧ front.length = n :=
  ⟨bytes.take n, bytes.drop n, (take_append_drop ..).symm, by rw [length_take]; omega⟩

theorem returns_readSetupFrame :
    Returns (cursor pre body checkpoint) (readSetupFrame header) (fun _ _ => True) ↔
      SetupSafe header body := by
  unfold SetupSafe
  -- The fixed fields take 12 bytes, and where those are not there the reading throws.
  rcases lt_or_ge body.length 12 with hshort | hlong
  · obtain ⟨e, buffer, hthrow⟩ := readSetupFrame_short pre body checkpoint header hshort
    refine iff_of_false (fun h => ?_) fun h => absurd h.1 (not_le.mpr hshort)
    unfold Returns at h
    rwa [hthrow] at h
  rw [and_iff_right hlong]
  obtain ⟨fixed, content, rfl, hfixed⟩ := exists_append_of_le hlong
  obtain ⟨major, fixed, rfl, hmajor⟩ := exists_append_of_le (show 2 ≤ fixed.length by omega)
  rw [length_append] at hfixed
  obtain ⟨minor, fixed, rfl, hminor⟩ := exists_append_of_le (show 2 ≤ fixed.length by omega)
  rw [length_append] at hfixed
  obtain ⟨interval, lifetime, rfl, hinterval⟩ :=
    exists_append_of_le (show 4 ≤ fixed.length by omega)
  rw [length_append] at hfixed
  have hlen : (major ++ (minor ++ (interval ++ lifetime))).length = 12 := by
    simp only [length_append]
    omega
  have hcont : ((major ++ (minor ++ (interval ++ lifetime)) ++ content).length : ℤ) =
      (major ++ (minor ++ (interval ++ lifetime))).length + content.length := by
    rw [length_append]
    push_cast
    rfl
  rw [drop_left' hlen, hcont]
  rw [← returns_readSetupVariable header (ofBytesBE interval) (ofBytesBE lifetime)]
  -- The four reads, each where the one before it stopped.
  have h1 :=
    readInt16_cursor pre (minor ++ (interval ++ (lifetime ++ content))) checkpoint major hmajor
  have h2 := readInt16_cursor (pre ++ major) (interval ++ (lifetime ++ content)) checkpoint minor
    hminor
  have h3 := readInt32_cursor (pre ++ major ++ minor) (lifetime ++ content) checkpoint interval
    hinterval
  have h4 := readInt32_cursor (pre ++ major ++ minor ++ interval) content checkpoint lifetime
    (by omega)
  simp only [append_assoc] at h1 h2 h3 h4 ⊢
  unfold readSetupFrame
  rw [returns_get_bind, returns_bind, returns_of_ok h1, returns_bind, returns_of_ok h2,
    returns_bind, returns_of_ok h3]
  dsimp only
  rw [returns_bind, returns_of_ok h4]
  dsimp only
  rw [readerIndex_cursor]

/-- A frame whose first field has four bytes. -/
theorem returns_field {α : Type} {f : Option ℕ → Reading α} {post : α → ReactiveReadBuffer → Prop}
    (hnone : ∀ buffer, Returns buffer (f none) post) :
    Returns (cursor pre body checkpoint) (readInt32 >>= f) post ↔ (4 ≤ body.length →
      Returns (cursor (pre ++ body.take 4) (body.drop 4) checkpoint)
        (f (some (ofBytesBE (body.take 4)))) post) := by
  rw [returns_bind, returns_readInt32]
  split
  · rename_i hlen
    exact ⟨fun h _ => h, fun h => h hlen⟩
  · rename_i hlen
    exact iff_of_true (hnone _) fun h => absurd h hlen

/-- The size of what follows a field of four bytes. -/
theorem returns_payloadSize_field {post : ℤ → ReactiveReadBuffer → Prop} (hlen : 4 ≤ body.length) :
    Returns (cursor (pre ++ body.take 4) (body.drop 4) checkpoint) (payloadSize header pre.length)
        post ↔
      post (header.frameLength - 10) (cursor (pre ++ body.take 4) (body.drop 4) checkpoint) := by
  have hfield : (body.take 4).length = 4 := by
    rw [length_take]
    omega
  have hsize : (header.frameLength : ℤ) - 6 - (body.take 4).length = header.frameLength - 10 := by
    omega
  rw [returns_payloadSize, hsize]

theorem returns_readKeepAliveFrame :
    Returns (cursor pre body checkpoint) (readKeepAliveFrame header) (fun _ _ => True) ↔
      (4 ≤ body.length → 10 < header.frameLength →
        PayloadSafe header.metaPresent (header.frameLength - 10) (body.drop 4)) := by
  unfold readKeepAliveFrame
  rw [returns_get_bind]
  dsimp only
  refine (returns_field ?_).trans (forall_congr' fun hlen => ?_)
  · exact fun buffer => trivial
  dsimp only
  rw [readerIndex_cursor, returns_bind, returns_payloadSize_field header hlen]
  split
  · rename_i hsize
    have hlong : 10 < header.frameLength := by omega
    rw [forall_prop_of_true hlong, returns_bind, ← returns_readPayload hsize]
    refine returns_congr fun payload next _ => ?_
    cases payload <;> exact Iff.rfl
  · rename_i hsize
    exact iff_of_true trivial fun hlong => absurd (by omega) hsize

theorem returns_readErrorFrame :
    Returns (cursor pre body checkpoint) (readErrorFrame header) (fun _ _ => True) ↔
      (4 ≤ body.length → 10 < header.frameLength → header.frameLength ≤ body.length + 6 →
        ∃ message, utf8Decode ((body.drop 4).take (header.frameLength - 10)) = .ok message) := by
  unfold readErrorFrame
  rw [returns_get_bind]
  dsimp only
  refine (returns_field ?_).trans (forall_congr' fun hlen => ?_)
  · exact fun buffer => trivial
  dsimp only
  rw [readerIndex_cursor, returns_bind, returns_payloadSize_field header hlen, returns_bind]
  unfold readMessage
  have hbody : (body.drop 4).length = body.length - 4 := length_drop
  split
  · rename_i hsize
    have hlong : 10 < header.frameLength := by omega
    have hsize : ((header.frameLength : ℤ) - 10).toNat = header.frameLength - 10 := by omega
    rw [forall_prop_of_true hlong, returns_readUint8List, and_iff_right (by omega), hsize]
    split
    · rename_i hthere
      have hcomplete : header.frameLength ≤ body.length + 6 := by omega
      rw [forall_prop_of_true hcomplete]
      dsimp only
      cases utf8Decode ((body.drop 4).take (header.frameLength - 10)) with
      | ok message => exact iff_of_true trivial ⟨message, rfl⟩
      | error e => exact iff_of_false id fun ⟨message, h⟩ => by cases h
    · rename_i hthere
      exact iff_of_true trivial fun hcomplete => absurd (by omega) hthere
  · rename_i hsize
    -- No bytes are the empty message.
    exact iff_of_true trivial fun hlong => absurd (by omega) hsize

theorem returns_readPayloadFrame :
    Returns (cursor pre body checkpoint) (readPayloadFrame header) (fun _ _ => True) ↔
      (6 < header.frameLength →
        PayloadSafe header.metaPresent (header.frameLength - 6) body) := by
  have hsize : (header.frameLength : ℤ) + reactiveFrameLengthFieldSize - reactiveFrameHeaderSize =
      header.frameLength - 6 := by
    simp only [reactiveFrameLengthFieldSize, reactiveFrameHeaderSize]
    push_cast
    omega
  unfold readPayloadFrame
  rw [hsize]
  dsimp only
  split
  · rename_i hpos
    have hlong : 6 < header.frameLength := by omega
    rw [forall_prop_of_true hlong, returns_bind, ← returns_readPayload hpos]
    refine returns_congr fun payload next _ => ?_
    cases payload <;> exact Iff.rfl
  · rename_i hpos
    exact iff_of_true trivial fun hlong => absurd (by omega) hpos

/-- The frame, and its payload, which the loop forces. -/
theorem returns_readRequestChannelFrame {α : Type} {f : Option RequestChannelFrame → Reading α}
    (hnone : ∀ buffer, Returns buffer (f none) fun _ _ => True)
    (hsome : ∀ frame buffer, Returns buffer (f (some frame)) (fun _ _ => True) ↔
      frame.payload.isSome) :
    Returns (cursor pre body checkpoint) (readRequestChannelFrame header >>= f) (fun _ _ => True) ↔
      (4 ≤ body.length → 0 < header.frameLength ∧ (10 < header.frameLength →
        PayloadThere header.metaPresent (header.frameLength - 10) (body.drop 4))) := by
  unfold readRequestChannelFrame
  rw [returns_bind, returns_get_bind]
  dsimp only
  refine (returns_field ?_).trans (forall_congr' fun hlen => ?_)
  · exact hnone
  dsimp only
  rw [readerIndex_cursor, returns_bind, returns_payloadSize_field header hlen]
  split
  · rename_i hpos
    rw [and_iff_right hpos, returns_bind]
    unfold readOptionalPayload
    split
    · rename_i hsize
      have hlong : 10 < header.frameLength := by omega
      rw [forall_prop_of_true hlong, ← returns_readPayload_isSome hsize]
      exact returns_congr fun payload next _ => hsome _ next
    · rename_i hsize
      exact iff_of_true ((hsome _ _).mpr rfl) fun hlong => absurd (by omega) hsize
  · rename_i hpos
    exact iff_of_false (fun h => by cases (hsome _ _).mp h) fun h => hpos h.1

/-- `readNext` behind the header throws just when what follows it is not safe. -/
theorem returns_readBody (accepting activated : Bool) :
    Returns (cursor pre body checkpoint) (readBody accepting activated header) (fun _ _ => True) ↔
      BodySafe accepting activated header body := by
  -- The types whose frame may be null throw only where the reading of it does.
  have hoption {α : Type} {m : Reading (Option α)} {f : Option α → Reading NextFrame}
      (hf : ∀ a buffer, Returns buffer (f a) fun _ _ => True) (buffer : ReactiveReadBuffer) :
      Returns buffer (m >>= f) (fun _ _ => True) ↔ Returns buffer m fun _ _ => True := by
    rw [returns_bind]
    exact returns_congr fun a next _ => iff_of_true (hf a next) trivial
  unfold readBody BodySafe
  split
  · rename_i htype
    simp only [htype]
    cases accepting with
    | false => exact iff_of_true trivial nofun
    | true =>
      cases activated with
      | true => exact iff_of_true trivial nofun
      | false =>
        simp only [Bool.not_true, Bool.or_self, Bool.false_eq_true, if_false, true_implies]
        rw [← returns_readSetupFrame, returns_bind]
        exact Iff.rfl
  · rename_i htype
    simp only [htype]
    refine (hoption ?_ _).trans (iff_of_true ?_ trivial)
    · rintro (_ | frame) buffer <;> trivial
    · unfold readLeaseFrame
      refine (returns_field ?_).mpr fun _ => (returns_field ?_).mpr fun _ => trivial
      · exact fun buffer => trivial
      · exact fun buffer => trivial
  · rename_i htype
    simp only [htype]
    refine (hoption ?_ _).trans (returns_readKeepAliveFrame header)
    rintro (_ | frame) buffer <;> trivial
  · rename_i htype
    simp only [htype]
    refine (hoption ?_ _).trans (iff_of_true ?_ trivial)
    · rintro (_ | frame) buffer <;> trivial
    · unfold readRequestNFrame
      refine (returns_field ?_).mpr fun _ => trivial
      exact fun buffer => trivial
  · rename_i htype
    simp only [htype]
    cases accepting with
    | false => exact iff_of_true trivial nofun
    | true =>
      simp only [Bool.not_true, Bool.false_eq_true, if_false, true_implies]
      refine returns_readRequestChannelFrame header (fun buffer => trivial) fun frame buffer => ?_
      dsimp only
      cases frame.payload with
      | none => exact iff_of_false id nofun
      | some payload => exact iff_of_true trivial rfl
  · rename_i htype
    simp only [htype]
    cases accepting with
    | false => exact iff_of_true trivial nofun
    | true =>
      simp only [Bool.not_true, Bool.false_eq_true, if_false, true_implies]
      refine (hoption ?_ _).trans (returns_readPayloadFrame header)
      rintro (_ | frame) buffer <;> trivial
  · rename_i htype
    simp only [htype]
    exact iff_of_true trivial trivial
  · rename_i htype
    simp only [htype]
    refine (hoption ?_ _).trans (returns_readErrorFrame header)
    rintro (_ | frame) buffer <;> trivial
  · -- An unknown type: the length of what is skipped is not negative.
    refine iff_of_true ?_ ?_
    · split
      · rename_i hlong
        refine (hoption ?_ _).mpr (returns_readBytes.mpr ⟨by omega, ?_⟩)
        · rintro (_ | bytes) buffer <;> trivial
        · split <;> trivial
      · trivial
    · split <;> trivial

end Frames

/-- The reader throws just when the bytes are not readable. -/
theorem returns_readNext (accepting activated : Bool) (pre bytes : Uint8List) (checkpoint : ℕ) :
    Returns (cursor pre bytes checkpoint) (readNext accepting activated) (fun _ _ => True) ↔
      Readable accepting activated bytes := by
  unfold readNext Readable
  rcases lt_or_ge bytes.length reactiveFrameHeaderSize with hshort | hlong
  · obtain ⟨taken, left, rfl, h⟩ := readFrameHeader_cursor_short pre bytes checkpoint hshort
    rw [returns_bind, returns_of_ok h]
    exact iff_of_true trivial fun hlong => absurd hlong (not_le.mpr hshort)
  · rw [forall_prop_of_true hlong]
    rw [reactiveFrameHeaderSize] at hlong
    obtain ⟨front, body, rfl, hfront⟩ := exists_append_of_le hlong
    obtain ⟨length, front, rfl, hlen⟩ := exists_append_of_le (show 3 ≤ front.length by omega)
    rw [length_append] at hfront
    obtain ⟨streamId, front, rfl, hstreamId⟩ := exists_append_of_le (show 4 ≤ front.length by omega)
    rw [length_append] at hfront
    obtain ⟨type, flags, rfl⟩ : ∃ type flags, front = [type, flags] :=
      length_eq_two.mp (by omega)
    rw [← append_assoc length streamId, returns_bind,
      returns_of_ok (readFrameHeader_cursor pre body checkpoint type flags hlen hstreamId)]
    -- The header that was read is the one at the front of the bytes.
    have hhdr : headerAt (length ++ streamId ++ [type, flags] ++ body) =
        ⟨ofBytesBE length, ofBytesBE streamId, type.toNat >>> 2, flags.toNat,
          type.toNat &&& 0x01 == 1⟩ := by
      have hseven : (length ++ streamId).length = 7 := by
        rw [length_append]
        omega
      have htype : (length ++ streamId ++ [type, flags] ++ body).getD 7 0 = type := by
        rw [append_assoc, getD_eq_getElem?_getD,
          getElem?_append_right (by omega), hseven]
        rfl
      have hflags : (length ++ streamId ++ [type, flags] ++ body).getD 8 0 = flags := by
        rw [append_assoc, getD_eq_getElem?_getD,
          getElem?_append_right (by omega), hseven]
        rfl
      unfold headerAt
      rw [htype, hflags]
      simp only [append_assoc, take_left' hlen, drop_left' hlen,
        take_left' hstreamId]
    rw [hhdr]
    have hnine : (length ++ streamId ++ [type, flags]).length = reactiveFrameHeaderSize := by
      simp only [length_append, length_cons, length_nil, reactiveFrameHeaderSize]
      omega
    rw [drop_left' hnine]
    exact returns_readBody _ accepting activated

end FengShui.Reactive
