import FengShui.Reactive.WriterFrame

/-!
# Frames that are cut short

What the responder does in front of a proper prefix of a frame. Nearly everywhere the reader notices
and the round waits at the checkpoint (`turn_of_safe`). It does not in two places. A REQUEST_CHANNEL
frame whose payload is cut short is returned without a payload, and a SETUP frame does not look for
missing bytes at all; both make the round throw (`turn_of_throws`), but for a SETUP frame of which
only the payload is cut short: the round goes on then, and takes the rest of the payload for frames.
-/

namespace FengShui.Reactive

open ByteString ReactiveReadBuffer ReactiveWriteBuffer ReactiveReader ReactiveResponder List

/-- Of two equal concatenations, the one with the longer front has the other front inside. -/
theorem exists_append_of_length_le {a b c d : Uint8List} (h : a ++ b = c ++ d)
    (hlen : a.length ≤ c.length) : ∃ t, c = a ++ t ∧ b = t ++ d := by
  rcases append_eq_append_iff.mp h with ⟨t, hc, hb⟩ | ⟨t, rfl, rfl⟩
  · exact ⟨t, hc, hb⟩
  · rw [length_append] at hlen
    obtain rfl : t = [] := eq_nil_of_length_eq_zero (by omega)
    exact ⟨[], by simp, rfl⟩

/-- The number of bytes that the mime types of a SETUP frame take. -/
def mimeTypesLength (content : Uint8List) : ℕ :=
  match (takeMimeType content).bind fun first => takeMimeType first.2 with
  | some (_, tail) => content.length - tail.length
  | none => content.length

section Readers

variable (pre part : Uint8List) (checkpoint : ℕ)

theorem readMetadata_nil (dataLength : ℤ) (h : part.length < 3) :
    readMetadata true dataLength (cursor pre part checkpoint) =
      .ok (some (emptyBytes, dataLength)) (cursor pre part checkpoint) := by
  rw [readMetadata, if_pos rfl, bind_ok (readInt24_cursor_short pre part checkpoint h)]
  rfl

variable {payload : ReactivePayload} {left : Uint8List}

/-- A payload that is cut short is null. -/
theorem readPayload_cursor_short (h : encodePayload payload = part ++ left) (hleft : left ≠ [])
    (hmeta : payload.metadata.length < 256 ^ 3) :
    ∃ buffer, readPayload (metadataBit payload == 1) (encodePayload payload).length
      (cursor pre part checkpoint) = .ok none buffer := by
  have hpos := length_pos_iff.mpr hleft
  have hlen : (encodePayload payload).length = part.length + left.length := by
    rw [h, length_append]
  have hshort : (part.length : ℤ) < (encodePayload payload).length := by omega
  cases hm : payload.metadata.isEmpty with
  | true =>
    have h1 := readUint8List_cursor_short pre part checkpoint hshort
    rw [metadataBit, if_pos hm, readPayload, show ((0 : ℕ) == 1) = false from rfl,
      bind_ok (readMetadata_absent ..)]
    simp only [bind_ok h1]
    exact ⟨_, rfl⟩
  | false =>
    have hbit : (metadataBit payload == 1) = true := by rw [metadataBit, hm]; rfl
    rw [hbit, readPayload]
    rcases lt_or_ge part.length 3 with h3 | h3
    -- Fewer than 3 bytes: no metadata is read, and the data is not whole.
    · have h1 := readUint8List_cursor_short pre part checkpoint hshort
      rw [bind_ok (readMetadata_nil pre part checkpoint _ h3)]
      simp only [bind_ok h1]
      exact ⟨_, rfl⟩
    · -- The metadata length is there.
      have hbytes : encodePayload payload =
          toBytesBE 3 payload.metadata.length ++ (payload.metadata ++ payload.data) := by
        rw [encodePayload, hm, if_neg Bool.false_ne_true, append_assoc]
      obtain ⟨part, rfl, hrest⟩ := exists_append_of_length_le (hbytes.symm.trans h)
        (by rwa [length_toBytesBE])
      have hrestLen := congrArg List.length hrest
      rw [length_append, length_append] at hrestLen
      rw [hbytes, length_append, length_toBytesBE, length_append]
      rcases lt_or_ge part.length payload.metadata.length with hmd | hmd
      · have h1 := readInt24_cursor pre part checkpoint (toBytesBE 3 payload.metadata.length)
          (length_toBytesBE _ _)
        rw [ofBytesBE_toBytesBE_of_lt hmeta] at h1
        have h2 := readUint8List_cursor_short (pre ++ toBytesBE 3 payload.metadata.length) part
          checkpoint (show (part.length : ℤ) < payload.metadata.length by omega)
        have h0 : readMetadata true (3 + (payload.metadata.length + payload.data.length) : ℕ)
            (cursor pre (toBytesBE 3 payload.metadata.length ++ part) checkpoint) =
            .ok none (cursor (pre ++ toBytesBE 3 payload.metadata.length) part checkpoint) := by
          have hpos : payload.metadata.length > 0 := by omega
          rw [readMetadata, if_pos rfl, bind_ok h1]
          simp only [if_pos hpos, bind_ok h2]
          rfl
        rw [bind_ok h0]
        exact ⟨_, rfl⟩
      · obtain ⟨part, rfl, -⟩ := exists_append_of_length_le hrest hmd
        have h1 := readMetadata_present pre part checkpoint (payload.data.length : ℤ) hmeta
        rw [length_append] at hrestLen
        have h2 := readUint8List_cursor_short
          (pre ++ (toBytesBE 3 payload.metadata.length ++ payload.metadata)) part checkpoint
          (show (part.length : ℤ) < payload.data.length by omega)
        push_cast
        rw [← append_assoc, ← Int.add_assoc, bind_ok h1]
        simp only [bind_ok h2]
        exact ⟨_, rfl⟩

/-- Two bytes are taken when they are there. -/
theorem readInt16_taken : ∃ value pre' part',
    readInt16 (cursor pre part checkpoint) = .ok value (cursor pre' part' checkpoint) ∧
      part'.length ≤ max (part.length - 2) 1 := by
  rcases lt_or_ge part.length 2 with h | h
  · exact ⟨none, pre, part, readInt16_cursor_short pre part checkpoint h, by omega⟩
  · have htake : (part.take 2).length = 2 := by rw [length_take]; omega
    have hread := readInt16_cursor pre (part.drop 2) checkpoint (part.take 2) htake
    rw [take_append_drop] at hread
    exact ⟨_, _, _, hread, by rw [length_drop]; omega⟩

/-- Four bytes are taken when they are there. -/
theorem readInt32_taken (h : 4 ≤ part.length) :
    readInt32 (cursor pre part checkpoint) = .ok (some (ofBytesBE (part.take 4)))
      (cursor (pre ++ part.take 4) (part.drop 4) checkpoint) := by
  have hread := readInt32_cursor pre (part.drop 4) checkpoint (part.take 4)
    (by rw [length_take]; omega)
  rwa [take_append_drop] at hread

/-- The fixed fields of a SETUP frame that are cut short. -/
theorem readSetupFrame_short (header : FrameHeader) (h : part.length < 12) :
    ∃ e buffer, readSetupFrame header (cursor pre part checkpoint) = .error e buffer := by
  obtain ⟨major, pre₁, part₁, h1, hlen1⟩ := readInt16_taken pre part checkpoint
  obtain ⟨minor, pre₂, part₂, h2, hlen2⟩ := readInt16_taken pre₁ part₁ checkpoint
  rw [readSetupFrame, get_bind, bind_ok h1]
  rcases lt_or_ge part₂.length 4 with h4 | h4
  · have h3 := readInt32_cursor_short pre₂ part₂ checkpoint h4
    simp only [bind_ok h2, bind_ok h3]
    exact ⟨_, _, rfl⟩
  · have h3 := readInt32_taken pre₂ part₂ checkpoint h4
    have h5 := readInt32_cursor_short (pre₂ ++ part₂.take 4) (part₂.drop 4) checkpoint
      (by rw [length_drop]; omega)
    simp only [bind_ok h2, bind_ok h3, bind_ok h5]
    exact ⟨_, _, rfl⟩

/-- A mime type that is there is there also when more follows. -/
theorem takeMimeType_append {content : Uint8List} {mimeType : DartString} (rest : Uint8List)
    (h : takeMimeType content = some (mimeType, left)) :
    takeMimeType (content ++ rest) = some (mimeType, left ++ rest) := by
  cases content with
  | nil => cases h
  | cons length content =>
    rw [takeMimeType] at h
    by_cases hlength : length = 0 ∨ content.length < length.toNat
    · rw [if_pos hlength] at h
      cases h
    rw [if_neg hlength] at h
    have hlen : length.toNat ≤ content.length := by
      have := (not_or.mp hlength).2
      omega
    -- The string is whole already, so what follows it does not count.
    have hlen' : ¬(length = 0 ∨ (content ++ rest).length < length.toNat) := by
      rw [length_append]
      exact fun h => hlength (h.imp_right (by omega))
    rw [cons_append, takeMimeType, if_neg hlen', take_append_of_le_length hlen,
      drop_append_of_le_length hlen]
    cases hm : utf8Decode (content.take length.toNat) with
    | error => rw [hm] at h; cases h
    | ok m =>
      rw [hm] at h
      cases h
      rfl

/-- Mime types that are cut short make the reader throw. -/
theorem readSetupVariable_short (header : FrameHeader) (start interval lifetime : ℕ)
    (h : part.length < mimeTypesLength (part ++ left)) :
    ∃ e buffer, readSetupVariable header start interval lifetime (cursor pre part checkpoint) =
      .error e buffer := by
  obtain ⟨taken, rest, rfl, ⟨frame, hok⟩ | ⟨e, herror⟩⟩ :=
    consumes_readSetupVariable header start interval lifetime pre part checkpoint
  · -- A frame that is returned would have both mime types in front of the cut.
    obtain ⟨m, d, rest, tail, hm, hd⟩ := takeMimeType_of_readSetupVariable _ _ hok
    simp only [mimeTypesLength, takeMimeType_append left hm, takeMimeType_append left hd,
      Option.bind_some, length_append] at h
    omega
  · exact ⟨e, _, herror⟩

variable (header : FrameHeader)

theorem readLeaseFrame_short (h : part.length < 8) :
    ∃ buffer, readLeaseFrame header (cursor pre part checkpoint) = .ok none buffer := by
  rw [readLeaseFrame]
  rcases lt_or_ge part.length 4 with h4 | h4
  · rw [bind_ok (readInt32_cursor_short pre part checkpoint h4)]
    exact ⟨_, rfl⟩
  · have h1 := readInt32_taken pre part checkpoint h4
    have h2 := readInt32_cursor_short (pre ++ part.take 4) (part.drop 4) checkpoint
      (by rw [length_drop]; omega)
    rw [bind_ok h1]
    simp only [bind_ok h2]
    exact ⟨_, rfl⟩

theorem readRequestNFrame_short (h : part.length < 4) :
    ∃ buffer, readRequestNFrame header (cursor pre part checkpoint) = .ok none buffer := by
  rw [readRequestNFrame, bind_ok (readInt32_cursor_short pre part checkpoint h)]
  exact ⟨_, rfl⟩

theorem readKeepAliveFrame_short (h : part.length < 8) (hhdr : header.frameLength = 14)
    (hmeta : header.metaPresent = false) :
    ∃ buffer, readKeepAliveFrame header (cursor pre part checkpoint) = .ok none buffer := by
  rw [readKeepAliveFrame, get_bind]
  rcases lt_or_ge part.length 4 with h4 | h4
  · rw [bind_ok (readInt32_cursor_short pre part checkpoint h4)]
    exact ⟨_, rfl⟩
  · have h1 := readInt32_taken pre part checkpoint h4
    have hfield : (part.take 4).length = 4 := by rw [length_take]; omega
    -- With 4 bytes read, the payload's size is that of the 4 that are missing.
    have hsize := payloadSize_cursor pre (part.drop 4) checkpoint header
      (show header.frameLength = (part.take 4 ++ int32ToBytes 0).length + 6 by
        rw [length_append, hfield, hhdr, length_int32ToBytes])
    rw [length_int32ToBytes] at hsize
    have h2 : readPayload header.metaPresent 4
        (cursor (pre ++ part.take 4) (part.drop 4) checkpoint) =
        .ok none (cursor (pre ++ part.take 4) (part.drop 4) checkpoint) := by
      have h3 := readUint8List_cursor_short (pre ++ part.take 4) (part.drop 4) checkpoint
        (show ((part.drop 4).length : ℤ) < 4 by rw [length_drop]; omega)
      rw [hmeta, readPayload, bind_ok (readMetadata_absent ..)]
      simp only [bind_ok h3]
      rfl
    rw [bind_ok h1]
    simp only [readerIndex_cursor, bind_ok hsize, Nat.cast_ofNat]
    rw [if_pos (by decide), bind_ok h2]
    exact ⟨_, rfl⟩

theorem readErrorFrame_short {code : ℤ} {message : Uint8List}
    (h : int32ToBytes code ++ message = part ++ left) (hleft : left ≠ [])
    (hhdr : header.frameLength = (int32ToBytes code ++ message).length + 6) :
    ∃ buffer, readErrorFrame header (cursor pre part checkpoint) = .ok none buffer := by
  have hpos := length_pos_iff.mpr hleft
  have hlen := congrArg List.length h
  rw [length_append, length_append, length_int32ToBytes] at hlen
  rw [readErrorFrame, get_bind]
  rcases lt_or_ge part.length 4 with h4 | h4
  · rw [bind_ok (readInt32_cursor_short pre part checkpoint h4)]
    exact ⟨_, rfl⟩
  · obtain ⟨part, rfl, -⟩ := exists_append_of_length_le h (by rwa [length_int32ToBytes])
    rw [length_append, length_int32ToBytes] at hlen
    have h1 := readInt32_cursor pre part checkpoint (int32ToBytes code) (length_int32ToBytes _)
    have hsize := payloadSize_cursor pre part checkpoint header hhdr
    have h2 : readMessage message.length (cursor (pre ++ int32ToBytes code) part checkpoint) =
        .ok none (cursor (pre ++ int32ToBytes code) part checkpoint) := by
      rw [readMessage, if_pos (by omega)]
      exact readUint8List_cursor_short _ _ _ (by omega)
    rw [bind_ok h1]
    simp only [readerIndex_cursor, bind_ok hsize, bind_ok h2]
    exact ⟨_, rfl⟩

theorem readRequestChannelFrame_short (h : part.length < 4) :
    ∃ buffer, readRequestChannelFrame header (cursor pre part checkpoint) = .ok none buffer := by
  rw [readRequestChannelFrame, get_bind, bind_ok (readInt32_cursor_short pre part checkpoint h)]
  exact ⟨_, rfl⟩

/-- A REQUEST_CHANNEL frame whose payload is cut short is returned without it. -/
theorem readRequestChannelFrame_payload_short {count : ℤ}
    (h : encodePayload payload = part ++ left) (hleft : left ≠ [])
    (hmetadata : payload.metadata.length < 256 ^ 3)
    (hmeta : header.metaPresent = (metadataBit payload == 1))
    (hhdr : header.frameLength = (int32ToBytes count ++ encodePayload payload).length + 6) :
    ∃ buffer, readRequestChannelFrame header
        (cursor pre (int32ToBytes count ++ part) checkpoint) =
      .ok (some ⟨header, ofBytesBE (int32ToBytes count), none⟩) buffer := by
  have hpos := length_pos_iff.mpr hleft
  have hlen := congrArg List.length h
  rw [length_append] at hlen
  have h1 := readInt32_cursor pre part checkpoint (int32ToBytes count) (length_int32ToBytes _)
  have hsize := payloadSize_cursor pre part checkpoint header hhdr
  obtain ⟨buffer, h2⟩ := readPayload_cursor_short (pre ++ int32ToBytes count) part
    checkpoint h hleft hmetadata
  have h3 : readOptionalPayload header (encodePayload payload).length
      (cursor (pre ++ int32ToBytes count) part checkpoint) = .ok none buffer := by
    rw [readOptionalPayload, if_pos (by omega), hmeta]
    exact h2
  rw [readRequestChannelFrame, get_bind, bind_ok h1]
  simp only [readerIndex_cursor, bind_ok hsize]
  rw [if_pos (by omega), bind_ok h3]
  exact ⟨_, rfl⟩

theorem readPayloadFrame_short (h : encodePayload payload = part ++ left) (hleft : left ≠ [])
    (hmetadata : payload.metadata.length < 256 ^ 3)
    (hmeta : header.metaPresent = (metadataBit payload == 1))
    (hhdr : header.frameLength = (encodePayload payload).length + 6) :
    ∃ buffer, readPayloadFrame header (cursor pre part checkpoint) = .ok none buffer := by
  have hpos := length_pos_iff.mpr hleft
  have hlen := congrArg List.length h
  rw [length_append] at hlen
  have hsize : (header.frameLength : ℤ) + reactiveFrameLengthFieldSize - reactiveFrameHeaderSize =
      (encodePayload payload).length := by
    simp only [reactiveFrameLengthFieldSize, reactiveFrameHeaderSize]
    push_cast
    omega
  obtain ⟨buffer, h1⟩ := readPayload_cursor_short pre part checkpoint h hleft hmetadata
  rw [readPayloadFrame, hsize, hmeta, if_pos (by omega), bind_ok h1]
  exact ⟨_, rfl⟩

end Readers

/-! ## The body of a frame that is cut short -/

namespace ReactiveFrame

/-- The bytes of a frame in front of a cut make the round wait: every cut does this that is not
inside the body of a SETUP frame or the payload of a REQUEST_CHANNEL frame. -/
def CutSafe (frame : ReactiveFrame) (cut : ℕ) : Prop :=
  match frame with
  | .setup .. => cut < 9 ∨ frame.write.length ≤ cut
  | .requestChannel .. => cut < 13 ∨ frame.write.length ≤ cut
  | _ => True

/-- The bytes of a frame in front of a cut make the round throw. -/
def CutThrows (frame : ReactiveFrame) (cut : ℕ) : Prop :=
  match frame with
  | .setup _ _ metadataMimeType dataMimeType _ content =>
    9 ≤ cut ∧ cut < 21 + mimeTypesLength (setupVariable metadataMimeType dataMimeType content)
  | .requestChannel .. => 13 ≤ cut ∧ cut < frame.write.length
  | _ => False

variable {frame : ReactiveFrame} (pre : Uint8List) {part left : Uint8List} (checkpoint : ℕ)

theorem length_write (frame : ReactiveFrame) : frame.write.length = 9 + frame.body.length := by
  rw [write_eq, length_append, length_head]

/-- The responder notices a body that is cut short. -/
theorem readBody_short (hfits : frame.Fits) (activated : Bool) (hbody : frame.body = part ++ left)
    (hleft : left ≠ []) (hsafe : frame.CutSafe (9 + part.length)) :
    ∃ buffer, readBody true activated frame.header (cursor pre part checkpoint) =
      .ok .incomplete buffer := by
  have hpos := length_pos_iff.mpr hleft
  have hlen := congrArg List.length hbody
  rw [length_append] at hlen
  -- Where the source does not test for null, `CutSafe` leaves no such part.
  cases frame with
  | setup interval lifetime metadataMimeType dataMimeType leaseEnable content =>
    rw [CutSafe, length_write] at hsafe
    omega
  | lease timeToLive requests =>
    have hbytes : (body (.lease timeToLive requests)).length = 8 := by simp [body]
    obtain ⟨buffer, h⟩ := readLeaseFrame_short pre part checkpoint
      (header (.lease timeToLive requests)) (by omega)
    exact ⟨buffer, bind_ok h⟩
  | keepAlive respond lastPosition =>
    have hbytes : (body (.keepAlive respond lastPosition)).length = 8 := length_toBytesBE _ _
    obtain ⟨buffer, h⟩ := readKeepAliveFrame_short pre part checkpoint
      (header (.keepAlive respond lastPosition)) (by omega)
      (show (body (.keepAlive respond lastPosition)).length + 6 = 14 by rw [hbytes]) rfl
    exact ⟨buffer, bind_ok h⟩
  | requestN streamId count =>
    have hbytes : (body (.requestN streamId count)).length = 4 := length_int32ToBytes _
    obtain ⟨buffer, h⟩ := readRequestNFrame_short pre part checkpoint
      (header (.requestN streamId count)) (by omega)
    exact ⟨buffer, bind_ok h⟩
  | requestChannel streamId count content =>
    rw [CutSafe, length_write] at hsafe
    obtain ⟨buffer, h⟩ := readRequestChannelFrame_short pre part checkpoint
      (header (.requestChannel streamId count content)) (by omega)
    exact ⟨buffer, bind_ok h⟩
  | payload streamId completed follow content =>
    have hmeta := metadata_length_le (content.getD .empty)
    have hfits : (encodePayload (content.getD .empty)).length + 6 < 2 ^ 24 := hfits
    obtain ⟨buffer, h⟩ := readPayloadFrame_short pre part checkpoint
      (header (.payload streamId completed follow content)) hbody hleft (by omega) rfl rfl
    exact ⟨buffer, bind_ok h⟩
  | cancel streamId =>
    rw [body, length_nil] at hlen
    omega
  | error streamId code message =>
    obtain ⟨buffer, h⟩ := readErrorFrame_short pre part checkpoint
      (header (.error streamId code message)) hbody hleft rfl
    exact ⟨buffer, bind_ok h⟩

/-- The responder throws at a body that is cut short where it does not look. -/
theorem readBody_throws (hfits : frame.Fits) {activated : Bool}
    (hact : frame.type = reactiveFrameSetup → activated = false)
    (hbody : frame.body = part ++ left) (hthrows : frame.CutThrows (9 + part.length)) :
    ∃ e buffer, readBody true activated frame.header (cursor pre part checkpoint) =
      .error e buffer := by
  have hlen := congrArg List.length hbody
  rw [length_append] at hlen
  cases frame with
  | setup interval lifetime metadataMimeType dataMimeType leaseEnable content =>
    cases hact rfl
    obtain ⟨e, buffer, h⟩ : ∃ e buffer, readSetupFrame (header (.setup interval lifetime
        metadataMimeType dataMimeType leaseEnable content)) (cursor pre part checkpoint) =
        .error e buffer := by
      -- The cut is in the numbers, or in the mime types behind them.
      rcases lt_or_ge part.length 12 with h12 | h12
      · exact readSetupFrame_short _ _ _ _ h12
      · have hfixed : (setupFixed interval lifetime).length = 12 := by
          simp [setupFixed, int16ToBytes]
        rw [body, setupBody_eq] at hbody
        obtain ⟨part, rfl, hvar⟩ := exists_append_of_length_le hbody (by rwa [hfixed])
        have hcut := hthrows.2
        rw [hvar, length_append, hfixed] at hcut
        have hshort : part.length < mimeTypesLength (part ++ left) := by omega
        obtain ⟨e, buffer, h⟩ := readSetupVariable_short (pre ++ setupFixed interval lifetime) part
          checkpoint (header (.setup interval lifetime metadataMimeType dataMimeType leaseEnable
            content)) pre.length (int32Field interval) (int32Field lifetime) hshort
        exact ⟨e, buffer, (readSetupFrame_setupFixed ..).trans h⟩
    exact ⟨e, buffer, bind_error h⟩
  | requestChannel streamId count content =>
    obtain ⟨hfrom, hto⟩ := hthrows
    rw [length_write] at hto
    have hmeta := metadata_length_le content
    have hfits : (int32ToBytes count ++ encodePayload content).length + 6 < 2 ^ 24 := hfits
    rw [length_append] at hfits
    obtain ⟨part, rfl, hpay⟩ := exists_append_of_length_le
      (show int32ToBytes count ++ encodePayload content = part ++ left from hbody)
      (by rw [length_int32ToBytes]; omega)
    have hleft : left ≠ [] := by
      rintro rfl
      rw [length_nil] at hlen
      omega
    obtain ⟨buffer, h⟩ := readRequestChannelFrame_payload_short pre part checkpoint
      (header (.requestChannel streamId count content)) hpay hleft (by omega) rfl rfl
    refine ⟨.typeError, buffer, ?_⟩
    change (readRequestChannelFrame _ >>= _) _ = _
    rw [bind_ok h]
    rfl
  | lease | keepAlive | requestN | payload | cancel | error => exact hthrows.elim

/-! ## A round of the responder -/

variable {σ : Type} {broker : Broker σ} {state next : σ}

/-- In front of a whole frame, the round makes the call of the frame. -/
theorem turn_of_returns {call : BrokerCall} {result : Unit} (hcall : frame.call = some call)
    (hfits : frame.Fits) (hacc : broker.accepting state = true)
    (hact : frame.type = reactiveFrameSetup → broker.activated state = false)
    (hreturns : broker.call call state = .ok result next) (rest : Uint8List) :
    turn broker (cursor pre (frame.write ++ rest) checkpoint) state =
      .next (cursor [] rest pre.length) next := by
  have hread := readBody_call (pre ++ frame.head) rest pre.length hcall hfits hact
  rw [← readNext_write hfits] at hread
  rw [turn, save_cursor, hacc, hread]
  dsimp only
  rw [hreturns]
  dsimp only
  rw [shrink_cursor]

/-- What the call throws, the round throws, behind the frame. -/
theorem turn_of_call_throws {call : BrokerCall} {e : DartException} (hcall : frame.call = some call)
    (hfits : frame.Fits) (hacc : broker.accepting state = true)
    (hact : frame.type = reactiveFrameSetup → broker.activated state = false)
    (hthrows : broker.call call state = .error e next) (rest : Uint8List) :
    turn broker (cursor pre (frame.write ++ rest) checkpoint) state =
      .callThrew e (cursor (pre ++ frame.head ++ frame.body) rest pre.length) next := by
  have hread := readBody_call (pre ++ frame.head) rest pre.length hcall hfits hact
  rw [← readNext_write hfits] at hread
  rw [turn, save_cursor, hacc, hread]
  dsimp only
  rw [hthrows]

/-- A frame that is cut short is left for later. -/
theorem turn_of_safe (hfits : frame.Fits) (hacc : broker.accepting state = true)
    (hframe : frame.write = part ++ left) (hleft : left ≠ []) (hsafe : frame.CutSafe part.length) :
    turn broker (cursor pre part checkpoint) state = .wait (cursor pre part pre.length) := by
  have hread : ∃ buffer, readNext true (broker.activated state) (cursor pre part pre.length) =
      .ok .incomplete buffer := by
    rcases lt_or_ge part.length reactiveFrameHeaderSize with h9 | h9
    · obtain ⟨taken, rest, rfl, h⟩ := readFrameHeader_cursor_short pre part pre.length h9
      rw [readNext, bind_ok h]
      exact ⟨_, rfl⟩
    · rw [write_eq] at hframe
      obtain ⟨part, rfl, hbody⟩ := exists_append_of_length_le hframe (by rwa [length_head])
      rw [length_append, length_head] at hsafe
      rw [readNext_head hfits]
      exact readBody_short _ _ hfits _ hbody hleft hsafe
  obtain ⟨buffer, hread⟩ := hread
  obtain ⟨taken, rest, rfl, ⟨next, h, -⟩ | ⟨e, h⟩⟩ :=
    readNext_cursor true (broker.activated state) pre part pre.length
  · rw [hread] at h
    injection h with _ hbuf
    rw [turn, save_cursor, hacc, hread, hbuf]
    simp only [restore_cursor]
  · rw [hread] at h
    cases h

/-- A frame that is cut short where the responder does not look makes the round throw. -/
theorem turn_of_throws (hfits : frame.Fits) (hacc : broker.accepting state = true)
    (hact : frame.type = reactiveFrameSetup → broker.activated state = false)
    (hframe : frame.write = part ++ left) (hthrows : frame.CutThrows part.length) :
    ∃ e buffer, turn broker (cursor pre part checkpoint) state = .readThrew e buffer := by
  have h9 : 9 ≤ part.length := by
    cases frame with
    | setup => exact hthrows.1
    | requestChannel => exact le_trans (by decide) hthrows.1
    | lease | keepAlive | requestN | payload | cancel | error => exact hthrows.elim
  rw [write_eq] at hframe
  obtain ⟨part, rfl, hbody⟩ := exists_append_of_length_le hframe (by rwa [length_head])
  rw [length_append, length_head] at hthrows
  obtain ⟨e, buffer, h⟩ := readBody_throws (pre ++ frame.head) pre.length hfits hact hbody
    hthrows
  exact ⟨e, buffer, by rw [turn, save_cursor, hacc, readNext_head hfits, h]⟩

end ReactiveFrame

end FengShui.Reactive
