import FengShui.Reactive.Responder

/-!
# The frames of the writer, in front of the responder

`ReactiveFrame` is the sum of all frames that `ReactiveWriter` produces, with the arguments of the
writer. Every frame is a header and a body (`write_eq`), and `call` is the call of the broker that
the frame stands for. `readBody_call` says that the responder makes that call and stops behind the
frame.

A SETUP frame may not be readable at all: the writer announces the number of code units of a mime
type and writes its UTF-8 bytes, and the reader refuses a mime type without bytes. `readSetup` reads
the part of the body behind the fixed fields as the reader does, but only within the frame.
-/

namespace FengShui.Reactive

open ByteString ReactiveReadBuffer ReactiveWriteBuffer ReactiveReader ReactiveWriter List
  ReactiveResponder

inductive ReactiveFrame where
  | setup (keepAliveInterval keepAliveMaxLifetime : ℤ) (metadataMimeType dataMimeType : DartString)
      (leaseEnable : Bool) (payload : ReactivePayload)
  | lease (timeToLive requests : ℤ)
  | keepAlive (respond : Bool) (lastPosition : ℤ)
  | requestN (streamId count : ℤ)
  | requestChannel (streamId initialRequestN : ℤ) (payload : ReactivePayload)
  | payload (streamId : ℤ) (completed follow : Bool) (payload : Option ReactivePayload)
  | cancel (streamId : ℤ)
  | error (streamId code : ℤ) (message : DartString)
  deriving DecidableEq, Repr

namespace ReactiveFrame

def write : ReactiveFrame → Uint8List
  | .setup interval lifetime metadataMimeType dataMimeType leaseEnable content =>
    writeSetupFrame interval lifetime metadataMimeType dataMimeType leaseEnable content
  | .lease timeToLive requests => writeLeaseFrame timeToLive requests
  | .keepAlive respond lastPosition => writeKeepAliveFrame respond lastPosition
  | .requestN streamId count => writeRequestNFrame streamId count
  | .requestChannel streamId count content => writeRequestChannelFrame streamId count content
  | .payload streamId completed follow content =>
    writePayloadFrame streamId completed follow content
  | .cancel streamId => writeCancelFrame streamId
  | .error streamId code message => writeErrorFrame streamId code message

def streamId : ReactiveFrame → ℤ
  | .setup .. | .lease .. | .keepAlive .. => 0
  | .requestN streamId _ | .requestChannel streamId _ _ | .payload streamId _ _ _
  | .cancel streamId | .error streamId _ _ => streamId

def type : ReactiveFrame → ℕ
  | .setup .. => reactiveFrameSetup
  | .lease .. => reactiveFrameLease
  | .keepAlive .. => reactiveFrameKeepalive
  | .requestN .. => reactiveFrameRequestN
  | .requestChannel .. => reactiveFrameRequestChannel
  | .payload .. => reactiveFramePayload
  | .cancel .. => reactiveFrameCancel
  | .error .. => reactiveFrameError

def metaBit : ReactiveFrame → ℕ
  | .setup _ _ _ _ _ content | .requestChannel _ _ content => metadataBit content
  | .payload _ _ _ content => metadataBit (content.getD .empty)
  | .lease .. | .keepAlive .. | .requestN .. | .cancel .. | .error .. => 0

def flags : ReactiveFrame → ℕ
  | .setup _ _ _ _ leaseEnable _ => if leaseEnable then reactiveFrameSetupFlagLease else 0
  | .keepAlive respond _ => if respond then reactiveFrameKeepAliveFlagRespond else 0
  | .payload _ completed follow _ => payloadFlags completed follow
  | .lease .. | .requestN .. | .requestChannel .. | .cancel .. | .error .. => 0

/-- The bytes behind the header. -/
def body : ReactiveFrame → Uint8List
  | .setup interval lifetime metadataMimeType dataMimeType _ content =>
    setupBody interval lifetime metadataMimeType dataMimeType content
  | .lease timeToLive requests => int32ToBytes timeToLive ++ int32ToBytes requests
  | .keepAlive _ lastPosition => int64ToBytes lastPosition
  | .requestN _ count => int32ToBytes count
  | .requestChannel _ count content => int32ToBytes count ++ encodePayload content
  | .payload _ _ _ content => encodePayload (content.getD .empty)
  | .cancel _ => []
  | .error _ code message => int32ToBytes code ++ utf8Encode message

/-- The length of the frame fits its 24-bit field. -/
def Fits (frame : ReactiveFrame) : Prop := frame.body.length + 6 < 2 ^ 24

instance (frame : ReactiveFrame) : Decidable frame.Fits := inferInstanceAs (Decidable (_ < _))

/-- The header of the frame, as the reader returns it. -/
def header (frame : ReactiveFrame) : FrameHeader :=
  headerOf frame.streamId frame.type frame.metaBit frame.flags frame.body

/-- The bytes of the header. -/
def head (frame : ReactiveFrame) : Uint8List :=
  toBytesBE 3 (frame.body.length + 6) ++ int32ToBytes frame.streamId ++
    [UInt8.ofNat (frame.type <<< 2 ||| frame.metaBit), UInt8.ofNat frame.flags]

@[simp]
theorem length_head (frame : ReactiveFrame) : frame.head.length = 9 := by simp [head]

/-- Every frame is a header and a body. -/
theorem write_eq (frame : ReactiveFrame) : frame.write = frame.head ++ frame.body := by
  cases frame with
  | setup interval lifetime metadataMimeType dataMimeType leaseEnable content =>
    exact writeSetupFrame_eq interval lifetime metadataMimeType dataMimeType leaseEnable content
  | lease timeToLive requests => exact writeLeaseFrame_eq timeToLive requests
  | keepAlive respond lastPosition => exact writeKeepAliveFrame_eq respond lastPosition
  | requestN streamId count => exact writeRequestNFrame_eq streamId count
  | requestChannel streamId count content =>
    exact writeRequestChannelFrame_eq streamId count content
  | payload streamId completed follow content =>
    exact writePayloadFrame_eq streamId completed follow content
  | cancel streamId => exact writeCancelFrame_eq streamId
  | error streamId code message => exact writeErrorFrame_eq streamId code message

theorem type_lt (frame : ReactiveFrame) : frame.type < 64 := by
  cases frame <;> rw [type] <;> decide

theorem metaBit_le_one (frame : ReactiveFrame) : frame.metaBit ≤ 1 := by
  cases frame <;> first | exact metadataBit_le_one _ | exact Nat.zero_le 1

theorem flags_lt (frame : ReactiveFrame) : frame.flags < 256 := by
  cases frame with
  | setup _ _ _ _ leaseEnable => cases leaseEnable <;> rw [flags] <;> decide
  | keepAlive respond => cases respond <;> rw [flags] <;> decide
  | payload _ completed follow => exact payloadFlags_lt completed follow
  | _ => exact Nat.zero_lt_succ 255

/-- The responder reads the header of the frame, and then what follows as its body. -/
theorem readNext_head {frame : ReactiveFrame} (hfits : frame.Fits) (accepting activated : Bool)
    (pre rest : Uint8List) (checkpoint : ℕ) :
    readNext accepting activated (cursor pre (frame.head ++ rest) checkpoint) =
      readBody accepting activated frame.header (cursor (pre ++ frame.head) rest checkpoint) := by
  have h := readFrameHeader_head pre rest checkpoint frame.streamId frame.body frame.type_lt
    frame.metaBit_le_one frame.flags_lt hfits
  rw [readNext]
  exact bind_ok h

theorem readNext_write {frame : ReactiveFrame} (hfits : frame.Fits) (accepting activated : Bool)
    (pre rest : Uint8List) (checkpoint : ℕ) :
    readNext accepting activated (cursor pre (frame.write ++ rest) checkpoint) =
      readBody accepting activated frame.header
        (cursor (pre ++ frame.head) (frame.body ++ rest) checkpoint) := by
  rw [write_eq, append_assoc, readNext_head hfits]

end ReactiveFrame

/-! ## The variable part of a SETUP frame -/

/-- A mime type with its length in front: none when it has no bytes, when bytes are missing and when
they are not UTF-8. -/
def takeMimeType : Uint8List → Option (DartString × Uint8List)
  | [] => none
  | length :: rest =>
    if length = 0 ∨ rest.length < length.toNat then none
    else match utf8Decode (rest.take length.toNat) with
      | .ok mimeType => some (mimeType, rest.drop length.toNat)
      | .error _ => none

/-- An ASCII mime type of one to 255 characters is read back. -/
theorem takeMimeType_of_ascii {mimeType : DartString} (rest : Uint8List)
    (hascii : Unicode.Ascii mimeType) (hne : mimeType ≠ []) (hlen : mimeType.length < 256) :
    takeMimeType (UInt8.ofNat mimeType.length :: utf8Encode mimeType ++ rest) =
      some (mimeType, rest) := by
  have hbytes : (utf8Encode mimeType).length = mimeType.length :=
    (Unicode.length_utf8Encode_eq_iff mimeType).mpr hascii
  have hlength : (UInt8.ofNat mimeType.length).toNat = (utf8Encode mimeType).length := by
    rw [hbytes, UInt8.toNat_ofNat', Nat.mod_eq_of_lt hlen]
  have hpos := length_pos_iff.mpr hne
  have hzero : UInt8.ofNat mimeType.length ≠ 0 := by
    intro h
    rw [h, hbytes] at hlength
    exact hpos.ne hlength
  have hdecode := utf8Decode_utf8Encode (Unicode.wellFormed_of_ascii hascii)
  rw [dropBom_of_ascii hascii] at hdecode
  have hshort : ¬(utf8Encode mimeType ++ rest).length < (utf8Encode mimeType).length := by
    rw [length_append]
    omega
  rw [cons_append, takeMimeType, hlength, if_neg (not_or.mpr ⟨hzero, hshort⟩), take_left,
    hdecode, drop_left]

/-- The payload of a SETUP frame that is not there, has no metadata, or has metadata of a length
within the frame. -/
def payloadReadable (metaPresent : Bool) (content : Uint8List) : Bool :=
  content.isEmpty || !metaPresent ||
    (3 ≤ content.length && 3 + ofBytesBE (content.take 3) ≤ content.length)

/-- The mime types of a SETUP frame, from what follows the fixed fields. -/
def readSetup (metaPresent : Bool) (content : Uint8List) : Option (DartString × DartString) := do
  let (metadataMimeType, content) ← takeMimeType content
  let (dataMimeType, content) ← takeMimeType content
  if payloadReadable metaPresent content then some (metadataMimeType, dataMimeType) else none

section Cursor

variable (pre rest : Uint8List) (checkpoint : ℕ)

variable {content : Uint8List} {buffer : ReactiveReadBuffer} {header : FrameHeader}

theorem readMimeType_cursor {left : Uint8List} {mimeType : DartString}
    (h : takeMimeType content = some (mimeType, left)) :
    ∃ taken, content = taken ++ left ∧
      readMimeType (cursor pre (content ++ rest) checkpoint) =
        .ok (some mimeType) (cursor (pre ++ taken) (left ++ rest) checkpoint) := by
  cases content with
  | nil => cases h
  | cons length content =>
    rw [takeMimeType] at h
    by_cases hlength : length = 0 ∨ content.length < length.toNat
    · rw [if_pos hlength] at h
      cases h
    rw [if_neg hlength] at h
    obtain ⟨hzero, hlen⟩ := not_or.mp hlength
    have hsplit := take_append_drop length.toNat content
    have htake : (content.take length.toNat).length = length.toNat := by
      rw [length_take]
      omega
    -- The string is not empty, so the reader does not take it for absent.
    have hne : (content.take length.toNat).isEmpty = false := by
      rw [isEmpty_eq_false_iff, ← length_pos_iff, htake]
      exact Nat.pos_of_ne_zero fun h => hzero (UInt8.toNat.inj h)
    have h1 := readInt8_cursor pre (content ++ rest) checkpoint length
    have h2 := readBytes_cursor (pre ++ [length]) (content.drop length.toNat ++ rest) checkpoint
      (content.take length.toNat) (congrArg Nat.cast htake.symm)
    rw [← append_assoc, hsplit] at h2
    cases hm : utf8Decode (content.take length.toNat) with
    | error => rw [hm] at h; cases h
    | ok m =>
      rw [hm] at h
      cases h
      refine ⟨length :: content.take length.toNat, by rw [cons_append, hsplit], ?_⟩
      rw [readMimeType, cons_append, bind_ok h1]
      simp only [bind_ok h2, hne, hm, append_assoc]
      rfl

/-- A mime type that is read within the frame is one that is there. -/
theorem takeMimeType_of_readMimeType {mimeType : DartString}
    (h : readMimeType (cursor pre content checkpoint) = .ok (some mimeType) buffer) :
    ∃ taken left, content = taken ++ left ∧ takeMimeType content = some (mimeType, left) ∧
      buffer = cursor (pre ++ taken) left checkpoint := by
  cases content with
  | nil =>
    rw [readMimeType, bind_ok (readInt8_cursor_nil ..)] at h
    cases h
  | cons length content =>
    have h1 := readInt8_cursor pre content checkpoint length
    rw [readMimeType, bind_ok h1] at h
    simp only at h
    -- A read past the end gives null, and null is no mime type.
    rcases lt_or_ge content.length length.toNat with hshort | hlong
    · have h2 := readBytes_cursor_short (pre ++ [length]) content checkpoint
        (show (content.length : ℤ) < length.toNat by omega)
      rw [bind_ok h2] at h
      cases h
    · have hsplit := take_append_drop length.toNat content
      have htake : (content.take length.toNat).length = length.toNat := by
        rw [length_take]
        omega
      have h2 := readBytes_cursor (pre ++ [length]) (content.drop length.toNat) checkpoint
        (content.take length.toNat) (congrArg Nat.cast htake.symm)
      rw [hsplit] at h2
      rw [bind_ok h2] at h
      simp only at h
      split at h
      · cases h
      next hne =>
      have hzero : length ≠ 0 := by
        rintro rfl
        exact hne rfl
      cases hm : utf8Decode (content.take length.toNat) with
      | error => rw [hm] at h; cases h
      | ok m =>
        rw [hm] at h
        cases h
        refine ⟨length :: content.take length.toNat, content.drop length.toNat,
          by rw [cons_append, hsplit], ?_, by simp⟩
        rw [takeMimeType, if_neg (by simp [hzero]; omega), hm]

/-- What is left for the payload of a SETUP frame is read to the end. -/
theorem readOptionalPayload_of_readable (h : payloadReadable header.metaPresent content) :
    ∃ payload, readOptionalPayload header content.length
        (cursor pre (content ++ rest) checkpoint) =
      .ok payload (cursor (pre ++ content) rest checkpoint) := by
  unfold readOptionalPayload
  split
  · next hpos =>
    have hne : content.isEmpty = false := by
      rw [isEmpty_eq_false_iff, ← length_pos_iff]
      omega
    cases hmeta : header.metaPresent with
    | false =>
      have h1 := readUint8List_cursor pre rest checkpoint content rfl
      refine ⟨some ⟨emptyBytes, content⟩, ?_⟩
      rw [readPayload, bind_ok (readMetadata_absent ..)]
      simp only [bind_ok h1]
      rfl
    | true =>
      simp only [payloadReadable, hne, hmeta, Bool.not_true, Bool.or_false, Bool.false_or,
        Bool.and_eq_true, decide_eq_true_eq] at h
      obtain ⟨h3, hlen⟩ := h
      obtain ⟨field, left, rfl, hfield⟩ : ∃ field left, content = field ++ left ∧
          field.length = 3 :=
        ⟨content.take 3, content.drop 3, (take_append_drop ..).symm, by
          rw [length_take]; omega⟩
      rw [← hfield, take_left, length_append] at hlen
      -- The announced length is that of the frame's own bytes, whatever follows the frame.
      have hn : ofBytesBE field ≤ left.length := by omega
      have h1 := readMetadata_announced pre checkpoint ((field ++ left).length : ℤ) hfield
        (show ofBytesBE field ≤ (left ++ rest).length by rw [length_append]; omega)
      rw [take_append_of_le_length hn, drop_append_of_le_length hn] at h1
      have h2 := readUint8List_cursor (pre ++ (field ++ left.take (ofBytesBE field))) rest
        checkpoint (left.drop (ofBytesBE field))
        (show ((field ++ left).length : ℤ) - 3 - ofBytesBE field = _ by
          rw [length_append, length_drop, hfield]; omega)
      rw [append_assoc pre, append_assoc field, take_append_drop] at h2
      refine ⟨some ⟨left.take (ofBytesBE field), left.drop (ofBytesBE field)⟩, ?_⟩
      rw [readPayload, append_assoc, bind_ok h1]
      simp only [bind_ok h2]
      rfl
  · next hpos =>
    obtain rfl : content = [] := eq_nil_of_length_eq_zero (by omega)
    rw [append_nil, nil_append]
    exact ⟨some ⟨emptyBytes, emptyBytes⟩, rfl⟩

/-- Otherwise the reader throws when enough bytes follow the frame. -/
theorem readOptionalPayload_of_not_readable
    (h : payloadReadable header.metaPresent content = false) (hrest : 2 ^ 24 + 3 ≤ rest.length) :
    ∃ e buffer, readOptionalPayload header content.length
        (cursor pre (content ++ rest) checkpoint) = .error e buffer := by
  simp only [payloadReadable, Bool.or_eq_false_iff, Bool.not_eq_false', Bool.and_eq_false_iff,
    decide_eq_false_iff_not] at h
  obtain ⟨⟨hne, hmeta⟩, hlen⟩ := h
  have hpos : (content.length : ℤ) > 0 := by
    rw [isEmpty_eq_false_iff, ← length_pos_iff] at hne
    omega
  -- The length of the metadata may be read from behind the frame.
  obtain ⟨field, left, hsplit, hfield⟩ : ∃ field left, content ++ rest = field ++ left ∧
      field.length = 3 :=
    ⟨(content ++ rest).take 3, (content ++ rest).drop 3, (take_append_drop ..).symm, by
      rw [length_take, length_append]; omega⟩
  have hshort : content.length < 3 + ofBytesBE field := by
    rcases lt_or_ge content.length 3 with h3 | h3
    · omega
    · have htake : content.take 3 = field := by
        have := congrArg (List.take 3) hsplit
        rwa [take_append_of_le_length h3, take_append_of_le_length hfield.ge,
          take_of_length_le hfield.le] at this
      rw [htake] at hlen
      omega
  have hlt := ofBytesBE_lt field
  rw [hfield] at hlt
  have hleft : ofBytesBE field ≤ left.length := by
    have := congrArg List.length hsplit
    rw [length_append, length_append, hfield] at this
    omega
  have h1 := readMetadata_announced pre checkpoint (content.length : ℤ) hfield hleft
  have h2 := readBytes_cursor_neg (pre ++ (field ++ left.take (ofBytesBE field)))
    (left.drop (ofBytesBE field)) checkpoint
    (show (content.length : ℤ) - 3 - ofBytesBE field < 0 by omega)
  rw [readOptionalPayload, if_pos hpos, hmeta, hsplit, readPayload, bind_ok h1]
  exact ⟨_, _, bind_error h2⟩

/-- What follows the fixed fields of a SETUP frame is read when it is readable within the frame. -/
theorem readSetupVariable_of_readable {fixed : Uint8List}
    {metadataMimeType dataMimeType : DartString} (keepAliveInterval keepAliveMaxLifetime : ℕ)
    (h : readSetup header.metaPresent content = some (metadataMimeType, dataMimeType))
    (hhdr : header.frameLength = (fixed ++ content).length + 6) :
    ∃ payload, readSetupVariable header pre.length keepAliveInterval keepAliveMaxLifetime
        (cursor (pre ++ fixed) (content ++ rest) checkpoint) =
      .ok ⟨header, metadataMimeType, dataMimeType, keepAliveInterval, keepAliveMaxLifetime,
          decide ((header.flags &&& reactiveFrameSetupFlagLease) > 0), payload⟩
        (cursor (pre ++ (fixed ++ content)) rest checkpoint) := by
  obtain ⟨⟨m, left⟩, hm, h⟩ := Option.bind_eq_some_iff.mp h
  obtain ⟨⟨d, tail⟩, hd, h⟩ := Option.bind_eq_some_iff.mp h
  simp only [Option.ite_none_right_eq_some, Option.some.injEq, Prod.mk.injEq] at h
  obtain ⟨hreadable, rfl, rfl⟩ := h
  -- The metadata's mime type comes first, then that of the data, then the payload.
  obtain ⟨first, rfl, h1⟩ := readMimeType_cursor (pre ++ fixed) rest checkpoint hm
  obtain ⟨second, rfl, h2⟩ := readMimeType_cursor (pre ++ fixed ++ first) rest checkpoint hd
  have h3 := payloadSize_cursor pre (tail ++ rest) checkpoint header
    (show header.frameLength = (fixed ++ first ++ second ++ tail).length + 6 by
      simpa only [append_assoc] using hhdr)
  obtain ⟨payload, h4⟩ := readOptionalPayload_of_readable (pre ++ (fixed ++ first ++ second)) rest
    checkpoint hreadable
  refine ⟨payload, ?_⟩
  simp only [← append_assoc] at h1 h2 h3 h4 ⊢
  rw [readSetupVariable, bind_ok h1]
  simp only [bind_ok h2, bind_ok h3, bind_ok h4]
  rfl

/-- A SETUP frame that is returned has both mime types. -/
theorem takeMimeType_of_readSetupVariable {start keepAliveInterval keepAliveMaxLifetime : ℕ}
    {frame : SetupFrame}
    (h : readSetupVariable header start keepAliveInterval keepAliveMaxLifetime
      (cursor pre content checkpoint) = .ok frame buffer) :
    ∃ m d left tail, takeMimeType content = some (m, left) ∧
      takeMimeType left = some (d, tail) := by
  rw [readSetupVariable] at h
  obtain ⟨m, b₁, h1, h⟩ := bind_eq_ok h
  obtain ⟨d, b₂, h2, h⟩ := bind_eq_ok h
  obtain ⟨size, b₃, -, h⟩ := bind_eq_ok h
  obtain ⟨payload, b₄, -, h⟩ := bind_eq_ok h
  cases m with
  | none => cases h
  | some m =>
    cases d with
    | none => cases h
    | some d =>
      obtain ⟨first, left, rfl, hm, rfl⟩ := takeMimeType_of_readMimeType _ _ h1
      obtain ⟨second, tail, rfl, hd, rfl⟩ := takeMimeType_of_readMimeType _ _ h2
      exact ⟨m, d, _, _, hm, hd⟩

/-- What is read whatever follows the frame is readable within the frame. -/
theorem readable_of_readSetupVariable {fixed : Uint8List}
    (keepAliveInterval keepAliveMaxLifetime : ℕ)
    (hhdr : header.frameLength = (fixed ++ content).length + 6)
    (h : ∀ rest, ∃ frame buffer,
      readSetupVariable header pre.length keepAliveInterval keepAliveMaxLifetime
        (cursor (pre ++ fixed) (content ++ rest) checkpoint) = .ok frame buffer) :
    (readSetup header.metaPresent content).isSome := by
  -- With nothing behind the frame, the mime types are read within it.
  obtain ⟨frame, buffer, h0⟩ := h []
  rw [append_nil] at h0
  obtain ⟨m, d, left, tail, hm, hd⟩ := takeMimeType_of_readSetupVariable _ _ h0
  simp only [readSetup, hm, hd, Option.bind_eq_bind, Option.bind_some]
  -- With enough bytes behind it, a payload that is not readable makes the reader throw.
  cases hreadable : payloadReadable header.metaPresent tail with
  | true => rfl
  | false =>
    obtain ⟨frame, buffer, hok⟩ := h (List.replicate (2 ^ 24 + 3) 0)
    obtain ⟨first, rfl, h1⟩ := readMimeType_cursor (pre ++ fixed)
      (List.replicate (2 ^ 24 + 3) 0) checkpoint hm
    obtain ⟨second, rfl, h2⟩ := readMimeType_cursor (pre ++ fixed ++ first)
      (List.replicate (2 ^ 24 + 3) 0) checkpoint hd
    have h3 := payloadSize_cursor pre (tail ++ List.replicate (2 ^ 24 + 3) 0) checkpoint header
      (show header.frameLength = (fixed ++ first ++ second ++ tail).length + 6 by
        simpa only [append_assoc] using hhdr)
    obtain ⟨e, buffer', h4⟩ := readOptionalPayload_of_not_readable
      (pre ++ (fixed ++ first ++ second)) (List.replicate (2 ^ 24 + 3) 0) checkpoint hreadable
      (by rw [length_replicate])
    simp only [← append_assoc] at h1 h2 h3 h4 hok
    rw [readSetupVariable, bind_ok h1] at hok
    simp only [bind_ok h2, bind_ok h3, bind_error h4] at hok
    cases hok

end Cursor

/-! ## The call of a frame -/

/-- The number that a 32-bit field of the writer's argument is read as. -/
def int32Field (value : ℤ) : ℕ := (value % 2 ^ 32).toNat

/-- The fixed fields of a SETUP frame. -/
def setupFixed (keepAliveInterval keepAliveMaxLifetime : ℤ) : Uint8List :=
  int16ToBytes reactiveProtocolMajorVersion ++ int16ToBytes reactiveProtocolMinorVersion ++
    int32ToBytes keepAliveInterval ++ int32ToBytes keepAliveMaxLifetime

/-- The part of a SETUP frame behind the fixed fields. -/
def setupVariable (metadataMimeType dataMimeType : DartString) (content : ReactivePayload) :
    Uint8List :=
  UInt8.ofNat metadataMimeType.length :: utf8Encode metadataMimeType ++
    UInt8.ofNat dataMimeType.length :: utf8Encode dataMimeType ++ encodePayload content

namespace ReactiveFrame

/-- The call that the frame stands for, none for a SETUP frame that is not readable. -/
def call : ReactiveFrame → Option BrokerCall
  | .setup interval lifetime metadataMimeType dataMimeType leaseEnable content =>
    (readSetup (metadataBit content == 1)
      (setupVariable metadataMimeType dataMimeType content)).map fun mimeTypes =>
        .setup mimeTypes.2 mimeTypes.1 (int32Field interval) (int32Field lifetime) leaseEnable
  | .lease timeToLive requests => some (.lease (int32Field timeToLive) (int32Field requests))
  | .keepAlive respond _ => some (.pong respond)
  | .requestN streamId count => some (.request (int32Field streamId) (int32Field count))
  | .requestChannel streamId count content =>
    some (.initiate (int32Field streamId) (int32Field count) content)
  | .payload streamId completed follow content =>
    some (.receive (int32Field streamId) (content.getD .empty) completed (!completed && follow))
  | .cancel streamId => some (.cancel (int32Field streamId))
  | .error streamId code message =>
    some (.handle (int32Field streamId) (int32Field code) (dropBom (Unicode.repair message)))

/-- The body of a SETUP frame is its fixed fields and what follows them. -/
theorem setupBody_eq (keepAliveInterval keepAliveMaxLifetime : ℤ)
    (metadataMimeType dataMimeType : DartString) (content : ReactivePayload) :
    setupBody keepAliveInterval keepAliveMaxLifetime metadataMimeType dataMimeType content =
      setupFixed keepAliveInterval keepAliveMaxLifetime ++
        setupVariable metadataMimeType dataMimeType content := by
  simp only [setupBody, setupFixed, setupVariable, append_assoc, cons_append]

variable (pre rest : Uint8List) (checkpoint : ℕ)

/-- The fixed fields of a SETUP frame. -/
theorem readSetupFrame_setupFixed (header : FrameHeader)
    (keepAliveInterval keepAliveMaxLifetime : ℤ) :
    readSetupFrame header
        (cursor pre (setupFixed keepAliveInterval keepAliveMaxLifetime ++ rest) checkpoint) =
      readSetupVariable header pre.length (int32Field keepAliveInterval)
        (int32Field keepAliveMaxLifetime)
        (cursor (pre ++ setupFixed keepAliveInterval keepAliveMaxLifetime) rest checkpoint) := by
  -- Version, interval and lifetime, each read behind the one before it.
  have h1 := readInt16_cursor pre (int16ToBytes reactiveProtocolMinorVersion ++
    (int32ToBytes keepAliveInterval ++ (int32ToBytes keepAliveMaxLifetime ++ rest))) checkpoint
    (int16ToBytes reactiveProtocolMajorVersion) (length_toBytesBE _ _)
  have h2 := readInt16_cursor (pre ++ int16ToBytes reactiveProtocolMajorVersion)
    (int32ToBytes keepAliveInterval ++ (int32ToBytes keepAliveMaxLifetime ++ rest)) checkpoint
    (int16ToBytes reactiveProtocolMinorVersion) (length_toBytesBE _ _)
  have h3 := readInt32_cursor (pre ++ int16ToBytes reactiveProtocolMajorVersion ++
      int16ToBytes reactiveProtocolMinorVersion)
    (int32ToBytes keepAliveMaxLifetime ++ rest) checkpoint
    (int32ToBytes keepAliveInterval) (length_int32ToBytes _)
  have h4 := readInt32_cursor (pre ++ int16ToBytes reactiveProtocolMajorVersion ++
      int16ToBytes reactiveProtocolMinorVersion ++ int32ToBytes keepAliveInterval) rest checkpoint
    (int32ToBytes keepAliveMaxLifetime) (length_int32ToBytes _)
  rw [setupFixed, readSetupFrame, get_bind]
  simp only [append_assoc] at h1 h2 h3 h4 ⊢
  rw [bind_ok h1]
  simp only [bind_ok h2, bind_ok h3, bind_ok h4, ofBytesBE_int32ToBytes]
  rfl

/-- **The responder makes the call of the frame and stops behind it**, when the broker accepts and,
for a SETUP frame, is not activated. -/
theorem readBody_call {frame : ReactiveFrame} {activated : Bool} {call : BrokerCall}
    (hcall : frame.call = some call) (hfits : frame.Fits)
    (hact : frame.type = reactiveFrameSetup → activated = false) :
    readBody true activated frame.header (cursor pre (frame.body ++ rest) checkpoint) =
      .ok (.frame call) (cursor (pre ++ frame.body) rest checkpoint) := by
  cases frame with
  | setup interval lifetime metadataMimeType dataMimeType leaseEnable content =>
    cases hact rfl
    obtain ⟨⟨m, d⟩, hread, rfl⟩ := Option.map_eq_some_iff.mp hcall
    have h0 := readSetupFrame_setupFixed pre (setupVariable metadataMimeType dataMimeType content ++
      rest) checkpoint (header (.setup interval lifetime metadataMimeType dataMimeType leaseEnable
        content)) interval lifetime
    have hhdr : (header (.setup interval lifetime metadataMimeType dataMimeType leaseEnable
        content)).frameLength = (setupFixed interval lifetime ++
          setupVariable metadataMimeType dataMimeType content).length + 6 := by
      rw [← setupBody_eq]
      rfl
    have hmimeTypes : readSetup (header (.setup interval lifetime metadataMimeType dataMimeType
        leaseEnable content)).metaPresent (setupVariable metadataMimeType dataMimeType content) =
          some (m, d) := hread
    obtain ⟨_, h1⟩ := readSetupVariable_of_readable pre rest checkpoint (int32Field interval)
      (int32Field lifetime) hmimeTypes hhdr
    rw [← append_assoc, ← setupBody_eq, h1, ← setupBody_eq] at h0
    -- The flag that the writer set is the one that the reader tests.
    have hlease : ((flags (.setup interval lifetime metadataMimeType dataMimeType leaseEnable
        content) &&& reactiveFrameSetupFlagLease) > 0) ↔ leaseEnable := by
      rw [flags]
      cases leaseEnable <;> decide
    change (readSetupFrame _ >>= _) _ = _
    rw [body, bind_ok h0]
    simp only [header, headerOf, hlease, Bool.decide_eq_true]
    rfl
  | lease timeToLive requests =>
    cases hcall
    exact bind_ok (readLeaseFrame_cursor pre rest checkpoint
      (header (.lease timeToLive requests)) timeToLive requests)
  | keepAlive respond lastPosition =>
    cases hcall
    have hlen : (int64ToBytes lastPosition).length = 8 := length_toBytesBE _ _
    have htake : ((int64ToBytes lastPosition).take 4).length = 4 := by rw [length_take, hlen]; rfl
    have hdrop : ((int64ToBytes lastPosition).drop 4).length = 4 := by rw [length_drop, hlen]
    have h :=
      readKeepAliveFrame_cursor pre rest checkpoint (header (.keepAlive respond lastPosition))
      htake hdrop rfl
      (show (int64ToBytes lastPosition).length + 6 = 14 by rw [hlen])
    rw [take_append_drop] at h
    have hrespond : ((flags (.keepAlive respond lastPosition) &&&
        reactiveFrameKeepAliveFlagRespond) > 0) ↔ respond := by
      rw [flags]
      cases respond <;> decide
    change (readKeepAliveFrame _ >>= _) _ = _
    rw [body, bind_ok h]
    simp only [header, headerOf, hrespond, Bool.decide_eq_true]
    rfl
  | requestN streamId count =>
    cases hcall
    exact bind_ok (readRequestNFrame_cursor pre rest checkpoint
      (header (.requestN streamId count)) count)
  | requestChannel streamId count content =>
    cases hcall
    have hmeta := metadata_length_le content
    have hlen : (int32ToBytes count ++ encodePayload content).length + 6 < 2 ^ 24 := hfits
    rw [length_append] at hlen
    exact bind_ok (readRequestChannelFrame_cursor pre rest checkpoint
      (header (.requestChannel streamId count content)) count content rfl rfl (by omega))
  | payload streamId completed follow content =>
    cases hcall
    have hmeta := metadata_length_le (content.getD .empty)
    have hlen : (encodePayload (content.getD .empty)).length + 6 < 2 ^ 24 := hfits
    have h := readPayloadFrame_cursor pre rest checkpoint
      (header (.payload streamId completed follow content)) (content.getD .empty) rfl rfl (by omega)
    have hfollow : ((payloadFlags completed follow &&& reactiveFrameHeaderFlagFollow) > 0) ↔
        (!completed && follow) := by
      cases completed <;> cases follow <;> decide
    change (readPayloadFrame _ >>= _) _ = _
    rw [body, bind_ok h]
    simp only [header, headerOf, flags, payloadFlags_complete, hfollow, Bool.decide_eq_true]
    rfl
  | cancel streamId =>
    cases hcall
    rw [body, append_nil]
    rfl
  | error streamId code message =>
    cases hcall
    have h := readErrorFrame_cursor pre rest checkpoint (header (.error streamId code message)) code
      (utf8Encode message) rfl
    rw [utf8Decode_utf8Encode_repair] at h
    exact bind_ok h

end ReactiveFrame

end FengShui.Reactive
