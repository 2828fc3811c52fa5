import FengShui.Reactive.StreamFrame
import FengShui.Reactive.WriterFrame

/-!
# The frames of a connection, written and read back

SETUP and KEEPALIVE, with the fields that the writer takes. The two sides disagree twice. The writer
announces the code units of a mime type where the reader takes bytes, so a SETUP frame comes back
exactly when its mime types are ASCII. The writer gives a position 64 bits where the reader takes
32, so a KEEPALIVE frame comes back with half a position and the other half as a payload.
-/

namespace FengShui.Reactive

open ByteString ReactiveReadBuffer ReactiveWriteBuffer ReactiveReader ReactiveWriter
  ReactiveFrame List

inductive ConnectionFrame where
  | setup (keepAliveInterval keepAliveMaxLifetime : ℕ) (metadataMimeType dataMimeType : DartString)
      (leaseEnable : Bool) (payload : ReactivePayload)
  | keepAlive (respond : Bool) (lastPosition : ℕ)
  deriving DecidableEq, Repr

/-- What the readers return. -/
inductive ReceivedFrame where
  | setup (frame : SetupFrame)
  | keepAlive (frame : KeepAliveFrame)
  deriving DecidableEq, Repr

/-- `readFrameHeader` followed by the body reader of the type in the header. -/
def readConnectionFrame : Reading (Option ReceivedFrame) := do
  let some header ← readFrameHeader | return none
  match header.type with
  | reactiveFrameSetup => return some (.setup (← readSetupFrame header))
  | reactiveFrameKeepalive =>
    let some frame ← readKeepAliveFrame header | return none
    return some (.keepAlive frame)
  | _ => return none

/-- A mime type that the length byte has room for. -/
def MimeType (mimeType : DartString) : Prop :=
  1 ≤ (utf8Encode mimeType).length ∧ (utf8Encode mimeType).length ≤ 255

instance (mimeType : DartString) : Decidable (MimeType mimeType) :=
  inferInstanceAs (Decidable (_ ∧ _))

namespace ConnectionFrame

/-- The frame among those of the writer. -/
def toFrame : ConnectionFrame → ReactiveFrame
  | .setup interval lifetime metadataMimeType dataMimeType leaseEnable content =>
    .setup interval lifetime metadataMimeType dataMimeType leaseEnable content
  | .keepAlive respond lastPosition => .keepAlive respond lastPosition

/-- The bytes that the writer of the frame's type produces. -/
def write : ConnectionFrame → Uint8List
  | .setup interval lifetime metadataMimeType dataMimeType leaseEnable content =>
    writeSetupFrame interval lifetime metadataMimeType dataMimeType leaseEnable content
  | .keepAlive respond lastPosition => writeKeepAliveFrame respond lastPosition

/-- The fields are in the range of the protocol. -/
def InRange : ConnectionFrame → Prop
  | .setup interval lifetime metadataMimeType dataMimeType _ _ =>
    interval < 2 ^ 32 ∧ lifetime < 2 ^ 32 ∧ MimeType metadataMimeType ∧ MimeType dataMimeType
  | .keepAlive _ lastPosition => lastPosition < 2 ^ 63

/-- The number of bytes behind the length field fits the 24 bits of that field. -/
def Fits (frame : ConnectionFrame) : Prop :=
  frame.write.length - reactiveFrameLengthFieldSize < 2 ^ 24

instance (frame : ConnectionFrame) : Decidable frame.InRange := by
  cases frame <;> unfold InRange <;> infer_instance

instance (frame : ConnectionFrame) : Decidable frame.Fits := inferInstanceAs (Decidable (_ < _))

/-- The fields that were written are the ones that were read, with no payload where none was
written. -/
def SameFields : ConnectionFrame → ReceivedFrame → Prop
  | .setup interval lifetime metadataMimeType dataMimeType leaseEnable content, .setup frame =>
    frame.keepAliveInterval = interval ∧ frame.keepAliveMaxLifetime = lifetime ∧
      frame.metadataMimeType = metadataMimeType ∧ frame.dataMimeType = dataMimeType ∧
      frame.leaseEnable = leaseEnable ∧ frame.payload = some content
  | .keepAlive respond lastPosition, .keepAlive frame =>
    frame.respond = respond ∧ frame.lastReceivedPosition = lastPosition ∧
      frame.payload.getD .empty = .empty
  | .setup .., .keepAlive _ => False
  | .keepAlive .., .setup _ => False

/-- In front of `rest`, the frame is read back field by field, and the reader ends behind it. -/
def RoundTrips (frame : ConnectionFrame) (pre rest : Uint8List) (checkpoint : ℕ) : Prop :=
  ∃ received,
    readConnectionFrame (cursor pre (frame.write ++ rest) checkpoint) =
      .ok (some received) (cursor (pre ++ frame.write) rest checkpoint) ∧
    frame.SameFields received

theorem write_eq_toFrame (frame : ConnectionFrame) : frame.write = frame.toFrame.write := by
  cases frame <;> rfl

theorem fits_toFrame {frame : ConnectionFrame} (hfits : frame.Fits) : frame.toFrame.Fits := by
  rw [Fits, write_eq_toFrame, write_eq, length_append, length_head,
    reactiveFrameLengthFieldSize] at hfits
  rw [ReactiveFrame.Fits]
  omega

end ConnectionFrame

/-! ## Mime types -/

section MimeType

variable {mimeType : DartString} (tail : Uint8List)

/-- The length byte of a mime type is its number of code units. -/
theorem toNat_length_of_mimeType (h : MimeType mimeType) :
    (UInt8.ofNat mimeType.length).toNat = mimeType.length := by
  have hle : mimeType.length ≤ (utf8Encode mimeType).length :=
    Unicode.length_le_length_utf8Encode mimeType
  have hmax := h.2
  rw [UInt8.toNat_ofNat', Nat.mod_eq_of_lt (by omega)]

/-- A mime type has code units. -/
theorem length_pos_of_mimeType (h : MimeType mimeType) : 0 < mimeType.length := by
  rw [length_pos_iff]
  rintro rfl
  exact absurd h.1 (by decide)

/-- A mime type that is taken back is ASCII: the bytes that the reader takes are as many as the code
units, and they are all of it only when each unit is one byte. -/
theorem ascii_of_takeMimeType (h : MimeType mimeType) {left : Uint8List}
    (htake : takeMimeType (UInt8.ofNat mimeType.length :: (utf8Encode mimeType ++ tail)) =
      some (mimeType, left)) : Unicode.Ascii mimeType := by
  have hle : mimeType.length ≤ (utf8Encode mimeType).length :=
    Unicode.length_le_length_utf8Encode mimeType
  rw [takeMimeType, toNat_length_of_mimeType h] at htake
  split at htake
  · cases htake
  · split at htake
    · rename_i decoded hread
      cases htake
      have hencode := utf8Encode_of_utf8Decode hread
      -- A byte order mark that is skipped makes what is decoded shorter still.
      have hskip : (skipBom ((utf8Encode mimeType ++ tail).take mimeType.length)).length ≤
          mimeType.length := by
        have hdrop (bytes : Uint8List) : (skipBom bytes).length ≤ bytes.length := by
          unfold skipBom
          split
          · exact (length_drop ..).trans_le (Nat.sub_le ..)
          · exact le_rfl
        exact (hdrop _).trans (length_take_le ..)
      rw [← hencode] at hskip
      exact (Unicode.length_utf8Encode_eq_iff mimeType).mp (le_antisymm hskip hle)
    · cases htake

end MimeType

section Cursor

variable (pre rest : Uint8List) (checkpoint : ℕ)

/-- An ASCII mime type is read back. -/
theorem readMimeType_of_ascii {mimeType : DartString} (h : MimeType mimeType)
    (hascii : Unicode.Ascii mimeType) :
    readMimeType
      (cursor pre (UInt8.ofNat mimeType.length :: utf8Encode mimeType ++ rest) checkpoint) =
      .ok (some mimeType) (cursor (pre ++ UInt8.ofNat mimeType.length :: utf8Encode mimeType) rest
        checkpoint) := by
  have hle : mimeType.length ≤ (utf8Encode mimeType).length :=
    Unicode.length_le_length_utf8Encode mimeType
  have hmax := h.2
  have htake := takeMimeType_of_ascii [] hascii (length_pos_iff.mp (length_pos_of_mimeType h))
    (by omega)
  obtain ⟨taken, hcont, hread⟩ := readMimeType_cursor pre rest checkpoint htake
  rw [append_nil, append_nil] at hcont
  rw [append_nil, nil_append, ← hcont] at hread
  exact hread

/-- The mime types of a SETUP frame that is returned are what was read for them, one behind the
other. -/
theorem readMimeType_of_readSetupVariable {header : FrameHeader}
    {start keepAliveInterval keepAliveMaxLifetime : ℕ} {frame : SetupFrame}
    {buffer buffer' : ReactiveReadBuffer}
    (h : readSetupVariable header start keepAliveInterval keepAliveMaxLifetime buffer =
      .ok frame buffer') :
    ∃ between behind, readMimeType buffer = .ok (some frame.metadataMimeType) between ∧
      readMimeType between = .ok (some frame.dataMimeType) behind := by
  rw [readSetupVariable] at h
  obtain ⟨metadataMimeType, between, hmeta, h⟩ := bind_eq_ok h
  obtain ⟨dataMimeType, behind, hdata, h⟩ := bind_eq_ok h
  obtain ⟨size, _, -, h⟩ := bind_eq_ok h
  obtain ⟨payload, _, -, h⟩ := bind_eq_ok h
  -- A type that is not there fails at the null check of the frame.
  cases metadataMimeType with
  | none => cases h
  | some metadataMimeType =>
    cases dataMimeType with
    | none => cases h
    | some dataMimeType =>
      cases h
      exact ⟨between, behind, hmeta, hdata⟩

/-- A mime type that is read back from its bytes is ASCII. -/
theorem ascii_of_readMimeType {mimeType : DartString} (h : MimeType mimeType)
    {buffer : ReactiveReadBuffer}
    (hread : readMimeType (cursor pre (UInt8.ofNat mimeType.length :: utf8Encode mimeType ++ rest)
      checkpoint) = .ok (some mimeType) buffer) : Unicode.Ascii mimeType := by
  obtain ⟨_, left, -, htake, -⟩ := takeMimeType_of_readMimeType pre checkpoint hread
  exact ascii_of_takeMimeType rest h htake

end Cursor

/-! ## The round trip -/

namespace ConnectionFrame

variable (pre rest : Uint8List) (checkpoint : ℕ)

/-- The header of a frame is read in front of its body. -/
theorem readFrameHeader_write {frame : ConnectionFrame} (hfits : frame.Fits) :
    readFrameHeader (cursor pre (frame.write ++ rest) checkpoint) =
      .ok (some frame.toFrame.header)
        (cursor (pre ++ frame.toFrame.head) (frame.toFrame.body ++ rest) checkpoint) := by
  have h := readFrameHeader_head pre (frame.toFrame.body ++ rest) checkpoint frame.toFrame.streamId
    frame.toFrame.body frame.toFrame.type_lt frame.toFrame.metaBit_le_one frame.toFrame.flags_lt
    (fits_toFrame hfits)
  rw [write_eq_toFrame, ReactiveFrame.write_eq, append_assoc]
  exact h

section Setup

variable {interval lifetime : ℕ} {metadataMimeType dataMimeType : DartString} {leaseEnable : Bool}
  {content : ReactivePayload}

/-- The length in the header of a SETUP frame. -/
theorem frameLength_setup :
    (toFrame (.setup interval lifetime metadataMimeType dataMimeType leaseEnable
      content)).header.frameLength =
      (setupFixed interval lifetime ++
        setupVariable metadataMimeType dataMimeType content).length + 6 := by
  rw [← setupBody_eq]
  rfl

/-- Reading a SETUP frame is reading what follows its fixed fields. -/
theorem readConnectionFrame_setup
    (hfits : (setup interval lifetime metadataMimeType dataMimeType leaseEnable content).Fits) :
    readConnectionFrame (cursor pre
        (write (.setup interval lifetime metadataMimeType dataMimeType leaseEnable content) ++ rest)
        checkpoint) =
      (do return some (.setup (← readSetupVariable
          (toFrame
            (.setup interval lifetime metadataMimeType dataMimeType leaseEnable content)).header
          (pre ++ (toFrame (.setup interval lifetime metadataMimeType dataMimeType leaseEnable
            content)).head).length (int32Field interval) (int32Field lifetime))) :
        Reading (Option ReceivedFrame))
        (cursor (pre ++ (toFrame (.setup interval lifetime metadataMimeType dataMimeType leaseEnable
            content)).head ++ setupFixed interval lifetime)
          (setupVariable metadataMimeType dataMimeType content ++ rest) checkpoint) := by
  have hhdr := readFrameHeader_write pre rest checkpoint hfits
  have hfixed := readSetupFrame_setupFixed
    (pre ++
      (toFrame (.setup interval lifetime metadataMimeType dataMimeType leaseEnable content)).head)
    (setupVariable metadataMimeType dataMimeType content ++ rest) checkpoint
    (toFrame (.setup interval lifetime metadataMimeType dataMimeType leaseEnable content)).header
    interval lifetime
  have hbody : (toFrame (.setup interval lifetime metadataMimeType dataMimeType leaseEnable
      content)).body ++ rest = setupFixed interval lifetime ++
        (setupVariable metadataMimeType dataMimeType content ++ rest) := by
    rw [← append_assoc, ← setupBody_eq]
    rfl
  rw [hbody] at hhdr
  rw [readConnectionFrame, bind_ok hhdr]
  change (readSetupFrame _ >>= _) _ = _
  change EStateM.bind _ _ _ = EStateM.bind _ _ _
  simp only [EStateM.bind, hfixed]

/-- A SETUP frame with ASCII mime types is read back. -/
theorem roundTrips_setup
    (hrange : (setup interval lifetime metadataMimeType dataMimeType leaseEnable content).InRange)
    (hfits : (setup interval lifetime metadataMimeType dataMimeType leaseEnable content).Fits)
    (hmeta : Unicode.Ascii metadataMimeType) (hdata : Unicode.Ascii dataMimeType) :
    (setup interval lifetime metadataMimeType dataMimeType leaseEnable content).RoundTrips pre rest
      checkpoint := by
  obtain ⟨hinterval, hlife, hmetaMime, hdataMime⟩ := hrange
  set frame := toFrame (.setup interval lifetime metadataMimeType dataMimeType leaseEnable content)
    with hframe
  set front := pre ++ frame.head ++ setupFixed interval lifetime with hfront
  set first := UInt8.ofNat metadataMimeType.length :: utf8Encode metadataMimeType with hfirst
  set second := UInt8.ofNat dataMimeType.length :: utf8Encode dataMimeType with hsecond
  have hvar : setupVariable metadataMimeType dataMimeType content =
      first ++ (second ++ encodePayload content) := by
    rw [setupVariable, hfirst, hsecond, append_assoc]
  -- The reader goes from field to field, as the writer did.
  have h1 := readMimeType_of_ascii front (second ++ encodePayload content ++ rest) checkpoint
    hmetaMime hmeta
  have h2 := readMimeType_of_ascii (front ++ first) (encodePayload content ++ rest) checkpoint
    hdataMime hdata
  have hlen : frame.header.frameLength =
      (setupFixed interval lifetime ++ first ++ second ++ encodePayload content).length + 6 := by
    rw [hframe, frameLength_setup, hvar]
    simp only [append_assoc]
  have h3 := payloadSize_cursor (pre ++ frame.head) (encodePayload content ++ rest) checkpoint
    frame.header hlen
  have hmeta_lt : content.metadata.length < 256 ^ 3 := by
    have hle := metadata_length_le content
    have hfits' : frame.Fits := fits_toFrame hfits
    have hbody : frame.body.length + 6 = frame.header.frameLength := rfl
    rw [ReactiveFrame.Fits, hbody, hlen, length_append] at hfits'
    omega
  have h4 := readOptionalPayload_cursor (front ++ first ++ second) rest checkpoint frame.header
    content rfl hmeta_lt
  -- The bit of the lease is the only one that the writer sets.
  have hlease : ((frame.header.flags &&& reactiveFrameSetupFlagLease) > 0) ↔ leaseEnable := by
    change (((if leaseEnable then reactiveFrameSetupFlagLease else 0) &&&
      reactiveFrameSetupFlagLease) > 0) ↔ _
    cases leaseEnable <;> decide
  refine ⟨.setup ⟨frame.header, metadataMimeType, dataMimeType, int32Field interval,
    int32Field lifetime, leaseEnable, some content⟩, ?_, ?_⟩
  · rw [readConnectionFrame_setup pre rest checkpoint hfits, hvar, ← hframe, ← hfront]
    have hwrite : pre ++ write (.setup interval lifetime metadataMimeType dataMimeType leaseEnable
        content) = front ++ first ++ second ++ encodePayload content := by
      rw [write_eq_toFrame, ReactiveFrame.write_eq, ← hframe, hfront]
      have hbody : frame.body = setupFixed interval lifetime ++
          setupVariable metadataMimeType dataMimeType content := (setupBody_eq ..)
      rw [hbody, hvar]
      simp only [append_assoc]
    have hread : readSetupVariable frame.header (pre ++ frame.head).length (int32Field interval)
        (int32Field lifetime)
        (cursor front (first ++ (second ++ encodePayload content) ++ rest) checkpoint) =
        .ok ⟨frame.header, metadataMimeType, dataMimeType, int32Field interval,
          int32Field lifetime, leaseEnable, some content⟩
          (cursor (front ++ first ++ second ++ encodePayload content) rest checkpoint) := by
      simp only [← hfirst, ← hsecond, append_assoc, hfront] at h1 h2 h3 h4 ⊢
      rw [readSetupVariable, bind_ok h1]
      simp only [bind_ok h2, bind_ok h3, bind_ok h4, hlease, Bool.decide_eq_true]
      rfl
    rw [hwrite]
    exact bind_ok hread
  · have hinterval' : int32Field interval = interval := toNat_natCast_mod hinterval
    have hlife' : int32Field lifetime = lifetime := toNat_natCast_mod hlife
    exact ⟨hinterval', hlife', rfl, rfl, rfl, rfl⟩

/-- A SETUP frame that is read back has ASCII mime types: the first one because it is read right
behind the fixed fields, and then the second one because it is read right behind the first. -/
theorem ascii_of_roundTrips
    (hrange : (setup interval lifetime metadataMimeType dataMimeType leaseEnable content).InRange)
    (hfits : (setup interval lifetime metadataMimeType dataMimeType leaseEnable content).Fits)
    (h : (setup interval lifetime metadataMimeType dataMimeType leaseEnable content).RoundTrips pre
      rest checkpoint) : Unicode.Ascii metadataMimeType ∧ Unicode.Ascii dataMimeType := by
  obtain ⟨-, -, hmetaMime, hdataMime⟩ := hrange
  obtain ⟨received, hread, hsame⟩ := h
  rw [readConnectionFrame_setup pre rest checkpoint hfits] at hread
  obtain ⟨frame, buffer, hvar, hreceived⟩ := bind_eq_ok hread
  obtain rfl : ReceivedFrame.setup frame = received := by
    cases hreceived
    rfl
  obtain ⟨-, -, hmeta, hdata, -, -⟩ := hsame
  obtain ⟨between, behind, h1, h2⟩ := readMimeType_of_readSetupVariable hvar
  rw [hmeta, setupVariable, append_assoc, append_assoc, append_assoc] at h1
  have hascii := ascii_of_readMimeType _ _ checkpoint hmetaMime h1
  refine ⟨hascii, ?_⟩
  -- With the first type known the reader stands in front of the second one.
  rw [readMimeType_of_ascii _ _ checkpoint hmetaMime hascii] at h1
  injection h1 with _ hbetween
  rw [← hbetween, hdata] at h2
  exact ascii_of_readMimeType _ _ checkpoint hdataMime h2

end Setup

/-- A KEEPALIVE frame comes back with the second half of its position for a payload. -/
theorem not_roundTrips_keepAlive {respond : Bool} {lastPosition : ℕ}
    (hfits : (keepAlive respond lastPosition).Fits) :
    ¬ (keepAlive respond lastPosition).RoundTrips pre rest checkpoint := by
  rintro ⟨received, hread, hsame⟩
  have hhdr := readFrameHeader_write pre rest checkpoint hfits
  have hlen : (int64ToBytes lastPosition).length = 8 := length_toBytesBE _ _
  have htake : ((int64ToBytes lastPosition).take 4).length = 4 := by
    rw [length_take, hlen]
    rfl
  have hdrop : ((int64ToBytes lastPosition).drop 4).length = 4 := by rw [length_drop, hlen]
  have hbody := readKeepAliveFrame_cursor (pre ++ (toFrame (.keepAlive respond lastPosition)).head)
    rest checkpoint (toFrame (.keepAlive respond lastPosition)).header htake hdrop rfl
    (show (int64ToBytes lastPosition).length + 6 = 14 by rw [hlen])
  rw [take_append_drop] at hbody
  have hframe : (toFrame (.keepAlive respond lastPosition)).body = int64ToBytes lastPosition := rfl
  rw [readConnectionFrame, bind_ok hhdr, hframe] at hread
  change (readKeepAliveFrame _ >>= _) _ = _ at hread
  rw [bind_ok hbody] at hread
  injection hread with hreceived _
  cases hreceived
  obtain ⟨-, -, hpay⟩ := hsame
  -- The reader takes four of the eight bytes of the position, and the rest for a payload.
  have hempty : (int64ToBytes lastPosition).drop 4 = [] := congrArg ReactivePayload.data hpay
  rw [hempty] at hdrop
  cases hdrop

/-- The frames that come back: SETUP frames with ASCII mime types. -/
def SetupAscii : ConnectionFrame → Prop
  | .setup _ _ metadataMimeType dataMimeType _ _ =>
    Unicode.Ascii metadataMimeType ∧ Unicode.Ascii dataMimeType
  | .keepAlive .. => False

/-- A frame of the connection is read back from its bytes, whatever stands around them, if and only
if it is a SETUP frame whose mime types are ASCII. -/
theorem roundTrips_iff {frame : ConnectionFrame} (hrange : frame.InRange) (hfits : frame.Fits) :
    frame.RoundTrips pre rest checkpoint ↔ frame.SetupAscii := by
  cases frame with
  | setup interval lifetime metadataMimeType dataMimeType leaseEnable content =>
    constructor
    · exact ascii_of_roundTrips pre rest checkpoint hrange hfits
    · rintro ⟨hmetadata, hdata⟩
      exact roundTrips_setup pre rest checkpoint hrange hfits hmetadata hdata
  | keepAlive respond lastPosition =>
    constructor
    · exact not_roundTrips_keepAlive pre rest checkpoint hfits
    · exact False.elim

/-- `text/plain` in one letter, with metadata and data. -/
theorem roundTrips_iff_setup :
    (setup 3 4 [0x61] [0x62] true ⟨[1], [2, 3]⟩).RoundTrips [7] [8] 0 ↔
      (setup 3 4 [0x61] [0x62] true ⟨[1], [2, 3]⟩).SetupAscii :=
  roundTrips_iff [7] [8] 0 (by decide) (by decide)

/-- A KEEPALIVE frame at position 1, and a SETUP frame with a mime type of one letter of two
bytes. -/
theorem not_roundTrips :
    ¬ (keepAlive false 1).RoundTrips [] [] 0 ∧
      ¬ (setup 1 1 [0xE9] [0x61] false ⟨[], []⟩).RoundTrips [] [] 0 := by
  refine ⟨not_roundTrips_keepAlive [] [] 0 (by decide), fun h => ?_⟩
  obtain ⟨hmetadata, -⟩ := ascii_of_roundTrips [] [] 0 (by decide) (by decide) h
  exact absurd (hmetadata 0xE9 (List.mem_singleton_self _)) (by decide)

end ConnectionFrame

end FengShui.Reactive
