import FengShui.Core.TupleConformance
import FengShui.Lib.MessagePackValues

/-!
# What a reader of MessagePack makes of a value

`renderings` puts what is written of a value beside what it means, token by token: an integer from
128 to 255 is written twice, and a string that is not ASCII as the first of its bytes.
`all_eq_of_append_eq` says that a reader which takes one for the other was never out of step.
-/

namespace FengShui

open ByteString MessagePack List

/-- A token that is meant, and those that are written for it. -/
structure Rendering where
  meant : Token
  written : List Token

namespace Rendering

def plain (token : Token) : Rendering := ⟨token, [token]⟩

def ofInt (value : ℤ) : Rendering where
  meant := .leaf (.int value)
  written :=
    if value > 0x7f ∧ value ≤ 0xFF then [.leaf (.int value), .leaf (.int value)]
      else [.leaf (.int value)]

/-- As many bytes are written as there are code units. -/
def ofString (value : DartString) : Rendering where
  meant := .leaf (.string (utf8Encode value))
  written := [.leaf (.string ((encodeBytes value).take value.length))]

/-- What is written is what is meant. -/
def Faithful (rendering : Rendering) : Prop := rendering.written = [rendering.meant]

end Rendering

mutual

/-- The value that a MessagePack reader is meant to get. -/
def meantOf : TupleValue → Value
  | .null => .leaf .nil
  | .bool value => .leaf (.bool value)
  | .int value => .leaf (.int value.toInt)
  | .double bits => .leaf (.float 8 bits.toNat)
  | .string value => .leaf (.string (utf8Encode value))
  | .binary value => .leaf (.binary value)
  | .list items => .array (meantOfItems items)
  | .map entries => .map (meantOfEntries entries)

def meantOfItems : List TupleValue → List Value
  | [] => []
  | item :: items => meantOf item :: meantOfItems items

def meantOfEntries : List (TupleValue × TupleValue) → List (Value × Value)
  | [] => []
  | (key, value) :: entries => (meantOf key, meantOf value) :: meantOfEntries entries

end

mutual

def renderings : TupleValue → List Rendering
  | .null => [.plain (.leaf .nil)]
  | .bool value => [.plain (.leaf (.bool value))]
  | .int value => [.ofInt value.toInt]
  | .double bits => [.plain (.leaf (.float 8 bits.toNat))]
  | .string value => [.ofString value]
  | .binary value => [.plain (.leaf (.binary value))]
  | .list items => .plain (.array items.length) :: renderingsOfItems items
  | .map entries => .plain (.map entries.length) :: renderingsOfEntries entries

def renderingsOfItems : List TupleValue → List Rendering
  | [] => []
  | item :: items => renderings item ++ renderingsOfItems items

def renderingsOfEntries : List (TupleValue × TupleValue) → List Rendering
  | [] => []
  | (key, value) :: entries => (renderings key ++ renderings value) ++ renderingsOfEntries entries

end

/-! ## What is meant -/

theorem meantOfItems_eq (items : List TupleValue) : meantOfItems items = items.map meantOf := by
  induction items with
  | nil => rfl
  | cons item items ih => exact congrArg (meantOf item :: ·) ih

theorem length_meantOfEntries (entries : List (TupleValue × TupleValue)) :
    (meantOfEntries entries).length = entries.length := by
  induction entries with
  | nil => rfl
  | cons entry entries ih => exact congrArg (· + 1) ih

mutual

theorem tokens_meantOf : ∀ value : TupleValue,
    (meantOf value).tokens = (renderings value).map Rendering.meant
  | .null | .bool _ | .int _ | .double _ | .string _ | .binary _ => rfl
  | .list items => by
    have hitems := tokens_meantOfItems items
    have hlen : (meantOfItems items).length = items.length := by rw [meantOfItems_eq, length_map]
    rw [meantOf, Value.tokens, renderings, map_cons, hitems, hlen]
    rfl
  | .map entries => by
    have hents := tokens_meantOfEntries entries
    rw [meantOf, Value.tokens, renderings, map_cons, hents, length_meantOfEntries]
    rfl

theorem tokens_meantOfItems : ∀ items : List TupleValue,
    Value.tokensOfItems (meantOfItems items) = (renderingsOfItems items).map Rendering.meant
  | [] => rfl
  | item :: items => by
    rw [meantOfItems, Value.tokensOfItems, renderingsOfItems, map_append, tokens_meantOf item,
      tokens_meantOfItems items]

theorem tokens_meantOfEntries : ∀ entries : List (TupleValue × TupleValue),
    Value.tokensOfEntries (meantOfEntries entries) =
      (renderingsOfEntries entries).map Rendering.meant
  | [] => rfl
  | (key, value) :: entries => by
    rw [meantOfEntries, Value.tokensOfEntries, renderingsOfEntries, map_append, map_append,
      tokens_meantOf key, tokens_meantOf value, tokens_meantOfEntries entries]

end

/-! ## What is written -/

section Written

variable {rest : Uint8List}

theorem spelled_intBytes {value : ℤ} (hlow : -2 ^ 63 ≤ value) (hhigh : value < 2 ^ 63)
    (rest : Uint8List) : Spelled (Rendering.ofInt value).written (intBytes value ++ rest) rest := by
  unfold Rendering.ofInt
  by_cases h : value > 0x7f ∧ value ≤ 0xFF
  · -- Once in a byte and once in two.
    have hbytes : intBytes value = IntFormat.uint8.encode value ++
        IntFormat.uint16.encode value := by
      unfold intBytes largeBytes
      rw [if_pos (by omega), if_neg (by omega), if_pos h.2, if_pos (by omega), ← append_assoc]
      rfl
    have hfirst : IntFormat.uint8.Holds value := ⟨by dsimp only [IntFormat.range]; omega, h.2⟩
    have hsecond : IntFormat.uint16.Holds value :=
      ⟨by dsimp only [IntFormat.range]; omega, by dsimp only [IntFormat.range]; omega⟩
    rw [if_pos h, hbytes, append_assoc]
    exact .cons (readToken_int hfirst _) (.singleton (readToken_int hsecond rest))
  · have hholds : (formatOf value).Holds value := holds_formatOf (by omega) (by omega)
    rw [if_neg h, intBytes_eq (by omega)]
    exact .singleton (readToken_int hholds rest)

theorem spelled_stringBytes {value : DartString} (h : value.length ≤ 0xFFFFFFFF)
    (rest : Uint8List) :
    Spelled (Rendering.ofString value).written (stringBytes value ++ rest) rest := by
  obtain ⟨header, hhdr, hbytes⟩ := exists_stringBytes h
  rw [← length_units value] at hhdr
  rw [hbytes, append_assoc]
  exact .singleton (readToken_string hhdr rest)

theorem spelled_binaryBytes {value : Uint8List} (h : value.length ≤ 0xFFFFFFFF) (rest : Uint8List) :
    Spelled [.leaf (.binary value)] (binaryBytes value ++ rest) rest := by
  apply Spelled.singleton
  unfold binaryBytes
  split_ifs with h₁ h₂
  · rw [numberBytes_natCast, append_assoc, append_assoc]
    exact readToken_sized 0xc4 (by decide) (by decide) rfl (Nat.lt_succ_of_le h₁) rest
  · rw [numberBytes_natCast, append_assoc, append_assoc]
    exact readToken_sized 0xc5 (by decide) (by decide) rfl (Nat.lt_succ_of_le h₂) rest
  · rw [numberBytes_natCast, append_assoc, append_assoc]
    exact readToken_sized 0xc6 (by decide) (by decide) rfl (Nat.lt_succ_of_le h) rest

/-- A header with its length in the first byte, or behind it. -/
theorem spelled_headerBytes {short medium long length : ℕ} {token : ℕ → Token}
    (h : length ≤ 0xFFFFFFFF)
    (hshort : length < 16 → readToken (toBytesBE 1 (short ||| length) ++ rest) =
      some (token length, rest))
    (hmedium : readToken (toBytesBE 1 medium ++ (toBytesBE 2 length ++ rest)) =
      some (token (length % 256 ^ 2), rest))
    (hlong : readToken (toBytesBE 1 long ++ (toBytesBE 4 length ++ rest)) =
      some (token (length % 256 ^ 4), rest)) :
    Spelled [token length] (headerBytes short medium long length ++ rest) rest := by
  apply Spelled.singleton
  unfold headerBytes
  simp only [numberBytes_natCast]
  split_ifs with h₁ h₂
  · exact hshort (Nat.lt_succ_of_le h₁)
  · rw [Nat.mod_eq_of_lt (show length < 256 ^ 2 by omega)] at hmedium
    rw [append_assoc]
    exact hmedium
  · rw [Nat.mod_eq_of_lt (show length < 256 ^ 4 by omega)] at hlong
    rw [append_assoc]
    exact hlong

theorem spelled_listHeader {length : ℕ} (h : length ≤ 0xFFFFFFFF) (rest : Uint8List) :
    Spelled [.array length] (headerBytes 0x90 0xdc 0xdd length ++ rest) rest :=
  spelled_headerBytes h (fun hlt => readToken_shortArray hlt rest)
    (readToken_number 0xdc (by decide) (by decide) rfl length rest)
    (readToken_number 0xdd (by decide) (by decide) rfl length rest)

theorem spelled_mapHeader {length : ℕ} (h : length ≤ 0xFFFFFFFF) (rest : Uint8List) :
    Spelled [.map length] (headerBytes 0x80 0xde 0xdf length ++ rest) rest :=
  spelled_headerBytes h (fun hlt => readToken_shortMap hlt rest)
    (readToken_number 0xde (by decide) (by decide) rfl length rest)
    (readToken_number 0xdf (by decide) (by decide) rfl length rest)

end Written

/-- The tokens that are written of a value. -/
def writtenTokens (value : TupleValue) : List Token := (renderings value).flatMap Rendering.written

mutual

theorem spelled_bytesOf : ∀ {value : TupleValue}, Serializable value → ∀ rest : Uint8List,
    Spelled (writtenTokens value) (bytesOf value ++ rest) rest
  | .null, _, rest => .singleton rfl
  | .bool false, _, rest => .singleton rfl
  | .bool true, _, rest => .singleton rfl
  | .int value, _, rest => by
    have hint := spelled_intBytes value.le_toInt value.toInt_lt rest
    unfold writtenTokens renderings bytesOf
    rw [flatMap_singleton]
    exact hint
  | .double bits, _, rest => by
    have hlt : bits.toNat < 256 ^ 8 := bits.toNat_lt
    have hfloat := readToken_number 0xcb (by decide) (by decide) rfl bits.toNat rest
    rw [Nat.mod_eq_of_lt hlt] at hfloat
    unfold bytesOf
    rw [numberBytes_natCast, append_assoc]
    exact .singleton hfloat
  | .string value, h, rest => by
    have hstr := spelled_stringBytes h.1 rest
    unfold writtenTokens renderings bytesOf
    rw [flatMap_singleton]
    exact hstr
  | .binary value, h, rest => spelled_binaryBytes h rest
  | .list items, h, rest => by
    unfold writtenTokens renderings bytesOf
    rw [flatMap_cons, append_assoc]
    exact (spelled_listHeader h.1 _).append (spelled_bytesOfItems h.2 rest)
  | .map entries, h, rest => by
    unfold writtenTokens renderings bytesOf
    rw [flatMap_cons, append_assoc]
    exact (spelled_mapHeader h.1 _).append (spelled_bytesOfEntries h.2 rest)

theorem spelled_bytesOfItems : ∀ {items : List TupleValue}, SerializableItems items →
    ∀ rest : Uint8List, Spelled ((renderingsOfItems items).flatMap Rendering.written)
      (bytesOfItems items ++ rest) rest
  | [], _, rest => .nil rest
  | item :: items, h, rest => by
    unfold renderingsOfItems bytesOfItems
    rw [flatMap_append, append_assoc]
    exact (spelled_bytesOf h.1 _).append (spelled_bytesOfItems h.2 rest)

theorem spelled_bytesOfEntries : ∀ {entries : List (TupleValue × TupleValue)},
    SerializableEntries entries → ∀ rest : Uint8List,
      Spelled ((renderingsOfEntries entries).flatMap Rendering.written)
        (bytesOfEntries entries ++ rest) rest
  | [], _, rest => .nil rest
  | (key, value) :: entries, h, rest => by
    unfold renderingsOfEntries bytesOfEntries
    have hents := spelled_bytesOfEntries h.2.2 rest
    have hval := (spelled_bytesOf h.2.1 (bytesOfEntries entries ++ rest)).append hents
    rw [flatMap_append, flatMap_append, append_assoc, append_assoc, append_assoc]
    exact (spelled_bytesOf h.1 _).append hval

end

/-! ## What is written as it is meant -/

/-- There are as many bytes as code units just in a string that is ASCII. -/
theorem faithful_ofString_iff (value : DartString) :
    (Rendering.ofString value).Faithful ↔ Unicode.Ascii value := by
  constructor
  -- A character outside ASCII has more bytes than code units.
  · intro h
    have hbytes : (encodeBytes value).take value.length = utf8Encode value :=
      Leaf.string.inj (Token.leaf.inj (List.cons.inj h).1)
    have hlen := length_units value
    rw [hbytes] at hlen
    exact (Unicode.length_utf8Encode_eq_iff value).mp hlen
  · intro hascii
    have hlen : (utf8Encode value).length = value.length :=
      (Unicode.length_utf8Encode_eq_iff value).mpr hascii
    unfold Rendering.Faithful Rendering.ofString
    rw [encodeBytes_of_ascii hascii, ← hlen, take_length]

theorem faithful_ofInt_iff (value : ℤ) :
    (Rendering.ofInt value).Faithful ↔ ¬(value > 0x7f ∧ value ≤ 0xFF) := by
  unfold Rendering.Faithful Rendering.ofInt
  by_cases h : value > 0x7f ∧ value ≤ 0xFF
  · rw [if_pos h]
    refine iff_of_false (fun hsame => ?_) fun hnot => hnot h
    cases (List.cons.inj hsame).2
  · rw [if_neg h]
    exact iff_of_true rfl h

theorem forall_faithful_singleton {rendering : Rendering} {left right : Prop}
    (h : rendering.Faithful ↔ left ∧ right) : (∀ r ∈ [rendering], r.Faithful) ↔ left ∧ right := by
  rw [forall_mem_singleton]
  exact h

theorem forall_faithful_plain (token : Token) : (∀ r ∈ [Rendering.plain token], r.Faithful) ↔
    True ∧ True :=
  forall_faithful_singleton (iff_of_true rfl ⟨trivial, trivial⟩)

mutual

/-- The values without an integer from 128 to 255 and without a string that is not ASCII. -/
theorem forall_faithful_iff : ∀ value : TupleValue,
    (∀ r ∈ renderings value, r.Faithful) ↔ Leaves NotFallingThrough value ∧ Leaves AsciiString value
  | .null | .bool _ | .double _ | .binary _ => forall_faithful_plain _
  | .int value =>
    forall_faithful_singleton ((faithful_ofInt_iff _).trans (and_iff_left trivial).symm)
  | .string value =>
    forall_faithful_singleton ((faithful_ofString_iff _).trans (and_iff_right trivial).symm)
  -- A header is always written as it is meant.
  | .list items => by
    have hitems := forall_faithful_items_iff items
    rw [renderings, forall_mem_cons]
    exact (and_iff_right rfl).trans hitems
  | .map entries => by
    have hents := forall_faithful_entries_iff entries
    rw [renderings, forall_mem_cons]
    exact (and_iff_right rfl).trans hents

theorem forall_faithful_items_iff : ∀ items : List TupleValue,
    (∀ r ∈ renderingsOfItems items, r.Faithful) ↔
      LeavesItems NotFallingThrough items ∧ LeavesItems AsciiString items
  | [] => iff_of_true (forall_mem_nil _) ⟨trivial, trivial⟩
  | item :: items => by
    rw [renderingsOfItems, forall_mem_append, forall_faithful_iff item,
      forall_faithful_items_iff items]
    exact and_and_and_comm

theorem forall_faithful_entries_iff : ∀ entries : List (TupleValue × TupleValue),
    (∀ r ∈ renderingsOfEntries entries, r.Faithful) ↔
      LeavesEntries NotFallingThrough entries ∧ LeavesEntries AsciiString entries
  | [] => iff_of_true (forall_mem_nil _) ⟨trivial, trivial⟩
  | (key, value) :: entries => by
    rw [renderingsOfEntries, forall_mem_append, forall_mem_append, forall_faithful_iff key,
      forall_faithful_iff value, forall_faithful_entries_iff entries, and_assoc]
    exact Iff.trans (and_congr_right fun _ => and_and_and_comm) and_and_and_comm

end

theorem flatMap_written {all : List Rendering} (h : ∀ r ∈ all, r.Faithful) :
    all.flatMap Rendering.written = all.map Rendering.meant := by
  induction all with
  | nil => rfl
  | cons rendering all ih =>
    obtain ⟨hfirst, hothers⟩ := forall_mem_cons.mp h
    rw [flatMap_cons, map_cons, hfirst, ih hothers]
    rfl

/-- The tokens that are written of such a value are those of the value that is meant. -/
theorem writtenTokens_eq {value : TupleValue} (hnumbers : Leaves NotFallingThrough value)
    (hstrs : Leaves AsciiString value) : writtenTokens value = (meantOf value).tokens := by
  rw [tokens_meantOf]
  exact flatMap_written ((forall_faithful_iff value).mpr ⟨hnumbers, hstrs⟩)

mutual

/-- A string that is ASCII is not written past its end. -/
theorem spillOf_eq_zero : ∀ {value : TupleValue}, Leaves AsciiString value → spillOf value = 0
  | .null, _ | .bool _, _ | .int _, _ | .double _, _ | .binary _, _ => rfl
  | .string value, h => by
    have hlen : encodedLength value = value.length := by
      rw [← length_encodeBytes, encodeBytes_of_ascii h]
      exact (Unicode.length_utf8Encode_eq_iff value).mpr h
    rw [spillOf, hlen, Nat.sub_self]
  | .list _, h => spillOfItems_eq_zero h
  | .map _, h => spillOfEntries_eq_zero h

theorem spillOfItems_eq_zero : ∀ {items : List TupleValue}, LeavesItems AsciiString items →
    spillOfItems items = 0
  | [], _ => rfl
  | item :: items, h => by
    rw [spillOfItems, spillOf_eq_zero h.1, spillOfItems_eq_zero h.2, Nat.zero_sub, max_self]

theorem spillOfEntries_eq_zero : ∀ {entries : List (TupleValue × TupleValue)},
    LeavesEntries AsciiString entries → spillOfEntries entries = 0
  | [], _ => rfl
  | (key, value) :: entries, h => by
    rw [spillOfEntries, spillOf_eq_zero h.1, spillOf_eq_zero h.2.1, spillOfEntries_eq_zero h.2.2,
      Nat.zero_sub, Nat.zero_sub, max_self, max_self]

end

/-! ## A reader that is never out of step -/

/-- A number is written once or twice, and anything else as one token. -/
inductive Rendering.Stutters (rendering : Rendering) : Prop
  | once (faithful : rendering.Faithful)
  | twice (value : ℤ) (meant : rendering.meant = .leaf (.int value))
    (written : rendering.written = [.leaf (.int value), .leaf (.int value)])
  | other (token : Token) (meant : ∀ value, rendering.meant ≠ .leaf (.int value))
    (written : rendering.written = [token])

theorem stutters_ofInt (value : ℤ) : (Rendering.ofInt value).Stutters := by
  by_cases h : value > 0x7f ∧ value ≤ 0xFF
  · exact .twice value rfl (if_pos h)
  · exact .once ((faithful_ofInt_iff value).mpr h)

theorem stutters_ofString (value : DartString) : (Rendering.ofString value).Stutters :=
  .other _ nofun rfl

mutual

theorem stutters_renderings : ∀ value : TupleValue, ∀ r ∈ renderings value, r.Stutters
  | .null | .bool _ | .double _ | .binary _ => forall_mem_singleton.mpr (.once rfl)
  | .int value => forall_mem_singleton.mpr (stutters_ofInt value.toInt)
  | .string value => forall_mem_singleton.mpr (stutters_ofString value)
  | .list items => forall_mem_cons.mpr ⟨.once rfl, stutters_renderingsOfItems items⟩
  | .map entries =>
    forall_mem_cons.mpr ⟨.once rfl, stutters_renderingsOfEntries entries⟩

theorem stutters_renderingsOfItems : ∀ items :
    List TupleValue, ∀ r ∈ renderingsOfItems items, r.Stutters
  | [] => forall_mem_nil _
  | item :: items =>
    forall_mem_append.mpr ⟨stutters_renderings item, stutters_renderingsOfItems items⟩

theorem stutters_renderingsOfEntries : ∀ entries : List (TupleValue × TupleValue),
    ∀ r ∈ renderingsOfEntries entries, r.Stutters
  | [] => forall_mem_nil _
  | (key, value) :: entries => forall_mem_append.mpr
      ⟨forall_mem_append.mpr ⟨stutters_renderings key, stutters_renderings value⟩,
        stutters_renderingsOfEntries entries⟩

end

section Steps

variable {all : List Rendering} {behind rest : List Token}

/-- Once a number is left over, numbers are all that the reader gets, and one of them is left. -/
theorem head_eq_of_lag (hall : ∀ r ∈ all, r.Stutters) {value : ℤ} {count : ℕ}
    (h : all.map Rendering.meant ++ behind =
      List.replicate (count + 1) (.leaf (.int value)) ++ (all.flatMap Rendering.written ++ rest)) :
    ∃ others, behind = .leaf (.int value) :: others := by
  induction all generalizing count with
  | nil => exact ⟨_, h⟩
  | cons rendering all ih =>
    obtain ⟨hfirst, hothers⟩ := forall_mem_cons.mp hall
    rw [replicate_succ, cons_append] at h
    obtain ⟨hmeant, h⟩ := List.cons.inj h
    rw [flatMap_cons, append_assoc] at h
    -- The number is meant next, and so it is written once or twice more.
    cases hfirst with
    | once hfaithful =>
      have hwritten : rendering.written = List.replicate 1 (.leaf (.int value)) := by
        rw [hfaithful, hmeant, replicate_one]
      rw [hwritten, ← append_assoc, ← replicate_add] at h
      exact ih hothers h
    | twice other hother hwritten =>
      obtain rfl : value = other := Leaf.int.inj (Token.leaf.inj (hmeant.symm.trans hother))
      have htwice : rendering.written = List.replicate 2 (.leaf (.int value)) := hwritten
      rw [htwice, ← append_assoc, ← replicate_add] at h
      exact ih hothers h
    | other token hother hwritten => exact absurd hmeant (hother value)

/-- Unless a number is left over, everything is written as it is meant. -/
theorem all_eq_of_append_eq (hall : ∀ r ∈ all, r.Stutters)
    (hbehind : ∀ value others, behind ≠ .leaf (.int value) :: others)
    (h : all.map Rendering.meant ++ behind = all.flatMap Rendering.written ++ rest) :
    (∀ r ∈ all, r.Faithful) ∧ behind = rest := by
  induction all with
  | nil => exact ⟨forall_mem_nil _, h⟩
  | cons rendering all ih =>
    obtain ⟨hfirst, hothers⟩ := forall_mem_cons.mp hall
    rw [flatMap_cons, append_assoc, map_cons, cons_append] at h
    have hone {token : Token} (hwritten : rendering.written = [token]) :
        (∀ r ∈ rendering :: all, r.Faithful) ∧ behind = rest := by
      rw [hwritten, singleton_append] at h
      obtain ⟨hmeant, h⟩ := List.cons.inj h
      obtain ⟨hfaithful, hrest⟩ := ih hothers h
      have hsame : rendering.Faithful :=
        hwritten.trans (congrArg (fun token => [token]) hmeant.symm)
      exact ⟨forall_mem_cons.mpr ⟨hsame, hfaithful⟩, hrest⟩
    cases hfirst with
    | once hfaithful => exact hone hfaithful
    -- The second number is left over, and the reader goes on with it.
    | twice value hmeant hwritten =>
      rw [hwritten] at h
      have hlag : all.map Rendering.meant ++ behind =
          List.replicate (0 + 1) (.leaf (.int value)) ++ (all.flatMap Rendering.written ++ rest) :=
        (List.cons.inj h).2
      obtain ⟨others, hnum⟩ := head_eq_of_lag hothers hlag
      exact absurd hnum (hbehind value others)
    | other token _ hwritten => exact hone hwritten

end Steps

end FengShui
