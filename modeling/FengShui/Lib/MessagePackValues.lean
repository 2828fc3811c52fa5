import FengShui.Lib.MessagePack

/-!
# Values of MessagePack

A byte string is read token by token: a token is a value without parts, or the header of an array or
a map. `decode` reads one value that takes the whole string; it does so just where the tokens of the
value are those of the string (`decode_eq_some_iff`), and no string has two lists of tokens
(`Spelled.unique`).
-/

namespace MessagePack

open ByteString List

/-- A value without parts. A number with a fraction is its bits, with the bytes that it has them
in. -/
inductive Leaf where
  | nil
  | bool (value : Bool)
  | int (value : ℤ)
  | float (width bits : ℕ)
  | string (bytes : List UInt8)
  | binary (bytes : List UInt8)
  | extension (type : ℤ) (bytes : List UInt8)
  deriving DecidableEq, Repr

inductive Token where
  | leaf (leaf : Leaf)
  | array (length : ℕ)
  | map (length : ℕ)
  deriving DecidableEq, Repr

inductive Value where
  | leaf (leaf : Leaf)
  | array (items : List Value)
  | map (entries : List (Value × Value))

mutual

/-- The tokens of a value, with what is in it behind its header. -/
def Value.tokens : Value → List Token
  | .leaf value => [.leaf value]
  | .array items => .array items.length :: Value.tokensOfItems items
  | .map entries => .map entries.length :: Value.tokensOfEntries entries

def Value.tokensOfItems : List Value → List Token
  | [] => []
  | item :: items => item.tokens ++ Value.tokensOfItems items

def Value.tokensOfEntries : List (Value × Value) → List Token
  | [] => []
  | (key, value) :: entries => (key.tokens ++ value.tokens) ++ Value.tokensOfEntries entries

end

/-- A reader returns what it has read and the bytes behind it. -/
abbrev Reader (α : Type) := List UInt8 → Option (α × List UInt8)

/-! ## Tokens -/

/-- The next bytes. -/
def payload (length : ℕ) : Reader (List UInt8) := fun bytes =>
  if length ≤ bytes.length then some (bytes.take length, bytes.drop length) else none

def number (width : ℕ) : Reader ℕ := fun bytes => (payload width bytes).map (Prod.map ofBytesBE id)

/-- Bytes with their number in front of them. -/
def sized (width : ℕ) : Reader (List UInt8) := fun bytes => do
  let (length, bytes) ← number width bytes
  payload length bytes

/-- The number in two's complement. -/
def signed (width number : ℕ) : ℤ :=
  if 2 * number < 256 ^ width then number else number - (256 ^ width : ℕ)

/-- The type of an extension, and its bytes. -/
def typed (read : Reader (List UInt8)) : Reader Leaf := fun bytes => do
  let (type, bytes) ← number 1 bytes
  (read bytes).map (Prod.map (.extension (signed 1 type)) id)

/-- The type of an extension stands behind its length. -/
def typedSized (width : ℕ) : Reader Leaf := fun bytes => do
  let (length, bytes) ← number width bytes
  typed (payload length) bytes

section Formats

def fixed (leaf : Leaf) : Reader Token := fun bytes => some (.leaf leaf, bytes)

def reading {α : Type} (read : Reader α) (token : α → Token) : Reader Token := fun bytes =>
  (read bytes).map (Prod.map token id)

/-- The formats with a first byte of their own. -/
def formats : List (UInt8 × Reader Token) := [
  (0xc0, fixed .nil),
  (0xc2, fixed (.bool false)),
  (0xc3, fixed (.bool true)),
  (0xc4, reading (sized 1) fun bytes => .leaf (.binary bytes)),
  (0xc5, reading (sized 2) fun bytes => .leaf (.binary bytes)),
  (0xc6, reading (sized 4) fun bytes => .leaf (.binary bytes)),
  (0xc7, reading (typedSized 1) .leaf),
  (0xc8, reading (typedSized 2) .leaf),
  (0xc9, reading (typedSized 4) .leaf),
  (0xca, reading (number 4) fun bits => .leaf (.float 4 bits)),
  (0xcb, reading (number 8) fun bits => .leaf (.float 8 bits)),
  (0xcc, reading (number 1) fun value => .leaf (.int value)),
  (0xcd, reading (number 2) fun value => .leaf (.int value)),
  (0xce, reading (number 4) fun value => .leaf (.int value)),
  (0xcf, reading (number 8) fun value => .leaf (.int value)),
  (0xd0, reading (number 1) fun value => .leaf (.int (signed 1 value))),
  (0xd1, reading (number 2) fun value => .leaf (.int (signed 2 value))),
  (0xd2, reading (number 4) fun value => .leaf (.int (signed 4 value))),
  (0xd3, reading (number 8) fun value => .leaf (.int (signed 8 value))),
  (0xd4, reading (typed (payload 1)) .leaf),
  (0xd5, reading (typed (payload 2)) .leaf),
  (0xd6, reading (typed (payload 4)) .leaf),
  (0xd7, reading (typed (payload 8)) .leaf),
  (0xd8, reading (typed (payload 16)) .leaf),
  (0xd9, reading (sized 1) fun bytes => .leaf (.string bytes)),
  (0xda, reading (sized 2) fun bytes => .leaf (.string bytes)),
  (0xdb, reading (sized 4) fun bytes => .leaf (.string bytes)),
  (0xdc, reading (number 2) .array),
  (0xdd, reading (number 4) .array),
  (0xde, reading (number 2) .map),
  (0xdf, reading (number 4) .map)]

end Formats

/-- The next token. The first byte of a short format has the number or the length in it. -/
def readToken : Reader Token
  | [] => none
  | head :: rest =>
    if head.toNat < 0x80 then some (.leaf (.int head.toNat), rest)
    else if head.toNat < 0x90 then some (.map (head.toNat - 0x80), rest)
    else if head.toNat < 0xa0 then some (.array (head.toNat - 0x90), rest)
    else if head.toNat < 0xc0 then
      reading (payload (head.toNat - 0xa0)) (fun bytes => .leaf (.string bytes)) rest
    else if head.toNat ≥ 0xe0 then some (.leaf (.int (signed 1 head.toNat)), rest)
    else do
      let read ← formats.lookup head
      read rest

/-! ## Values -/

def repeated {α : Type} (read : Reader α) : ℕ → Reader (List α)
  | 0, bytes => some ([], bytes)
  | count + 1, bytes => do
    let (first, bytes) ← read bytes
    let (others, bytes) ← repeated read count bytes
    return (first :: others, bytes)

def paired {α : Type} (read : Reader α) : Reader (α × α) := fun bytes => do
  let (key, bytes) ← read bytes
  let (value, bytes) ← read bytes
  return ((key, value), bytes)

/-- The fuel is how deep a value may be. -/
def readValue : ℕ → Reader Value
  | 0, _ => none
  | fuel + 1, bytes => do
    let (token, bytes) ← readToken bytes
    match token with
    | .leaf leaf => some (.leaf leaf, bytes)
    | .array length => (repeated (readValue fuel) length bytes).map (Prod.map .array id)
    | .map length => (repeated (paired (readValue fuel)) length bytes).map (Prod.map .map id)

/-- The value that the whole string is. A string cannot hold one that is deeper than it has
bytes. -/
def decode (bytes : List UInt8) : Option Value :=
  match readValue bytes.length bytes with
  | some (value, []) => some value
  | _ => none

/-! ## The tokens of a string -/

/-- The tokens are read one behind the other, from the first string up to the second. -/
inductive Spelled : List Token → List UInt8 → List UInt8 → Prop
  | nil (bytes : List UInt8) : Spelled [] bytes bytes
  | cons {token : Token} {tokens : List Token} {bytes middle rest : List UInt8}
    (first : readToken bytes = some (token, middle)) (others : Spelled tokens middle rest) :
    Spelled (token :: tokens) bytes rest

namespace Spelled

variable {tokens others : List Token} {bytes middle rest : List UInt8}

theorem singleton {token : Token} (h : readToken bytes = some (token, rest)) :
    Spelled [token] bytes rest :=
  .cons h (.nil rest)

theorem append (h : Spelled tokens bytes middle) (h' : Spelled others middle rest) :
    Spelled (tokens ++ others) bytes rest := by
  induction h with
  | nil bytes => exact h'
  | cons first _ ih => exact .cons first (ih h')

theorem of_append (h : Spelled (tokens ++ others) bytes rest) :
    ∃ middle, Spelled tokens bytes middle ∧ Spelled others middle rest := by
  induction tokens generalizing bytes with
  | nil => exact ⟨bytes, .nil bytes, h⟩
  | cons token tokens ih =>
    cases h with
    | cons first h =>
      obtain ⟨middle, htokens, hothers⟩ := ih h
      exact ⟨middle, .cons first htokens, hothers⟩

/-- Two lists of tokens that take a whole string are the same. -/
theorem unique (h : Spelled tokens bytes []) (h' : Spelled others bytes []) : tokens = others := by
  induction tokens generalizing bytes others with
  | nil =>
    cases h
    cases h' with
    | nil => rfl
    -- No token is read from nothing.
    | cons first _ => cases first
  | cons token tokens ih =>
    cases h with
    | cons first h =>
      cases h' with
      | nil => cases first
      | cons first' h' =>
        have hsame := Option.some.inj (first.symm.trans first')
        obtain ⟨rfl, rfl⟩ := Prod.mk.inj hsame
        exact congrArg (token :: ·) (ih h h')

end Spelled

/-! ## Readers that take bytes -/

/-- What is behind is not longer. -/
def Shrinks {α : Type} (read : Reader α) : Prop :=
  ∀ bytes value rest, read bytes = some (value, rest) → rest.length ≤ bytes.length

section Shrinks

variable {α β : Type} {read : Reader α}

theorem shrinks_payload (length : ℕ) : Shrinks (payload length) := by
  intro bytes value rest h
  unfold payload at h
  split_ifs at h
  cases h
  rw [length_drop]
  exact Nat.sub_le _ _

theorem Shrinks.map (h : Shrinks read) (f : α → β) :
    Shrinks fun bytes => (read bytes).map (Prod.map f id) := by
  intro bytes value rest hmap
  obtain ⟨⟨first, behind⟩, hread, hpair⟩ := Option.map_eq_some_iff.mp hmap
  obtain ⟨-, rfl⟩ := Prod.mk.inj hpair
  exact h bytes first _ hread

theorem Shrinks.bind (h : Shrinks read) {next : α → Reader β}
    (hnext : ∀ value, Shrinks (next value)) :
    Shrinks fun bytes => (read bytes).bind fun result => next result.1 result.2 := by
  intro bytes value rest hbind
  obtain ⟨⟨first, behind⟩, hread, hrest⟩ := Option.bind_eq_some_iff.mp hbind
  exact (hnext first behind value rest hrest).trans (h bytes first behind hread)

theorem shrinks_number (width : ℕ) : Shrinks (number width) := (shrinks_payload width).map _

theorem shrinks_sized (width : ℕ) : Shrinks (sized width) :=
  (shrinks_number width).bind shrinks_payload

theorem shrinks_typed {read : Reader (List UInt8)} (h : Shrinks read) : Shrinks (typed read) :=
  (shrinks_number 1).bind fun type => h.map (Leaf.extension (signed 1 type))

theorem shrinks_typedSized (width : ℕ) : Shrinks (typedSized width) :=
  (shrinks_number width).bind fun length => shrinks_typed (shrinks_payload length)

theorem shrinks_fixed (leaf : Leaf) : Shrinks (fixed leaf) := by
  intro bytes value rest h
  obtain ⟨-, rfl⟩ := Prod.mk.inj (Option.some.inj h)
  exact le_rfl

theorem shrinks_formats : ∀ format ∈ formats, Shrinks format.2 := by
  have hnum (width : ℕ) (f : ℕ → Token) : Shrinks (reading (number width) f) :=
    (shrinks_number width).map f
  have hsized (width : ℕ) (f : List UInt8 → Token) : Shrinks (reading (sized width) f) :=
    (shrinks_sized width).map f
  have htyped (length : ℕ) : Shrinks (reading (typed (payload length)) .leaf) :=
    (shrinks_typed (shrinks_payload length)).map _
  have htypedSized (width : ℕ) : Shrinks (reading (typedSized width) .leaf) :=
    (shrinks_typedSized width).map _
  simp only [formats, forall_mem_cons, shrinks_fixed, hnum, hsized, htyped, htypedSized,
    not_mem_nil, false_imp_iff, implies_true, and_self]

end Shrinks

theorem mem_of_lookup {α β : Type} [BEq α] [LawfulBEq α] {key : α} {value : β}
    {entries : List (α × β)} (h : entries.lookup key = some value) : (key, value) ∈ entries := by
  induction entries with
  | nil => cases h
  | cons entry entries ih =>
    obtain ⟨first, other⟩ := entry
    rw [lookup_cons] at h
    split at h
    · rename_i heq
      cases h
      rw [eq_of_beq heq]
      exact mem_cons_self
    · exact mem_cons_of_mem _ (ih h)

variable {value : Value} {bytes rest : List UInt8}

/-- A token takes its first byte at least. -/
theorem length_lt_of_readToken {token : Token} (h : readToken bytes = some (token, rest)) :
    rest.length < bytes.length := by
  cases bytes with
  | nil => cases h
  | cons head bytes =>
    rw [length_cons, Nat.lt_succ_iff]
    rw [readToken] at h
    split_ifs at h
    · cases h
      exact le_rfl
    · cases h
      exact le_rfl
    · cases h
      exact le_rfl
    · exact (shrinks_payload _).map _ bytes token rest h
    · cases h
      exact le_rfl
    -- A format of the table, whose reader has the bytes behind the first one.
    · obtain ⟨read, hlookup, hread⟩ := Option.bind_eq_some_iff.mp h
      exact shrinks_formats _ (mem_of_lookup hlookup) bytes token rest hread

theorem Spelled.length_le {tokens : List Token} (h : Spelled tokens bytes rest) :
    tokens.length ≤ bytes.length := by
  induction h with
  | nil => exact Nat.zero_le _
  | cons first others ih =>
    have hfirst := length_lt_of_readToken first
    rw [length_cons]
    omega

/-! ## Decoding by tokens -/

theorem Value.tokensOfItems_eq (items : List Value) :
    Value.tokensOfItems items = items.flatMap Value.tokens := by
  induction items with
  | nil => rfl
  | cons item items ih => rw [Value.tokensOfItems, ih, flatMap_cons]

/-- The tokens of an entry. -/
def entryTokens (entry : Value × Value) : List Token := entry.1.tokens ++ entry.2.tokens

theorem Value.tokensOfEntries_eq (entries : List (Value × Value)) :
    Value.tokensOfEntries entries = entries.flatMap entryTokens := by
  induction entries with
  | nil => rfl
  | cons entry entries ih => rw [Value.tokensOfEntries, ih, flatMap_cons, entryTokens]

section Repeated

variable {α : Type} {read : Reader α} {tokensOf : α → List Token}

theorem spelled_of_repeated (h : ∀ bytes value rest, read bytes = some (value, rest) →
      Spelled (tokensOf value) bytes rest)
    {count : ℕ} {bytes rest : List UInt8} {values : List α}
    (hread : repeated read count bytes = some (values, rest)) :
    values.length = count ∧ Spelled (values.flatMap tokensOf) bytes rest := by
  induction count generalizing bytes values with
  | zero =>
    obtain ⟨rfl, rfl⟩ := Prod.mk.inj (Option.some.inj hread)
    exact ⟨rfl, .nil bytes⟩
  | succ count ih =>
    obtain ⟨⟨first, middle⟩, hfirst, hread⟩ := Option.bind_eq_some_iff.mp hread
    obtain ⟨⟨others, behind⟩, hothers, hread⟩ := Option.bind_eq_some_iff.mp hread
    obtain ⟨rfl, rfl⟩ := Prod.mk.inj (Option.some.inj hread)
    obtain ⟨rfl, hspelled⟩ := ih hothers
    exact ⟨rfl, (h bytes first middle hfirst).append hspelled⟩

theorem repeated_of_spelled {values : List α} (h : ∀ value ∈ values, ∀ bytes rest,
      Spelled (tokensOf value) bytes rest → read bytes = some (value, rest))
    {bytes rest : List UInt8} (hspelled : Spelled (values.flatMap tokensOf) bytes rest) :
    repeated read values.length bytes = some (values, rest) := by
  induction values generalizing bytes with
  | nil =>
    cases hspelled
    rfl
  | cons first others ih =>
    rw [flatMap_cons] at hspelled
    obtain ⟨hfirst, hothers⟩ := forall_mem_cons.mp h
    obtain ⟨middle, hspelledFirst, hspelledOthers⟩ := hspelled.of_append
    have hreadFirst := hfirst bytes middle hspelledFirst
    have hreadOthers := ih hothers hspelledOthers
    rw [length_cons, repeated, hreadFirst]
    show (repeated read others.length middle).bind _ = _
    rw [hreadOthers]
    rfl

end Repeated

/-- What is read has the tokens of the string. -/
theorem spelled_of_readValue {fuel : ℕ} (h : readValue fuel bytes = some (value, rest)) :
    Spelled value.tokens bytes rest := by
  -- The parts are read with less fuel.
  induction fuel generalizing bytes value rest with
  | zero => cases h
  | succ fuel ih =>
    obtain ⟨⟨token, middle⟩, htoken, h⟩ := Option.bind_eq_some_iff.mp h
    cases token with
    | leaf leaf =>
      obtain ⟨rfl, rfl⟩ := Prod.mk.inj (Option.some.inj h)
      exact .singleton htoken
    | array length =>
      obtain ⟨⟨items, behind⟩, hitems, hpair⟩ := Option.map_eq_some_iff.mp h
      obtain ⟨rfl, rfl⟩ := Prod.mk.inj hpair
      obtain ⟨rfl, hspelled⟩ := spelled_of_repeated (fun _ _ _ hread => ih hread) hitems
      rw [← Value.tokensOfItems_eq] at hspelled
      exact .cons htoken hspelled
    | map length =>
      obtain ⟨⟨entries, behind⟩, hents, hpair⟩ := Option.map_eq_some_iff.mp h
      obtain ⟨rfl, rfl⟩ := Prod.mk.inj hpair
      have hent (bytes : List UInt8) (entry : Value × Value) (rest : List UInt8)
          (hread : paired (readValue fuel) bytes = some (entry, rest)) :
          Spelled (entryTokens entry) bytes rest := by
        obtain ⟨⟨key, first⟩, hkey, hread⟩ := Option.bind_eq_some_iff.mp hread
        obtain ⟨⟨other, second⟩, hval, hread⟩ := Option.bind_eq_some_iff.mp hread
        obtain ⟨rfl, rfl⟩ := Prod.mk.inj (Option.some.inj hread)
        exact (ih hkey).append (ih hval)
      obtain ⟨rfl, hspelled⟩ := spelled_of_repeated hent hents
      rw [← Value.tokensOfEntries_eq] at hspelled
      exact .cons htoken hspelled

theorem length_tokens_le {α : Type} {tokensOf : α → List Token} {values : List α} {value : α}
    (h : value ∈ values) : (tokensOf value).length ≤ (values.flatMap tokensOf).length :=
  (sublist_flatten_of_mem (mem_map_of_mem h)).length_le

/-- A value is read by its tokens. The fuel that lasts is their number: each call is one for a value
with fewer of them. -/
theorem readValue_of_spelled {fuel : ℕ} (hfuel : value.tokens.length ≤ fuel)
    (h : Spelled value.tokens bytes rest) : readValue fuel bytes = some (value, rest) := by
  induction fuel generalizing value bytes rest with
  | zero => cases value <;> simp [Value.tokens] at hfuel
  | succ fuel ih =>
    cases value with
    | leaf leaf =>
      cases h with
      | cons first others =>
        cases others
        rw [readValue, first]
        rfl
    | array items =>
      rw [Value.tokens, Value.tokensOfItems_eq] at h hfuel
      rw [length_cons] at hfuel
      cases h with
      | cons first others =>
        have hitem (item : Value) (hmem : item ∈ items) (bytes rest : List UInt8)
            (hspelled : Spelled item.tokens bytes rest) : readValue fuel bytes =
              some (item, rest) :=
          ih ((length_tokens_le hmem).trans (by omega)) hspelled
        have hitems := repeated_of_spelled hitem others
        rw [readValue, first]
        show Option.map _ (repeated (readValue fuel) items.length _) = _
        rw [hitems]
        rfl
    | map entries =>
      rw [Value.tokens, Value.tokensOfEntries_eq] at h hfuel
      rw [length_cons] at hfuel
      cases h with
      | cons first others =>
        have hent (entry : Value × Value) (hmem : entry ∈ entries) (bytes rest : List UInt8)
            (hspelled : Spelled (entryTokens entry) bytes rest) :
            paired (readValue fuel) bytes = some (entry, rest) := by
          have hlen : (entryTokens entry).length ≤ fuel := (length_tokens_le hmem).trans (by omega)
          rw [entryTokens, length_append] at hlen
          obtain ⟨middle, hkey, hval⟩ := hspelled.of_append
          have hreadKey := ih (by omega) hkey
          have hreadVal := ih (by omega) hval
          unfold paired
          rw [hreadKey]
          show (readValue fuel middle).bind _ = _
          rw [hreadVal]
          rfl
        have hents := repeated_of_spelled hent others
        rw [readValue, first]
        show Option.map _ (repeated (paired (readValue fuel)) entries.length _) = _
        rw [hents]
        rfl

/-- A string is a value exactly where it has its tokens. -/
theorem decode_eq_some_iff : decode bytes = some value ↔ Spelled value.tokens bytes [] := by
  unfold decode
  constructor
  · intro h
    split at h
    · rename_i other hread
      cases h
      exact spelled_of_readValue hread
    · cases h
  · intro h
    rw [readValue_of_spelled h.length_le h]

/-- An array of a string and a number. -/
example :
    decode [0x92, 0xa1, 0x2b, 0x05] = some (.array [.leaf (.string [0x2b]), .leaf (.int 5)]) := rfl

/-! ## The formats are read -/

section Written

variable {width length : ℕ} {bytes rest : List UInt8}

theorem payload_append (bytes rest : List UInt8) :
    payload bytes.length (bytes ++ rest) = some (bytes, rest) := by
  unfold payload
  rw [if_pos (by rw [length_append]; exact Nat.le_add_right _ _), take_left, drop_left]

theorem number_append (width value : ℕ) (rest : List UInt8) :
    number width (toBytesBE width value ++ rest) = some (value % 256 ^ width, rest) := by
  have hpay := payload_append (toBytesBE width value) rest
  rw [length_toBytesBE] at hpay
  unfold number
  rw [hpay, ← ofBytesBE_toBytesBE]
  rfl

theorem sized_append (h : bytes.length < 256 ^ width) (rest : List UInt8) :
    sized width (toBytesBE width bytes.length ++ (bytes ++ rest)) = some (bytes, rest) := by
  unfold sized
  rw [number_append, Nat.mod_eq_of_lt h]
  exact payload_append bytes rest

/-- A number that has two's complement of this width. -/
theorem signed_emod {value : ℤ} (h : -256 ^ width ≤ 2 * value) (h' : 2 * value < 256 ^ width) :
    signed width (value % 256 ^ width).toNat = value := by
  have hpow : ((256 ^ width : ℕ) : ℤ) = 256 ^ width := by push_cast; rfl
  unfold signed
  rw [← hpow] at h h' ⊢
  by_cases hsign : 0 ≤ value
  · rw [Int.emod_eq_of_lt hsign (by omega), if_pos (by omega), Int.toNat_of_nonneg hsign]
  · rw [← Int.add_emod_right, Int.emod_eq_of_lt (by omega) (by omega), if_neg (by omega),
      Int.toNat_of_nonneg (by omega), Int.add_sub_cancel]

/-- A first byte of its own sends to its format. -/
theorem readToken_of_format {head : UInt8} {read : Reader Token} (hlow : 0xc0 ≤ head.toNat)
    (hhigh : head.toNat < 0xe0) (h : formats.lookup head = some read) (rest : List UInt8) :
    readToken (head :: rest) = read rest := by
  rw [readToken, if_neg (by omega), if_neg (by omega), if_neg (by omega), if_neg (by omega),
    if_neg (by omega), h]
  rfl

/-- The bytes of a number, and the number modulo the width. -/
theorem readToken_number (head : UInt8) {f : ℕ → Token} (hlow : 0xc0 ≤ head.toNat)
    (hhigh : head.toNat < 0xe0)
    (h : formats.lookup head = some (reading (number width) f)) (value : ℕ) (rest : List UInt8) :
    readToken (head :: (toBytesBE width value ++ rest)) = some (f (value % 256 ^ width), rest) := by
  rw [readToken_of_format hlow hhigh h, reading, number_append]
  rfl

theorem readToken_sized (head : UInt8) {f : List UInt8 → Token} (hlow : 0xc0 ≤ head.toNat)
    (hhigh : head.toNat < 0xe0) (h : formats.lookup head = some (reading (sized width) f))
    (hlt : bytes.length < 256 ^ width) (rest : List UInt8) :
    readToken (head :: (toBytesBE width bytes.length ++ (bytes ++ rest))) =
      some (f bytes, rest) := by
  rw [readToken_of_format hlow hhigh h, reading, sized_append hlt]
  rfl

theorem toBytesBE_one (value : ℕ) : toBytesBE 1 value = [UInt8.ofNat value] := by
  rw [toBytesBE, toBytesBE, pow_zero, Nat.div_one]

/-- The short headers. -/
theorem readToken_shortArray (h : length < 16) (rest : List UInt8) :
    readToken (toBytesBE 1 (0x90 ||| length) ++ rest) = some (.array length, rest) := by
  have hhead : ∀ length < 16, (UInt8.ofNat (0x90 ||| length)).toNat = 0x90 + length := by decide
  rw [toBytesBE_one, singleton_append, readToken, hhead length h,
    if_neg (by omega), if_neg (by omega), if_pos (by omega), Nat.add_sub_cancel_left]

theorem readToken_shortMap (h : length < 16) (rest : List UInt8) :
    readToken (toBytesBE 1 (0x80 ||| length) ++ rest) = some (.map length, rest) := by
  have hhead : ∀ length < 16, (UInt8.ofNat (0x80 ||| length)).toNat = 0x80 + length := by decide
  rw [toBytesBE_one, singleton_append, readToken, hhead length h,
    if_neg (by omega), if_pos (by omega), Nat.add_sub_cancel_left]

theorem readToken_shortString (h : bytes.length < 0x20) (rest : List UInt8) :
    readToken (toBytesBE 1 (0xa0 ||| bytes.length) ++ (bytes ++ rest)) =
      some (.leaf (.string bytes), rest) := by
  have hhead : ∀ length < 0x20, (UInt8.ofNat (0xa0 ||| length)).toNat = 0xa0 + length := by decide
  rw [toBytesBE_one, singleton_append, readToken, hhead bytes.length h, if_neg (by omega),
    if_neg (by omega), if_neg (by omega), if_pos (by omega), Nat.add_sub_cancel_left, reading,
    payload_append]
  rfl

/-- A string is read by any of its headers. -/
theorem readToken_string {header : List UInt8} (h : header ∈ stringHeaders bytes.length)
    (rest : List UInt8) :
    readToken (header ++ (bytes ++ rest)) = some (.leaf (.string bytes), rest) := by
  simp only [stringHeaders, mem_append, mem_ite_nil_right, mem_singleton] at h
  rcases h with ((⟨hlt, rfl⟩ | ⟨hlt, rfl⟩) | ⟨hlt, rfl⟩) | ⟨hlt, rfl⟩
  · exact readToken_shortString hlt rest
  · exact readToken_sized 0xd9 (by decide) (by decide) rfl hlt rest
  · exact readToken_sized 0xda (by decide) (by decide) rfl hlt rest
  · exact readToken_sized 0xdb (by decide) (by decide) rfl hlt rest

/-- A number is read in any format that holds it. -/
theorem readToken_int {format : IntFormat} {value : ℤ} (h : format.Holds value)
    (rest : List UInt8) :
    readToken (format.encode value ++ rest) = some (.leaf (.int value), rest) := by
  obtain ⟨hlow, hhigh⟩ := h
  -- The number modulo the width is the number, or its two's complement.
  have hunsigned (head : UInt8) (width : ℕ) (hnonneg : 0 ≤ value) (hlt : value < 256 ^ width)
      (hhead : 0xc0 ≤ head.toNat ∧ head.toNat < 0xe0)
      (hformat : formats.lookup head =
        some (reading (number width) fun value => .leaf (.int value))) :
      readToken (head :: toBytesBE width (value % 256 ^ width).toNat ++ rest) =
        some (.leaf (.int value), rest) := by
    have hmod : (value % 256 ^ width).toNat % 256 ^ width = value.toNat := by
      rw [Int.emod_eq_of_lt hnonneg hlt]
      apply Nat.mod_eq_of_lt
      exact (Int.toNat_lt hnonneg).mpr (by exact_mod_cast hlt)
    rw [cons_append, readToken_number head hhead.1 hhead.2 hformat, hmod,
      Int.toNat_of_nonneg hnonneg]
  -- Two's complement, where the width has room for the sign.
  have hsigned (head : UInt8) (width : ℕ) (hlow : -256 ^ width ≤ 2 * value)
    (hhigh : 2 * value < 256 ^ width) (hhead : 0xc0 ≤ head.toNat ∧ head.toNat < 0xe0)
      (hformat : formats.lookup head =
        some (reading (number width) fun value => .leaf (.int (signed width value)))) :
      readToken (head :: toBytesBE width (value % 256 ^ width).toNat ++ rest) =
        some (.leaf (.int value), rest) := by
    have hpos : (0 : ℤ) < 256 ^ width := Int.pow_pos (by decide)
    have hnonneg := Int.emod_nonneg value hpos.ne'
    have hmod : (value % 256 ^ width).toNat % 256 ^ width = (value % 256 ^ width).toNat := by
      apply Nat.mod_eq_of_lt
      exact (Int.toNat_lt hnonneg).mpr (by exact_mod_cast Int.emod_lt_of_pos value hpos)
    rw [cons_append, readToken_number head hhead.1 hhead.2 hformat, hmod, signed_emod hlow hhigh]
  cases format with
  | positiveFixint =>
    dsimp only [IntFormat.range] at hlow hhigh
    have hhead : (UInt8.ofNat (value % 256 ^ 1).toNat).toNat = value.toNat := by
      rw [UInt8.toNat_ofNat']
      omega
    show readToken (toBytesBE 1 (value % 256 ^ 1).toNat ++ rest) = _
    rw [toBytesBE_one, singleton_append, readToken, hhead, if_pos (by omega),
      Int.toNat_of_nonneg hlow]
  | negativeFixint =>
    dsimp only [IntFormat.range] at hlow hhigh
    have hhead : (UInt8.ofNat (value % 256 ^ 1).toNat).toNat = (value % 256 ^ 1).toNat := by
      rw [UInt8.toNat_ofNat']
      omega
    show readToken (toBytesBE 1 (value % 256 ^ 1).toNat ++ rest) = _
    rw [toBytesBE_one, singleton_append, readToken, hhead, if_neg (by omega), if_neg (by omega),
      if_neg (by omega), if_neg (by omega), if_pos (by omega), signed_emod (by omega) (by omega)]
  | uint8 => exact hunsigned 0xcc 1 hlow (Int.lt_add_one_of_le hhigh) (by decide) rfl
  | uint16 => exact hunsigned 0xcd 2 hlow (Int.lt_add_one_of_le hhigh) (by decide) rfl
  | uint32 => exact hunsigned 0xce 4 hlow (Int.lt_add_one_of_le hhigh) (by decide) rfl
  | uint64 => exact hunsigned 0xcf 8 hlow (Int.lt_add_one_of_le hhigh) (by decide) rfl
  | int8 =>
    dsimp only [IntFormat.range] at hlow hhigh
    exact hsigned 0xd0 1 (by omega) (by omega) (by decide) rfl
  | int16 =>
    dsimp only [IntFormat.range] at hlow hhigh
    exact hsigned 0xd1 2 (by omega) (by omega) (by decide) rfl
  | int32 =>
    dsimp only [IntFormat.range] at hlow hhigh
    exact hsigned 0xd2 4 (by omega) (by omega) (by decide) rfl
  | int64 =>
    dsimp only [IntFormat.range] at hlow hhigh
    exact hsigned 0xd3 8 (by omega) (by omega) (by decide) rfl

end Written

end MessagePack
