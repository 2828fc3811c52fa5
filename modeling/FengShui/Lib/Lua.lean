import Mathlib.Data.List.Chain
import Mathlib.Data.List.TakeWhile
import Mathlib.Data.UInt

/-!
# The lexical structure of Lua

A program is a list of bytes, and `lex` gives its tokens. A string in quotes denotes the bytes
between them just when there is no quote, no backslash and no line break in it
(`plain_of_readString`): with an escape in it, the string that is read never is the text that was
written. Lexemes that fit together are read as their tokens, each string as the text that was
written, just when all texts are plain (`lex_render_iff`).
-/

namespace FengShui.Lib.Lua

open List

/-! ## Bytes -/

abbrev Bytes := List UInt8

/-- The bytes of an ASCII text. -/
def ascii (text : String) : Bytes := text.toList.map fun c => UInt8.ofNat c.toNat

def isSpace (byte : UInt8) : Bool := byte = 0x20 || 0x09 ≤ byte && byte ≤ 0x0d

def isNewline (byte : UInt8) : Bool := byte = 0x0a || byte = 0x0d

def isDigit (byte : UInt8) : Bool := 0x30 ≤ byte && byte ≤ 0x39

/-- The value of a hexadecimal digit. -/
def hexDigit (byte : UInt8) : Option ℕ :=
  if isDigit byte then some (byte.toNat - 0x30)
  else if 0x61 ≤ byte && byte ≤ 0x66 then some (byte.toNat - 0x61 + 10)
  else if 0x41 ≤ byte && byte ≤ 0x46 then some (byte.toNat - 0x41 + 10)
  else none

/-- A byte of a name: a letter, a digit, an underscore or a byte that is not ASCII. -/
def isNameByte (byte : UInt8) : Bool :=
  0x61 ≤ byte && byte ≤ 0x7a || 0x41 ≤ byte && byte ≤ 0x5a || isDigit byte || byte = 0x5f ||
    0x80 ≤ byte

def quote : UInt8 := 0x27

def backslash : UInt8 := 0x5c

/-! ## Strings -/

/-- Escapes of one byte. -/
def simpleEscape (byte : UInt8) : Option UInt8 :=
  match byte with
  | 0x61 => some 0x07
  | 0x62 => some 0x08
  | 0x66 => some 0x0c
  | 0x6e => some 0x0a
  | 0x72 => some 0x0d
  | 0x74 => some 0x09
  | 0x76 => some 0x0b
  | 0x5c => some 0x5c
  | 0x22 => some 0x22
  | 0x27 => some 0x27
  | _ => none

/-- The hexadecimal digits of a code point up to the closing brace. -/
def codePoint : ℕ → Bytes → Option (ℕ × Bytes)
  | _, [] => none
  | value, byte :: rest =>
    if byte = 0x7d then some (value, rest)
    else do
      let digit ← hexDigit byte
      let value := 16 * value + digit
      if value < 0x110000 then codePoint value rest else none

/-- Up to so many further decimal digits. -/
def decimalDigits : ℕ → ℕ → Bytes → ℕ × Bytes
  | _, value, [] => (value, [])
  | 0, value, rest => (value, rest)
  | count + 1, value, byte :: rest =>
    if isDigit byte then decimalDigits count (10 * value + (byte.toNat - 0x30)) rest
    else (value, byte :: rest)

/-- Two hexadecimal digits. -/
def hexEscape : Bytes → Option (Bytes × Bytes)
  | high :: low :: rest => do
    let high ← hexDigit high
    let low ← hexDigit low
    return ([UInt8.ofNat (16 * high + low)], rest)
  | _ => none

/-- A code point in braces, as UTF-8. -/
def unicodeEscape : Bytes → Option (Bytes × Bytes)
  | brace :: first :: rest =>
    if brace = 0x7b ∧ first ≠ 0x7d then do
      let (value, rest) ← codePoint 0 (first :: rest)
      if value.isValidChar then some (String.utf8EncodeChar (Char.ofNat value), rest) else none
    else none
  | _ => none

/-- A line break of one byte or of two different ones. -/
def newlineEscape (byte : UInt8) : Bytes → Bytes × Bytes
  | [] => ([0x0a], [])
  | other :: rest =>
    if isNewline other && other != byte then ([0x0a], rest) else ([0x0a], other :: rest)

/-- Up to three decimal digits. -/
def decimalEscape (byte : UInt8) (rest : Bytes) : Option (Bytes × Bytes) :=
  let (value, rest) := decimalDigits 2 (byte.toNat - 0x30) rest
  if value < 256 then some ([UInt8.ofNat value], rest) else none

/-- An escape behind its backslash: the bytes that it denotes, and what is behind it. -/
def escape : Bytes → Option (Bytes × Bytes)
  | [] => none
  | byte :: rest =>
    match simpleEscape byte with
    | some value => some ([value], rest)
    | none =>
      if byte = 0x78 then hexEscape rest
      else if byte = 0x75 then unicodeEscape rest
      else if byte = 0x7a then some ([], rest.dropWhile isSpace)
      else if isNewline byte then some (newlineEscape byte rest)
      else if isDigit byte then decimalEscape byte rest
      else none

variable {byte : UInt8} {value rest used behind : Bytes}

theorem hexDigit_ne_quote {value : ℕ} (h : hexDigit byte = some value) : byte ≠ quote := by
  rintro rfl
  exact absurd h nofun

theorem codePoint_consumes {value result : ℕ} {text : Bytes}
    (h : codePoint value text = some (result, rest)) :
    ∃ used, text = used ++ rest ∧ quote ∉ used ∧ used ≠ [] ∧
      (text.head? ≠ some 0x7d → 2 ≤ used.length) := by
  induction text generalizing value with
  | nil => exact absurd h nofun
  | cons byte text ih =>
    rw [codePoint] at h
    by_cases hbrace : byte = 0x7d
    · rw [if_pos hbrace] at h
      cases h
      refine ⟨[byte], rfl, by rw [hbrace]; decide, cons_ne_nil _ _, fun hne => ?_⟩
      exact absurd (congrArg some hbrace) hne
    · rw [if_neg hbrace] at h
      obtain ⟨digit, hdigit, h⟩ := Option.bind_eq_some_iff.mp h
      by_cases hrange : 16 * value + digit < 0x110000
      · rw [if_pos hrange] at h
        obtain ⟨used, rfl, hused, hne, -⟩ := ih h
        refine ⟨byte :: used, rfl, ?_, cons_ne_nil _ _, fun _ => ?_⟩
        · rw [mem_cons]
          rintro (heq | hmem)
          · exact hexDigit_ne_quote hdigit heq.symm
          · exact hused hmem
        · have hpos := length_pos_iff.mpr hne
          rw [length_cons]
          omega
      · rw [if_neg hrange] at h
        exact absurd h nofun

theorem decimalDigits_consumes (count value : ℕ) (text : Bytes) :
    ∃ used, text = used ++ (decimalDigits count value text).2 ∧ quote ∉ used := by
  induction count generalizing value text with
  | zero =>
    cases text with
    | nil => exact ⟨[], rfl, not_mem_nil⟩
    | cons byte text => exact ⟨[], rfl, not_mem_nil⟩
  | succ count ih =>
    cases text with
    | nil => exact ⟨[], rfl, not_mem_nil⟩
    | cons byte text =>
      rw [decimalDigits]
      by_cases hdigit : isDigit byte = true
      · rw [if_pos hdigit]
        obtain ⟨used, htext, hused⟩ := ih (10 * value + (byte.toNat - 0x30)) text
        refine ⟨byte :: used, congrArg (byte :: ·) htext, ?_⟩
        rw [mem_cons]
        rintro (rfl | hmem)
        · exact absurd hdigit (by decide)
        · exact hused hmem
      · rw [if_neg hdigit]
        exact ⟨[], rfl, not_mem_nil⟩

theorem hexEscape_consumes {text : Bytes} (h : hexEscape text = some (value, rest)) :
    ∃ used, text = used ++ rest ∧ quote ∉ used ∧ value.length ≤ used.length := by
  cases text with
  | nil => exact absurd h nofun
  | cons high text =>
    cases text with
    | nil => exact absurd h nofun
    | cons low text =>
      obtain ⟨_, hhigh, h⟩ := Option.bind_eq_some_iff.mp h
      obtain ⟨_, hlow, h⟩ := Option.bind_eq_some_iff.mp h
      cases h
      refine ⟨[high, low], rfl, ?_, Nat.le_succ 1⟩
      have hhigh' := hexDigit_ne_quote hhigh
      have hlow' := hexDigit_ne_quote hlow
      simp [hhigh'.symm, hlow'.symm]

theorem unicodeEscape_consumes {text : Bytes} (h : unicodeEscape text = some (value, rest)) :
    ∃ used, text = used ++ rest ∧ quote ∉ used ∧ value.length ≤ used.length + 1 := by
  cases text with
  | nil => exact absurd h nofun
  | cons brace text =>
    cases text with
    | nil => exact absurd h nofun
    | cons first text =>
      rw [unicodeEscape] at h
      by_cases hbrace : brace = 0x7b ∧ first ≠ 0x7d
      · rw [if_pos hbrace] at h
        obtain ⟨⟨point, behind⟩, hpoint, h⟩ := Option.bind_eq_some_iff.mp h
        dsimp only at h
        split_ifs at h with hvalid
        cases h
        obtain ⟨used, htext, hused, -, hlen⟩ := codePoint_consumes hpoint
        have htwo := hlen fun heq => hbrace.2 (Option.some.inj heq)
        have hfour : (String.utf8EncodeChar (Char.ofNat point)).length ≤ 4 := by
          rw [String.length_utf8EncodeChar]
          exact Char.utf8Size_le_four _
        refine ⟨brace :: used, congrArg (brace :: ·) htext, ?_, ?_⟩
        · rw [mem_cons]
          rintro (heq | hmem)
          · exact absurd (heq.trans hbrace.1) (by decide)
          · exact hused hmem
        · rw [length_cons]
          omega
      · rw [if_neg hbrace] at h
        exact absurd h nofun

theorem newlineEscape_consumes (byte : UInt8) (text : Bytes) :
    ∃ used, text = used ++ (newlineEscape byte text).2 ∧ quote ∉ used ∧
      (newlineEscape byte text).1.length = 1 := by
  cases text with
  | nil => exact ⟨[], rfl, not_mem_nil, rfl⟩
  | cons other text =>
    rw [newlineEscape]
    split_ifs with hother
    · refine ⟨[other], rfl, fun hmem => ?_, rfl⟩
      obtain rfl := mem_singleton.mp hmem
      exact absurd (Bool.and_eq_true_iff.mp hother).1 (by decide)
    · exact ⟨[], rfl, not_mem_nil, rfl⟩

theorem decimalEscape_consumes {text : Bytes} (h : decimalEscape byte text = some (value, rest)) :
    ∃ used, text = used ++ rest ∧ quote ∉ used ∧ value.length = 1 := by
  obtain ⟨used, htext, hused⟩ := decimalDigits_consumes 2 (byte.toNat - 0x30) text
  rw [decimalEscape] at h
  dsimp only at h
  split_ifs at h with hval
  cases h
  exact ⟨used, htext, hused, rfl⟩

/-- An escape takes at least as many bytes as it denotes, behind its backslash; it takes a quote
only as the escape of the quote. -/
structure Escapes (text value rest used : Bytes) : Prop where
  taken : text = used ++ rest
  used_ne : used ≠ []
  length_le : value.length ≤ used.length
  quote : quote ∈ used → used = [quote] ∧ value = [quote]

/-- An escape of a byte that is no quote, with bytes behind it that are none. -/
theorem Escapes.of_cons {text : Bytes} (hbyte : Lua.quote ≠ byte) (htext : text = used ++ rest)
    (hused : Lua.quote ∉ used) (hlen : value.length ≤ used.length + 1) :
    Escapes (byte :: text) value rest (byte :: used) where
  taken := congrArg (byte :: ·) htext
  used_ne := cons_ne_nil _ _
  length_le := by rwa [length_cons]
  quote hmem := absurd hmem (not_mem_cons_of_ne_of_not_mem hbyte hused)

theorem escape_spec {text : Bytes} (h : escape text = some (value, rest)) :
    ∃ used, Escapes text value rest used := by
  cases text with
  | nil => exact absurd h nofun
  | cons byte text =>
    rw [escape] at h
    cases hsimple : simpleEscape byte with
    | some single =>
      rw [hsimple] at h
      cases h
      refine ⟨[byte], rfl, cons_ne_nil _ _, le_rfl, fun hmem => ?_⟩
      obtain rfl : quote = byte := mem_singleton.mp hmem
      have hquote : some quote = some single := hsimple
      exact ⟨rfl, by rw [← Option.some.inj hquote]⟩
    | none =>
      have hbyte : quote ≠ byte := by
        rintro rfl
        exact absurd hsimple nofun
      rw [hsimple] at h
      dsimp only at h
      split_ifs at h with hx hu hz hnewline hdigit
      · obtain ⟨used, htext, hused, hlen⟩ := hexEscape_consumes h
        exact ⟨_, .of_cons hbyte htext hused (Nat.le_succ_of_le hlen)⟩
      · obtain ⟨used, htext, hused, hlen⟩ := unicodeEscape_consumes h
        exact ⟨_, .of_cons hbyte htext hused hlen⟩
      · cases h
        refine ⟨_, .of_cons hbyte takeWhile_append_dropWhile.symm (fun hmem => ?_) (Nat.zero_le _)⟩
        have hspace : isSpace quote = true := mem_takeWhile_imp hmem
        exact absurd hspace (by decide)
      · obtain ⟨used, htext, hused, hlen⟩ := newlineEscape_consumes byte text
        rw [Option.some.inj h] at htext hlen
        exact ⟨_, .of_cons hbyte htext hused (hlen.le.trans (Nat.le_add_left _ _))⟩
      · obtain ⟨used, htext, hused, hlen⟩ := decimalEscape_consumes h
        exact ⟨_, .of_cons hbyte htext hused (hlen.le.trans (Nat.le_add_left _ _))⟩

theorem escape_length {text : Bytes} (h : escape text = some (value, rest)) :
    rest.length < text.length := by
  obtain ⟨used, hused⟩ := escape_spec h
  have hpos := length_pos_iff.mpr hused.used_ne
  rw [hused.taken, length_append]
  omega

/-- The bytes of a string up to its delimiter, and what is behind it. -/
def readString (delimiter : UInt8) : Bytes → Option (Bytes × Bytes)
  | [] => none
  | byte :: rest =>
    if byte = delimiter then some ([], rest)
    else if isNewline byte then none
    else if byte = backslash then
      match h : escape rest with
      | none => none
      | some (value, behind) =>
        have := escape_length h
        (readString delimiter behind).map fun string => (value ++ string.1, string.2)
    else (readString delimiter rest).map fun string => (byte :: string.1, string.2)
termination_by text => text.length

/-- A text that can stand in quotes as it is. -/
def Plain (text : Bytes) : Prop :=
  ∀ byte ∈ text, byte ≠ quote ∧ byte ≠ backslash ∧ isNewline byte = false

instance (text : Bytes) : Decidable (Plain text) := List.decidableBAll _ text

theorem readString_plain {text : Bytes} (h : Plain text) (rest : Bytes) :
    readString quote (text ++ quote :: rest) = some (text, rest) := by
  induction text with
  | nil =>
    rw [nil_append, readString, if_pos rfl]
  | cons byte text ih =>
    obtain ⟨hquote, hbackslash, hnewline⟩ := h byte mem_cons_self
    rw [cons_append, readString, if_neg hquote, if_neg (by simp [hnewline]), if_neg hbackslash,
      ih fun other hmem => h other (mem_cons_of_mem _ hmem)]
    rfl

theorem readString_byte (hquote : byte ≠ quote) (hnewline : isNewline byte = false)
    (hbackslash : byte ≠ backslash) (text : Bytes) :
    readString quote (byte :: text) =
      (readString quote text).map fun string => (byte :: string.1, string.2) := by
  rw [readString, if_neg hquote, if_neg (by simp [hnewline]), if_neg hbackslash]

/-- A string that begins with an escape. -/
theorem readString_escape {text : Bytes}
    (h : readString quote (backslash :: text) = some (value, rest)) :
    ∃ first behind others, escape text = some (first, behind) ∧
      readString quote behind = some (others, rest) ∧ value = first ++ others := by
  rw [readString, if_neg (by decide), if_neg (by decide), if_pos rfl] at h
  split at h
  · exact absurd h nofun
  · rename_i first behind hescape
    obtain ⟨⟨others, last⟩, hothers, hpair⟩ := Option.map_eq_some_iff.mp h
    cases hpair
    exact ⟨first, behind, others, hescape, hothers, rfl⟩

/-- What is left of a prefix behind its own beginning. -/
theorem prefix_drop {string : Bytes} (h : value ++ string <+: used ++ behind)
    (hlen : value.length ≤ used.length) : string <+: used.drop value.length ++ behind := by
  obtain ⟨more, hmore⟩ := h
  refine ⟨more, ?_⟩
  have hdrop := congrArg (List.drop value.length) hmore
  rw [append_assoc, drop_left] at hdrop
  rw [hdrop, drop_append_of_le_length hlen]

/-- Behind an escape the string lags behind the text, by bytes that are no quotes: the escape of the
quote would denote a byte that does not stand there. -/
theorem lag_of_escape {lag text string : Bytes} (hquote : quote ∉ lag)
    (h : Escapes text value behind used) (hstart : value ++ string <+: lag ++ backslash :: text) :
    (lag ++ backslash :: used).drop value.length ≠ [] ∧
      quote ∉ (lag ++ backslash :: used).drop value.length ∧
      string <+: (lag ++ backslash :: used).drop value.length ++ behind := by
  have hlen : value.length ≤ (lag ++ backslash :: used).length := by
    have := h.length_le
    rw [length_append, length_cons]
    omega
  have htext : lag ++ backslash :: text = (lag ++ backslash :: used) ++ behind := by
    rw [h.taken, append_assoc, cons_append]
  rw [htext] at hstart
  refine ⟨?_, fun hmem => ?_, prefix_drop hstart hlen⟩
  · intro hnil
    have hle := drop_eq_nil_iff.mp hnil
    have := h.length_le
    rw [length_append, length_cons] at hle
    omega
  · have hused : quote ∈ used := by
      have hmem' := mem_of_mem_drop hmem
      rw [mem_append, mem_cons] at hmem'
      rcases hmem' with hmem' | heq | hmem'
      · exact absurd hmem' hquote
      · exact absurd heq (by decide)
      · exact hmem'
    obtain ⟨-, rfl⟩ := h.quote hused
    -- The quote is denoted where the text has what lags behind, or the backslash.
    cases lag with
    | nil =>
      have hhead := (cons_prefix_cons.mp hstart).1
      exact absurd hhead (by decide)
    | cons first others =>
      have hhead := (cons_prefix_cons.mp hstart).1
      exact hquote (hhead ▸ mem_cons_self)

/-- With bytes between what was read and what is still to be read, and no quote among them, the
string and a quote are never what stands there. -/
theorem readString_lag {text lag : Bytes} (hread : readString quote text = some (value, rest))
    (hlag : lag ≠ []) (hquote : quote ∉ lag) : ¬value ++ [quote] <+: lag ++ text := by
  induction hlen : text.length using Nat.strongRecOn generalizing text value lag with
  | _ length ih =>
    subst hlen
    intro hstart
    cases text with
    | nil =>
      rw [readString] at hread
      exact absurd hread nofun
    | cons byte text =>
      obtain ⟨first, others, rfl⟩ := exists_cons_of_ne_nil hlag
      have hfirst : first ≠ quote := fun heq => hquote (heq ▸ mem_cons_self)
      by_cases hend : byte = quote
      · -- The string ends, where the text still has what lags behind.
        rw [readString, if_pos hend] at hread
        cases hread
        exact hfirst (cons_prefix_cons.mp hstart).1.symm
      by_cases hnewline : isNewline byte = true
      · rw [readString, if_neg hend, if_pos hnewline] at hread
        exact absurd hread nofun
      by_cases hbackslash : byte = backslash
      · subst hbackslash
        obtain ⟨value, behind, string, hescape, hstr, rfl⟩ := readString_escape hread
        obtain ⟨used, hused⟩ := escape_spec hescape
        rw [append_assoc] at hstart
        obtain ⟨hlag', hquote', hstart'⟩ := lag_of_escape hquote hused hstart
        exact ih _ ((escape_length hescape).trans (Nat.lt_succ_self _)) hstr hlag' hquote'
          rfl hstart'
      · -- A byte for a byte: the lag stays as long as it is.
        rw [readString_byte hend (Bool.not_eq_true _ ▸ hnewline) hbackslash] at hread
        obtain ⟨⟨string, behind⟩, hstr, hpair⟩ := Option.map_eq_some_iff.mp hread
        cases hpair
        obtain ⟨rfl, htail⟩ := cons_prefix_cons.mp hstart
        have hquote' : quote ∉ others ++ [byte] := by
          rw [mem_append, mem_singleton]
          rintro (hmem | heq)
          · exact hquote (mem_cons_of_mem _ hmem)
          · exact hend heq.symm
        have hlag' : others ++ [byte] ≠ [] := by simp
        have htail' : string ++ [quote] <+: others ++ [byte] ++ text := by
          rw [append_assoc]
          exact htail
        exact ih _ (Nat.lt_succ_self _) hstr hlag' hquote' rfl htail'

/-- A string that is read as it was written has no escape in it, and nothing that would need one. -/
theorem plain_of_readString {text : Bytes} (hread : readString quote text = some (value, rest))
    (hstart : value ++ [quote] <+: text) : Plain value := by
  induction text generalizing value with
  | nil =>
    rw [readString] at hread
    exact absurd hread nofun
  | cons byte text ih =>
    by_cases hend : byte = quote
    · rw [readString, if_pos hend] at hread
      cases hread
      exact fun _ hmem => absurd hmem not_mem_nil
    by_cases hnewline : isNewline byte = true
    · rw [readString, if_neg hend, if_pos hnewline] at hread
      exact absurd hread nofun
    by_cases hbackslash : byte = backslash
    · subst hbackslash
      obtain ⟨value, behind, string, hescape, hstr, rfl⟩ := readString_escape hread
      obtain ⟨used, hused⟩ := escape_spec hescape
      rw [append_assoc] at hstart
      obtain ⟨hlag, hquote, hstart'⟩ :=
        lag_of_escape (not_mem_nil (a := quote)) hused (by exact hstart)
      exact absurd hstart' (readString_lag hstr hlag hquote)
    · rw [readString_byte hend (Bool.not_eq_true _ ▸ hnewline) hbackslash] at hread
      obtain ⟨⟨string, behind⟩, hstr, hpair⟩ := Option.map_eq_some_iff.mp hread
      cases hpair
      intro other hmem
      rcases mem_cons.mp hmem with rfl | hmem
      · exact ⟨hend, hbackslash, Bool.not_eq_true _ ▸ hnewline⟩
      · exact ih hstr (cons_prefix_cons.mp hstart).2 other hmem

theorem readString_eq_iff (text rest : Bytes) :
    (∃ behind, readString quote (text ++ quote :: rest) = some (text, behind)) ↔ Plain text := by
  constructor
  · rintro ⟨behind, hread⟩
    refine plain_of_readString hread ⟨rest, ?_⟩
    rw [append_assoc, singleton_append]
  · exact fun h => ⟨rest, readString_plain h rest⟩

/-! ## Tokens -/

inductive Token where
  | name (bytes : Bytes)
  | number (bytes : Bytes)
  | string (value : Bytes)
  | symbol (bytes : Bytes)
  deriving DecidableEq

/-- The level of a long bracket behind its first bracket, and what is behind it. -/
def longOpen : Bytes → Option (ℕ × Bytes)
  | [] => none
  | byte :: rest =>
    if byte = 0x5b then some (0, rest)
    else if byte = 0x3d then (longOpen rest).map fun opened => (opened.1 + 1, opened.2)
    else none

/-- What is behind the long bracket of a level that closes, and what is in front of it. -/
def longClose (level : ℕ) : Bytes → Option (Bytes × Bytes)
  | [] => none
  | byte :: rest =>
    if (0x5d :: List.replicate level 0x3d ++ [0x5d]) <+: byte :: rest then
      some ([], rest.drop (level + 1))
    else (longClose level rest).map fun closed => (byte :: closed.1, closed.2)

/-- A line break right behind the bracket is no part of a long string. -/
def skipNewline : Bytes → Bytes
  | [] => []
  | byte :: rest => if isNewline byte then (newlineEscape byte rest).2 else byte :: rest

/-- The bytes of a number behind its first ones; a sign belongs to an exponent. -/
def numberTail (previous : UInt8) : Bytes → Bytes × Bytes
  | [] => ([], [])
  | byte :: rest =>
    if isNameByte byte || byte = 0x2e
      || (byte = 0x2b || byte = 0x2d) && (previous = 0x65 || previous = 0x45) then
      let tail := numberTail byte rest
      (byte :: tail.1, tail.2)
    else ([], byte :: rest)

/-- What is behind a comment. -/
def skipComment (text : Bytes) : Option Bytes :=
  match text with
  | 0x5b :: rest =>
    match longOpen rest with
    | some (level, body) => (longClose level body).map Prod.snd
    | none => some (text.dropWhile (!isNewline ·))
  | _ => some (text.dropWhile (!isNewline ·))

/-- Symbols of more than one byte. -/
def longSymbols : List Bytes :=
  [ascii "...", ascii "..", ascii "==", ascii "~=", ascii "<=", ascii ">=", ascii "::"]

/-- A symbol at the front of a text. -/
def readSymbol (byte : UInt8) (rest : Bytes) : Bytes × Bytes :=
  match longSymbols.find? (·.isPrefixOf (byte :: rest)) with
  | some symbol => (symbol, (byte :: rest).drop symbol.length)
  | none => ([byte], rest)

/-- The next token, if it is none that is skipped, and what is behind it. -/
def next (byte : UInt8) (rest : Bytes) : Option (Option Token × Bytes) :=
  if isSpace byte then some (none, rest)
  else if byte = 0x2d ∧ rest.head? = some 0x2d then
    (skipComment rest.tail).map fun behind => (none, behind)
  else if byte = quote ∨ byte = 0x22 then
    (readString byte rest).map fun string => (some (.string string.1), string.2)
  else if byte = 0x5b ∧ (longOpen rest).isSome then do
    let (level, body) ← longOpen rest
    (longClose level (skipNewline body)).map fun closed => (some (.string closed.1), closed.2)
  else if isDigit byte || byte = 0x2e && (rest.head?.any isDigit) then
    let tail := numberTail byte rest
    some (some (.number (byte :: tail.1)), tail.2)
  else if isNameByte byte then
    some (some (.name (byte :: rest.takeWhile isNameByte)), rest.dropWhile isNameByte)
  else
    let symbol := readSymbol byte rest
    some (some (.symbol symbol.1), symbol.2)

/-- The tokens of a program. -/
def lex (text : Bytes) : Option (List Token) :=
  match text with
  | [] => some []
  | byte :: rest => do
    let (token, behind) ← next byte rest
    -- No token is empty.
    if behind.length ≤ rest.length then
      let tokens ← lex behind
      return token.toList ++ tokens
    else none
termination_by text.length

theorem lex_cons {token : Option Token} (h : next byte rest = some (token, behind))
    (hlen : behind.length ≤ rest.length) :
    lex (byte :: rest) = (lex behind).map (token.toList ++ ·) := by
  rw [lex, h, Option.bind_eq_bind, Option.bind_some]
  dsimp only
  rw [if_pos hlen]
  cases lex behind <;> rfl

/-! ## Lexemes -/

/-- A part of a program as it is written; the strings are texts over any units. -/
inductive Lexeme (α : Type) where
  | name (text : Bytes)
  | number (digits : Bytes)
  | string (text : List α)
  | symbol (byte : UInt8)
  | space

namespace Lexeme

variable {α β : Type}

/-- The text of a lexeme, where a string stands in quotes. -/
def text (unit : UInt8 → α) : Lexeme α → List α
  | name text | number text => text.map unit
  | string text => unit quote :: text ++ [unit quote]
  | symbol byte => [unit byte]
  | space => [unit 0x20]

def mapString (f : List α → List β) : Lexeme α → Lexeme β
  | name text => name text
  | number digits => number digits
  | string text => string (f text)
  | symbol byte => symbol byte
  | space => space

/-- The token of a lexeme, whose string is meant as it is. -/
def token : Lexeme UInt8 → Option Token
  | name text => some (.name text)
  | number digits => some (.number digits)
  | string text => some (.string text)
  | symbol byte => some (.symbol [byte])
  | space => none

/-- Symbols that are the beginning of no other token, and no number. -/
def isSymbol (byte : UInt8) : Bool := byte ∈ ascii ".:=-[](){},"

/-- A lexeme that is one, whatever text a string has. -/
def IsWhole : Lexeme α → Bool
  | name text => text.head?.any (fun byte => isNameByte byte && !isDigit byte) &&
      text.all fun byte => isNameByte byte && byte < 0x80
  | number digits => digits != [] && digits.all isDigit
  | symbol byte => isSymbol byte
  | string _ | space => true

/-- The first byte of a lexeme. -/
def first : Lexeme α → Option UInt8
  | name text | number text => text.head?
  | string _ => some quote
  | symbol byte => some byte
  | space => some 0x20

/-- Whether a byte may follow a lexeme. -/
def endsBefore (byte : UInt8) : Lexeme α → Bool
  | name _ => !isNameByte byte
  | number _ => !isNameByte byte && byte != 0x2e
  | symbol 0x5b => byte != 0x5b && byte != 0x3d
  | symbol 0x2e => byte != 0x2e && !isDigit byte
  | symbol 0x2d => byte != 0x2d
  | symbol 0x3d => byte != 0x3d
  | symbol 0x3a => byte != 0x3a
  | _ => true

/-- Whether a lexeme may follow another one. -/
def Fits (lexeme next : Lexeme α) : Bool := next.first.all fun byte => lexeme.endsBefore byte

end Lexeme

/-- The text of lexemes. -/
def render {α : Type} (unit : UInt8 → α) (lexemes : List (Lexeme α)) : List α :=
  lexemes.flatMap (·.text unit)

/-- Lexemes that are read as they are, as long as their strings are. -/
def Separated {α : Type} (lexemes : List (Lexeme α)) : Prop :=
  (∀ lexeme ∈ lexemes, lexeme.IsWhole = true) ∧
    lexemes.IsChain fun lexeme next => lexeme.Fits next = true

/-- The tokens that lexemes stand for. -/
def tokens (lexemes : List (Lexeme UInt8)) : List Token := lexemes.filterMap Lexeme.token

/-! ## Reading lexemes -/

theorem nameByte_cases (h : isNameByte byte = true) :
    isSpace byte = false ∧ byte ≠ 0x2d ∧ byte ≠ quote ∧ byte ≠ 0x22 ∧ byte ≠ 0x5b ∧
      byte ≠ 0x2e := by
  simp only [isNameByte, isDigit, Bool.or_eq_true, Bool.and_eq_true, decide_eq_true_eq,
    UInt8.le_iff_toNat_le, ← UInt8.toNat_inj] at h
  simp only [isSpace, quote, ne_eq, ← UInt8.toNat_inj, Bool.or_eq_false_iff, Bool.and_eq_false_iff,
    decide_eq_false_iff_not, UInt8.le_iff_toNat_le]
  simp only [UInt8.reduceToNat] at h ⊢
  omega

theorem nameByte_of_digit (h : isDigit byte = true) : isNameByte byte = true := by
  simp [isNameByte, h]

/-- What follows a lexeme does not change where it ends. -/
def EndsBefore {α : Type} (lexeme : Lexeme α) (rest : Bytes) : Prop :=
  ∀ byte, rest.head? = some byte → lexeme.endsBefore byte = true

theorem takeWhile_nil_of_head {p : UInt8 → Bool} {rest : Bytes}
    (h : ∀ byte, rest.head? = some byte → p byte = false) :
    rest.takeWhile p = [] ∧ rest.dropWhile p = rest := by
  cases rest with
  | nil => exact ⟨rfl, rfl⟩
  | cons byte rest => simp [h byte rfl]

theorem next_name {text : Bytes}
    (hwhole : (Lexeme.name (byte :: text) : Lexeme UInt8).IsWhole = true)
    (hends : EndsBefore (Lexeme.name (byte :: text) : Lexeme UInt8) rest) :
    next byte (text ++ rest) = some (some (.name (byte :: text)), rest) := by
  simp only [Lexeme.IsWhole, head?_cons, Option.any_some, all_cons, Bool.and_eq_true,
    Bool.not_eq_true', all_eq_true] at hwhole
  obtain ⟨⟨hbyte, hdigit⟩, -, hascii⟩ := hwhole
  have hall : ∀ other ∈ text, isNameByte other = true := fun other hmem => (hascii other hmem).1
  obtain ⟨hspace, hdash, hquote, hquotes, hbracket, hdot⟩ := nameByte_cases hbyte
  obtain ⟨htake, hdrop⟩ := @takeWhile_nil_of_head isNameByte rest fun other hother => by
    simpa [Lexeme.endsBefore] using hends other hother
  rw [next, if_neg (by simp [hspace]), if_neg (by simp [hdash]), if_neg (by simp [hquote, hquotes]),
    if_neg (by simp [hbracket]), if_neg (by simp [hdigit, hdot]), if_pos hbyte,
    takeWhile_append_of_pos hall, dropWhile_append_of_pos hall, htake, hdrop, append_nil]

theorem numberTail_digits {digits : Bytes} (hdigits : ∀ byte ∈ digits, isDigit byte = true)
    (hrest : ∀ byte, rest.head? = some byte → isNameByte byte = false ∧ byte ≠ 0x2e)
    {previous : UInt8} (hprev : isDigit previous = true) :
    numberTail previous (digits ++ rest) = (digits, rest) := by
  induction digits generalizing previous with
  | nil =>
    cases rest with
    | nil => rfl
    | cons byte rest =>
      obtain ⟨hname, hdot⟩ := hrest byte rfl
      have hexponent : previous ≠ 0x65 ∧ previous ≠ 0x45 :=
        ⟨by rintro rfl; exact absurd hprev (by decide),
          by rintro rfl; exact absurd hprev (by decide)⟩
      rw [nil_append, numberTail, if_neg (by simp [hname, hdot, hexponent])]
  | cons byte digits ih =>
    have hbyte := hdigits byte mem_cons_self
    rw [cons_append, numberTail, if_pos (by simp [nameByte_of_digit hbyte])]
    dsimp only
    rw [ih (fun other hmem => hdigits other (mem_cons_of_mem _ hmem)) hbyte]

theorem next_number {digits : Bytes}
    (hwhole : (Lexeme.number (byte :: digits) : Lexeme UInt8).IsWhole = true)
    (hends : EndsBefore (Lexeme.number (byte :: digits) : Lexeme UInt8) rest) :
    next byte (digits ++ rest) = some (some (.number (byte :: digits)), rest) := by
  simp only [Lexeme.IsWhole, all_cons, Bool.and_eq_true, all_eq_true] at hwhole
  obtain ⟨-, hbyte, hall⟩ := hwhole
  obtain ⟨hspace, hdash, hquote, hquotes, hbracket, hdot⟩ :=
    nameByte_cases (nameByte_of_digit hbyte)
  have hrest : ∀ other, rest.head? = some other → isNameByte other = false ∧ other ≠ 0x2e := by
    intro other hother
    simpa [Lexeme.endsBefore] using hends other hother
  rw [next, if_neg (by simp [hspace]), if_neg (by simp [hdash]), if_neg (by simp [hquote, hquotes]),
    if_neg (by simp [hbracket]), if_pos (by simp [hbyte]), numberTail_digits hall hrest hbyte]

theorem next_symbol_of (hspace : isSpace byte = false) (hquote : byte ≠ quote ∧ byte ≠ 0x22)
    (hname : isNameByte byte = false) (hcomment : ¬(byte = 0x2d ∧ rest.head? = some 0x2d))
    (hlong : ¬(byte = 0x5b ∧ (longOpen rest).isSome))
    (hnum : ¬(byte = 0x2e ∧ rest.head?.any isDigit = true))
    (hsymbol : ∀ symbol ∈ longSymbols, symbol.isPrefixOf (byte :: rest) = false) :
    next byte rest = some (some (.symbol [byte]), rest) := by
  have hdigit : isDigit byte = false := by
    rw [← Bool.not_eq_true]
    exact fun h => absurd (nameByte_of_digit h) (by simp [hname])
  have hfind : longSymbols.find? (·.isPrefixOf (byte :: rest)) = none :=
    find?_eq_none.mpr fun symbol hmem => by simp [hsymbol symbol hmem]
  rw [next, if_neg (by simp [hspace]), if_neg hcomment, if_neg (by simp [hquote]), if_neg hlong,
    if_neg (by simpa [hdigit] using hnum), if_neg (by simp [hname]), readSymbol, hfind]

theorem next_symbol (hwhole : (Lexeme.symbol byte : Lexeme UInt8).IsWhole = true)
    (hends : EndsBefore (Lexeme.symbol byte : Lexeme UInt8) rest) :
    next byte rest = some (some (.symbol [byte]), rest) := by
  have hbyte : byte ∈ ascii ".:=-[](){}," := of_decide_eq_true hwhole
  have hcases : byte ∈ [0x2e, 0x3a, 0x3d, 0x2d, 0x5b, 0x5d, 0x28, 0x29, 0x7b, 0x7d, 0x2c] := hbyte
  simp only [mem_cons, not_mem_nil, or_false] at hcases
  cases rest with
  | nil =>
    rcases hcases with rfl | rfl | rfl | rfl | rfl | rfl | rfl | rfl | rfl | rfl | rfl <;> rfl
  | cons head rest =>
    have hhead := hends head rfl
    have hsymm : ∀ byte, ¬head = byte → ¬byte = head := fun _ hne heq => hne heq.symm
    rcases hcases with rfl | rfl | rfl | rfl | rfl | rfl | rfl | rfl | rfl | rfl | rfl
    all_goals
      simp only [Lexeme.endsBefore, Bool.and_eq_true, bne_iff_ne, Bool.not_eq_true', ne_eq] at hhead
      refine next_symbol_of rfl (by decide) rfl ?_ ?_ ?_ ?_
      · simp [hhead]
      · simp [longOpen, hhead]
      · simp [hhead]
      · simp [longSymbols, ascii, List.isPrefixOf, hhead, hsymm]

/-- A lexeme in front of what may follow it is read as its token, a string when it is plain. -/
theorem next_lexeme {lexeme : Lexeme UInt8} (hwhole : lexeme.IsWhole = true)
    (hends : EndsBefore lexeme rest) (hplain : ∀ text, lexeme = .string text → Plain text) :
    ∃ byte text, lexeme.text id = byte :: text ∧
      next byte (text ++ rest) = some (lexeme.token, rest) := by
  cases lexeme with
  | name text =>
    cases text with
    | nil => exact absurd hwhole nofun
    | cons byte text =>
      refine ⟨byte, text, ?_, next_name hwhole hends⟩
      rw [Lexeme.text, map_id]
  | number digits =>
    cases digits with
    | nil => exact absurd hwhole nofun
    | cons byte digits =>
      refine ⟨byte, digits, ?_, next_number hwhole hends⟩
      rw [Lexeme.text, map_id]
  | string text =>
    refine ⟨quote, text ++ [quote], rfl, ?_⟩
    have hread := readString_plain (hplain text rfl) rest
    rw [append_assoc, singleton_append, next, if_neg (by decide), if_neg (by simp [quote]),
      if_pos (.inl rfl), hread]
    rfl
  | symbol byte => exact ⟨byte, [], rfl, next_symbol hwhole hends⟩
  | space => exact ⟨0x20, [], rfl, rfl⟩

/-- The first byte of what lexemes are written as is that of the first one. -/
theorem endsBefore_render {lexeme : Lexeme UInt8} {lexemes : List (Lexeme UInt8)}
    (hwhole : ∀ other ∈ lexemes, other.IsWhole = true)
    (hfits : ∀ other, lexemes.head? = some other → lexeme.Fits other = true) :
    EndsBefore lexeme (render id lexemes) := by
  cases lexemes with
  | nil => exact fun byte hbyte => absurd hbyte nofun
  | cons other lexemes =>
    have hfirst : (render id (other :: lexemes)).head? = other.first := by
      have hother := hwhole other mem_cons_self
      cases other with
      | name text =>
        cases text with
        | nil => exact absurd hother nofun
        | cons byte text => rfl
      | number digits =>
        cases digits with
        | nil => exact absurd hother nofun
        | cons byte digits => rfl
      | string text => rfl
      | symbol byte => rfl
      | space => rfl
    intro byte hbyte
    rw [hfirst] at hbyte
    have hall := hfits other rfl
    rw [Lexeme.Fits, hbyte] at hall
    exact hall

/-- A program whose first token is the string that was written first. -/
theorem plain_of_lex {text : Bytes} {lexemes : List (Lexeme UInt8)}
    (h : lex (render id (.string text :: lexemes)) = some (tokens (.string text :: lexemes))) :
    Plain text := by
  have hrender : render id (.string text :: lexemes) =
      quote :: (text ++ quote :: render id lexemes) := by
    rw [render, flatMap_cons, Lexeme.text, id, cons_append, cons_append,
      append_assoc, singleton_append]
    rfl
  have hnext : next quote (text ++ quote :: render id lexemes) =
      (readString quote (text ++ quote :: render id lexemes)).map
        fun string => (some (.string string.1), string.2) := by
    rw [next, if_neg (by decide), if_neg (by simp [quote]), if_pos (.inl rfl)]
  rw [hrender, lex, hnext] at h
  cases hread : readString quote (text ++ quote :: render id lexemes) with
  | none =>
    rw [hread] at h
    exact absurd h nofun
  | some string =>
    obtain ⟨value, behind⟩ := string
    rw [hread, Option.map_some, Option.bind_eq_bind, Option.bind_some] at h
    dsimp only at h
    split_ifs at h
    obtain ⟨others, -, hpure⟩ := Option.bind_eq_some_iff.mp h
    have htokens : Token.string value :: others = .string text :: tokens lexemes :=
      Option.some.inj hpure
    obtain rfl : value = text := Token.string.inj (List.cons.inj htokens).1
    exact (readString_eq_iff value (render id lexemes)).mp ⟨behind, hread⟩

/-- Separated lexemes are read as their tokens just when their strings are plain. -/
theorem lex_render_iff {lexemes : List (Lexeme UInt8)} (h : Separated lexemes) :
    lex (render id lexemes) = some (tokens lexemes) ↔
      ∀ text, .string text ∈ lexemes → Plain text := by
  obtain ⟨hwhole, hchain⟩ := h
  induction lexemes with
  | nil => simp [render, lex, tokens]
  | cons lexeme lexemes ih =>
    have hlexeme := hwhole lexeme mem_cons_self
    have hrest : ∀ other ∈ lexemes, other.IsWhole = true :=
      fun other hmem => hwhole other (mem_cons_of_mem _ hmem)
    rw [isChain_cons] at hchain
    have hends : EndsBefore lexeme (render id lexemes) :=
      endsBefore_render hrest fun other hother => hchain.1 other hother
    have ih := ih hrest hchain.2
    have hrender : render id (lexeme :: lexemes) = lexeme.text id ++ render id lexemes := rfl
    -- With a plain string, or none, the first token is right, and the others decide.
    have hfirst : (∀ text, lexeme = .string text → Plain text) →
        (lex (render id (lexeme :: lexemes)) = some (tokens (lexeme :: lexemes)) ↔
          lex (render id lexemes) = some (tokens lexemes)) := by
      intro hplain
      obtain ⟨byte, text, htext, hnext⟩ := next_lexeme hlexeme hends hplain
      have htokens : tokens (lexeme :: lexemes) = lexeme.token.toList ++ tokens lexemes := by
        cases lexeme <;> rfl
      rw [hrender, htext, cons_append, lex_cons hnext (by simp), htokens]
      cases lex (render id lexemes) with
      | none => simp
      | some others => simp
    constructor
    · intro hlex
      have hplain : ∀ text, lexeme = .string text → Plain text := by
        rintro text rfl
        exact plain_of_lex hlex
      intro text hmem
      rcases mem_cons.mp hmem with heq | hmem
      · exact hplain text heq.symm
      · exact ih.mp ((hfirst hplain).mp hlex) text hmem
    · intro hall
      refine (hfirst fun text heq => hall text (heq ▸ mem_cons_self)).mpr (ih.mpr ?_)
      exact fun text hmem => hall text (mem_cons_of_mem _ hmem)

/-! ## Lexemes from parts -/

variable {α : Type}

/-- Lexemes that fit in front of any other and behind any other. -/
def Lexeme.isLoose : Lexeme α → Bool
  | string _ | space => true
  | symbol byte => byte ∈ ascii "](){},"
  | name _ | number _ => false

/-- The text of a string. -/
def Lexeme.string? : Lexeme α → Option (List α)
  | string text => some text
  | _ => none

/-- The texts of all strings. -/
def literals (lexemes : List (Lexeme α)) : List (List α) := lexemes.filterMap Lexeme.string?

theorem mem_literals {lexemes : List (Lexeme α)} {text : List α} :
    text ∈ literals lexemes ↔ .string text ∈ lexemes := by
  rw [literals, mem_filterMap]
  constructor
  · rintro ⟨lexeme, hmem, htext⟩
    cases lexeme with
    | string other =>
      rw [← Option.some.inj htext]
      exact hmem
    | name _ | number _ | symbol _ | space => exact absurd htext nofun
  · exact fun hmem => ⟨_, hmem, rfl⟩

theorem literals_append (front back : List (Lexeme α)) :
    literals (front ++ back) = literals front ++ literals back := filterMap_append

theorem render_append (unit : UInt8 → α) (front back : List (Lexeme α)) :
    render unit (front ++ back) = render unit front ++ render unit back := flatMap_append

theorem Lexeme.isLoose_symbol (h : (Lexeme.symbol byte : Lexeme α).isLoose = true) :
    byte ∈ [0x5d, 0x28, 0x29, 0x7b, 0x7d, 0x2c] := of_decide_eq_true h

theorem Lexeme.fits_of_isLoose {lexeme : Lexeme α} (h : lexeme.isLoose = true) (next : Lexeme α) :
    lexeme.Fits next = true := by
  have hends : ∀ byte, lexeme.endsBefore byte = true := by
    intro byte
    cases lexeme with
    | string _ | space => rfl
    | symbol symbol =>
      have hsymbol := isLoose_symbol h
      simp only [mem_cons, not_mem_nil, or_false] at hsymbol
      rcases hsymbol with rfl | rfl | rfl | rfl | rfl | rfl <;> rfl
    | name _ | number _ => exact absurd h nofun
  rw [Fits]
  cases next.first with
  | none => rfl
  | some byte => exact hends byte

/-- No lexeme goes on with a byte that begins a loose one. -/
theorem Lexeme.endsBefore_of_mem (h : byte ∈ [quote, 0x20, 0x5d, 0x28, 0x29, 0x7b, 0x7d, 0x2c])
    (lexeme : Lexeme α) : lexeme.endsBefore byte = true := by
  simp only [mem_cons, not_mem_nil, or_false] at h
  rcases h with rfl | rfl | rfl | rfl | rfl | rfl | rfl | rfl
  all_goals
    unfold endsBefore
    split <;> rfl

theorem Lexeme.fits_isLoose (lexeme : Lexeme α) {next : Lexeme α} (h : next.isLoose = true) :
    lexeme.Fits next = true := by
  cases next with
  | string _ => exact endsBefore_of_mem (by decide) lexeme
  | space => exact endsBefore_of_mem (by decide) lexeme
  | symbol byte =>
    have hmem := mem_cons_of_mem quote (mem_cons_of_mem 0x20 (isLoose_symbol h))
    exact endsBefore_of_mem hmem lexeme
  | name _ | number _ => exact absurd h nofun

theorem separated_nil : Separated ([] : List (Lexeme α)) := ⟨nofun, isChain_nil⟩

/-- Parts may stand side by side where one of them is loose. -/
theorem Separated.append {front back : List (Lexeme α)} (hfront : Separated front)
    (hback : Separated back)
    (hloose : front.getLast?.all Lexeme.isLoose = true ∨ back.head?.all Lexeme.isLoose = true) :
    Separated (front ++ back) := by
  constructor
  · intro lexeme hmem
    exact (mem_append.mp hmem).elim (hfront.1 lexeme) (hback.1 lexeme)
  · refine isChain_append.mpr ⟨hfront.2, hback.2, fun lexeme hlast next hnext => ?_⟩
    rcases hloose with hloose | hloose
    · rw [Option.mem_def.mp hlast] at hloose
      exact Lexeme.fits_of_isLoose hloose next
    · rw [Option.mem_def.mp hnext] at hloose
      exact lexeme.fits_isLoose hloose

/-! ## Other strings -/

section MapString

variable {β : Type} (f : List α → List β)

@[simp] theorem Lexeme.isWhole_mapString (lexeme : Lexeme α) :
    (lexeme.mapString f).IsWhole = lexeme.IsWhole := by
  cases lexeme <;> rfl

@[simp] theorem Lexeme.endsBefore_mapString (lexeme : Lexeme α) (byte : UInt8) :
    (lexeme.mapString f).endsBefore byte = lexeme.endsBefore byte := by
  cases lexeme with
  | symbol symbol =>
    rw [mapString]
    unfold endsBefore
    split <;> simp_all
  | name _ | number _ | string _ | space => rfl

@[simp] theorem Lexeme.first_mapString (lexeme : Lexeme α) :
    (lexeme.mapString f).first = lexeme.first := by
  cases lexeme <;> rfl

/-- Lexemes fit together whatever their strings are. -/
theorem Separated.mapString {lexemes : List (Lexeme α)} (h : Separated lexemes) :
    Separated (lexemes.map (Lexeme.mapString f)) := by
  constructor
  · intro lexeme hmem
    obtain ⟨other, hother, rfl⟩ := mem_map.mp hmem
    rw [Lexeme.isWhole_mapString]
    exact h.1 other hother
  · rw [isChain_map]
    refine h.2.imp fun lexeme next hfits => ?_
    simpa [Lexeme.Fits] using hfits

theorem literals_mapString (lexemes : List (Lexeme α)) :
    literals (lexemes.map (Lexeme.mapString f)) = (literals lexemes).map f := by
  induction lexemes with
  | nil => rfl
  | cons lexeme lexemes ih =>
    cases lexeme with
    | string text => exact congrArg (f text :: ·) ih
    | name _ | number _ | symbol _ | space => exact ih

end MapString

end FengShui.Lib.Lua
