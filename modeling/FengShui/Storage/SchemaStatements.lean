import FengShui.Storage.Schema

/-!
# The statements that the texts of the schema write

No template escapes what it puts between quotes. A text is its statement just when the strings of
the caller have no quote, no backslash and no line break and none of them is left out, and an
`alterSpace` never is (`safe_iff`).
-/

namespace FengShui.Storage

open Lib.Lua
open List hiding lex
open LuaText (fixed ofCaller join)
open LuaStatement (Lexemes word mark list table arguments assign inQuotes)

/-! ## Pieces of texts -/

/-- The text of lexemes, in code units. -/
abbrev written (lexemes : Lexemes) : DartString := render UInt8.toUInt16 lexemes

@[simp] theorem LuaText.string_append (front back : LuaText) :
    string (front ++ back) = string front ++ string back := flatMap_append

@[simp] theorem LuaText.string_fixed (text : String) : string (fixed text) = literal text :=
  append_nil _

@[simp] theorem LuaText.string_ofCaller (text : DartString) : string (ofCaller text) = text :=
  append_nil _

@[simp] theorem LuaText.supplied_append (front back : LuaText) :
    supplied (front ++ back) = supplied front ++ supplied back := filterMap_append

@[simp] theorem LuaText.supplied_fixed (text : String) : supplied (fixed text) = [] := rfl

@[simp] theorem LuaText.supplied_ofCaller (text : DartString) :
    supplied (ofCaller text) = [text] := rfl

theorem LuaText.join_cons_cons (first second : LuaText) (others : List LuaText) :
    join (first :: second :: others) = first ++ (fixed "," ++ join (second :: others)) := rfl

theorem LuaText.supplied_join (texts : List LuaText) :
    supplied (join texts) = texts.flatMap supplied := by
  induction texts with
  | nil => rfl
  | cons first texts ih =>
    cases texts with
    | nil => simp [join]
    | cons second others =>
      rw [join_cons_cons, supplied_append, supplied_append, supplied_fixed, nil_append, ih,
        flatMap_cons (x := first)]

theorem LuaStatement.list_cons_cons (first second : Lexemes) (others : List Lexemes) :
    list (first :: second :: others) = first ++ ([mark ','] ++ list (second :: others)) := rfl

/-- A value between quotes, and the string that it stands for. -/
structure Denotes (value : LuaText) (string : DartString) : Prop where
  string_eq : value.string = string
  plain_iff : Plain (utf8Encode string) ↔ ∀ other ∈ value.supplied, Plain (utf8Encode other)

/-- A text that is the one of its lexemes, where the strings of the caller decide whether all are
plain. -/
structure Writes (text : LuaText) (lexemes : Lexemes) : Prop where
  string_eq : text.string = written lexemes
  separated : Separated lexemes
  plain_iff : (∀ other ∈ literals lexemes, Plain (utf8Encode other)) ↔
    ∀ other ∈ text.supplied, Plain (utf8Encode other)

/-- A text that opens a quote behind its lexemes. -/
structure Opens (text : LuaText) (lexemes : Lexemes) : Prop where
  string_eq : text.string = written lexemes ++ [quote.toUInt16]
  separated : Separated lexemes
  plain_iff : (∀ other ∈ literals lexemes, Plain (utf8Encode other)) ↔
    ∀ other ∈ text.supplied, Plain (utf8Encode other)

theorem denotes_ofCaller (string : DartString) : Denotes (ofCaller string) string where
  string_eq := LuaText.string_ofCaller string
  plain_iff := by simp

theorem denotes_fixed {text : String} (h : Plain (utf8Encode (literal text))) :
    Denotes (fixed text) (literal text) where
  string_eq := LuaText.string_fixed text
  plain_iff := by simp [h]

variable {lexemes front back : Lexemes} {value : LuaText} {string : DartString} {name : String}
  {items : List Lexemes} {call : SchemaCall}

/-- Lexemes without strings. -/
theorem Writes.of_fixed {text : LuaText} (hstr : text.string = written lexemes)
    (hseparated : Separated lexemes) (hlits : literals lexemes = [])
    (hsupplied : text.supplied = []) : Writes text lexemes where
  string_eq := hstr
  separated := hseparated
  plain_iff := by rw [hlits, hsupplied]

theorem Opens.of_fixed {text : LuaText} (hstr : text.string = written lexemes ++ [quote.toUInt16])
    (hseparated : Separated lexemes) (hlits : literals lexemes = [])
    (hsupplied : text.supplied = []) : Opens text lexemes where
  string_eq := hstr
  separated := hseparated
  plain_iff := by rw [hlits, hsupplied]

/-- Plainness of the strings of two parts. -/
theorem plain_append {first second : LuaText}
    (hfront : (∀ other ∈ literals front, Plain (utf8Encode other)) ↔
      ∀ other ∈ first.supplied, Plain (utf8Encode other))
    (hback : (∀ other ∈ literals back, Plain (utf8Encode other)) ↔
      ∀ other ∈ second.supplied, Plain (utf8Encode other)) :
    (∀ other ∈ literals (front ++ back), Plain (utf8Encode other)) ↔
      ∀ other ∈ (first ++ second).supplied, Plain (utf8Encode other) := by
  rw [literals_append, LuaText.supplied_append, forall_mem_append, forall_mem_append, hfront, hback]

theorem Writes.append {front back : LuaText} {first second : Lexemes} (hfront : Writes front first)
    (hback : Writes back second)
    (hloose : first.getLast?.all Lexeme.isLoose = true ∨ second.head?.all Lexeme.isLoose = true) :
    Writes (front ++ back) (first ++ second) where
  string_eq := by
    rw [LuaText.string_append, written, render_append, hfront.string_eq, hback.string_eq]
  separated := hfront.separated.append hback.separated hloose
  plain_iff := plain_append hfront.plain_iff hback.plain_iff

theorem Writes.opens {front back : LuaText} {first second : Lexemes} (hfront : Writes front first)
    (hback : Opens back second)
    (hloose : first.getLast?.all Lexeme.isLoose = true ∨ second.head?.all Lexeme.isLoose = true) :
    Opens (front ++ back) (first ++ second) where
  string_eq := by
    rw [LuaText.string_append, written, render_append, hfront.string_eq, hback.string_eq,
      append_assoc]
  separated := hfront.separated.append hback.separated hloose
  plain_iff := plain_append hfront.plain_iff hback.plain_iff

/-- A string in front of lexemes, all that a value and a text behind it are. -/
theorem separated_string (hfront : Separated front) (hback : Separated back) (string : DartString) :
    Separated (front ++ .string string :: back) := by
  have hstr : Separated [(.string string : Lexeme UInt16)] :=
    ⟨fun _ hmem => by rw [mem_singleton.mp hmem]; rfl, isChain_singleton _⟩
  exact hfront.append (hstr.append hback (.inl rfl)) (.inr rfl)

theorem written_string (front back : Lexemes) (string : DartString) :
    written (front ++ .string string :: back) =
      written front ++ quote.toUInt16 :: (string ++ quote.toUInt16 :: written back) := by
  have hcons : written (.string string :: back) =
      quote.toUInt16 :: (string ++ quote.toUInt16 :: written back) := by
    simp [written, render, Lexeme.text]
  rw [written, render_append]
  exact congrArg (render UInt8.toUInt16 front ++ ·) hcons

theorem plain_string {text : LuaText}
    (htext : (∀ other ∈ literals front, Plain (utf8Encode other)) ↔
      ∀ other ∈ text.supplied, Plain (utf8Encode other)) (hval : Denotes value string)
    (hback : literals back = []) {last : LuaText} (hlast : last.supplied = []) :
    (∀ other ∈ literals (front ++ .string string :: back), Plain (utf8Encode other)) ↔
      ∀ other ∈ (text ++ value ++ last).supplied, Plain (utf8Encode other) := by
  have hlits : literals (front ++ .string string :: back) = literals front ++ [string] := by
    have hcons : literals (.string string :: back) = string :: literals back := rfl
    rw [literals_append, hcons, hback]
  rw [hlits, LuaText.supplied_append, LuaText.supplied_append, hlast, append_nil,
    forall_mem_append, forall_mem_append, forall_mem_singleton, htext, hval.plain_iff]

section Close

variable {text value : LuaText} {lexemes after : Lexemes} {string : DartString} {back : String}

/-- The value and the quote behind it. -/
theorem Opens.close (h : Opens text lexemes) (hval : Denotes value string)
    (hback : literal back = quote.toUInt16 :: written after) (hafter : Separated after)
    (hlits : literals after = []) :
    Writes (text ++ value ++ fixed back) (lexemes ++ .string string :: after) where
  string_eq := by
    rw [LuaText.string_append, LuaText.string_append, LuaText.string_fixed, h.string_eq,
      hval.string_eq, hback, written_string]
    simp only [append_assoc, cons_append, nil_append]
  separated := separated_string h.separated hafter string
  plain_iff := plain_string h.plain_iff hval hlits rfl

/-- The value, the quote behind it, and a further quote. -/
theorem Opens.reopen (h : Opens text lexemes) (hval : Denotes value string)
    (hback : literal back = quote.toUInt16 :: (written after ++ [quote.toUInt16]))
      (hafter : Separated after) (hlits : literals after = []) :
    Opens (text ++ value ++ fixed back) (lexemes ++ .string string :: after) where
  string_eq := by
    rw [LuaText.string_append, LuaText.string_append, LuaText.string_fixed, h.string_eq,
      hval.string_eq, hback, written_string]
    simp only [append_assoc, cons_append, nil_append]
  separated := separated_string h.separated hafter string
  plain_iff := plain_string h.plain_iff hval hlits rfl

end Close

/-! ## Fields -/

/-- A name of a field. -/
structure IsWord (name : String) : Prop where
  literal_eq : literal name = (ascii name).map UInt8.toUInt16
  whole : (word name).IsWhole = true

theorem separated_singleton {lexeme : Lexeme UInt16} (h : lexeme.IsWhole = true) :
    Separated [lexeme] :=
  ⟨fun _ hmem => by rwa [mem_singleton.mp hmem], isChain_singleton _⟩

theorem writes_word (h : IsWord name) : Writes (fixed name) [word name] := by
  refine .of_fixed ?_ (separated_singleton h.whole) rfl rfl
  rw [LuaText.string_fixed, h.literal_eq]
  exact (append_nil _).symm

theorem separated_equals : Separated ([.space, mark '=', .space] : Lexemes) :=
  ⟨by decide, by decide⟩

theorem writes_quotedField (h : IsWord name) (hval : Denotes value string) :
    Writes (LuaField.quotedField name value) (assign name (inQuotes string)) := by
  have hopens : Opens (fixed " = '") [.space, mark '=', .space] :=
    .of_fixed rfl separated_equals rfl rfl
  have hname := (writes_word h).opens hopens (.inr rfl)
  exact hname.close hval rfl separated_nil rfl

theorem writes_quoted (hval : Denotes value string) : Writes (quoted value) (inQuotes string) :=
  have hopens : Opens (fixed "'") [] := .of_fixed rfl separated_nil rfl rfl
  hopens.close hval rfl separated_nil rfl

/-- A name, and a value that is written behind it. -/
theorem writes_assign (h : IsWord name) (hval : Writes value lexemes) :
    Writes (fixed name ++ fixed " = " ++ value) (assign name lexemes) := by
  have hequals : Writes (fixed " = ") [.space, mark '=', .space] :=
    .of_fixed rfl separated_equals rfl rfl
  exact ((writes_word h).append hequals (.inr rfl)).append hval (.inl rfl)

theorem writes_boolField (h : IsWord name) (value : Bool) :
    Writes (LuaField.boolField name value) (assign name (LuaStatement.bool value)) := by
  refine writes_assign h ?_
  cases value with
  | false => exact writes_word ⟨rfl, rfl⟩
  | true => exact writes_word ⟨rfl, rfl⟩

/-- The digits of a number. -/
def digitBytes (value : ℕ) : Bytes := (Nat.toDigits 10 value).map fun c => UInt8.ofNat c.toNat

theorem isDigit_of_mem_digitBytes {value : ℕ} {byte : UInt8} (h : byte ∈ digitBytes value) :
    isDigit byte = true := by
  obtain ⟨c, hc, rfl⟩ := mem_map.mp h
  have hdigit := Nat.isDigit_of_mem_toDigits (by decide) (by decide) hc
  rw [Char.isDigit, Bool.and_eq_true, decide_eq_true_eq, decide_eq_true_eq] at hdigit
  have hlow : 48 ≤ c.toNat := hdigit.1
  have hhigh : c.toNat ≤ 57 := hdigit.2
  have hbyte : (UInt8.ofNat c.toNat).toNat = c.toNat := by
    rw [UInt8.toNat_ofNat', Nat.mod_eq_of_lt (by omega)]
  rw [isDigit, Bool.and_eq_true, decide_eq_true_eq, decide_eq_true_eq, UInt8.le_iff_toNat_le,
    UInt8.le_iff_toNat_le, hbyte]
  exact ⟨hlow, hhigh⟩

theorem whole_digits (value : ℕ) :
    (Lexeme.number (digitBytes value) : Lexeme UInt16).IsWhole = true := by
  rw [Lexeme.IsWhole, Bool.and_eq_true, all_eq_true]
  refine ⟨?_, fun byte hbyte => isDigit_of_mem_digitBytes hbyte⟩
  simp [digitBytes, Nat.toDigits_ne_nil]

/-- A sign is no comment with the digits behind it. -/
theorem separated_negative (value : ℕ) :
    Separated [(mark '-' : Lexeme UInt16), .number (digitBytes value)] := by
  constructor
  · intro lexeme hmem
    rcases mem_pair.mp hmem with rfl | rfl
    · rfl
    · exact whole_digits value
  · refine isChain_pair.mpr ?_
    rw [Lexeme.Fits, Lexeme.first]
    cases hdigits : digitBytes value with
    | nil => rfl
    | cons byte digits =>
      have hdigit : isDigit byte = true := isDigit_of_mem_digitBytes (hdigits ▸ mem_cons_self)
      have hne : byte ≠ 0x2d := by
        rintro rfl
        exact absurd hdigit (by decide)
      simpa [mark, Lexeme.endsBefore] using hne

theorem writes_intText (value : ℤ) : Writes (intText value) (LuaStatement.int value) := by
  by_cases hsign : value < 0
  · have hint : LuaStatement.int value = [mark '-', .number (digitBytes value.natAbs)] :=
      if_pos hsign
    have hbytes : intBytes value = 0x2d :: digitBytes value.natAbs := if_pos hsign
    rw [hint]
    refine .of_fixed ?_ (separated_negative _) rfl rfl
    rw [intText, hbytes]
    rfl
  · have hint : LuaStatement.int value = [.number (digitBytes value.natAbs)] := if_neg hsign
    have hbytes : intBytes value = digitBytes value.natAbs := if_neg hsign
    rw [hint]
    refine .of_fixed ?_ (separated_singleton (whole_digits _)) rfl rfl
    rw [intText, hbytes]
    rfl

theorem writes_intField (h : IsWord name) (value : ℤ) :
    Writes (LuaField.intField name value) (assign name (LuaStatement.int value)) :=
  writes_assign h (writes_intText value)

/-! ## Lists -/

theorem writes_comma : Writes (fixed ",") [mark ','] :=
  .of_fixed rfl (separated_singleton rfl) rfl rfl

theorem list_singleton (item : Lexemes) : list [item] = item := append_nil item

/-- Texts that are those of items, with commas between them. -/
theorem writes_join {texts : List LuaText} (h : List.Forall₂ Writes texts items) :
    Writes (join texts) (list items) := by
  induction h with
  | nil => exact .of_fixed rfl separated_nil rfl rfl
  | @cons text item texts items hfirst hothers ih =>
    cases hothers with
    | nil =>
      have htext : join [text] = text := append_nil _
      rwa [htext, list_singleton]
    | cons hsecond hothers =>
      exact hfirst.append (writes_comma.append ih (.inl rfl)) (.inr rfl)

theorem writes_table {text : LuaText} (h : Writes text (list items)) :
    Writes (fixed "\x7b" ++ text ++ fixed "\x7d") (table items) := by
  have hopen : Writes (fixed "\x7b") [mark '{'] := .of_fixed rfl (separated_singleton rfl) rfl rfl
  have hclose : Writes (fixed "\x7d") [mark '}'] := .of_fixed rfl (separated_singleton rfl) rfl rfl
  exact (hopen.append h (.inl rfl)).append hclose (.inr rfl)

theorem writes_arguments {text : LuaText} (h : Writes text (list items)) :
    Writes (fixed "(" ++ text ++ fixed ")") (arguments items) := by
  have hopen : Writes (fixed "(") [mark '('] := .of_fixed rfl (separated_singleton rfl) rfl rfl
  have hclose : Writes (fixed ")") [mark ')'] := .of_fixed rfl (separated_singleton rfl) rfl rfl
  exact (hopen.append h (.inl rfl)).append hclose (.inr rfl)

theorem writes_tableField (h : IsWord name) {texts : List LuaText}
    (hitems : List.Forall₂ Writes texts items) :
    Writes (LuaField.tableField name (join texts)) (assign name (table items)) := by
  have hopen : Writes (fixed " = \x7b") [.space, mark '=', .space, mark '{'] :=
    .of_fixed rfl ⟨by decide, by decide⟩ rfl rfl
  have hclose : Writes (fixed "\x7d") [mark '}'] := .of_fixed rfl (separated_singleton rfl) rfl rfl
  have hfront := (writes_word h).append hopen (.inr rfl)
  have hall := (hfront.append (writes_join hitems) (.inl rfl)).append hclose (.inr rfl)
  rwa [append_assoc] at hall

/-- An argument is written when it is there. -/
theorem forall₂_optional {α : Type} {write : α → LuaText} {item : α → Lexemes}
    (h : ∀ value, Writes (write value) (item value)) (argument : Option α) :
    List.Forall₂ Writes (optional write argument) (optional item argument) := by
  cases argument with
  | none => exact .nil
  | some value => exact .cons (h value) .nil

/-! ## Options -/

theorem denotes_engine (engine : StorageEngine) :
    Denotes (fixed engine.name) (literal engine.name) := by
  refine denotes_fixed ?_
  cases engine <;> decide

theorem denotes_indexType (type : StorageIndexType) :
    Denotes (fixed type.name) (literal type.name) := by
  refine denotes_fixed ?_
  cases type <;> decide

theorem denotes_fieldType (type : StorageFieldType) :
    Denotes (fixed type.name) (literal type.name) := by
  refine denotes_fixed ?_
  cases type <;> decide

theorem denotes_partType (type : StorageIndexPartType) :
    Denotes (fixed type.name) (literal type.name) := by
  refine denotes_fixed ?_
  cases type <;> decide

theorem writes_spaceField (field : StorageSpaceField) :
    Writes field.format (LuaStatement.spaceField field) := by
  refine writes_table (writes_join (.cons ?_ (.cons ?_ (.cons ?_ .nil))))
  · exact writes_quotedField ⟨rfl, rfl⟩ (denotes_ofCaller field.name)
  · exact writes_quotedField ⟨rfl, rfl⟩ (denotes_fieldType field.type)
  · exact writes_boolField ⟨rfl, rfl⟩ field.nullable

theorem writes_formatField (fields : List StorageSpaceField) :
    Writes (formatField fields) (LuaStatement.format fields) := by
  refine writes_tableField ⟨rfl, rfl⟩ ?_
  rw [forall₂_map_left_iff, forall₂_map_right_iff, forall₂_same]
  exact fun field _ => writes_spaceField field

/-- The text of a part that has one. -/
def StorageIndexPart.text : StorageIndexPart → LuaText
  | byName field => LuaArgument.singleTableArgument (quoted (ofCaller field))
  | byIndex field type nullable => LuaArgument.singleTableArgument (join [
      LuaField.intField "field" field,
      LuaField.quotedField "type" (fixed type.name),
      LuaField.boolField "is_nullable" nullable])

theorem StorageIndexPart.format_eq {part : StorageIndexPart} (h : part ≠ .byName []) :
    part.format = .ok part.text := by
  cases part with
  | byIndex field type nullable => rfl
  | byName field =>
    have hfield : field ≠ [] := fun heq => h (by rw [heq])
    exact if_pos hfield

theorem writes_part (part : StorageIndexPart) : Writes part.text (LuaStatement.indexPart part) := by
  cases part with
  | byName field =>
    exact writes_table (writes_join (.cons (writes_quoted (denotes_ofCaller field)) .nil))
  | byIndex field type nullable =>
    refine writes_table (writes_join (.cons ?_ (.cons ?_ (.cons ?_ .nil))))
    · exact writes_intField ⟨rfl, rfl⟩ field
    · exact writes_quotedField ⟨rfl, rfl⟩ (denotes_partType type)
    · exact writes_boolField ⟨rfl, rfl⟩ nullable

/-- The parts have texts just when each has a name or an index. -/
theorem mapM_format (parts : List StorageIndexPart) :
    (.byName [] ∉ parts → parts.mapM StorageIndexPart.format =
      .ok (parts.map StorageIndexPart.text)) ∧
      (.byName [] ∈ parts → parts.mapM StorageIndexPart.format = .error .typeError) := by
  induction parts with
  | nil => exact ⟨fun _ => rfl, fun h => absurd h not_mem_nil⟩
  | cons part parts ih =>
    rw [mapM_cons]
    by_cases hpart : part = .byName []
    · rw [hpart]
      exact ⟨fun h => absurd mem_cons_self h, fun _ => rfl⟩
    · rw [StorageIndexPart.format_eq hpart]
      constructor
      · intro h
        rw [ih.1 fun hmem => h (mem_cons_of_mem _ hmem)]
        rfl
      · intro h
        rw [ih.2 (mem_of_ne_of_mem (Ne.symm hpart) h)]
        rfl

theorem partsArgument_eq {parts : Option (List StorageIndexPart)} (h : .byName [] ∉ parts.getD []) :
    partsArgument parts = .ok (optional
      (fun parts => LuaField.tableField "parts" (join (parts.map StorageIndexPart.text)))
        parts) := by
  cases parts with
  | none => rfl
  | some parts =>
    rw [partsArgument, partsField, (mapM_format parts).1 h]
    rfl

theorem partsArgument_error {parts : Option (List StorageIndexPart)}
    (h : .byName [] ∈ parts.getD []) :
    partsArgument parts = .error .typeError := by
  cases parts with
  | none => exact absurd h not_mem_nil
  | some parts =>
    rw [partsArgument, partsField, (mapM_format parts).2 h]
    rfl

theorem writes_parts (parts : List StorageIndexPart) :
    Writes (LuaField.tableField "parts" (join (parts.map StorageIndexPart.text)))
      (LuaStatement.parts parts) := by
  refine writes_tableField ⟨rfl, rfl⟩ ?_
  rw [forall₂_map_left_iff, forall₂_map_right_iff, forall₂_same]
  exact fun part _ => writes_part part

section Options

variable {α : Type} {name : String} (h : IsWord name)
include h

theorem forall₂_bool (argument : Option Bool) :
    List.Forall₂ Writes (optional (LuaField.boolField name) argument)
      (optional (fun value => assign name (LuaStatement.bool value)) argument) :=
  forall₂_optional (writes_boolField h) argument

theorem forall₂_int (argument : Option ℤ) :
    List.Forall₂ Writes (optional (LuaField.intField name) argument)
      (optional (fun value => assign name (LuaStatement.int value)) argument) :=
  forall₂_optional (writes_intField h) argument

theorem forall₂_quoted {value : α → LuaText} {string : α → DartString}
    (hval : ∀ argument, Denotes (value argument) (string argument)) (argument : Option α) :
    List.Forall₂ Writes
      (optional (fun argument => LuaField.quotedField name (value argument)) argument)
      (optional (fun argument => assign name (inQuotes (string argument))) argument) :=
  forall₂_optional (fun argument => writes_quotedField h (hval argument)) argument

end Options

/-- A user that is there is written. -/
theorem user_written {user : Option DartString} (h : user ≠ some []) :
    user.filter (· ≠ []) = user := by
  cases user with
  | none => rfl
  | some name =>
    have hname : name ≠ [] := fun heq => h (congrArg some heq)
    exact if_pos (decide_eq_true hname)

theorem writes_spaceOptions {options : SpaceOptions} (huser : options.user ≠ some []) :
    List.Forall₂ Writes options.arguments (LuaStatement.spaceOptions options) := by
  refine rel_append (rel_append (rel_append (rel_append (rel_append (rel_append
    (rel_append (rel_append ?_ ?_) ?_) ?_) ?_) ?_) ?_) ?_) ?_
  · exact forall₂_quoted ⟨rfl, rfl⟩ denotes_engine options.engine
  · exact forall₂_int ⟨rfl, rfl⟩ _
  · exact forall₂_optional writes_formatField options.format
  · exact forall₂_int ⟨rfl, rfl⟩ options.id
  · exact forall₂_bool ⟨rfl, rfl⟩ options.ifNotExists
  · exact forall₂_bool ⟨rfl, rfl⟩ options.isLocal
  · exact forall₂_bool ⟨rfl, rfl⟩ options.synchronous
  · exact forall₂_bool ⟨rfl, rfl⟩ options.temporary
  · rw [user_written huser]
    exact forall₂_quoted ⟨rfl, rfl⟩ denotes_ofCaller options.user

/-- The options of an index, where all parts have texts. -/
def IndexOptions.texts (options : IndexOptions) : List LuaText :=
  optional (fun type => LuaField.quotedField "type" (fixed type.name)) options.type ++
  optional (LuaField.intField "id") options.id ++
  optional (LuaField.boolField "if_not_exists") options.ifNotExists ++
  optional (LuaField.boolField "unique") options.unique ++
  optional (fun parts => LuaField.tableField "parts" (join (parts.map StorageIndexPart.text)))
    options.parts

theorem IndexOptions.arguments_eq {options : IndexOptions}
    (h : .byName [] ∉ options.parts.getD []) :
    options.arguments = .ok options.texts := by
  rw [IndexOptions.arguments, partsArgument_eq h]
  rfl

theorem writes_indexOptions (options : IndexOptions) :
    List.Forall₂ Writes options.texts (LuaStatement.indexOptions options) := by
  refine rel_append (rel_append (rel_append (rel_append ?_ ?_) ?_) ?_) ?_
  · exact forall₂_quoted ⟨rfl, rfl⟩ denotes_indexType options.type
  · exact forall₂_int ⟨rfl, rfl⟩ options.id
  · exact forall₂_bool ⟨rfl, rfl⟩ options.ifNotExists
  · exact forall₂_bool ⟨rfl, rfl⟩ options.unique
  · exact forall₂_optional writes_parts options.parts

theorem writes_nil : Writes (fixed "nil") [word "nil"] := writes_word ⟨rfl, rfl⟩

theorem writes_grant (name : DartString) {grant : Grant} (hrole : grant.roleName = none) :
    List.Forall₂ Writes (grantArguments name grant) (LuaStatement.grant name grant) := by
  have hname := writes_quoted (denotes_ofCaller name)
  have hval :
    ∀ value, Writes (LuaArgument.singleTableArgument (LuaField.boolField "if_not_exists" value))
      (table [assign "if_not_exists" (LuaStatement.bool value)]) := by
    intro value
    have hfield := writes_boolField (⟨rfl, rfl⟩ : IsWord "if_not_exists") value
    exact writes_table (list_singleton _ ▸ hfield)
  have hexistence := forall₂_optional hval grant.ifNotExists
  have hprivileges := writes_quoted (denotes_ofCaller grant.privileges)
  have htype : Writes (quoted ((grant.objectType.map ofCaller).getD (fixed "universe")))
      (inQuotes (grant.objectType.getD (literal "universe"))) := by
    cases grant.objectType with
    | none => exact writes_quoted (denotes_fixed (by decide))
    | some objectType => exact writes_quoted (denotes_ofCaller objectType)
  have hobj : Writes
      ((grant.objectName.map fun objectName => quoted (ofCaller objectName)).getD (fixed "nil"))
      ((grant.objectName.map inQuotes).getD [word "nil"]) := by
    cases grant.objectName with
    | none => exact writes_nil
    | some objectName => exact writes_quoted (denotes_ofCaller objectName)
  unfold grantArguments LuaStatement.grant
  rw [hrole]
  exact rel_append (.cons hname (.cons hprivileges (.cons htype (.cons hobj .nil)))) hexistence

/-! ## Parts of statements -/

/-- `box.space['…']` with what is behind the bracket. -/
theorem writes_space {back : String} {after : Lexemes} (name : DartString)
    (hback : literal back = quote.toUInt16 :: written (mark ']' :: after))
    (hafter : Separated (mark ']' :: after)) (hlits : literals after = []) :
    Writes (fixed "box.space['" ++ ofCaller name ++ fixed back)
      (LuaStatement.space name ++ after) := by
  have hopens : Opens (fixed "box.space['") [word "box", mark '.', word "space", mark '['] :=
    .of_fixed rfl ⟨by decide, by decide⟩ rfl rfl
  exact hopens.close (denotes_ofCaller name) hback hafter hlits

/-- `box.space['…'].index['…']` with what is behind the bracket. -/
theorem writes_index {back : String} {after : Lexemes} (space index : DartString)
    (hback : literal back = quote.toUInt16 :: written (mark ']' :: after))
    (hafter : Separated (mark ']' :: after)) (hlits : literals after = []) :
    Writes (fixed "box.space['" ++ ofCaller space ++ fixed "'].index['" ++ ofCaller index ++
      fixed back)
      (LuaStatement.space space ++ [mark '.', word "index", mark '[', .string index, mark ']'] ++
        after) := by
  have hopens : Opens (fixed "box.space['") [word "box", mark '.', word "space", mark '['] :=
    .of_fixed rfl ⟨by decide, by decide⟩ rfl rfl
  have hreopened := hopens.reopen (denotes_ofCaller space)
    (show literal "'].index['" = quote.toUInt16 ::
      (written [mark ']', mark '.', word "index", mark '['] ++ [quote.toUInt16]) from rfl)
    ⟨by decide, by decide⟩ rfl
  have hclosed := hreopened.close (denotes_ofCaller index) hback hafter hlits
  simpa [LuaStatement.space] using hclosed

/-- An argument in quotes and a table of options. -/
theorem writes_singleQuotedArgument {argument : LuaText} {texts : List LuaText}
    (harg : Denotes argument string) (hitems : List.Forall₂ Writes texts items) :
    Writes (LuaArgument.singleQuotedArgument argument (some (join texts)))
      (arguments [inQuotes string, .space :: table items]) := by
  have hopens : Opens (fixed "('") [mark '('] := .of_fixed rfl (separated_singleton rfl) rfl rfl
  have hoptions : Writes (fixed "('" ++ argument ++ fixed "', \x7b")
      ([mark '('] ++ .string string :: [mark ',', .space, mark '{']) :=
    hopens.close harg rfl ⟨by decide, by decide⟩ rfl
  have hclose : Writes (fixed "\x7d)") [mark '}', mark ')'] :=
    .of_fixed rfl ⟨by decide, by decide⟩ rfl rfl
  have hall := (hoptions.append (writes_join hitems) (.inl rfl)).append hclose (.inr rfl)
  have hlexemes : [mark '('] ++ .string string :: [mark ',', .space, mark '{'] ++ list items ++
      [mark '}', mark ')'] = arguments [inQuotes string, .space :: table items] := by
    simp [arguments, table, list, inQuotes]
  rwa [hlexemes] at hall

theorem writes_singleQuotedArgument_none {argument : LuaText} (harg : Denotes argument string) :
    Writes (LuaArgument.singleQuotedArgument argument none) (arguments [inQuotes string]) := by
  have hopens : Opens (fixed "('") [mark '('] := .of_fixed rfl (separated_singleton rfl) rfl rfl
  exact hopens.close harg rfl (separated_singleton rfl) rfl

/-! ## The strings in the texts -/

theorem supplied_boolField (name : String) (value : Bool) :
    (LuaField.boolField name value).supplied = [] := by simp [LuaField.boolField, boolText]

theorem supplied_intField (name : String) (value : ℤ) :
    (LuaField.intField name value).supplied = [] := rfl

theorem supplied_quotedField (name : String) (value : LuaText) :
    (LuaField.quotedField name value).supplied = value.supplied := by simp [LuaField.quotedField]

theorem supplied_tableField (name : String) (value : LuaText) :
    (LuaField.tableField name value).supplied = value.supplied := by simp [LuaField.tableField]

theorem supplied_quoted (value : LuaText) : (quoted value).supplied = value.supplied := by
  simp [quoted]

theorem supplied_singleTableArgument (table : LuaText) :
    (LuaArgument.singleTableArgument table).supplied = table.supplied := by
  simp [LuaArgument.singleTableArgument]

theorem supplied_bools (name : String) (argument : Option Bool) :
    (optional (LuaField.boolField name) argument).flatMap LuaText.supplied = [] := by
  cases argument <;> simp [optional, supplied_boolField]

theorem supplied_ints (name : String) (argument : Option ℤ) :
    (optional (LuaField.intField name) argument).flatMap LuaText.supplied = [] := by
  cases argument <;> simp [optional, supplied_intField]

/-- A field in quotes with a text of the source. -/
theorem supplied_names {α : Type} (name : String) (value : α → String) (argument : Option α) :
    (optional (fun argument => LuaField.quotedField name (fixed (value argument))) argument).flatMap
      LuaText.supplied = [] := by
  cases argument <;> simp [optional, supplied_quotedField]

theorem supplied_users (name : String) (argument : Option DartString) :
    (optional (fun user => LuaField.quotedField name (ofCaller user)) argument).flatMap
      LuaText.supplied = argument.toList := by
  cases argument <;> simp [optional, supplied_quotedField]

theorem supplied_spaceField (field : StorageSpaceField) : field.format.supplied = [field.name] := by
  rw [StorageSpaceField.format, supplied_singleTableArgument, LuaText.supplied_join]
  simp [supplied_quotedField, supplied_boolField]

theorem supplied_formatField (fields : List StorageSpaceField) :
    (formatField fields).supplied = fields.map StorageSpaceField.name := by
  rw [formatField, supplied_tableField, LuaText.supplied_join, flatMap_map]
  simp only [supplied_spaceField]
  exact flatMap_pure_eq_map _ fields

theorem supplied_format (argument : Option (List StorageSpaceField)) :
    (optional formatField argument).flatMap LuaText.supplied =
      (argument.getD []).map StorageSpaceField.name := by
  cases argument <;> simp [optional, supplied_formatField]

theorem supplied_part (part : StorageIndexPart) : part.text.supplied = part.strings := by
  cases part with
  | byName field =>
    rw [StorageIndexPart.text, supplied_singleTableArgument, supplied_quoted]
    rfl
  | byIndex field type nullable =>
    rw [StorageIndexPart.text, supplied_singleTableArgument, LuaText.supplied_join]
    simp [supplied_quotedField, supplied_boolField, supplied_intField, StorageIndexPart.strings]

theorem supplied_parts (parts : Option (List StorageIndexPart)) :
    (optional (fun parts => LuaField.tableField "parts" (join (parts.map StorageIndexPart.text)))
      parts).flatMap LuaText.supplied = (parts.getD []).flatMap StorageIndexPart.strings := by
  cases parts with
  | none => rfl
  | some parts =>
    simp [optional, supplied_tableField, LuaText.supplied_join, flatMap_map, supplied_part]

theorem supplied_spaceOptions (options : SpaceOptions) :
    options.arguments.flatMap LuaText.supplied =
      (options.format.getD []).map StorageSpaceField.name ++
        (options.user.filter (· ≠ [])).toList := by
  simp only [SpaceOptions.arguments, flatMap_append, supplied_names, supplied_ints, supplied_bools,
    supplied_users, supplied_format, append_nil, nil_append]

theorem supplied_alterOptions (options : AlterOptions) :
    options.arguments.flatMap LuaText.supplied =
      (options.format.getD []).map StorageSpaceField.name := by
  simp only [AlterOptions.arguments, flatMap_append, supplied_ints, supplied_bools, supplied_format,
    append_nil, nil_append]

theorem supplied_indexOptions (options : IndexOptions) :
    options.texts.flatMap LuaText.supplied =
      (options.parts.getD []).flatMap StorageIndexPart.strings := by
  simp only [IndexOptions.texts, flatMap_append, supplied_names, supplied_ints, supplied_bools,
    nil_append]
  exact supplied_parts options.parts

/-- With a role the privileges are left out, and a role that is empty is left out itself. -/
theorem supplied_grant (name : DartString) (grant : Grant) :
    (grantArguments name grant).flatMap LuaText.supplied = name :: grant.strings ↔
      grant.roleName = none := by
  have hexistence : (optional (fun value =>
      LuaArgument.singleTableArgument (LuaField.boolField "if_not_exists" value))
        grant.ifNotExists).flatMap LuaText.supplied = [] := by
    cases grant.ifNotExists <;> simp [optional, supplied_singleTableArgument, supplied_boolField]
  have hprivileges : ([quoted (ofCaller name), quoted (ofCaller grant.privileges),
      quoted ((grant.objectType.map ofCaller).getD (fixed "universe")),
      (grant.objectName.map fun objectName => quoted (ofCaller objectName)).getD (fixed "nil")] :
        List LuaText).flatMap LuaText.supplied =
          name :: grant.privileges :: (grant.objectType.toList ++ grant.objectName.toList) := by
    cases grant.objectType <;> cases grant.objectName <;> simp [supplied_quoted]
  unfold grantArguments Grant.strings
  dsimp only
  cases grant.roleName with
  | none =>
    rw [Option.filter_none, flatMap_append, hexistence, hprivileges]
    simp
  | some roleName =>
    refine iff_of_false (fun h => ?_) nofun
    by_cases hempty : roleName = []
    · have hnone : (some roleName).filter (· ≠ []) = none := if_neg (by simpa using hempty)
      rw [hnone, flatMap_append, hexistence, hprivileges] at h
      simpa using congrArg List.length h
    · have hsome : (some roleName).filter (· ≠ []) = some roleName := if_pos (by simpa using hempty)
      rw [hsome, flatMap_append, hexistence] at h
      have hlen := congrArg List.length h
      simp [supplied_quoted] at hlen

/-! ## Calls -/

/-- Every call but `alterSpace` that leaves no string out and whose parts have texts writes its
statement. -/
theorem SchemaCall.text_spec (halter : call.isAlterSpace = false) (homits : call.omits = false)
    (hparts : .byName [] ∉ call.parts) :
    ∃ text, call.text = .ok text ∧ Writes text call.statement ∧ text.supplied = call.strings := by
  cases call with
  | createSpace name options =>
    have huser : options.user ≠ some [] := of_decide_eq_false homits
    refine ⟨_, rfl, ?_, ?_⟩
    · have hfunction : Writes (fixed "box.schema.create_space")
          [word "box", mark '.', word "schema", mark '.', word "create_space"] :=
        .of_fixed rfl ⟨by decide, by decide⟩ rfl rfl
      exact hfunction.append
        (writes_singleQuotedArgument (denotes_ofCaller name) (writes_spaceOptions huser)) (.inr rfl)
    · have hoptions := supplied_spaceOptions options
      rw [user_written huser] at hoptions
      simp [LuaArgument.singleQuotedArgument, LuaText.supplied_join, hoptions, strings]
  | alterSpace name options => exact absurd halter nofun
  | renameSpace source target =>
    refine ⟨_, rfl, ?_, ?_⟩
    · exact (writes_space source rfl ⟨by decide, by decide⟩ rfl).append
        (writes_singleQuotedArgument_none (denotes_ofCaller target)) (.inr rfl)
    · simp [LuaArgument.singleQuotedArgument, LuaExpressions.renameSpace, strings]
  | dropSpace name =>
    refine ⟨_, rfl, ?_, rfl⟩
    exact writes_space name rfl ⟨by decide, by decide⟩ rfl
  | createIndex spaceName indexName options =>
    have htext : (createIndex spaceName indexName options).text =
        .ok (LuaExpressions.createIndex (ofCaller spaceName) ++
          LuaArgument.singleQuotedArgument (ofCaller indexName) (some (join options.texts))) := by
      rw [SchemaCall.text, IndexOptions.arguments_eq hparts]
      rfl
    refine ⟨_, htext, ?_, ?_⟩
    · exact (writes_space spaceName rfl ⟨by decide, by decide⟩ rfl).append
        (writes_singleQuotedArgument (denotes_ofCaller indexName) (writes_indexOptions options))
          (.inr rfl)
    · simp [LuaArgument.singleQuotedArgument, LuaExpressions.createIndex, LuaText.supplied_join,
        supplied_indexOptions, strings]
  | alterIndex spaceName indexName parts =>
    have htext : (alterIndex spaceName indexName parts).text =
        .ok (LuaExpressions.alterIndex (ofCaller spaceName) (ofCaller indexName) ++
          LuaArgument.singleTableArgument (join (optional
            (fun parts => LuaField.tableField "parts" (join (parts.map StorageIndexPart.text)))
                parts))) := by
      rw [SchemaCall.text, partsArgument_eq hparts]
      rfl
    refine ⟨_, htext, ?_, ?_⟩
    · exact (writes_index spaceName indexName rfl ⟨by decide, by decide⟩ rfl).append
        (writes_table (writes_join (forall₂_optional writes_parts parts))) (.inr rfl)
    · simp [supplied_singleTableArgument, LuaExpressions.alterIndex, LuaText.supplied_join,
        supplied_parts, strings]
  | dropIndex spaceName indexName =>
    refine ⟨_, rfl, ?_, rfl⟩
    exact writes_index spaceName indexName rfl ⟨by decide, by decide⟩ rfl
  | createUser name password ifNotExists =>
    refine ⟨_, rfl, ?_, ?_⟩
    · have hfunction : Writes (fixed "box.schema.user.create") (LuaStatement.user "create") :=
        .of_fixed rfl ⟨by decide, by decide⟩ rfl rfl
      have hpassword :=
        writes_quotedField (⟨rfl, rfl⟩ : IsWord "password") (denotes_ofCaller password)
      have hitems := List.Forall₂.cons hpassword
        (forall₂_bool (⟨rfl, rfl⟩ : IsWord "if_not_exists") ifNotExists)
      exact hfunction.append (writes_singleQuotedArgument (denotes_ofCaller name) hitems) (.inr rfl)
    · simp [LuaArgument.singleQuotedArgument, LuaText.supplied_join, supplied_quotedField,
        supplied_bools, strings]
  | dropUser name =>
    refine ⟨_, rfl, ?_, rfl⟩
    have hopens : Opens (fixed "box.schema.user.drop('") (LuaStatement.user "drop" ++ [mark '(']) :=
      .of_fixed rfl ⟨by decide, by decide⟩ rfl rfl
    exact hopens.close (denotes_ofCaller name) rfl (separated_singleton rfl) rfl
  | changePassword name password =>
    refine ⟨_, rfl, ?_, rfl⟩
    have hopens :
      Opens (fixed "box.schema.user.passwd('") (LuaStatement.user "passwd" ++ [mark '(']) :=
      .of_fixed rfl ⟨by decide, by decide⟩ rfl rfl
    have hpassword :
      literal "', '" = quote.toUInt16 :: (written [mark ',', .space] ++ [quote.toUInt16]) := rfl
    -- The password is quoted behind the name, in the same call.
    have hreopened := hopens.reopen (denotes_ofCaller name) hpassword ⟨by decide, by decide⟩ rfl
    exact hreopened.close (denotes_ofCaller password) rfl (separated_singleton rfl) rfl
  | grantUser name grant =>
    have hrole : grant.roleName = none := by simpa [omits] using homits
    refine ⟨_, rfl, ?_, ?_⟩
    · have hfunction : Writes (fixed "box.schema.user.grant") (LuaStatement.user "grant") :=
        .of_fixed rfl ⟨by decide, by decide⟩ rfl rfl
      exact hfunction.append (writes_arguments (writes_join (writes_grant name hrole))) (.inr rfl)
    · simp [LuaArgument.arrayArgument, LuaText.supplied_join, (supplied_grant name grant).mpr hrole,
        strings]
  | revokeUser name grant =>
    have hrole : grant.roleName = none := by simpa [omits] using homits
    refine ⟨_, rfl, ?_, ?_⟩
    · have hfunction : Writes (fixed "box.schema.user.revoke") (LuaStatement.user "revoke") :=
        .of_fixed rfl ⟨by decide, by decide⟩ rfl rfl
      exact hfunction.append (writes_arguments (writes_join (writes_grant name hrole))) (.inr rfl)
    · simp [LuaArgument.arrayArgument, LuaText.supplied_join, (supplied_grant name grant).mpr hrole,
        strings]

/-- A part without a name or an index has no text. -/
theorem SchemaCall.text_error (h : .byName [] ∈ call.parts) : call.text = .error .typeError := by
  cases call with
  | createIndex spaceName indexName options =>
    rw [text, IndexOptions.arguments, partsArgument_error h]
    rfl
  | alterIndex spaceName indexName parts =>
    rw [text, partsArgument_error h]
    rfl
  | _ => exact absurd h not_mem_nil

/-- The text of `alterSpace` has the name twice. -/
theorem not_parses_alterSpace (name : DartString) (options : AlterOptions) :
    ¬(SchemaCall.alterSpace name options).Parses := by
  rintro ⟨text, htext, hsupplied, -⟩
  -- The two lists of strings have different lengths.
  rw [← Except.ok.inj htext] at hsupplied
  simp [LuaExpressions.alterSpace, supplied_singleTableArgument, LuaText.supplied_join,
    supplied_alterOptions, SchemaCall.strings] at hsupplied

/-- A text that leaves a string out has another list of strings. -/
theorem not_parses_of_omits (homits : call.omits = true) : ¬call.Parses := by
  rintro ⟨text, htext, hsupplied, -⟩
  cases call with
  | createSpace name options =>
    have huser : options.user = some [] := of_decide_eq_true homits
    rw [← Except.ok.inj htext] at hsupplied
    simp [LuaArgument.singleQuotedArgument, LuaText.supplied_join, supplied_spaceOptions, huser,
      SchemaCall.strings] at hsupplied
  | grantUser name grant | revokeUser name grant =>
    rw [← Except.ok.inj htext] at hsupplied
    have hgrant : (grantArguments name grant).flatMap LuaText.supplied = name :: grant.strings := by
      simpa [LuaArgument.arrayArgument, LuaText.supplied_join, SchemaCall.strings] using hsupplied
    rw [SchemaCall.omits, (supplied_grant name grant).mp hgrant] at homits
    cases homits
  | _ => cases homits

/-! ## Bytes of texts -/

theorem utf8Encode_ascii {bytes : Bytes} (h : ∀ byte ∈ bytes, byte.toNat ≤ 0x7f)
    (rest : DartString) :
    utf8Encode (bytes.map UInt8.toUInt16 ++ rest) = bytes ++ utf8Encode rest := by
  induction bytes with
  | nil => rfl
  | cons byte bytes ih =>
    have hbyte : byte.toUInt16.toNat ≤ 0x7f := by
      rw [UInt8.toNat_toUInt16]
      exact h byte mem_cons_self
    rw [map_cons, cons_append, utf8Encode_cons_of_ascii hbyte,
      ih fun other hmem => h other (mem_cons_of_mem _ hmem), UInt8.toNat_toUInt16,
        UInt8.ofNat_toNat]
    rfl

theorem utf8Encode_byte {byte : UInt8} (h : byte.toNat ≤ 0x7f) (rest : DartString) :
    utf8Encode (byte.toUInt16 :: rest) = byte :: utf8Encode rest := by
  have hsingle : ∀ other ∈ [byte], other.toNat ≤ 0x7f := by
    intro other hmem
    rwa [mem_singleton.mp hmem]
  exact utf8Encode_ascii hsingle rest

/-- The bytes of a lexeme, with what is behind it. -/
theorem utf8Encode_lexeme {lexeme : Lexeme UInt16} (h : lexeme.IsWhole = true) (rest : DartString) :
    utf8Encode (lexeme.text UInt8.toUInt16 ++ rest) =
      (lexeme.mapString utf8Encode).text id ++ utf8Encode rest := by
  cases lexeme with
  | name name =>
    simp only [Lexeme.IsWhole, Bool.and_eq_true, all_eq_true, decide_eq_true_eq] at h
    rw [Lexeme.mapString, Lexeme.text, Lexeme.text, map_id]
    exact utf8Encode_ascii (fun byte hmem => Nat.le_of_lt_succ (h.2 byte hmem).2) rest
  | number digits =>
    simp only [Lexeme.IsWhole, Bool.and_eq_true, all_eq_true] at h
    rw [Lexeme.mapString, Lexeme.text, Lexeme.text, map_id]
    refine utf8Encode_ascii (fun byte hmem => ?_) rest
    have hdigit := h.2 byte hmem
    rw [isDigit, Bool.and_eq_true, decide_eq_true_eq, decide_eq_true_eq] at hdigit
    exact le_trans hdigit.2 (by decide)
  | string string =>
    have hquote : quote.toUInt16.toNat ≤ 0x7f := by decide
    have hrest : utf8Encode (string ++ quote.toUInt16 :: rest) =
        utf8Encode string ++ quote :: utf8Encode rest := by
      rw [utf8Encode_append_of_ascii hquote, utf8Encode_byte (by decide)]
    rw [Lexeme.mapString, Lexeme.text, Lexeme.text, cons_append, cons_append,
      utf8Encode_byte (by decide), append_assoc, append_assoc, singleton_append, hrest]
    rfl
  | symbol byte =>
    have hbyte : byte ∈ ascii ".:=-[](){}," := of_decide_eq_true h
    have hascii : (ascii ".:=-[](){},").all (fun other => decide (other.toNat ≤ 0x7f)) = true := rfl
    exact utf8Encode_byte (of_decide_eq_true (all_eq_true.mp hascii byte hbyte)) rest
  | space => exact utf8Encode_byte (by decide) rest

theorem utf8Encode_written (h : ∀ lexeme ∈ lexemes, lexeme.IsWhole = true) :
    utf8Encode (written lexemes) = render id (lexemes.map (Lexeme.mapString utf8Encode)) := by
  induction lexemes with
  | nil => rfl
  | cons lexeme lexemes ih =>
    have hlexeme := utf8Encode_lexeme (h lexeme mem_cons_self) (written lexemes)
    rw [ih fun other hmem => h other (mem_cons_of_mem _ hmem)] at hlexeme
    exact hlexeme

/-- A text is read as the tokens of its lexemes just when the strings of the caller are plain. -/
theorem Writes.lex_iff {text : LuaText} (h : Writes text lexemes) :
    lex (utf8Encode text.string) = some (tokens (lexemes.map (Lexeme.mapString utf8Encode))) ↔
      ∀ other ∈ text.supplied, Plain (utf8Encode other) := by
  rw [h.string_eq, utf8Encode_written h.separated.1,
    lex_render_iff (h.separated.mapString utf8Encode), ← h.plain_iff]
  simp only [← mem_literals, literals_mapString, forall_mem_map]

theorem parses_iff (call : SchemaCall) : call.Parses ↔ call.Harmless := by
  constructor
  · rintro ⟨text, htext, hsupplied, hlex⟩
    have halter : call.isAlterSpace = false := by
      cases call with
      | alterSpace name options =>
        exact absurd ⟨text, htext, hsupplied, hlex⟩ (not_parses_alterSpace name options)
      | _ => rfl
    have hparts : .byName [] ∉ call.parts := by
      intro hmem
      rw [SchemaCall.text_error hmem] at htext
      exact absurd htext nofun
    have homits : call.omits = false := Bool.eq_false_iff.mpr fun homits =>
      not_parses_of_omits homits ⟨text, htext, hsupplied, hlex⟩
    obtain ⟨other, hother, hwrites, -⟩ := SchemaCall.text_spec halter homits hparts
    obtain rfl : text = other := Except.ok.inj (htext.symm.trans hother)
    refine ⟨halter, homits, hparts, ?_⟩
    rw [← hsupplied]
    exact hwrites.lex_iff.mp hlex
  · rintro ⟨halter, homits, hparts, hplain⟩
    obtain ⟨text, htext, hwrites, hsupplied⟩ := SchemaCall.text_spec halter homits hparts
    rw [← hsupplied] at hplain
    exact ⟨text, htext, hsupplied, hwrites.lex_iff.mpr hplain⟩

/-! ## Programs of calls that differ in their strings -/

namespace LuaStatement

/-- The lexemes without what their strings are. -/
def erase (lexemes : Lexemes) : Lexemes := lexemes.map (Lexeme.mapString fun _ => [])

@[simp] theorem erase_append (front back : Lexemes) :
    erase (front ++ back) = erase front ++ erase back :=
  map_append

@[simp] theorem erase_nil : erase [] = [] := rfl

@[simp] theorem erase_string (string : DartString) (lexemes : Lexemes) :
    erase (.string string :: lexemes) = .string [] :: erase lexemes := rfl

@[simp] theorem erase_word (name : String) (lexemes : Lexemes) :
    erase (word name :: lexemes) = word name :: erase lexemes := rfl

@[simp] theorem erase_mark (symbol : Char) (lexemes : Lexemes) :
    erase (mark symbol :: lexemes) = mark symbol :: erase lexemes := rfl

@[simp] theorem erase_space (lexemes : Lexemes) :
    erase (.space :: lexemes) = .space :: erase lexemes := rfl

@[simp] theorem erase_list (items : List Lexemes) :
    erase (list items) = list (items.map erase) := by
  induction items with
  | nil => rfl
  | cons item items ih =>
    cases items with
    | nil => simp only [list_singleton, map_cons, map_nil]
    | cons second items =>
      rw [list_cons_cons, erase_append, erase_append, ih]
      rfl

@[simp] theorem erase_table (items : List Lexemes) :
    erase (table items) = table (items.map erase) := by
  simp [table]

@[simp] theorem erase_arguments (items : List Lexemes) :
    erase (arguments items) = arguments (items.map erase) := by simp [arguments]

@[simp] theorem erase_inQuotes (string : DartString) : erase (inQuotes string) = inQuotes [] := rfl

@[simp] theorem erase_assign (name : String) (value : Lexemes) :
    erase (assign name value) = assign name (erase value) := by simp [assign]

@[simp] theorem map_erase_optional {α : Type} (item : α → Lexemes) (argument : Option α) :
    (optional item argument).map erase = optional (fun value => erase (item value)) argument := by
  cases argument <;> rfl

theorem erase_spaceField (field : StorageSpaceField) :
    erase (spaceField field.blank) = erase (spaceField field) := by
  simp [spaceField, StorageSpaceField.blank]

theorem erase_indexPart (part : StorageIndexPart) :
    erase (indexPart part.blank) = erase (indexPart part) := by
  cases part <;> simp [indexPart, StorageIndexPart.blank]

theorem erase_format (fields : List StorageSpaceField) :
    erase (format (fields.map StorageSpaceField.blank)) = erase (format fields) := by
  simp [format, Function.comp_def, erase_spaceField]

theorem erase_parts (indexParts : List StorageIndexPart) :
    erase (parts (indexParts.map StorageIndexPart.blank)) = erase (parts indexParts) := by
  simp [parts, Function.comp_def, erase_indexPart]

/-- An argument in place of which another one stands. -/
theorem optional_map {α : Type} {item : α → Lexemes} {blank : α → α}
    (h : ∀ value, erase (item (blank value)) = erase (item value)) (argument : Option α) :
    (optional item (argument.map blank)).map erase = (optional item argument).map erase := by
  cases argument with
  | none => rfl
  | some value => exact congrArg ([·]) (h value)

theorem erase_grant (name : DartString) (granted : Grant) :
    (grant [] granted.blank).map erase = (grant name granted).map erase := by
  unfold grant Grant.blank
  cases granted.roleName with
  | some roleName => simp
  | none => cases granted.objectType <;> cases granted.objectName <;> simp

end LuaStatement

open LuaStatement in
theorem erase_statement (call : SchemaCall) :
    erase call.blank.statement = erase call.statement := by
  cases call with
  | createSpace name options =>
    have hformat := optional_map erase_format options.format
    have huser := @optional_map DartString (fun user => assign "user" (inQuotes user)) (fun _ => [])
      (fun _ => rfl) options.user
    simp only [SchemaCall.blank, SchemaCall.statement, spaceOptions, erase_append, erase_arguments,
      map_append, map_cons, map_nil, erase_inQuotes, erase_space, erase_table,
      hformat, huser]
  | alterSpace name options =>
    have hformat := optional_map erase_format options.format
    simp only [SchemaCall.blank, SchemaCall.statement, alterOptions, erase_append, erase_table,
      map_append, hformat, LuaStatement.space, erase_word, erase_mark, erase_string]
  | createIndex spaceName indexName options =>
    have hparts := optional_map erase_parts options.parts
    simp only [SchemaCall.blank, SchemaCall.statement, indexOptions, erase_append, erase_arguments,
      map_append,
      map_cons, map_nil, erase_inQuotes, erase_space, erase_table, hparts, LuaStatement.space,
      erase_word, erase_mark, erase_string]
  | alterIndex spaceName indexName indexParts =>
    have hparts := optional_map erase_parts indexParts
    simp only [SchemaCall.blank, SchemaCall.statement, erase_append, erase_table, hparts,
      LuaStatement.space, erase_word, erase_mark, erase_string]
  | renameSpace source target => rfl
  | dropSpace name => rfl
  | dropIndex spaceName indexName => rfl
  | createUser name password ifNotExists =>
    simp [SchemaCall.blank, SchemaCall.statement]
  | dropUser name => rfl
  | changePassword name password => rfl
  | grantUser name granted =>
    simp only [SchemaCall.blank, SchemaCall.statement, erase_append, erase_arguments,
      erase_grant name]
  | revokeUser name granted =>
    simp only [SchemaCall.blank, SchemaCall.statement, erase_append, erase_arguments,
      erase_grant name]

theorem map_eraseString_tokens (f : DartString → Bytes) (lexemes : Lexemes) :
    (tokens (lexemes.map (Lexeme.mapString f))).map eraseString =
      tokens ((LuaStatement.erase lexemes).map (Lexeme.mapString fun _ => [])) := by
  induction lexemes with
  | nil => rfl
  | cons lexeme lexemes ih =>
    cases lexeme with
    | name text => exact congrArg (Token.name text :: ·) ih
    | number digits => exact congrArg (Token.number digits :: ·) ih
    | string string => exact congrArg (Token.string [] :: ·) ih
    | symbol byte => exact congrArg (Token.symbol [byte] :: ·) ih
    | space => exact ih

/-- Programs of calls that differ in their strings only. -/
theorem erase_program {other : SchemaCall} (h : other.blank = call.blank) :
    call.program.map eraseString = other.program.map eraseString := by
  rw [SchemaCall.program, SchemaCall.program, map_eraseString_tokens, map_eraseString_tokens,
    ← erase_statement call, ← erase_statement other, h]

/-- The text of a call is its statement, and other strings change nothing but literals, just when
the strings have no quote, no backslash and no line break and none is left out, each part has a name
or an index, and the operation is not `alterSpace`. -/
theorem safe_iff (call : SchemaCall) : call.Safe ↔ call.Harmless := by
  constructor
  · exact fun h => (parses_iff call).mp h.1
  · intro h
    have hparses := (parses_iff call).mpr h
    refine ⟨hparses, fun other hblank hother text otherText htext hotherText => ?_⟩
    obtain ⟨written, hwritten, -, hlex⟩ := hparses
    obtain ⟨otherWritten, hotherWritten, -, hotherLex⟩ := hother
    obtain rfl : text = written := Except.ok.inj (htext.symm.trans hwritten)
    obtain rfl : otherText = otherWritten := Except.ok.inj (hotherText.symm.trans hotherWritten)
    rw [hlex, hotherLex, Option.map_some, Option.map_some, erase_program hblank]

/-- A space whose name has a quote in it. -/
theorem not_safe : ¬(SchemaCall.dropSpace (literal "it's")).Safe := by
  intro h
  have hharmless := (parses_iff _).mp h.1
  exact absurd (hharmless.2.2.2 (literal "it's") List.mem_cons_self) (by decide)

end FengShui.Storage
