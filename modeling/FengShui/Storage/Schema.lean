import FengShui.Core.Dart
import FengShui.Lib.Lua

/-!
# The Lua texts of the schema (`schema.dart`, `constants.dart`)

The schema writes Lua programs from texts of its own and strings of the caller. A program is to be
the statement of its operation, where each string of the caller stands as one literal that denotes
it.
-/

namespace FengShui.Storage

open Lib.Lua

/-! ## Texts -/

/-- A piece of a text: of the source, or a string of the caller. -/
inductive LuaPiece where
  | fixed (text : DartString)
  | supplied (string : DartString)

abbrev LuaText := List LuaPiece

namespace LuaText

def pieceText : LuaPiece → DartString
  | .fixed text => text
  | .supplied string => string

/-- The text itself. -/
def string (text : LuaText) : DartString := text.flatMap pieceText

/-- The strings of the caller that were written to the text, one after the other. -/
def supplied (text : LuaText) : List DartString := text.filterMap fun
  | .fixed _ => none
  | .supplied string => some string

/-- A literal of the source. -/
def fixed (text : String) : LuaText := [.fixed (literal text)]

def ofCaller (string : DartString) : LuaText := [.supplied string]

/-- `join(comma)`. -/
def join (texts : List LuaText) : LuaText := (texts.intersperse (fixed ",")).flatten

end LuaText

open LuaText (fixed ofCaller join)

/-- The digits of a number, after its sign. -/
def intBytes (value : ℤ) : Bytes :=
  let digits := (Nat.toDigits 10 value.natAbs).map fun c => UInt8.ofNat c.toNat
  if value < 0 then 0x2d :: digits else digits

/-- A number in a text. -/
def intText (value : ℤ) : LuaText := [.fixed ((intBytes value).map UInt8.toUInt16)]

def boolText (value : Bool) : LuaText := fixed (if value then "true" else "false")

/-- `StringExtensions.quoted`. -/
def quoted (text : LuaText) : LuaText := fixed "'" ++ text ++ fixed "'"

namespace LuaField

def tableField (name : String) (value : LuaText) : LuaText :=
  fixed name ++ fixed " = \x7b" ++ value ++ fixed "\x7d"

def quotedField (name : String) (value : LuaText) : LuaText :=
  fixed name ++ fixed " = '" ++ value ++ fixed "'"

def intField (name : String) (value : ℤ) : LuaText := fixed name ++ fixed " = " ++ intText value

def boolField (name : String) (value : Bool) : LuaText :=
  fixed name ++ fixed " = " ++ boolText value

end LuaField

namespace LuaArgument

def singleQuotedArgument (argument : LuaText) : Option LuaText → LuaText
  | some options => fixed "('" ++ argument ++ fixed "', \x7b" ++ options ++ fixed "\x7d)"
  | none => fixed "('" ++ argument ++ fixed "')"

def singleTableArgument (table : LuaText) : LuaText := fixed "\x7b" ++ table ++ fixed "\x7d"

def arrayArgument (arguments : List LuaText) : LuaText := fixed "(" ++ join arguments ++ fixed ")"

end LuaArgument

namespace LuaExpressions

def dropUser (name : LuaText) : LuaText := fixed "box.schema.user.drop('" ++ name ++ fixed "')"

def changePassword (user newPassword : LuaText) : LuaText :=
  fixed "box.schema.user.passwd('" ++ user ++ fixed "', '" ++ newPassword ++ fixed "')"

def createIndex (space : LuaText) : LuaText :=
  fixed "box.space['" ++ space ++ fixed "']:create_index"

def alterIndex (space index : LuaText) : LuaText :=
  fixed "box.space['" ++ space ++ fixed "'].index['" ++ index ++ fixed "']:alter"

def dropIndex (space index : LuaText) : LuaText :=
  fixed "box.space['" ++ space ++ fixed "'].index['" ++ index ++ fixed "']:drop()"

def alterSpace (space : LuaText) : LuaText := fixed "box.space['" ++ space ++ fixed "']:alter"

def renameSpace (space : LuaText) : LuaText := fixed "box.space['" ++ space ++ fixed "']:rename"

def dropSpace (space : LuaText) : LuaText := fixed "box.space['" ++ space ++ fixed "']:drop()"

end LuaExpressions

/-! ## Arguments of the schema -/

inductive StorageEngine where
  | memtx | vinly
  deriving DecidableEq

def StorageEngine.name : StorageEngine → String
  | memtx => "memtx"
  | vinly => "vinly"

inductive StorageIndexType where
  | hash | tree | bitset | rtree
  deriving DecidableEq

def StorageIndexType.name : StorageIndexType → String
  | hash => "hash"
  | tree => "tree"
  | bitset => "bitset"
  | rtree => "rtree"

inductive StorageFieldType where
  | any | unsigned | string | number | double | integer | boolean | decimal | uuid | scalar | array
  | map | datetime | varbinary
  deriving DecidableEq

def StorageFieldType.name : StorageFieldType → String
  | any => "any"
  | unsigned => "unsigned"
  | string => "string"
  | number => "number"
  | double => "double"
  | integer => "integer"
  | boolean => "boolean"
  | decimal => "decimal"
  | uuid => "uuid"
  | scalar => "scalar"
  | array => "array"
  | map => "map"
  | datetime => "datetime"
  | varbinary => "varbinary"

inductive StorageIndexPartType where
  | unsigned | string | number | double | integer | boolean | decimal | uuid | scalar | datetime
  | varbinary
  deriving DecidableEq

def StorageIndexPartType.name : StorageIndexPartType → String
  | unsigned => "unsigned"
  | string => "string"
  | number => "number"
  | double => "double"
  | integer => "integer"
  | boolean => "boolean"
  | decimal => "decimal"
  | uuid => "uuid"
  | scalar => "scalar"
  | datetime => "datetime"
  | varbinary => "varbinary"

structure StorageSpaceField where
  name : DartString
  type : StorageFieldType
  nullable : Bool

def StorageSpaceField.format (field : StorageSpaceField) : LuaText :=
  LuaArgument.singleTableArgument (join [
    LuaField.quotedField "name" (ofCaller field.name),
    LuaField.quotedField "type" (fixed field.type.name),
    LuaField.boolField "is_nullable" field.nullable])

/-- A part by the index of its field, or by its name (`byName`). -/
inductive StorageIndexPart where
  | byIndex (field : ℤ) (type : StorageIndexPartType) (nullable : Bool)
  | byName (field : DartString)

/-- A part with an empty name is taken for one by index, which it does not have. -/
def StorageIndexPart.format : StorageIndexPart → Except DartException LuaText
  | byName field =>
    if field ≠ [] then .ok (LuaArgument.singleTableArgument (quoted (ofCaller field)))
    else .error .typeError
  | byIndex field type nullable => .ok (LuaArgument.singleTableArgument (join [
      LuaField.intField "field" field,
      LuaField.quotedField "type" (fixed type.name),
      LuaField.boolField "is_nullable" nullable]))

structure SpaceOptions where
  engine : Option StorageEngine
  fieldCount : Option ℤ
  format : Option (List StorageSpaceField)
  id : Option ℤ
  ifNotExists : Option Bool
  isLocal : Option Bool
  synchronous : Option Bool
  temporary : Option Bool
  user : Option DartString

/-- The user that `alterSpace` takes is not used. -/
structure AlterOptions where
  fieldCount : Option ℤ
  format : Option (List StorageSpaceField)
  synchronous : Option Bool
  temporary : Option Bool

structure IndexOptions where
  type : Option StorageIndexType
  id : Option ℤ
  unique : Option Bool
  ifNotExists : Option Bool
  parts : Option (List StorageIndexPart)

/-- What is granted or revoked. -/
structure Grant where
  privileges : DartString
  objectType : Option DartString
  objectName : Option DartString
  roleName : Option DartString
  ifNotExists : Option Bool

/-- The calls of the schema that evaluate a text. -/
inductive SchemaCall where
  | createSpace (name : DartString) (options : SpaceOptions)
  | alterSpace (name : DartString) (options : AlterOptions)
  | renameSpace (source target : DartString)
  | dropSpace (name : DartString)
  | createIndex (spaceName indexName : DartString) (options : IndexOptions)
  | alterIndex (spaceName indexName : DartString) (parts : Option (List StorageIndexPart))
  | dropIndex (spaceName indexName : DartString)
  | createUser (name password : DartString) (ifNotExists : Option Bool)
  | dropUser (name : DartString)
  | changePassword (name password : DartString)
  | grantUser (name : DartString) (grant : Grant)
  | revokeUser (name : DartString) (grant : Grant)

/-! ## The texts of the calls -/

/-- An argument that is there. -/
def optional {α β : Type} (write : α → β) (argument : Option α) : List β :=
  (argument.map write).toList

def formatField (format : List StorageSpaceField) : LuaText :=
  LuaField.tableField "format" (join (format.map StorageSpaceField.format))

def partsField (parts : List StorageIndexPart) : Except DartException LuaText := do
  let parts ← parts.mapM StorageIndexPart.format
  return LuaField.tableField "parts" (join parts)

/-- The parts, if there are any. -/
def partsArgument : Option (List StorageIndexPart) → Except DartException (List LuaText)
  | none => .ok []
  | some parts => (partsField parts).map ([·])

def SpaceOptions.arguments (options : SpaceOptions) : List LuaText :=
  optional (fun engine => LuaField.quotedField "engine" (fixed engine.name)) options.engine ++
  optional (LuaField.intField "field_count") (options.fieldCount.filter (0 < ·)) ++
  optional formatField options.format ++
  optional (LuaField.intField "id") options.id ++
  optional (LuaField.boolField "if_not_exists") options.ifNotExists ++
  optional (LuaField.boolField "is_local") options.isLocal ++
  optional (LuaField.boolField "is_sync") options.synchronous ++
  optional (LuaField.boolField "temporary") options.temporary ++
  optional (fun user => LuaField.quotedField "user" (ofCaller user)) (options.user.filter (· ≠ []))

def AlterOptions.arguments (options : AlterOptions) : List LuaText :=
  optional (LuaField.intField "field_count") (options.fieldCount.filter (0 < ·)) ++
  optional formatField options.format ++
  optional (LuaField.boolField "is_sync") options.synchronous ++
  -- Written twice.
  optional (LuaField.boolField "temporary") options.temporary ++
  optional (LuaField.boolField "temporary") options.temporary

def IndexOptions.arguments (options : IndexOptions) : Except DartException (List LuaText) := do
  let parts ← partsArgument options.parts
  return optional (fun type => LuaField.quotedField "type" (fixed type.name)) options.type ++
    optional (LuaField.intField "id") options.id ++
    optional (LuaField.boolField "if_not_exists") options.ifNotExists ++
    optional (LuaField.boolField "unique") options.unique ++ parts

/-- The arguments of `grantUser` and `revokeUser`. -/
def grantArguments (name : DartString) (grant : Grant) : List LuaText :=
  let existence := optional (fun ifNotExists =>
    LuaArgument.singleTableArgument (LuaField.boolField "if_not_exists" ifNotExists))
      grant.ifNotExists
  match grant.roleName.filter (· ≠ []) with
  | some roleName =>
    [quoted (ofCaller name), quoted (ofCaller roleName), fixed "nil", fixed "nil"] ++ existence
  | none =>
    [quoted (ofCaller name), quoted (ofCaller grant.privileges),
      quoted ((grant.objectType.map ofCaller).getD (fixed "universe")),
      (grant.objectName.map fun objectName => quoted (ofCaller objectName)).getD (fixed "nil")] ++
        existence

/-- The text that a call evaluates. -/
def SchemaCall.text : SchemaCall → Except DartException LuaText
  | createSpace name options => .ok (fixed "box.schema.create_space" ++
      LuaArgument.singleQuotedArgument (ofCaller name) (some (join options.arguments)))
  | alterSpace name options => .ok (LuaExpressions.alterSpace (ofCaller name) ++
      LuaArgument.singleTableArgument (join (ofCaller name :: options.arguments)))
  | renameSpace source target => .ok (LuaExpressions.renameSpace (ofCaller source) ++
      LuaArgument.singleQuotedArgument (ofCaller target) none)
  | dropSpace name => .ok (LuaExpressions.dropSpace (ofCaller name))
  | createIndex spaceName indexName options => do
    let arguments ← options.arguments
    return LuaExpressions.createIndex (ofCaller spaceName) ++
      LuaArgument.singleQuotedArgument (ofCaller indexName) (some (join arguments))
  | alterIndex spaceName indexName parts => do
    let arguments ← partsArgument parts
    return LuaExpressions.alterIndex (ofCaller spaceName) (ofCaller indexName) ++
      LuaArgument.singleTableArgument (join arguments)
  | dropIndex spaceName indexName =>
    .ok (LuaExpressions.dropIndex (ofCaller spaceName) (ofCaller indexName))
  | createUser name password ifNotExists => .ok (fixed "box.schema.user.create" ++
      LuaArgument.singleQuotedArgument (ofCaller name)
        (some (join (LuaField.quotedField "password" (ofCaller password) ::
          optional (LuaField.boolField "if_not_exists") ifNotExists))))
  | dropUser name => .ok (LuaExpressions.dropUser (ofCaller name))
  | changePassword name password =>
    .ok (LuaExpressions.changePassword (ofCaller name) (ofCaller password))
  | grantUser name grant =>
    .ok (fixed "box.schema.user.grant" ++ LuaArgument.arrayArgument (grantArguments name grant))
  | revokeUser name grant =>
    .ok (fixed "box.schema.user.revoke" ++ LuaArgument.arrayArgument (grantArguments name grant))

/-! ## The statements of the operations -/

namespace LuaStatement

abbrev Lexemes := List (Lexeme UInt16)

def word (name : String) : Lexeme UInt16 := .name (ascii name)

def mark (symbol : Char) : Lexeme UInt16 := .symbol (UInt8.ofNat symbol.toNat)

/-- Items with commas between them. -/
def list (items : List Lexemes) : Lexemes := (items.intersperse [mark ',']).flatten

def table (items : List Lexemes) : Lexemes := mark '{' :: (list items ++ [mark '}'])

def arguments (items : List Lexemes) : Lexemes := mark '(' :: (list items ++ [mark ')'])

def assign (name : String) (value : Lexemes) : Lexemes :=
  [word name, .space, mark '=', .space] ++ value

def int (value : ℤ) : Lexemes :=
  let digits : Lexeme UInt16 :=
    .number ((Nat.toDigits 10 value.natAbs).map fun c => UInt8.ofNat c.toNat)
  if value < 0 then [mark '-', digits] else [digits]

def bool (value : Bool) : Lexemes := [word (if value then "true" else "false")]

def inQuotes (string : DartString) : Lexemes := [.string string]

/-- `box.space['…']` -/
def space (name : DartString) : Lexemes :=
  [word "box", mark '.', word "space", mark '[', .string name, mark ']']

def spaceField (field : StorageSpaceField) : Lexemes :=
  table [assign "name" (inQuotes field.name), assign "type" (inQuotes (literal field.type.name)),
    assign "is_nullable" (bool field.nullable)]

def indexPart : StorageIndexPart → Lexemes
  | .byName field => table [inQuotes field]
  | .byIndex field type nullable => table [assign "field" (int field),
      assign "type" (inQuotes (literal type.name)), assign "is_nullable" (bool nullable)]

def format (fields : List StorageSpaceField) : Lexemes :=
  assign "format" (table (fields.map spaceField))

def parts (parts : List StorageIndexPart) : Lexemes := assign "parts" (table (parts.map indexPart))

def spaceOptions (options : SpaceOptions) : List Lexemes :=
  optional (fun engine => assign "engine" (inQuotes (literal engine.name))) options.engine ++
  optional (fun count => assign "field_count" (int count)) (options.fieldCount.filter (0 < ·)) ++
  optional format options.format ++
  optional (fun id => assign "id" (int id)) options.id ++
  optional (fun value => assign "if_not_exists" (bool value)) options.ifNotExists ++
  optional (fun value => assign "is_local" (bool value)) options.isLocal ++
  optional (fun value => assign "is_sync" (bool value)) options.synchronous ++
  optional (fun value => assign "temporary" (bool value)) options.temporary ++
  optional (fun user => assign "user" (inQuotes user)) options.user

def alterOptions (options : AlterOptions) : List Lexemes :=
  optional (fun count => assign "field_count" (int count)) (options.fieldCount.filter (0 < ·)) ++
  optional format options.format ++
  optional (fun value => assign "is_sync" (bool value)) options.synchronous ++
  optional (fun value => assign "temporary" (bool value)) options.temporary

def indexOptions (options : IndexOptions) : List Lexemes :=
  optional (fun type => assign "type" (inQuotes (literal type.name))) options.type ++
  optional (fun id => assign "id" (int id)) options.id ++
  optional (fun value => assign "if_not_exists" (bool value)) options.ifNotExists ++
  optional (fun value => assign "unique" (bool value)) options.unique ++
  optional parts options.parts

/-- A role is granted where one is given, and privileges otherwise. -/
def grant (name : DartString) (grant : Grant) : List Lexemes :=
  let existence :=
    optional (fun value => table [assign "if_not_exists" (bool value)]) grant.ifNotExists
  match grant.roleName with
  | some roleName => [inQuotes name, inQuotes roleName, [word "nil"], [word "nil"]] ++ existence
  | none =>
    [inQuotes name, inQuotes grant.privileges,
      inQuotes (grant.objectType.getD (literal "universe")),
      (grant.objectName.map inQuotes).getD [word "nil"]] ++ existence

/-- `box.schema.user.…` -/
def user (function : String) : Lexemes :=
  [word "box", mark '.', word "schema", mark '.', word "user", mark '.', word function]

end LuaStatement

open LuaStatement in
/-- The statement of an operation, with the strings of the caller as literals. -/
def SchemaCall.statement : SchemaCall → LuaStatement.Lexemes
  | createSpace name options =>
    [word "box", mark '.', word "schema", mark '.', word "create_space"] ++
      arguments [inQuotes name, .space :: table (spaceOptions options)]
  | alterSpace name options =>
    LuaStatement.space name ++ [mark ':', word "alter"] ++ table (alterOptions options)
  | renameSpace source target =>
    LuaStatement.space source ++ [mark ':', word "rename"] ++ arguments [inQuotes target]
  | dropSpace name => LuaStatement.space name ++ [mark ':', word "drop"] ++ arguments []
  | createIndex spaceName indexName options =>
    LuaStatement.space spaceName ++ [mark ':', word "create_index"] ++
      arguments [inQuotes indexName, .space :: table (indexOptions options)]
  | alterIndex spaceName indexName indexParts =>
    LuaStatement.space spaceName ++ [mark '.', word "index", mark '[', .string indexName, mark ']',
      mark ':', word "alter"] ++ table (optional parts indexParts)
  | dropIndex spaceName indexName =>
    LuaStatement.space spaceName ++ [mark '.', word "index", mark '[', .string indexName, mark ']',
      mark ':', word "drop"] ++ arguments []
  | createUser name password ifNotExists =>
    user "create" ++ arguments [inQuotes name,
      .space :: table (assign "password" (inQuotes password) ::
      optional (fun value => assign "if_not_exists" (bool value)) ifNotExists)]
  | dropUser name => user "drop" ++ arguments [inQuotes name]
  | changePassword name password =>
    user "passwd" ++ arguments [inQuotes name, .space :: inQuotes password]
  | grantUser name granted => user "grant" ++ arguments (LuaStatement.grant name granted)
  | revokeUser name granted => user "revoke" ++ arguments (LuaStatement.grant name granted)

/-! ## The strings of the caller -/

def StorageIndexPart.strings : StorageIndexPart → List DartString
  | byName field => [field]
  | byIndex _ _ _ => []

def Grant.strings (grant : Grant) : List DartString :=
  grant.privileges :: (grant.objectType.toList ++ grant.objectName.toList ++ grant.roleName.toList)

/-- All strings that a call is given. -/
def SchemaCall.strings : SchemaCall → List DartString
  | createSpace name options =>
    name :: ((options.format.getD []).map StorageSpaceField.name ++ options.user.toList)
  | alterSpace name options => name :: (options.format.getD []).map StorageSpaceField.name
  | renameSpace source target => [source, target]
  | dropSpace name => [name]
  | createIndex spaceName indexName options =>
    spaceName :: indexName :: (options.parts.getD []).flatMap StorageIndexPart.strings
  | alterIndex spaceName indexName parts =>
    spaceName :: indexName :: (parts.getD []).flatMap StorageIndexPart.strings
  | dropIndex spaceName indexName => [spaceName, indexName]
  | createUser name password _ => [name, password]
  | dropUser name => [name]
  | changePassword name password => [name, password]
  | grantUser name grant | revokeUser name grant => name :: grant.strings

/-- The program that the database gets. -/
def SchemaCall.program (call : SchemaCall) : List Token :=
  tokens (call.statement.map (Lexeme.mapString utf8Encode))

/-- The text is the statement: each string of the caller is written to it once, and it is read as
the tokens of the statement. -/
def SchemaCall.Parses (call : SchemaCall) : Prop :=
  ∃ text, call.text = .ok text ∧ text.supplied = call.strings ∧
    lex (utf8Encode text.string) = some call.program

/-! ## Calls that differ in their strings only -/

def StorageSpaceField.blank (field : StorageSpaceField) : StorageSpaceField :=
  { field with name := [] }

def StorageIndexPart.blank : StorageIndexPart → StorageIndexPart
  | byName _ => byName []
  | byIndex field type nullable => byIndex field type nullable

def Grant.blank (grant : Grant) : Grant where
  privileges := []
  objectType := grant.objectType.map fun _ => []
  objectName := grant.objectName.map fun _ => []
  roleName := grant.roleName.map fun _ => []
  ifNotExists := grant.ifNotExists

/-- The call without what its strings are. -/
def SchemaCall.blank : SchemaCall → SchemaCall
  | createSpace _ options => createSpace [] { options with
      format := options.format.map (·.map StorageSpaceField.blank)
      user := options.user.map fun _ => [] }
  | alterSpace _ options => alterSpace [] { options with
      format := options.format.map (·.map StorageSpaceField.blank) }
  | renameSpace _ _ => renameSpace [] []
  | dropSpace _ => dropSpace []
  | createIndex _ _ options => createIndex [] [] { options with
      parts := options.parts.map (·.map StorageIndexPart.blank) }
  | alterIndex _ _ parts => alterIndex [] [] (parts.map (·.map StorageIndexPart.blank))
  | dropIndex _ _ => dropIndex [] []
  | createUser _ _ ifNotExists => createUser [] [] ifNotExists
  | dropUser _ => dropUser []
  | changePassword _ _ => changePassword [] []
  | grantUser _ grant => grantUser [] grant.blank
  | revokeUser _ grant => revokeUser [] grant.blank

/-- A token, without what it denotes when it is a string. -/
def eraseString : Token → Token
  | .string _ => .string []
  | token => token

/-- The text of a call is its statement, and other strings change nothing but literals. -/
def SchemaCall.Safe (call : SchemaCall) : Prop :=
  call.Parses ∧ ∀ other : SchemaCall, other.blank = call.blank → other.Parses →
    ∀ text otherText, call.text = .ok text → other.text = .ok otherText →
      (lex (utf8Encode text.string)).map (·.map eraseString) =
        (lex (utf8Encode otherText.string)).map (·.map eraseString)

/-- The parts of an index. -/
def SchemaCall.parts : SchemaCall → List StorageIndexPart
  | createIndex _ _ options => options.parts.getD []
  | alterIndex _ _ parts => parts.getD []
  | _ => []

def SchemaCall.isAlterSpace : SchemaCall → Bool
  | alterSpace _ _ => true
  | _ => false

/-- A string of the call is in no place of the text: the user of a space that is empty, and the
privileges beside a role, or a role that is empty. -/
def SchemaCall.omits : SchemaCall → Bool
  | createSpace _ options => options.user = some []
  | grantUser _ grant | revokeUser _ grant => grant.roleName.isSome
  | _ => false

/-- Strings without a quote, a backslash or a line break, none that is left out, no index part
without a name, and another operation than `alterSpace`. -/
def SchemaCall.Harmless (call : SchemaCall) : Prop :=
  call.isAlterSpace = false ∧ call.omits = false ∧ .byName [] ∉ call.parts ∧
    ∀ string ∈ call.strings, Plain (utf8Encode string)

end FengShui.Storage
