/-!
# Errors

Every operation that can fail answers an `Error`: a kind, which callers branch on, and a context,
which people read. The wording of each cause is fixed by its named constructor, so a statement
about a failure can name the cause instead of spelling the text.
-/

namespace DocStore

inductive ErrorKind where
  | missingIdentity
  | invalidIdentity
  | nullUniqueIndex
  | duplicateUniqueValue
  | uniqueMultipleValues
  | parse
  | unsupportedExpression
  | schemaMismatch
  | storage
  | serialization
  | invalidArgument
  | internal
  deriving DecidableEq, Repr, Inhabited

namespace ErrorKind

def all : List ErrorKind :=
  [missingIdentity, invalidIdentity, nullUniqueIndex, duplicateUniqueValue, uniqueMultipleValues,
    parse, unsupportedExpression, schemaMismatch, storage, serialization, invalidArgument, internal]

def name : ErrorKind → String
  | missingIdentity => "MissingIdentity"
  | invalidIdentity => "InvalidIdentity"
  | nullUniqueIndex => "NullUniqueIndex"
  | duplicateUniqueValue => "DuplicateUniqueValue"
  | uniqueMultipleValues => "UniqueMultipleValues"
  | parse => "Parse"
  | unsupportedExpression => "UnsupportedExpression"
  | schemaMismatch => "SchemaMismatch"
  | storage => "Storage"
  | serialization => "Serialization"
  | invalidArgument => "InvalidArgument"
  | internal => "Internal"

end ErrorKind

structure Error where
  kind : ErrorKind
  context : String
  deriving DecidableEq, Repr, Inhabited

namespace Error

def message (e : Error) : String :=
  e.kind.name ++ ": " ++ e.context

def quoted (text : String) : String :=
  "'" ++ text ++ "'"

def missingIdentity (structureName : String) : Error :=
  ⟨.missingIdentity, "Structure " ++ quoted structureName ++ " has no assigned identity"⟩

def identityBelowOne (value : Int) : Error :=
  ⟨.invalidIdentity, "Identity must be >= 1, got " ++ value.repr⟩

def nilGuid : Error :=
  ⟨.invalidIdentity, "Guid identity must not be the nil guid"⟩

def rangeBelowOne (start : Int) : Error :=
  ⟨.invalidIdentity, "Identity range must start at >= 1, got " ++ start.repr⟩

def offsetOutsideRange (offset count : Nat) : Error :=
  ⟨.invalidIdentity,
    "Offset " ++ offset.repr ++ " outside checked out range of " ++ count.repr⟩

def invalidGuid (text : String) : Error :=
  ⟨.invalidIdentity, "Invalid guid identity " ++ quoted text⟩

def identityNotReadable (path document kind : String) : Error :=
  ⟨.invalidIdentity,
    "Identity member " ++ quoted path ++ " holds " ++ document ++ " which is not a " ++ kind⟩

def nullUnique (structureName path : String) : Error :=
  ⟨.nullUniqueIndex,
    "Unique member " ++ quoted path ++ " of " ++ quoted structureName ++ " yielded no value"⟩

/-- A unique member that reaches several values; `kind` tells repeated values from distinct ones. -/
def uniqueYieldedSeveral (kind : ErrorKind) (path structureName id : String) (count : Nat) :
    Error :=
  ⟨kind, "Unique member " ++ quoted path ++ " of " ++ quoted structureName ++ " (" ++ id ++
    ") yielded " ++ count.repr ++ " values"⟩

def uniqueCarriesSeveral (path structureName id : String) : Error :=
  ⟨.uniqueMultipleValues,
    "Unique index " ++ quoted path ++ " of structure " ++ quoted structureName ++ " (" ++ id ++
      ") cannot carry multiple values"⟩

def severalValues (path : String) (count : Nat) (family : String) : Error :=
  ⟨.schemaMismatch,
    "Member " ++ quoted path ++ " yielded " ++ count.repr ++ " " ++ family ++
      " values; declare it as an element member"⟩

def noDocument (failure : String) : Error :=
  ⟨.serialization, failure⟩

def unreadable (document family : String) : Error :=
  ⟨.serialization, "Cannot read " ++ document ++ " as " ++ family⟩

def invalidStructureName (name : String) : Error :=
  ⟨.invalidArgument, quoted name ++ " is not a valid structure name"⟩

def noIdentityMember (name : String) : Error :=
  ⟨.invalidArgument, "Structure " ++ quoted name ++ " has no identity member"⟩

def invalidMemberPath (path : String) : Error :=
  ⟨.invalidArgument, quoted path ++ " is not a valid member path"⟩

def nestedIdentity (path : String) : Error :=
  ⟨.invalidArgument, "Identity member " ++ quoted path ++ " must be a root member"⟩

def indexedIdentity (path : String) : Error :=
  ⟨.invalidArgument, "Identity member " ++ quoted path ++ " cannot also be an index"⟩

def indexedTwice (path : String) : Error :=
  ⟨.invalidArgument, "Member " ++ quoted path ++ " is indexed twice"⟩

def unsupported (expression reason : String) : Error :=
  ⟨.unsupportedExpression, reason ++ ": " ++ quoted expression⟩

def unexpectedInput (rest : String) : Error :=
  ⟨.parse, "Unexpected input at " ++ quoted rest⟩

def trailingInput (rest input : String) : Error :=
  ⟨.parse, "Unexpected trailing input " ++ quoted rest ++ " in " ++ quoted input⟩

def invalidConstant (expression reason : String) : Error :=
  ⟨.parse, reason ++ " in " ++ quoted expression⟩

def emptyPage : Error :=
  ⟨.invalidArgument, "Page size must be at least 1"⟩

def pageOutOfRange (index size : Nat) : Error :=
  ⟨.invalidArgument,
    "Page " ++ index.repr ++ " of size " ++ size.repr ++ " is beyond the last addressable row"⟩

def schemaMismatch (structureName path : String) : Error :=
  ⟨.schemaMismatch,
    "Member " ++ quoted path ++ " is not indexed by structure " ++ quoted structureName⟩

def misplacedList : Error :=
  ⟨.internal, "Value list outside of an in comparison"⟩

def misplacedNode : Error :=
  ⟨.internal, "Sorting and include nodes do not belong in a where clause"⟩

def storage (context : String) : Error :=
  ⟨.storage, context⟩

def tableUnavailable (table : String) : Error :=
  storage ("Table " ++ quoted table ++ " is unavailable")

def unknownTable (table : String) : Error :=
  storage ("Invalid object name " ++ quoted table)

def tableExists (table : String) : Error :=
  storage ("There is already an object named " ++ quoted table)

def missingColumn (column : String) : Error :=
  storage ("Column " ++ quoted column ++ " does not exist")

def columnExists (column : String) : Error :=
  storage ("Column " ++ quoted column ++ " already exists")

def unknownColumn (column : String) : Error :=
  storage ("Invalid column name " ++ quoted column)

def unmatchedMapping (column table : String) : Error :=
  storage ("Column mapping " ++ quoted column ++ " does not match table " ++ quoted table)

def unsupportedQuery (sql : String) : Error :=
  storage ("Unsupported query for the memory client: " ++ sql)

def notOnRow : Error :=
  ⟨.internal, "Reader is not positioned on a row"⟩

def unknownField (table : String) (ordinal : Nat) : Error :=
  ⟨.invalidArgument,
    "Table " ++ quoted table ++ " has no field at ordinal " ++ ordinal.repr⟩

end Error

end DocStore
