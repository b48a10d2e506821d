import GuardedSearch.Value

/-!
# Errors

What can go wrong, as causes, and the text of each. An error of a search is one of seven
kinds; every kind but a cancellation has a cause of its own.
-/

namespace GuardedSearch

/-- Text, bytes or a stored record that do not have the form they should have. -/
inductive FormatError where
  | notHexadecimal (text : String)
  | hexadecimalTooLarge (text : String)
  | int32OutOfRange (text : String)
  | int64OutOfRange (text : String)
  | yearOutOfRange (date : Instant)
  | notEncodedDate (text : String)
  | noSuchDate (text : String)
  | booleanByte (byte : UInt8)
  | int32Width (length : Nat)
  | int64Width (length : Nat)
  | timestampOutOfRange (seconds : Int)
  | invalidLiteral (type : FieldType) (text : String)
  | unrecognisedDate (text : String)
  | storedTypeMismatch (declared : FieldType)
  | noStoredUri (doc : DocId)
  | textAclNode (doc : DocId)
  /-- A complaint of a searcher that is not one of this library's. -/
  | reported (message : String)
deriving DecidableEq

namespace FormatError

def message : FormatError → String
  | notHexadecimal text => s!"'{text}' is not hexadecimal"
  | hexadecimalTooLarge text =>
    s!"'{text}' is not hexadecimal: number too large to fit in target type"
  | int32OutOfRange text => s!"'{text}' is out of range for int32"
  | int64OutOfRange text => s!"'{text}' is out of range for int64"
  | yearOutOfRange date => s!"date {date.spaced} is outside years 0000-9999"
  | notEncodedDate text => s!"'{text}' is not an encoded date"
  | noSuchDate text => s!"'{text}' is not an encoded date: input is out of range"
  | booleanByte byte => s!"invalid boolean byte {byte.toNat}"
  | int32Width length => s!"int32 must be exactly 4 bytes, got {length}"
  | int64Width length => s!"int64 must be exactly 8 bytes, got {length}"
  | timestampOutOfRange seconds => s!"timestamp {seconds} is out of range"
  | invalidLiteral type text =>
    let name := match type with
      | .text => "text"
      | .int32 => "int32"
      | .int64 => "int64"
      | .boolean => "boolean"
      | .date => "date"
    s!"'{text}' is not a valid {name}"
  | unrecognisedDate text => s!"'{text}' is not a recognised date"
  | storedTypeMismatch declared => s!"stored value does not match declared type {declared.name}"
  | noStoredUri doc => s!"document {doc.ordinal} has no stored uri"
  | textAclNode doc => s!"document {doc.ordinal} has a text acl node id"
  | reported message => message

end FormatError

inductive UnsupportedQuery where
  | notTextField (kind field : String) (type : FieldType)
  | unknownResourceType (name : String)
  | noHierarchicalVocabulary (field : String)
deriving DecidableEq

namespace UnsupportedQuery

def message : UnsupportedQuery → String
  | notTextField kind field type =>
    s!"{kind} on field '{field}' of type {type.name}; only text fields are supported"
  | unknownResourceType name => s!"TypeTermQuery: unknown resource type '{name}'"
  | noHierarchicalVocabulary field =>
    s!"VocabularyMembershipQuery: field '{field}' has no hierarchical vocabulary"

end UnsupportedQuery

inductive InvalidArgument where
  | booleanWidth (length : Nat)
  | noTextUri
  | notResourceId (field : String) (value : FieldValue)
  | depthTooLarge (depth : Nat)
  | negativeLimit (limit : Int)
  | negativeCursor (cursor : Int)
  | noConcurrentQueries
deriving DecidableEq

namespace InvalidArgument

def message : InvalidArgument → String
  | booleanWidth length => s!"boolean must be exactly 1 byte, got {length}"
  | noTextUri => "document must have a text uri"
  | notResourceId field value => s!"{field} must be a non-negative int32, got {value.described}"
  | depthTooLarge depth => s!"uri depth {depth} is too large"
  | negativeLimit limit => s!"limit must not be negative, got {limit}"
  | negativeCursor cursor => s!"cursor must not be negative, got {cursor}"
  | noConcurrentQueries => "max_concurrent_queries must be positive"

end InvalidArgument

inductive ConfigError where
  | zero (setting : String)
  | limitTooLarge (limit greatest : Nat)
  | unreadable
deriving DecidableEq

namespace ConfigError

def message : ConfigError → String
  | zero setting => s!"{setting} must be greater than zero"
  | limitTooLarge limit greatest => s!"max_limit {limit} exceeds MAX_LIMIT {greatest}"
  | unreadable => "the text is no configuration"

end ConfigError

inductive EngineError where
  | io (message : String)
  | unknownSnapshot (id : Nat)
  | noDocument (doc : DocId) (version : Nat)
  | tooManyDocuments
  | unindexable (cause : FormatError)
  /-- A failure of an engine that is not one of this library's. -/
  | reported (message : String)
deriving DecidableEq

namespace EngineError

def message : EngineError → String
  | io message => s!"I/O error: {message}"
  | unknownSnapshot id => s!"unknown snapshot handle {id}"
  | noDocument doc version => s!"no document {doc.ordinal} in segment version {version}"
  | tooManyDocuments => "segment exceeds u32 document ordinals"
  | unindexable cause => s!"format error: {cause.message}"
  | reported message => message

end EngineError

/-- An error that a caller of the search layer sees. -/
inductive Error where
  | format (cause : FormatError)
  | unsupportedQuery (cause : UnsupportedQuery)
  | queryExecution (cause : EngineError)
  | cancelled
  | invalidArgument (cause : InvalidArgument)
  | authorization (message : String)
  | config (cause : ConfigError)
deriving DecidableEq

namespace Error

def message : Error → String
  | format cause => s!"format error: {cause.message}"
  | unsupportedQuery cause => s!"unsupported query: {cause.message}"
  | queryExecution cause => s!"query execution failed: {cause.message}"
  | cancelled => "search cancelled before admission"
  | invalidArgument cause => s!"invalid argument: {cause.message}"
  | authorization message => s!"authorization failed: {message}"
  | config cause => s!"invalid configuration: {cause.message}"

end Error

end GuardedSearch
