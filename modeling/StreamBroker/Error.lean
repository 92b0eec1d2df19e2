import StreamBroker.Subject
import StreamBroker.Entry
import StreamBroker.Duration.Text

/-!
# Errors

Every refusal names its cause.  A cause belongs to one of the kinds that callers tell apart, a kind
to a category, and a category has a status code.  The message of an error is the label of its kind,
its context, and the error that caused it, where there is one.

## Main definitions

* `StorageError`: why a log store refuses a call.
* `ErrorKind`, `ErrorKind.label`, `ErrorKind.category`, `ErrorCategory.status`: the kinds.
* `ErrorKind.describe`: a message for a kind.
* `Error`: the causes, with `Error.kind` and `Error.message`.
-/

namespace StreamBroker

/-! ## Errors of log stores -/

/-- Why a log store refuses a call. -/
inductive StorageError where
  /-- The store itself failed. -/
  | backend (detail : String)
  /-- The name cannot be the name of a namespace. -/
  | invalidNamespace (name : String)
  /-- Something in the store cannot be read as an entry. -/
  | invalidValue (detail : String)
  /-- The medium below the store failed. -/
  | io
  | namespaceNotFound (name : String)
  deriving DecidableEq, Repr

namespace StorageError

def label : StorageError → String
  | backend _ => "Backend"
  | invalidNamespace _ => "InvalidNamespace"
  | invalidValue _ => "InvalidValue"
  | io => "Io"
  | namespaceNotFound _ => "NamespaceNotFound"

/-- The cause in words, where the words are fixed. -/
def message? : StorageError → Option String
  | backend detail => some ("Storage backend error: " ++ detail)
  | invalidNamespace name => some ("Invalid namespace: " ++ name)
  | invalidValue detail => some ("Invalid value format: " ++ detail)
  | io => none
  | namespaceNotFound name => some ("Namespace not found: " ++ name)

end StorageError

/-! ## Kinds -/

/-- What a kind of error is about. -/
inductive ErrorCategory where
  /-- What was asked for does not exist. -/
  | notFound
  /-- The request is invalid or conflicts with what exists. -/
  | conflict
  /-- A limit would be exceeded. -/
  | limitExceeded
  /-- Nobody takes messages of the subject. -/
  | noInterest
  /-- The log store failed. -/
  | storage
  /-- The broker failed. -/
  | internal
  deriving DecidableEq, Repr

namespace ErrorCategory

def label : ErrorCategory → String
  | notFound => "NotFound"
  | conflict => "Conflict"
  | limitExceeded => "LimitExceeded"
  | noInterest => "NoInterest"
  | storage => "Storage"
  | internal => "Internal"

def status : ErrorCategory → Nat
  | notFound => 404
  | conflict => 409
  | limitExceeded => 409
  | noInterest => 503
  | storage => 500
  | internal => 500

end ErrorCategory

/-- What callers tell errors apart by. -/
inductive ErrorKind where
  | streamNotFound | consumerNotFound | messageNotFound | bucketNotFound | keyNotFound
  | objectNotFound
  | streamNameInUse | consumerNameInUse | subjectsOverlap | overlappingConsumer
  | consumerAlreadyBound | maxWaitingImmutable | consumerUpdate | invalidFilter
  | wrongLastSequence | streamMismatch | invalidConfig | invalidSubject | subjectNotBound
  | digestMismatch | objectExists
  | exceededMaxBatch | exceededMaxWaiting | exceededMaxRequestExpires
  | exceededMaxRequestMaxBytes | messageSizeExceedsMaxBytes | maximumMessagesExceeded
  | maximumBytesExceeded | messageTooLarge
  | noInterest | storage | internal
  deriving DecidableEq, Repr

namespace ErrorKind

def all : List ErrorKind :=
  [streamNotFound, consumerNotFound, messageNotFound, bucketNotFound, keyNotFound, objectNotFound,
    streamNameInUse, consumerNameInUse, subjectsOverlap, overlappingConsumer,
    consumerAlreadyBound, maxWaitingImmutable, consumerUpdate, invalidFilter, wrongLastSequence,
    streamMismatch, invalidConfig, invalidSubject, subjectNotBound, digestMismatch, objectExists,
    exceededMaxBatch, exceededMaxWaiting, exceededMaxRequestExpires, exceededMaxRequestMaxBytes,
    messageSizeExceedsMaxBytes, maximumMessagesExceeded, maximumBytesExceeded, messageTooLarge,
    noInterest, storage, internal]

def name : ErrorKind → String
  | streamNotFound => "StreamNotFound"
  | consumerNotFound => "ConsumerNotFound"
  | messageNotFound => "MessageNotFound"
  | bucketNotFound => "BucketNotFound"
  | keyNotFound => "KeyNotFound"
  | objectNotFound => "ObjectNotFound"
  | streamNameInUse => "StreamNameInUse"
  | consumerNameInUse => "ConsumerNameInUse"
  | subjectsOverlap => "SubjectsOverlap"
  | overlappingConsumer => "OverlappingConsumer"
  | consumerAlreadyBound => "ConsumerAlreadyBound"
  | maxWaitingImmutable => "MaxWaitingImmutable"
  | consumerUpdate => "ConsumerUpdate"
  | invalidFilter => "InvalidFilter"
  | wrongLastSequence => "WrongLastSequence"
  | streamMismatch => "StreamMismatch"
  | invalidConfig => "InvalidConfig"
  | invalidSubject => "InvalidSubject"
  | subjectNotBound => "SubjectNotBound"
  | digestMismatch => "DigestMismatch"
  | objectExists => "ObjectExists"
  | exceededMaxBatch => "ExceededMaxBatch"
  | exceededMaxWaiting => "ExceededMaxWaiting"
  | exceededMaxRequestExpires => "ExceededMaxRequestExpires"
  | exceededMaxRequestMaxBytes => "ExceededMaxRequestMaxBytes"
  | messageSizeExceedsMaxBytes => "MessageSizeExceedsMaxBytes"
  | maximumMessagesExceeded => "MaximumMessagesExceeded"
  | maximumBytesExceeded => "MaximumBytesExceeded"
  | messageTooLarge => "MessageTooLarge"
  | noInterest => "NoInterest"
  | storage => "Storage"
  | internal => "Internal"

/-- The kind in words, with which every message begins. -/
def label : ErrorKind → String
  | streamNotFound => "Stream not found"
  | consumerNotFound => "Consumer not found"
  | messageNotFound => "Message not found"
  | bucketNotFound => "Bucket not found"
  | keyNotFound => "Key not found"
  | objectNotFound => "Object not found"
  | streamNameInUse => "Stream name already in use with a different configuration"
  | consumerNameInUse => "Consumer name already in use with a different configuration"
  | subjectsOverlap => "Subjects overlap with an existing stream"
  | overlappingConsumer => "Filtered consumer not unique on workqueue stream"
  | consumerAlreadyBound => "Consumer is already bound to a subscription"
  | maxWaitingImmutable => "Consumer max waiting can not be updated"
  | consumerUpdate => "Consumer setting can not be updated"
  | invalidFilter => "Consumer filter subject is not a valid subset of the stream"
  | wrongLastSequence => "Wrong last sequence"
  | streamMismatch => "Expected stream does not match"
  | invalidConfig => "Invalid configuration"
  | invalidSubject => "Invalid subject"
  | subjectNotBound => "Subject does not match stream"
  | digestMismatch => "Object digest mismatch"
  | objectExists => "Object already exists"
  | exceededMaxBatch => "Exceeded MaxRequestBatch"
  | exceededMaxWaiting => "Exceeded MaxWaiting"
  | exceededMaxRequestExpires => "Exceeded MaxRequestExpires"
  | exceededMaxRequestMaxBytes => "Exceeded MaxRequestMaxBytes"
  | messageSizeExceedsMaxBytes => "Message size exceeds MaxBytes"
  | maximumMessagesExceeded => "Maximum messages exceeded"
  | maximumBytesExceeded => "Maximum bytes exceeded"
  | messageTooLarge => "Message size exceeds maximum allowed"
  | noInterest => "No stream bound to subject"
  | storage => "Storage error"
  | internal => "Internal error"

/-- What the kind is about. -/
def category : ErrorKind → ErrorCategory
  | streamNotFound | consumerNotFound | messageNotFound | bucketNotFound | keyNotFound
  | objectNotFound => .notFound
  | streamNameInUse | consumerNameInUse | subjectsOverlap | overlappingConsumer
  | consumerAlreadyBound | maxWaitingImmutable | consumerUpdate | invalidFilter
  | wrongLastSequence | streamMismatch | invalidConfig | invalidSubject | subjectNotBound
  | digestMismatch | objectExists => .conflict
  | exceededMaxBatch | exceededMaxWaiting | exceededMaxRequestExpires
  | exceededMaxRequestMaxBytes | messageSizeExceedsMaxBytes | maximumMessagesExceeded
  | maximumBytesExceeded | messageTooLarge => .limitExceeded
  | noInterest => .noInterest
  | storage => .storage
  | internal => .internal

/-- A message of the kind: its label, the context, and behind it the message of what caused it. -/
def describe (kind : ErrorKind) (context : String) (cause : Option String) : String :=
  match cause with
  | none => kind.label ++ ": " ++ context
  | some cause => kind.label ++ ": " ++ context ++ " (caused by: " ++ cause ++ ")"

end ErrorKind

/-! ## Causes -/

/-- What was read of an object, and what its description promised. -/
structure ObjectReading where
  bytes : Nat
  chunks : Nat
  digest : String
  deriving DecidableEq, Repr

/-- Why the broker refuses a request. -/
inductive Error where
  | streamNotFound (stream : String)
  /-- No stream takes all subjects of the filter. -/
  | noStreamHolds (filter : String)
  | consumerNotFound (consumer : String)
  | messageNotFound (sequence : Nat)
  | subjectNotFound (subject stream : String)
  | bucketNotFound (bucket : String)
  | keyNotFound (key bucket : String)
  | objectNotFound (object bucket : String)
  /-- A stream of the name has other settings. -/
  | streamNameInUse (stream : String)
  /-- A consumer of the name has other settings. -/
  | consumerNameInUse (consumer : String)
  /-- Another stream takes some of the subjects. -/
  | subjectsOverlap (subject other stream : String)
  /-- Another consumer of the work queue takes some of the subjects. -/
  | overlappingConsumer (filter consumer other stream : String)
  /-- The consumer has a push subscription. -/
  | consumerAlreadyBound (consumer : String)
  /-- The number of waiting pulls of a consumer is fixed. -/
  | maxWaitingImmutable (consumer : String)
  /-- How a consumer begins, acknowledges and lives on is fixed. -/
  | consumerUpdate (consumer : String)
  /-- The filter of a consumer takes subjects that its stream does not. -/
  | filterNotBound (filter stream : String)
  /-- The filter of a consumer is no pattern. -/
  | invalidFilter (filter : String) (cause : SubjectError)
  /-- The stream is not at the expected number. -/
  | wrongLastSequence (expected current : Nat)
  | wrongLastSubjectSequence (expected : Nat) (subject : String) (current : Nat)
  | keyExists (key bucket : String)
  /-- The message was routed to another stream than expected. -/
  | streamMismatch (expected stream : String)
  /-- A setting is not acceptable. -/
  | invalidConfig (detail : String)
  /-- A subject or pattern is not acceptable. -/
  | invalidSubject (cause : SubjectError)
  | invalidKey (key : String)
  | invalidKeyPattern (pattern : String)
  /-- The stream does not take the subject. -/
  | subjectNotBound (subject stream : String)
  /-- An object is not what its description promises. -/
  | digestMismatch (object : String) (found promised : ObjectReading)
  /-- A live object has the name. -/
  | objectExists (object bucket : String)
  | exceededMaxBatch (batch max : Nat)
  /-- No more pulls may wait. -/
  | exceededMaxWaiting (consumer : String)
  | exceededMaxRequestExpires (requested max : Duration)
  | exceededMaxRequestMaxBytes (requested max : Nat)
  /-- The next message does not fit into a pull. -/
  | messageSizeExceedsMaxBytes (size : Nat)
  /-- The stream is full by messages. -/
  | maximumMessagesExceeded (stream : String) (max : Nat)
  /-- The stream is full by octets. -/
  | maximumBytesExceeded (stream : String) (max : Nat)
  | payloadTooLarge (size max : Nat)
  /-- The message is larger than its stream takes. -/
  | messageTooLarge (size max : Nat)
  /-- No stream takes the subject. -/
  | noInterest (subject : String)
  | storage (cause : StorageError)
  /-- A stored entry cannot be written or read. -/
  | format (cause : FormatError)
  /-- The data of an object could not be read to its end. -/
  | io (detail : String)
  /-- A stored description cannot be read. -/
  | serialization
  /-- The broker failed. -/
  | internal (detail : String)
  /-- The stream notes no acknowledgements any more. -/
  | acksStopped (stream : String)
  | ackDropped
  /-- The numbers of sixty-four bits are used up. -/
  | numbersExhausted
  deriving DecidableEq, Repr

namespace Error

def kind : Error → ErrorKind
  | streamNotFound _ | noStreamHolds _ => .streamNotFound
  | consumerNotFound _ => .consumerNotFound
  | messageNotFound _ | subjectNotFound .. => .messageNotFound
  | bucketNotFound _ => .bucketNotFound
  | keyNotFound .. => .keyNotFound
  | objectNotFound .. => .objectNotFound
  | streamNameInUse _ => .streamNameInUse
  | consumerNameInUse _ => .consumerNameInUse
  | subjectsOverlap .. => .subjectsOverlap
  | overlappingConsumer .. => .overlappingConsumer
  | consumerAlreadyBound _ => .consumerAlreadyBound
  | maxWaitingImmutable _ => .maxWaitingImmutable
  | consumerUpdate _ => .consumerUpdate
  | filterNotBound .. | invalidFilter .. => .invalidFilter
  | wrongLastSequence .. | wrongLastSubjectSequence .. | keyExists .. => .wrongLastSequence
  | streamMismatch .. => .streamMismatch
  | invalidConfig _ => .invalidConfig
  | invalidSubject _ | invalidKey _ | invalidKeyPattern _ => .invalidSubject
  | subjectNotBound .. => .subjectNotBound
  | digestMismatch .. => .digestMismatch
  | objectExists .. => .objectExists
  | exceededMaxBatch .. => .exceededMaxBatch
  | exceededMaxWaiting _ => .exceededMaxWaiting
  | exceededMaxRequestExpires .. => .exceededMaxRequestExpires
  | exceededMaxRequestMaxBytes .. => .exceededMaxRequestMaxBytes
  | messageSizeExceedsMaxBytes _ => .messageSizeExceedsMaxBytes
  | maximumMessagesExceeded .. => .maximumMessagesExceeded
  | maximumBytesExceeded .. => .maximumBytesExceeded
  | payloadTooLarge .. | messageTooLarge .. => .messageTooLarge
  | noInterest _ => .noInterest
  | storage _ | format _ | io _ => .storage
  | serialization | internal _ | acksStopped _ | ackDropped | numbersExhausted => .internal

/-- What the error is about, in words. -/
def context : Error → String
  | streamNotFound stream => s!"stream '{stream}'"
  | noStreamHolds filter => s!"no stream holds '{filter}'"
  | consumerNotFound consumer => s!"consumer '{consumer}'"
  | messageNotFound sequence => "sequence " ++ Decimal.text sequence
  | subjectNotFound subject stream =>
    s!"no message for subject '{subject}' in stream '{stream}'"
  | bucketNotFound bucket => s!"bucket '{bucket}' not found"
  | keyNotFound key bucket => s!"key '{key}' not found in bucket '{bucket}'"
  | objectNotFound object bucket => s!"object '{object}' not found in bucket '{bucket}'"
  | streamNameInUse stream =>
    s!"stream '{stream}' already exists with a different configuration"
  | consumerNameInUse consumer =>
    s!"consumer '{consumer}' already exists with a different configuration"
  | subjectsOverlap subject other stream =>
    s!"subject '{subject}' overlaps '{other}' of stream '{stream}'"
  | overlappingConsumer filter consumer other stream =>
    s!"filter '{filter}' overlaps consumer '{consumer}' ('{other}') on work queue stream "
      ++ s!"'{stream}'"
  | consumerAlreadyBound consumer =>
    s!"consumer '{consumer}' already has a push subscription"
  | maxWaitingImmutable consumer =>
    s!"max waiting of consumer '{consumer}' cannot be changed"
  | consumerUpdate consumer =>
    "ack policy, deliver policy and durability of consumer "
      ++ s!"'{consumer}' cannot be changed"
  | filterNotBound filter stream =>
    s!"filter '{filter}' is not a subset of the subjects of stream '{stream}'"
  | invalidFilter filter cause => s!"filter '{filter}': " ++ cause.message
  | wrongLastSequence expected current =>
    "expected last sequence " ++ Decimal.text expected ++ ", stream is at "
      ++ Decimal.text current
  | wrongLastSubjectSequence expected subject current =>
    "expected last sequence " ++ Decimal.text expected ++ s!" for '{subject}', found "
      ++ Decimal.text current
  | keyExists key bucket => s!"key '{key}' already exists in bucket '{bucket}'"
  | streamMismatch expected stream =>
    s!"expected stream '{expected}', message routed to '{stream}'"
  | invalidConfig detail => detail
  | invalidSubject _ => "Subject validation failed"
  | invalidKey key => s!"invalid key '{key}'"
  | invalidKeyPattern pattern => s!"invalid key pattern '{pattern}'"
  | subjectNotBound subject stream =>
    s!"subject '{subject}' is not bound by stream '{stream}'"
  | digestMismatch object found promised =>
    s!"object '{object}' read " ++ Decimal.text found.bytes ++ " bytes in "
      ++ Decimal.text found.chunks ++ " chunks with digest " ++ found.digest ++ ", expected "
      ++ Decimal.text promised.bytes ++ " bytes in " ++ Decimal.text promised.chunks
      ++ " chunks with digest " ++ promised.digest
  | objectExists object bucket => s!"object '{object}' already exists in bucket '{bucket}'"
  | exceededMaxBatch batch max =>
    "batch " ++ Decimal.text batch ++ " exceeds max batch " ++ Decimal.text max
  | exceededMaxWaiting consumer => s!"consumer '{consumer}' has reached max waiting"
  | exceededMaxRequestExpires requested max =>
    "expires " ++ requested.brief ++ " exceeds consumer limit " ++ max.brief
  | exceededMaxRequestMaxBytes requested max =>
    "max bytes " ++ Decimal.text requested ++ " exceeds consumer limit " ++ Decimal.text max
  | messageSizeExceedsMaxBytes size =>
    "next message of " ++ Decimal.text size ++ " bytes exceeds request max bytes"
  | maximumMessagesExceeded stream max =>
    s!"stream '{stream}' holds " ++ Decimal.text max ++ " messages"
  | maximumBytesExceeded stream max =>
    s!"stream '{stream}' would exceed " ++ Decimal.text max ++ " bytes"
  | payloadTooLarge size max =>
    "payload of " ++ Decimal.text size ++ " bytes exceeds maximum of " ++ Decimal.text max
  | messageTooLarge size max =>
    "message of " ++ Decimal.text size ++ " bytes exceeds stream maximum of "
      ++ Decimal.text max
  | noInterest subject => s!"no stream bound to subject '{subject}'"
  | storage _ => "Storage backend error"
  | format _ => "Stored entry format error"
  | io _ => "I/O error"
  | serialization => "Serialization error"
  | internal detail => detail
  | acksStopped stream => s!"ack processor of stream '{stream}' stopped"
  | ackDropped => "Ack processor dropped request"
  | numbersExhausted => "sequence numbers are used up"

/-- The message of the error that caused this one, where there is one with fixed words. -/
def cause? : Error → Option String
  | invalidSubject cause => some cause.message
  | storage cause => cause.message?
  | format cause => cause.message?
  | io detail => some detail
  | ackDropped => some "channel closed"
  | _ => none

def message (e : Error) : String := e.kind.describe e.context e.cause?

def isNotFound (e : Error) : Bool := e.kind.category == .notFound

end Error

end StreamBroker
