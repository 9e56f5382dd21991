import BackupVault.IoFailure

/-!
# Errors of the wire formats

What can be wrong with a field, a message or the connection it came over.
-/

set_option autoImplicit false

namespace BackupVault

/-- Largest payload or blob that is sent or accepted: 64 MiB. -/
def maxPayload : Nat := 64 * 1024 * 1024

/-- Largest length-prefixed text that is sent. -/
def maxText : Nat := 65535

def nameCapacity : Nat := 255

/-- What is wrong with a message or with one of its fields. -/
inductive WireError where
  /-- The stream ended before a field of `needed` bytes was complete. -/
  | shortRead (needed : Nat)
  /-- The declared payload length differs from what the message decodes to. -/
  | lengthMismatch (declared : UInt32) (consumed : Nat)
  | payloadTooLarge (size : Nat)
  | versionMismatch (expected actual : UInt8)
  | unknownOpcode (raw : UInt8)
  | unknownResponseCode (raw : UInt16)
  | unknownMessageCode (raw : UInt16)
  /-- A valid message at the wrong step of a conversation. -/
  | unexpectedMessage (expected : String) (actual : UInt16)
  | nameTooLong (size : Nat)
  | fieldTooLong (field : String) (size limit : Nat)
  | invalidText (field : String)
  | io (cause : IoFailure)
deriving DecidableEq, Repr

def WireError.kind : WireError → String
  | shortRead _ => "ShortRead"
  | lengthMismatch .. => "LengthMismatch"
  | payloadTooLarge _ => "PayloadTooLarge"
  | versionMismatch .. => "VersionMismatch"
  | unknownOpcode _ => "InvalidOpcode"
  | unknownResponseCode _ => "InvalidResponseCode"
  | unknownMessageCode _ => "InvalidMessageCode"
  | unexpectedMessage .. => "UnexpectedMessage"
  | nameTooLong _ => "NameTooLong"
  | fieldTooLong .. => "FieldTooLong"
  | invalidText _ => "InvalidText"
  | io _ => "Io"

def WireError.message : WireError → String
  | shortRead needed => s!"Short read: stream ended before {needed} bytes were available"
  | lengthMismatch declared consumed =>
    s!"Payload length mismatch: declared {declared} bytes, decoded {consumed}"
  | payloadTooLarge size => s!"Payload size {size} exceeds maximum allowed size {maxPayload}"
  | versionMismatch expected actual =>
    s!"Protocol version mismatch: expected {expected}, got {actual}"
  | unknownOpcode raw => s!"Invalid request opcode: {raw}"
  | unknownResponseCode raw => s!"Invalid response code: {raw}"
  | unknownMessageCode raw => s!"Invalid message code: {raw}"
  | unexpectedMessage expected actual =>
    s!"Unexpected message: expected {expected}, got code {actual}"
  | nameTooLong size => s!"Name is {size} bytes, capacity is {nameCapacity}"
  | fieldTooLong field size limit => s!"{field} is {size} bytes, maximum is {limit}"
  | invalidText field => s!"Invalid text in {field}"
  | io cause => "I/O error: " ++ cause.message

def WireError.cause? : WireError → Option String
  | io cause => some cause.message
  | _ => none

end BackupVault
