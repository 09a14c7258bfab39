import Phrasebook.Text.Basic

/-! # Diagnostics

A diagnostic says what went wrong, where, and what to do about it. Its code is stable: the number
tells the stage that reports it, 1xxx merging, 2xxx templates, 3xxx files, 4xxx configuration, 5xxx
warnings. -/

namespace Phrasebook

/-- The kinds of diagnostics. -/
inductive DiagnosticCode where
  | structureMismatch
  | signatureMismatch
  | keyCollision
  | maxDepthExceeded
  | templateSyntax
  | documentLoadFailed
  | documentDecodeFailed
  | artifactWriteFailed
  | noDocuments
  | defaultLocaleMissing
  | invalidConfiguration
  | nonStringValueSkipped
  | unknownLocale
deriving DecidableEq

namespace DiagnosticCode

/-- The number of a kind. -/
def number : DiagnosticCode → Nat
  | structureMismatch => 1001
  | signatureMismatch => 1002
  | keyCollision => 1003
  | maxDepthExceeded => 1004
  | templateSyntax => 2001
  | documentLoadFailed => 3001
  | documentDecodeFailed => 3002
  | artifactWriteFailed => 3003
  | noDocuments => 4001
  | defaultLocaleMissing => 4002
  | invalidConfiguration => 4003
  | nonStringValueSkipped => 5001
  | unknownLocale => 5002

/-- The name of a kind, as the formatted forms print it. -/
def name : DiagnosticCode → Text
  | structureMismatch => "STRUCTURE_MISMATCH"
  | signatureMismatch => "SIGNATURE_MISMATCH"
  | keyCollision => "KEY_COLLISION"
  | maxDepthExceeded => "MAX_DEPTH_EXCEEDED"
  | templateSyntax => "TEMPLATE_SYNTAX"
  | documentLoadFailed => "DOCUMENT_LOAD_FAILED"
  | documentDecodeFailed => "DOCUMENT_DECODE_FAILED"
  | artifactWriteFailed => "ARTIFACT_WRITE_FAILED"
  | noDocuments => "NO_DOCUMENTS"
  | defaultLocaleMissing => "DEFAULT_LOCALE_MISSING"
  | invalidConfiguration => "INVALID_CONFIGURATION"
  | nonStringValueSkipped => "NON_STRING_VALUE_SKIPPED"
  | unknownLocale => "UNKNOWN_LOCALE"

/-- Every kind, by number. -/
def all : List DiagnosticCode :=
  [structureMismatch, signatureMismatch, keyCollision, maxDepthExceeded, templateSyntax,
    documentLoadFailed, documentDecodeFailed, artifactWriteFailed, noDocuments,
    defaultLocaleMissing, invalidConfiguration, nonStringValueSkipped, unknownLocale]

/-- The kind of a given name. -/
def ofName? (name : Text) : Option DiagnosticCode := all.find? (·.name = name)

end DiagnosticCode

/-- How grave a diagnostic is: an error ends a compile, a warning tells of skipped input. -/
inductive Severity where
  | error
  | warning
deriving DecidableEq

/-- The name of a severity. -/
def Severity.name : Severity → Text
  | .error => "error"
  | .warning => "warning"

/-- **What went wrong, where, and what to do about it.** -/
structure Diagnostic where
  code : DiagnosticCode
  /-- One sentence. -/
  message : Text
  /-- A suggested fix, where there is an obvious one. -/
  hint : Option Text := none
  /-- A key with its locale, or a file. -/
  location : Option Text := none
  severity : Severity := .error
deriving DecidableEq

/-- What a failure says of itself: a sentence, or a whole diagnostic. -/
inductive Complaint where
  | plain (message : Text)
  | diagnostic (d : Diagnostic)
deriving DecidableEq

/-- The sentence of a complaint. -/
def Complaint.message : Complaint → Text
  | .plain message => message
  | .diagnostic d => d.message

end Phrasebook
