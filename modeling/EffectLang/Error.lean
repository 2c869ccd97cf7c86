import EffectLang.Effect.Basic
import EffectLang.Text.Quoted
import EffectLang.Text.Utf8
import EffectLang.Token.Basic

/-!
Errors by their causes, and their wording. A report puts what was being done in front of a cause; read
aloud, it names every text on the way down to the innermost cause.
-/
namespace EffectLang

inductive StreamFault where
  | shortRead
  | sinkFull
  | notUtf8
  | notFound
  | alreadyExists
  | notDirectory
  | isDirectory
  | nameTooLong
  /-- A path holds a NUL, which no file name may. -/
  | nulInPath
  | other (words : String) (code : UInt32)
deriving DecidableEq, Repr, Inhabited

def StreamFault.message : StreamFault → String
  | .shortRead => "failed to fill whole buffer"
  | .sinkFull => "failed to write whole buffer"
  | .notUtf8 => "stream did not contain valid UTF-8"
  | .notFound => "No such file or directory (os error 2)"
  | .alreadyExists => "File exists (os error 17)"
  | .notDirectory => "Not a directory (os error 20)"
  | .isDirectory => "Is a directory (os error 21)"
  | .nameTooLong => "File name too long (os error 36)"
  | .nulInPath => "file name contained an unexpected NUL byte"
  | .other words code => words ++ " (os error " ++ toString code.toNat ++ ")"

inductive Error where
  | unexpectedToken (found : Unexpected)
  | unsupportedDefault (property text : String) (line : Nat)
  | literalOverflow (line : Nat)
  | unresolvedChunk (pass : String) (stage : Stage) (index : UInt32)
  | cannotOpen (path : String) (fault : StreamFault)
  | invalidCode (enumeration : String) (code : UInt32)
  | lengthOverflow (length : Nat)
  | invalidUtf8 (fault : Utf8.Fault)
  | stream (fault : StreamFault)
deriving DecidableEq, Repr

namespace Error

def message : Error → String
  | .unexpectedToken found =>
    "line " ++ toString found.line ++ ": expected " ++ found.expected.name ++ ", found " ++ found.found.name
      ++ " `" ++ found.text ++ "`"
  | .unsupportedDefault property text line =>
    "line " ++ toString line ++ ": unsupported default value `" ++ text ++ "` for property `" ++ property ++ "`"
  | .literalOverflow line => "line " ++ toString line ++ ": numeric literal dropped, literal buffer is full"
  | .unresolvedChunk pass stage index =>
    "pass `" ++ pass ++ "` " ++ stage.name ++ " stage references missing code chunk (index 0x"
      ++ String.ofList (Quoted.hexadecimal index.toNat) ++ ")"
  | .cannotOpen path fault => "failed to open `" ++ path ++ "`: " ++ fault.message
  | .invalidCode enumeration code => "invalid " ++ enumeration ++ " discriminant " ++ toString code.toNat
  | .lengthOverflow length => "length " ++ toString length ++ " does not fit a 32-bit prefix"
  | .invalidUtf8 fault => "string payload is not valid UTF-8: " ++ fault.message
  | .stream fault => "IO error: " ++ fault.message

/-- The text of the fault behind an error, if there is one. The error's own text ends with it. -/
def source? : Error → Option String
  | .cannotOpen _ fault => some fault.message
  | .invalidUtf8 fault => some fault.message
  | .stream fault => some fault.message
  | _ => none

end Error

inductive Cause where
  | ofError (error : Error)
  | ofFault (fault : StreamFault)
  | ofText (text : String)
deriving DecidableEq, Repr

def Cause.texts : Cause → List String
  | .ofError error => error.message :: error.source?.toList
  | .ofFault fault => [fault.message]
  | .ofText text => [text]

structure Report where
  context : Option String
  cause : Cause
deriving DecidableEq, Repr

namespace Report

def texts (report : Report) : List String :=
  report.context.toList ++ report.cause.texts

def headline (report : Report) : String :=
  report.texts.headD ""

def message (report : Report) : String :=
  ": ".intercalate report.texts

def ofError (context : String) (error : Error) : Report :=
  ⟨some context, .ofError error⟩

def ofFault (context : String) (fault : StreamFault) : Report :=
  ⟨some context, .ofFault fault⟩

def ofText (text : String) : Report :=
  ⟨none, .ofText text⟩

end Report

end EffectLang
