import Treewalk.Token

/-!
# Failures

Why a source was refused or a run ended early. A failure may be wrapped with context; the questions
asked of a failure (`isStatic`, `isIncomplete`, `asDiagnostic`) look through the wrapping along
`chain`, while `diagnostics` takes the failure as it stands.
-/

namespace Treewalk

/-- What a fault of a run is reported at. -/
structure Site where
  lexeme : Bytes
  pos : Position
deriving DecidableEq, Repr

/-- The site of a token. -/
def Token.site (t : Token) : Site := ⟨t.lexeme, t.pos⟩

/-- A fault raised while a program runs. One raised by a native has no site until the call is known. -/
structure RuntimeError where
  kind : Diagnostic.Kind
  site : Option Site := none
  message : Bytes
deriving DecidableEq, Repr

/-- Is the place of a fault known? Lines count from one. -/
def RuntimeError.isLocated (e : RuntimeError) : Bool := e.site.any fun s => 0 < s.pos.line

/-- The diagnostic of a fault of a run. -/
def RuntimeError.diagnostic (e : RuntimeError) : Diagnostic :=
  { kind := e.kind
    place := (e.site.map (·.pos.place)).getD .unknown
    lexeme := (e.site.map (·.lexeme)).getD []
    message := e.message }

/-- Why an operation on a file failed. -/
inductive FileError.Cause where
  | notFound
  | denied
  | notDirectory
  | isDirectory
  | invalidName
  | nameTooLong
deriving DecidableEq, Repr

/-- A failed operation on a file. -/
structure FileError where
  action : Bytes
  path : Bytes
  cause : FileError.Cause
deriving DecidableEq, Repr

namespace FileError

/-- The wording of a cause. -/
def Cause.message : Cause → Bytes
  | .notFound => text "no such file or directory"
  | .denied => text "permission denied"
  | .notDirectory => text "not a directory"
  | .isDirectory => text "is a directory"
  | .invalidName => text "invalid argument"
  | .nameTooLong => text "file name too long"

/-- A failed operation in words. -/
def message (e : FileError) : Bytes :=
  e.action ++ text " " ++ e.path ++ text ": " ++ e.cause.message

end FileError

/-- Why a source was refused, or why a run ended early. -/
inductive Failure where
  /-- The faults of a check. -/
  | faults (ds : List Diagnostic)
  | single (d : Diagnostic)
  | plain (message : Bytes)
  | file (e : FileError)
  | runtime (e : RuntimeError)
  /-- A source that could not be read as a program. -/
  | unparsed (incomplete : Bool) (cause : Failure)
  /-- The same without a cause. -/
  | unparsedBare (incomplete : Bool)
  | wrapped (context : Bytes) (cause : Failure)

namespace Failure

/-- A failure in words. -/
def message : Failure → Bytes
  | faults ds => Diagnostic.listText ds
  | single d => d.line
  | plain m => m
  | file e => e.message
  | runtime e => e.diagnostic.line
  | unparsed _ cause => cause.message
  | unparsedBare _ => []
  | wrapped context cause => context ++ text ": " ++ cause.message

/-- A failure and its causes, outermost first. -/
def chain : Failure → List Failure
  | unparsed incomplete cause => unparsed incomplete cause :: cause.chain
  | wrapped context cause => wrapped context cause :: cause.chain
  | e => [e]

/-- The refused source in a chain: was its input incomplete? -/
def unparsed? : Failure → Option Bool
  | unparsed incomplete _ => some incomplete
  | unparsedBare incomplete => some incomplete
  | _ => none

/-- The faults that this failure is made of, causes apart. -/
def faults? : Failure → Option (List Diagnostic)
  | faults ds => some ds
  | _ => none

/-- The one diagnostic that this failure is, causes apart. -/
def single? : Failure → Option Diagnostic
  | single d => some d
  | _ => none

/-- The fault of a run that this failure is, causes apart. -/
def runtime? : Failure → Option RuntimeError
  | runtime e => some e
  | _ => none

/-- May more text mend this failure? -/
def isIncomplete (f : Failure) : Bool := (f.chain.findSome? unparsed?).getD false

/-- Was the source refused before anything ran? -/
def isStatic (f : Failure) : Bool :=
  f.chain.any fun e => (unparsed? e).isSome || (faults? e).isSome

/-- Did a run raise this failure? -/
def isRuntime (f : Failure) : Bool := f.chain.any fun e => (runtime? e).isSome

/-- The failed operation on a file that this failure is, causes apart. -/
def file? : Failure → Option FileError
  | file e => some e
  | _ => none

/-- Why the operation on a file in a chain failed. -/
def fileCause? (f : Failure) : Option FileError.Cause := (f.chain.findSome? file?).map (·.cause)

/-- A failure as one diagnostic; one that holds none is a system fault. -/
def asDiagnostic (f : Failure) : Diagnostic :=
  match f.chain.findSome? runtime? with
  | some e => e.diagnostic
  | none => (f.chain.findSome? single?).getD (Diagnostic.system f.message)

/-- The diagnostics behind a refused source. -/
def causeDiagnostics (f : Failure) : List Diagnostic :=
  match f.chain.findSome? faults? with
  | some ds => ds
  | none => (f.chain.findSome? single?).toList

/-- The diagnostics to show for a failure. -/
def diagnostics : Failure → List Diagnostic
  | unparsed _ cause => cause.causeDiagnostics
  | unparsedBare _ => []
  | faults ds => ds
  | f => [f.asDiagnostic]

/-- The failure of a source with these faults, if there are any. -/
def ofFaults? : List Diagnostic → Option Failure
  | [] => none
  | ds => some (unparsed (Diagnostic.listIncomplete ds) (faults ds))

end Failure

end Treewalk
