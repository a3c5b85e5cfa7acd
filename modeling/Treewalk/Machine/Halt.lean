import Treewalk.Store

/-!
# Halts

Why a run ends early. A halt unwinds through everything that waits; at a call in the program it gets the
site of the call, if it has none yet.
-/

namespace Treewalk

/-- A fault at a token. -/
def RuntimeError.at (t : Token) (kind : Diagnostic.Kind) (message : Bytes) : RuntimeError :=
  { kind, site := some t.site, message }

/-- A fault whose site is not known yet. -/
def RuntimeError.unlocated (kind : Diagnostic.Kind) (message : Bytes) : RuntimeError :=
  { kind, message }

/-- Why a run ends early. -/
inductive Halt where
  /-- A fault of the program. -/
  | error (e : RuntimeError)
  /-- A failure without kind or site, from the host or from the machine itself. -/
  | plain (message : Bytes)
  /-- A broken promise of the check or of the host. -/
  | fault (f : Fault)

namespace Halt

/-- A halt as seen from a call: an error without a place in a source gets that of the call, and a plain
failure becomes an error that names the callee. -/
def atCall (paren : Token) (callee : Bytes) : Halt → Halt
  | .error e => .error (if e.isLocated then e else { e with site := some paren.site })
  | .plain message =>
    .error
      { kind := .runtime, site := some paren.site, message := callee ++ text ": " ++ message }
  | .fault f => .fault f

end Halt

end Treewalk
