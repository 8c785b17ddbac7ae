import Typings.Text.Surrogates
import Typings.Text.Utf8

/-! # Crashes

Failures that a run does not handle. They pass through it unchanged: the kind of failure, and its
text.
-/

namespace Typings

inductive CrashKind where
  /-- A value of the right type that cannot be used. -/
  | value
  /-- The system refused. -/
  | system
  | runtime
  /-- Bytes that are no text. -/
  | decoding
  /-- A text without bytes. -/
  | encoding
  /-- A word that a table does not list. -/
  | lookup
  /-- A position outside a text. -/
  | range
  | overflow
  | type
  | attribute
  deriving DecidableEq, Repr

def CrashKind.name : CrashKind → String
  | .value => "ValueError"
  | .system => "OSError"
  | .runtime => "RuntimeError"
  | .decoding => "UnicodeDecodeError"
  | .encoding => "UnicodeEncodeError"
  | .lookup => "KeyError"
  | .range => "IndexError"
  | .overflow => "OverflowError"
  | .type => "TypeError"
  | .attribute => "AttributeError"

structure Crash where
  kind : CrashKind
  text : String
  deriving DecidableEq, Repr

def Crash.ofUtf8 (f : Text.Utf8Fault) : Crash := ⟨.decoding, f.message⟩

def Crash.ofEncoding (f : Text.EncodeFault) : Crash := ⟨.encoding, f.message⟩

end Typings
