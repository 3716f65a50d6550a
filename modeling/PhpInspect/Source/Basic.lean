import PhpInspect.Source.LineTable
import PhpInspect.Text.Blank

/-! # Source texts

A source text with its bytes and its line table, so that a byte range can be read and placed on lines.
-/

namespace PhpInspect

structure Source where
  bytes : ByteArray
  lines : LineTable

namespace Source

def ofText (text : String) : Source :=
  let bytes := text.toUTF8
  ⟨bytes, .ofBytes bytes⟩

/-- The text of a byte range, empty when the range does not cut the source at characters. -/
def slice (source : Source) (start stop : Nat) : String :=
  if start ≤ stop ∧ stop ≤ source.bytes.size then
    (String.fromUTF8? (source.bytes.extract start stop)).getD ""
  else ""

def text (source : Source) (span : Span) : String := source.slice span.start span.stop

def between (source : Source) (start stop : Nat) : String :=
  if start ≥ stop then "" else Text.trim (source.slice start stop)

end Source

end PhpInspect
