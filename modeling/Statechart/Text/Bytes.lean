/-!
# Texts as bytes

Positions in a source text are byte offsets into its UTF-8 encoding. The
scanners therefore work on the list of bytes of a text; this module holds the
view of a text as bytes, and the way back.

* `utf8`: the bytes of a text;
* `decode?`: the text that some bytes encode, if they do;
* `isBoundary`: whether a position falls between two characters;
* `slice`: the text between two positions.
-/

namespace Statechart

/-- The bytes of an encoded text. -/
abbrev Bytes := List UInt8

/-- The UTF-8 encoding of a text. -/
def utf8 (text : String) : Bytes :=
  text.toByteArray.data.toList

namespace Bytes

/-- The text with this encoding, if the bytes are well formed. -/
def decode? (bytes : Bytes) : Option String :=
  String.fromUTF8? ⟨bytes.toArray⟩

/-- The text with this encoding; malformed bytes give the empty text. -/
def decode (bytes : Bytes) : String :=
  bytes.decode?.getD ""

/-- Whether a byte continues a character rather than starting one: `10xxxxxx`. -/
def isContinuation (byte : UInt8) : Bool :=
  0x80 ≤ byte && byte < 0xC0

/-- Whether `pos` falls between two characters, or at either end of the text. -/
def isBoundary (bytes : Bytes) (pos : Nat) : Bool :=
  match bytes[pos]? with
  | some byte => pos == 0 || !isContinuation byte
  | none => pos == bytes.length

/-- The bytes from `start` up to `stop`. -/
def range (bytes : Bytes) (start stop : Nat) : Bytes :=
  (bytes.drop start).take (stop - start)

/-- The text from `start` up to `stop`; empty when the range is reversed, leaves
    the text or cuts a character. -/
def slice (bytes : Bytes) (start stop : Nat) : String :=
  if start ≤ stop ∧ stop ≤ bytes.length then (bytes.range start stop).decode else ""

end Bytes

end Statechart
