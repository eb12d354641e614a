import Typeahead.Text

/-!
# UTF-8

Text as bytes and back.  Bytes that are no UTF-8 become `U+FFFD`, one for each longest start of a
sequence that could have gone on; so does a surrogate without its partner when text is written.
-/

namespace Typeahead.Utf8

abbrev Bytes := List UInt8

/-- Stands for what cannot be read. -/
def replacement : CodeUnit := 0xFFFD

/-- A character that has begun: its value so far, how many bytes it lacks, and the range of the next. -/
structure Started where
  payload : Nat
  more : Nat
  low : UInt8
  high : UInt8

/-- What one byte gives when no character has begun. -/
def first (b : UInt8) : Text × Option Started :=
  if b < 0x80 then ([b.toUInt16], none)
  else if b < 0xC2 then ([replacement], none)
  else if b < 0xE0 then ([], some ⟨b.toNat - 0xC0, 1, 0x80, 0xBF⟩)
  else if b < 0xF0 then
    ([], some ⟨b.toNat - 0xE0, 2, if b == 0xE0 then 0xA0 else 0x80, if b == 0xED then 0x9F else 0xBF⟩)
  else if b < 0xF5 then
    ([], some ⟨b.toNat - 0xF0, 3, if b == 0xF0 then 0x90 else 0x80, if b == 0xF4 then 0x8F else 0xBF⟩)
  else ([replacement], none)

def decodeFrom : Option Started → Bytes → Text
  | none, [] => []
  | some _, [] => [replacement]
  | none, b :: rest =>
    let (done, started) := first b
    done ++ decodeFrom started rest
  | some s, b :: rest =>
    if s.low ≤ b && b ≤ s.high then
      let payload := s.payload * 64 + (b.toNat - 0x80)
      if s.more ≤ 1 then Text.ofCodePoint payload ++ decodeFrom none rest
      else decodeFrom (some ⟨payload, s.more - 1, 0x80, 0xBF⟩) rest
    else
      let (done, started) := first b
      replacement :: done ++ decodeFrom started rest

def decode (bytes : Bytes) : Text := decodeFrom none bytes

def encodeCodePoint (n : Nat) : Bytes :=
  if n < 0x80 then [n.toUInt8]
  else if n < 0x800 then [(0xC0 + n / 64).toUInt8, (0x80 + n % 64).toUInt8]
  else if 0xD800 ≤ n && n < 0xE000 then [0xEF, 0xBF, 0xBD]
  else if n < 0x10000 then
    [(0xE0 + n / 4096).toUInt8, (0x80 + n / 64 % 64).toUInt8, (0x80 + n % 64).toUInt8]
  else
    [(0xF0 + n / 262144).toUInt8, (0x80 + n / 4096 % 64).toUInt8, (0x80 + n / 64 % 64).toUInt8,
      (0x80 + n % 64).toUInt8]

def encode (t : Text) : Bytes := t.codePoints.flatMap fun c => encodeCodePoint (Text.codePointValue c)

end Typeahead.Utf8
