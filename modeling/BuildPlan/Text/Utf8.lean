import BuildPlan.Text.Basic

/-!
# UTF-8

File contents are bytes. Reading a file as text asks for valid UTF-8; showing a file that may
hold anything replaces each maximal piece of an ill-formed sequence by U+FFFD.
-/

namespace BuildPlan.Utf8

/-- The bytes of a text. -/
def encode (t : Text) : ByteArray := (String.ofList t).toUTF8

/-- The number of bytes of a text. -/
def byteCount : Text → Nat
  | [] => 0
  | c :: cs => c.utf8Size + byteCount cs

/-- The text that the bytes spell, if they are valid UTF-8. -/
def decode? (bytes : ByteArray) : Option Text := (String.fromUTF8? bytes).map String.toList

/-! ## Reading what may be ill-formed -/

/-- The bytes that may continue a sequence, given by their least and greatest value. -/
structure Continuation where
  least : UInt8
  greatest : UInt8

/-- Any continuation byte. -/
def Continuation.any : Continuation := ⟨0x80, 0xBF⟩

/-- The byte may stand here. -/
def Continuation.accepts (k : Continuation) (b : UInt8) : Bool := k.least ≤ b && b ≤ k.greatest

/-- What a leading byte announces: the bits it contributes and the bytes that must follow. The
second byte is restricted so that overlong forms, surrogates and values past U+10FFFF are out. -/
def leading (b : UInt8) : Option (Nat × List Continuation) :=
  let n := b.toNat
  if n < 0x80 then some (n, [])
  else if 0xC2 ≤ n && n ≤ 0xDF then some (n - 0xC0, [.any])
  else if n == 0xE0 then some (0, [⟨0xA0, 0xBF⟩, .any])
  else if n == 0xED then some (0xD, [⟨0x80, 0x9F⟩, .any])
  else if 0xE1 ≤ n && n ≤ 0xEF then some (n - 0xE0, [.any, .any])
  else if n == 0xF0 then some (0, [⟨0x90, 0xBF⟩, .any, .any])
  else if 0xF1 ≤ n && n ≤ 0xF3 then some (n - 0xF0, [.any, .any, .any])
  else if n == 0xF4 then some (4, [⟨0x80, 0x8F⟩, .any, .any])
  else none

/-- Read the bytes that must follow. The answer is the code point, or nothing if a byte is missing
or not accepted, with the number of bytes that fitted. -/
def follow (value count : Nat) : List Continuation → List UInt8 → Option Nat × Nat
  | [], _ => (some value, count)
  | _ :: _, [] => (none, count)
  | k :: ks, b :: bs =>
    if k.accepts b then follow (value * 0x40 + (b.toNat - 0x80)) (count + 1) ks bs
    else (none, count)

/-- Decode bytes, skipping the next `skip` of them, which belong to a sequence already read. -/
def decodeFrom : Nat → List UInt8 → Text
  | _, [] => []
  | skip + 1, _ :: bs => decodeFrom skip bs
  | 0, b :: bs =>
    match leading b with
    | none => '�' :: decodeFrom 0 bs
    | some (bits, continuations) =>
      match follow bits 0 continuations bs with
      | (some n, count) => Char.ofNat n :: decodeFrom count bs
      | (none, count) => '�' :: decodeFrom count bs

/-- The text of some bytes, each maximal ill-formed piece read as U+FFFD. -/
def decodeLossy (bytes : ByteArray) : Text := decodeFrom 0 bytes.toList

end BuildPlan.Utf8
