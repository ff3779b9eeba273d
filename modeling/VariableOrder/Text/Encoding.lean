import VariableOrder.Text.Quoted

/-!
# Bytes and text

Files hold UTF-8. Decoding either yields the text or names the first bytes that are not
part of any character, where they stand, and why. A character that is cut off by the end
of the bytes is a fault only when no more bytes follow; until then its bytes are left over.
-/

set_option autoImplicit false

namespace VariableOrder.Text

/-- Why bytes do not form a character. -/
inductive DecodeReason where
  | startByte
  | continuationByte
  | endOfData
  deriving DecidableEq, Repr

/-- The wording of a reason. -/
def DecodeReason.text : DecodeReason → String
  | .startByte => "invalid start byte"
  | .continuationByte => "invalid continuation byte"
  | .endOfData => "unexpected end of data"

/-- The first fault of some bytes: the position and count of the faulty bytes, the first of
them, and the reason. -/
structure DecodeFault where
  first : UInt8
  position : Nat
  count : Nat
  reason : DecodeReason
  deriving DecidableEq, Repr

/-- The message of a fault names a single byte by its value, several by their positions. -/
def DecodeFault.message (f : DecodeFault) : String :=
  if f.count = 1 then
    "'utf-8' codec can't decode byte 0x" ++ String.ofList (lowerHex 2 f.first.toNat)
      ++ " in position " ++ toString f.position ++ ": " ++ f.reason.text
  else
    "'utf-8' codec can't decode bytes in position " ++ toString f.position ++ "-"
      ++ toString (f.position + f.count - 1) ++ ": " ++ f.reason.text

/-- Bytes that may follow the first byte of a character. -/
def isContinuation (b : UInt8) : Bool :=
  0x80 ≤ b && b < 0xC0

/-- Bytes that may come second after the given first byte: overlong forms, surrogates and
numbers beyond the last code point are shut out here. -/
def isSecond (lead b : UInt8) : Bool :=
  isContinuation b
    && (lead != 0xE0 || 0xA0 ≤ b) && (lead != 0xED || b < 0xA0)
    && (lead != 0xF0 || 0x90 ≤ b) && (lead != 0xF4 || b < 0x90)

/-- The count of bytes of a character with the given first byte; zero when none starts so. -/
def sequenceLength (lead : UInt8) : Nat :=
  if lead < 0x80 then 1
  else if lead < 0xC2 then 0
  else if lead < 0xE0 then 2
  else if lead < 0xF0 then 3
  else if lead < 0xF5 then 4
  else 0

/-- The value bits of a continuation byte. -/
def lowBits (b : UInt8) : Nat :=
  b.toNat % 64

/-- How many of the following bytes fit a character of `need` further bytes. -/
def fitting (lead : UInt8) (need : Nat) : List UInt8 → Nat
  | [] => 0
  | b :: rest =>
    if need = 0 || !isSecond lead b then 0
    else 1 + ((rest.take (need - 1)).takeWhile isContinuation).length

/-- Decoded text, and the bytes of a cut off character that are left over at the end. -/
structure Decoded where
  text : List Char
  rest : List UInt8
  deriving DecidableEq, Repr

/-- Whether bytes that end too early may be a character that is cut off: all that is there fits, or
the last two bytes begin a surrogate, which is refused only once its third byte is due. -/
def isCutOff (lead : UInt8) (found : Nat) (rest : List UInt8) : Bool :=
  (rest.drop found).isEmpty || (lead == 0xED && (rest.map isContinuation == [true]))

/-- Decodes bytes from a position on; the budget is the count of bytes left. The flag says that no
more bytes follow. -/
def decodeFrom (isLast : Bool) :
    Nat → Nat → List UInt8 → List Char → Except DecodeFault Decoded
  | _, _, [], done => .ok ⟨done.reverse, []⟩
  | 0, _, rest, done => .ok ⟨done.reverse, rest⟩
  | budget + 1, position, lead :: rest, done =>
    let length := sequenceLength lead
    if length = 0 then .error ⟨lead, position, 1, .startByte⟩
    else if length = 1 then
      decodeFrom isLast budget (position + 1) rest (Char.ofNat lead.toNat :: done)
    else
      let need := length - 1
      let found := fitting lead need rest
      if found = need then
        let top := lead.toNat % Nat.pow 2 (7 - length)
        let code := (rest.take need).foldl (fun n b => n * 64 + lowBits b) top
        decodeFrom isLast budget (position + length) (rest.drop need) (Char.ofNat code :: done)
      else if !isLast && isCutOff lead found rest then .ok ⟨done.reverse, lead :: rest⟩
      else
        let reason := if (rest.drop found).isEmpty then .endOfData else .continuationByte
        .error ⟨lead, position, found + 1, reason⟩

/-- Decodes a part of some bytes. -/
def decodePart (isLast : Bool) (bytes : List UInt8) : Except DecodeFault Decoded :=
  decodeFrom isLast bytes.length 0 bytes []

/-- Decodes UTF-8. -/
def decodeUtf8 (bytes : List UInt8) : Except DecodeFault (List Char) :=
  (decodePart true bytes).map Decoded.text

/-- The bytes of a character whose code point is given. -/
def encodeCode (n : Nat) : List UInt8 :=
  if n < 0x80 then [UInt8.ofNat n]
  else if n < 0x800 then [UInt8.ofNat (0xC0 + n / 64), UInt8.ofNat (0x80 + n % 64)]
  else if n < 0x10000 then
    [UInt8.ofNat (0xE0 + n / 4096), UInt8.ofNat (0x80 + n / 64 % 64), UInt8.ofNat (0x80 + n % 64)]
  else
    [UInt8.ofNat (0xF0 + n / 262144), UInt8.ofNat (0x80 + n / 4096 % 64),
      UInt8.ofNat (0x80 + n / 64 % 64), UInt8.ofNat (0x80 + n % 64)]

/-- Encodes text as UTF-8. -/
def encodeUtf8 (cs : List Char) : List UInt8 :=
  cs.flatMap fun c => encodeCode c.toNat

end VariableOrder.Text
