import VariableOrder.Text.Encoding

/-!
# Reading a file in blocks

The text of a file is handed on in blocks of 4096 characters, and its bytes are decoded in chunks of
at least 8192, whenever the text that is decoded already does not fill the next block. So a fault in
the bytes is met with the first block that needs its chunk, and its position counts from the start
of that chunk, together with the bytes that were left over before. Line ends are unified on the way:
a carriage return, alone or before a line feed, counts as one line feed.
-/

set_option autoImplicit false

namespace VariableOrder.Text

/-- The count of characters in a block. -/
def blockSize : Nat := 4096

/-- The least count of bytes in a chunk, unless the file ends in it. -/
def chunkSize : Nat := 8192

/-- A file on the way to text: the bytes to come, the bytes left over from the last chunk, whether a
carriage return at its end is held back, the text that is decoded but not handed on, and the counts
of bytes and characters of the last chunk. -/
structure Decoding where
  bytes : List UInt8
  leftOver : List UInt8
  holdsReturn : Bool
  text : List Char
  lastBytes : Nat
  lastChars : Nat

namespace Decoding

/-- The start of a file. -/
def ofBytes (bytes : List UInt8) : Decoding :=
  { bytes := bytes, leftOver := [], holdsReturn := false, text := [], lastBytes := 0
    lastChars := 0 }

/-- Unifies line ends to line feeds. -/
def unifyLineEnds : List Char → List Char
  | [] => []
  | '\r' :: '\n' :: rest => '\n' :: unifyLineEnds rest
  | c :: rest => (if c = '\r' then '\n' else c) :: unifyLineEnds rest

/-- Decoded characters with the carriage return that was held back in front of them. -/
def withHeld (holdsReturn isLast : Bool) (cs : List Char) : List Char :=
  if holdsReturn && (isLast || !cs.isEmpty) then '\r' :: cs else cs

/-- The size of the next chunk: what the characters still wanted for the block are likely to need,
judging by the last chunk. -/
def nextSize (r : Decoding) (wanted : Nat) : Nat :=
  max chunkSize (if r.lastChars = 0 then wanted else r.lastBytes * wanted / r.lastChars)

/-- Decodes the next chunk for a block that wants more characters. The flag says that nothing more
will come. -/
def readChunk (r : Decoding) (wanted : Nat) : Except DecodeFault (Decoding × Bool) := do
  let size := r.nextSize wanted
  let chunk := r.bytes.take size
  let isLast := chunk.isEmpty
  let decoded ← decodePart isLast (r.leftOver ++ chunk)
  let chars := withHeld r.holdsReturn isLast decoded.text
  let holds :=
    !isLast && (chars.getLast? = some '\r' || (r.holdsReturn && decoded.text.isEmpty))
  let ready := unifyLineEnds (if chars.getLast? = some '\r' && holds then chars.dropLast else chars)
  return ({ bytes := r.bytes.drop size, leftOver := decoded.rest, holdsReturn := holds
            text := r.text ++ ready, lastBytes := chunk.length, lastChars := ready.length },
    isLast && ready.isEmpty)

/-- Decodes chunks until a block is full or the file has ended. -/
def fill : Nat → Decoding → Except DecodeFault Decoding
  | 0, r => .ok r
  | fuel + 1, r => do
    let wanted := blockSize - r.text.length
    if wanted = 0 then return r
    else
      let (r, isEnd) ← r.readChunk wanted
      if isEnd then return r else fill fuel r

/-- The next block, which is empty at the end of the file. -/
def readBlock (r : Decoding) : Except DecodeFault (List Char × Decoding) := do
  let r ← r.fill (r.bytes.length + 3)
  return (r.text.take blockSize, { r with text := r.text.drop blockSize })

end Decoding

end VariableOrder.Text
