import VariableOrder.Document.Fault
import VariableOrder.Text.Blocks

/-!
# The text of a document

A document is read block by block. The text ends where the file ends, or where a block can not be
read: its bytes are no text, or it holds a character that no document may hold. Such a tear is a
fault only if reading gets that far. The first two blocks are always read, and looked at together.
-/

set_option autoImplicit false

namespace VariableOrder.Document

/-- Characters that a document may hold. -/
def isAllowed (c : Char) : Bool :=
  let n := c.toNat
  n = 9 || n = 10 || n = 13 || (0x20 ≤ n && n ≤ 0x7E) || n = 0x85 || (0xA0 ≤ n && n ≤ 0xD7FF)
    || (0xE000 ≤ n && n ≤ 0xFFFD) || 0x10000 ≤ n

/-- The characters that can be read, and what is met behind them, unless the file ends there. -/
structure SourceText where
  chars : List Char
  tear : Option Fault

namespace SourceText

/-- The text of a file whose blocks up to here are given latest first. -/
def torn (blocks : List (List Char)) (tear : Option Fault) : SourceText :=
  ⟨blocks.reverse.flatten, tear⟩

/-- The next block, if all its characters are allowed. -/
def nextBlock (r : Text.Decoding) : Except Fault (List Char × Text.Decoding) :=
  match r.readBlock with
  | .error f => .error (.undecodable f)
  | .ok (block, r) => if block.all isAllowed then .ok (block, r) else .error .malformed

/-- Reads blocks to the end. -/
def collect : Nat → Text.Decoding → List (List Char) → SourceText
  | 0, _, blocks => torn blocks none
  | fuel + 1, r, blocks =>
    match nextBlock r with
    | .error f => torn blocks (some f)
    | .ok ([], _) => torn blocks none
    | .ok (block, r) => collect fuel r (block :: blocks)

/-- The first two blocks. -/
def firstBlocks (r : Text.Decoding) : Except Fault (List Char × Text.Decoding) := do
  let (first, r) ← r.readBlock.mapError .undecodable
  let (second, r) ← r.readBlock.mapError .undecodable
  if (first ++ second).all isAllowed then return (first ++ second, r) else throw .malformed

/-- The text of a file. -/
def ofBytes (bytes : List UInt8) : SourceText :=
  match firstBlocks (.ofBytes bytes) with
  | .error f => ⟨[], some f⟩
  | .ok (start, r) => collect (bytes.length + 1) r [start]

end SourceText

end VariableOrder.Document
