/-!
# A hash that keeps the last word

Keys that are hashes already need no hashing: writing a word replaces the state. Bytes are folded
in one by one, each after a rotation by eight bits, so that other keys still tell apart.
-/

namespace MemberPath

/-- The state of the hash: a word of 64 bits. -/
abbrev WordHash := BitVec 64

namespace WordHash

def start : WordHash := 0

def writeWord (_ : WordHash) (word : BitVec 64) : WordHash := word

def writeByte (state : WordHash) (byte : BitVec 8) : WordHash :=
  state.rotateLeft 8 ^^^ byte.setWidth 64

/-- Folds bytes in, the first one first. -/
def writeBytes (state : WordHash) (bytes : List (BitVec 8)) : WordHash :=
  bytes.foldl writeByte state

/-- The four bytes of a number below `2 ^ 32`, the lowest first. -/
def littleEndian (n : BitVec 32) : List (BitVec 8) :=
  [n.setWidth 8, (n >>> 8).setWidth 8, (n >>> 16).setWidth 8, (n >>> 24).setWidth 8]

/-- The bytes of a text in UTF-8, and one byte 255 behind them. -/
def textBytes (s : String) : List (BitVec 8) :=
  s.toUTF8.toList.map (·.toBitVec) ++ [255]

inductive Write
  | bytes (bytes : List (BitVec 8))
  | word (word : BitVec 64)

def Write.apply (state : WordHash) : Write → WordHash
  | .bytes bs => state.writeBytes bs
  | .word w => state.writeWord w

/-- The states from the start through a list of writes. -/
def states (ws : List Write) : List WordHash :=
  ws.foldl (fun done w => done ++ [Write.apply (done.getLastD start) w]) [start]

end WordHash

end MemberPath
