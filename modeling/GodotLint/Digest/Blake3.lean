/-!
# BLAKE3

The hash function BLAKE3 over a list of bytes. The input is cut into chunks of 1024 bytes and these
into blocks of 64. A chunk folds its blocks into a chaining value; chaining values are joined in a
binary tree whose left half holds as many chunks as the largest power of two allows.
-/

namespace GodotLint.Blake3

/-! ## The compression function -/

/-- The state of eight words that a hash starts from. -/
def initialState : List UInt32 :=
  [0x6A09E667, 0xBB67AE85, 0x3C6EF372, 0xA54FF53A, 0x510E527F, 0x9B05688C, 0x1F83D9AB, 0x5BE0CD19]

/-- Where the words of a message come from in the next round. -/
def permutation : List Nat := [2, 6, 3, 10, 7, 0, 4, 13, 1, 11, 12, 5, 9, 14, 15, 8]

/-- A word rotated to the right. -/
def rotateRight (x : UInt32) (n : UInt32) : UInt32 := (x >>> n) ||| (x <<< (32 - n))

/-- Mixes four words of the state and two words of the message. -/
def mix (v : Array UInt32) (a b c d : Nat) (x y : UInt32) : Array UInt32 :=
  let va := v.getD a 0
  let vb := v.getD b 0
  let vc := v.getD c 0
  let vd := v.getD d 0
  let va := va + vb + x
  let vd := rotateRight (vd ^^^ va) 16
  let vc := vc + vd
  let vb := rotateRight (vb ^^^ vc) 12
  let va := va + vb + y
  let vd := rotateRight (vd ^^^ va) 8
  let vc := vc + vd
  let vb := rotateRight (vb ^^^ vc) 7
  (((v.setIfInBounds a va).setIfInBounds b vb).setIfInBounds c vc).setIfInBounds d vd

/-- The four words that each mixing step works on: the columns, then the diagonals. -/
def mixingSteps : List (Nat × Nat × Nat × Nat) :=
  [(0, 4, 8, 12), (1, 5, 9, 13), (2, 6, 10, 14), (3, 7, 11, 15),
    (0, 5, 10, 15), (1, 6, 11, 12), (2, 7, 8, 13), (3, 4, 9, 14)]

/-- One round. -/
def round (v : Array UInt32) (message : Array UInt32) : Array UInt32 :=
  (mixingSteps.zipIdx).foldl (fun v ((a, b, c, d), i) =>
    mix v a b c d (message.getD (2 * i) 0) (message.getD (2 * i + 1) 0)) v

/-- The message of the next round. -/
def permute (message : Array UInt32) : Array UInt32 :=
  (permutation.map fun i => message.getD i 0).toArray

/-- Some rounds, the message permuted between them. -/
def rounds : (count : Nat) → (v message : Array UInt32) → Array UInt32
  | 0, v, _ => v
  | count + 1, v, message => rounds count (round v message) (permute message)

/-- One use of the compression function. -/
structure Compression where
  /-- The chaining value that it starts from. -/
  chaining : List UInt32
  message : List UInt32
  /-- The index of the chunk. -/
  counter : Nat
  /-- Bytes of the block. -/
  length : Nat
  flags : UInt32

/-- The eight words that a compression gives. -/
def Compression.output (c : Compression) : List UInt32 :=
  let start := c.chaining ++ initialState.take 4 ++
    [UInt32.ofNat c.counter, UInt32.ofNat (c.counter / Nat.pow 2 32), UInt32.ofNat c.length,
      c.flags]
  let v := rounds 7 start.toArray c.message.toArray
  (List.range 8).map fun i => v.getD i 0 ^^^ v.getD (i + 8) 0

/-! ## Flags -/

/-- The first block of a chunk. -/
def chunkStart : UInt32 := 1
/-- The last block of a chunk. -/
def chunkEnd : UInt32 := 2
/-- A joint of two halves. -/
def parent : UInt32 := 4
/-- The last compression of all. -/
def root : UInt32 := 8

/-! ## Blocks and chunks -/

/-- The number whose bytes are given, the lowest first. -/
def littleEndian (bytes : List UInt8) : UInt32 :=
  bytes.foldr (fun b n => n * 256 + UInt32.ofNat b.toNat) 0

/-- Consecutive pieces of at most `size` elements; a list without elements is one piece. -/
def pieces (size : Nat) : (count : Nat) → List α → List (List α)
  | 0, xs => [xs]
  | count + 1, xs =>
    if xs.length ≤ size then [xs] else xs.take size :: pieces size count (xs.drop size)

/-- The sixteen words of a block, zeros after its last byte. -/
def wordsOf (block : List UInt8) : List UInt32 :=
  (List.range 16).map fun i => littleEndian ((block.drop (4 * i)).take 4)

/-- The last compression of a chunk, from the blocks that are left of it. -/
def chunkFrom (counter : Nat) (chaining : List UInt32) (flags : UInt32) :
    List (List UInt8) → Compression
  | [] => ⟨chaining, [], counter, 0, flags ||| chunkEnd⟩
  | [block] => ⟨chaining, wordsOf block, counter, block.length, flags ||| chunkEnd⟩
  | block :: rest =>
    chunkFrom counter (Compression.output ⟨chaining, wordsOf block, counter, block.length, flags⟩)
      0 rest

/-- The last compression of a chunk. -/
def chunk (counter : Nat) (bytes : List UInt8) : Compression :=
  chunkFrom counter initialState chunkStart (pieces 64 bytes.length bytes)

/-- The largest power of two below `n`, for `n` above one. -/
def leftSize (n : Nat) : Nat := Nat.pow 2 (n - 1).log2

/-- The last compression of a tree of chunks, of which `first` is the index of the first; `depth`
bounds the height of the tree. -/
def tree : (depth : Nat) → (first : Nat) → List (List UInt8) → Compression
  | _, first, [] => chunk first []
  | _, first, [bytes] => chunk first bytes
  | 0, first, bytes :: _ => chunk first bytes
  | depth + 1, first, chunks =>
    let left := leftSize chunks.length
    let message := (tree depth first (chunks.take left)).output ++
      (tree depth (first + left) (chunks.drop left)).output
    ⟨initialState, message, 0, 64, parent⟩

/-- The eight words of the hash of some bytes. -/
def hashWords (bytes : List UInt8) : List UInt32 :=
  let chunks := pieces 1024 bytes.length bytes
  let last := tree chunks.length 0 chunks
  { last with flags := last.flags ||| root }.output

/-- Two hexadecimal digits. -/
def hexByte (n : Nat) : List Char := [Nat.digitChar (n / 16 % 16), Nat.digitChar (n % 16)]

/-- The bytes of a word in hexadecimal, the lowest first. -/
def hexWord (w : UInt32) : List Char :=
  let n := w.toNat
  hexByte n ++ hexByte (n / Nat.pow 2 8) ++ hexByte (n / Nat.pow 2 16) ++
    hexByte (n / Nat.pow 2 24)

/-- The hash of some bytes in hexadecimal. -/
def hex (bytes : List UInt8) : List Char := (hashWords bytes).flatMap hexWord

end GodotLint.Blake3
