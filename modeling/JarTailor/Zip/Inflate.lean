/-!
# Compressed content

Reads the DEFLATE format: blocks that are stored as they are or coded with two Huffman codes, one
for bytes and lengths and one for distances. Positions count bits; the lowest bit of a byte comes
first.
-/

namespace JarTailor.Zip

/-- Reads from compressed content at a position. -/
abbrev Inflate := ReaderT ByteArray (StateT Nat Option)

namespace Inflate

def bit : Inflate Nat := do
  let position ← get
  match (← read)[position / 8]? with
  | none => failure
  | some byte =>
      set (position + 1)
      return (byte.toNat >>> (position % 8)) % 2

/-- A number of so many bits, the lowest first. -/
def bits : Nat → Inflate Nat
  | 0 => return 0
  | count + 1 => do
      let low ← bit
      let high ← bits count
      return low + 2 * high

/-- A Huffman code: how many symbols have each length, from one bit on, and the symbols in the
order of their codes. -/
structure Code where
  counts : List Nat
  symbols : Array Nat

/-- The code in which each symbol has the given length; those of length zero have no code. -/
def Code.ofLengths (lengths : List Nat) : Code :=
  let ofLength (length : Nat) :=
    lengths.zipIdx.filterMap fun (own, symbol) => if own = length then some symbol else none
  let groups := (List.range 15).map fun length => ofLength (length + 1)
  ⟨groups.map List.length, groups.flatten.toArray⟩

/-- Reads a symbol bit by bit. Of the codes of the current length, the first is `first` and its
symbol is at `index`. -/
def symbolFrom (symbols : Array Nat) : List Nat → Nat → Nat → Nat → Inflate Nat
  | [], _, _, _ => failure
  | count :: counts, code, first, index => do
      let code := code + (← bit)
      if code < first + count then
        match symbols[index + (code - first)]? with
        | some symbol => return symbol
        | none => failure
      else symbolFrom symbols counts (2 * code) (2 * (first + count)) (index + count)

def symbol (code : Code) : Inflate Nat :=
  symbolFrom code.symbols code.counts 0 0 0

/-- Repeats earlier output, a byte at a time so that it may overlap what it produces. -/
def copy (distance : Nat) : Nat → ByteArray → Inflate ByteArray
  | 0, out => return out
  | count + 1, out =>
      match out[out.size - distance]? with
      | some byte => copy distance count (out.push byte)
      | none => failure

/-- The base and the number of further bits for each length symbol. -/
def lengthBases : Array (Nat × Nat) :=
  #[(3, 0), (4, 0), (5, 0), (6, 0), (7, 0), (8, 0), (9, 0), (10, 0), (11, 1), (13, 1), (15, 1),
    (17, 1), (19, 2), (23, 2), (27, 2), (31, 2), (35, 3), (43, 3), (51, 3), (59, 3), (67, 4),
    (83, 4), (99, 4), (115, 4), (131, 5), (163, 5), (195, 5), (227, 5), (258, 0)]

/-- The base and the number of further bits for each distance symbol. -/
def distanceBases : Array (Nat × Nat) :=
  #[(1, 0), (2, 0), (3, 0), (4, 0), (5, 1), (7, 1), (9, 2), (13, 2), (17, 3), (25, 3), (33, 4),
    (49, 4), (65, 5), (97, 5), (129, 6), (193, 6), (257, 7), (385, 7), (513, 8), (769, 8),
    (1025, 9), (1537, 9), (2049, 10), (3073, 10), (4097, 11), (6145, 11), (8193, 12), (12289, 12),
    (16385, 13), (24577, 13)]

def extended (bases : Array (Nat × Nat)) (symbol : Nat) : Inflate Nat := do
  match bases[symbol]? with
  | some (base, extra) => return base + (← bits extra)
  | none => failure

/-- The rest of a coded block. Every symbol takes a bit at least, which bounds their number. -/
def coded (literals distances : Code) : Nat → ByteArray → Inflate ByteArray
  | 0, _ => failure
  | fuel + 1, out => do
      let found ← symbol literals
      if found < 256 then coded literals distances fuel (out.push (UInt8.ofNat found))
      else if found = 256 then return out
      else
        let length ← extended lengthBases (found - 257)
        let distance ← extended distanceBases (← symbol distances)
        if distance > out.size then failure
        coded literals distances fuel (← copy distance length out)

def storedBytes : Nat → ByteArray → Inflate ByteArray
  | 0, out => return out
  | count + 1, out => do
      let byte ← bits 8
      storedBytes count (out.push (UInt8.ofNat byte))

/-- A stored block, which begins at the next whole byte with its length and the complement. -/
def stored (out : ByteArray) : Inflate ByteArray := do
  modify fun position => (position + 7) / 8 * 8
  let length ← bits 16
  let complement ← bits 16
  if length + complement ≠ 0xffff then failure
  storedBytes length out

def fixedLiterals : Code :=
  .ofLengths (List.replicate 144 8 ++ List.replicate 112 9 ++ List.replicate 24 7 ++
    List.replicate 8 8)

def fixedDistances : Code :=
  .ofLengths (List.replicate 30 5)

/-- The order in which the lengths of the code for code lengths are given. -/
def lengthOrder : List Nat :=
  [16, 17, 18, 0, 8, 7, 9, 6, 10, 5, 11, 4, 12, 3, 13, 2, 14, 1, 15]

/-- Code lengths, so many in all, some of them as repeats; the latest is first. -/
def codeLengths (code : Code) (total : Nat) : Nat → List Nat → Inflate (List Nat)
  | 0, _ => failure
  | fuel + 1, known => do
      if known.length = total then return known
      let found ← symbol code
      let (length, count) ← match found, known with
        | 16, length :: _ => do pure (length, 3 + (← bits 2))
        | 16, [] => failure
        | 17, _ => do pure (0, 3 + (← bits 3))
        | 18, _ => do pure (0, 11 + (← bits 7))
        | length, _ => pure (length, 1)
      if known.length + count > total then failure
      codeLengths code total fuel (List.replicate count length ++ known)

/-- The two codes that a block brings along. -/
def ownCodes : Inflate (Code × Code) := do
  let literalCount := 257 + (← bits 5)
  let distanceCount := 1 + (← bits 5)
  let given ← (List.range (4 + (← bits 4))).mapM fun _ => bits 3
  let pairs := lengthOrder.zip given
  let code := Code.ofLengths ((List.range 19).map fun symbol => (pairs.lookup symbol).getD 0)
  let total := literalCount + distanceCount
  let lengths := (← codeLengths code total (total + 1) []).reverse
  return (.ofLengths (lengths.take literalCount), .ofLengths (lengths.drop literalCount))

def blocks : Nat → ByteArray → Inflate ByteArray
  | 0, _ => failure
  | fuel + 1, out => do
      let last ← bit
      let out ← match ← bits 2 with
        | 0 => stored out
        | 1 => do coded fixedLiterals fixedDistances (8 * (← read).size + 1) out
        | 2 => do
            let (literals, distances) ← ownCodes
            coded literals distances (8 * (← read).size + 1) out
        | _ => failure
      if last = 1 then return out else blocks fuel out

end Inflate

def inflate (content : ByteArray) : Option ByteArray :=
  (Inflate.blocks (8 * content.size + 1) ByteArray.empty content 0).map Prod.fst

end JarTailor.Zip
