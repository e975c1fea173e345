import Jarsmith.Deflate.Code

/-!
# Deflate streams

A stream is a sequence of blocks: stored bytes, or symbols in a prefix code that is fixed or stands
at the beginning of the block. A symbol is a byte, the end of the block, or the length of a match,
after which comes the distance from which it is copied.

`inflate` gives the bytes of a stream. A stream that ends early gives the bytes up to there and is
told to be incomplete; one that breaks a rule gives none.
-/

namespace Jarsmith.Deflate

/-- How a stream goes on. -/
inductive Flow where
  /-- The block is over; the stream goes on with the given bits after the given bytes. -/
  | next (rest : BitReader) (output : Array UInt8)
  /-- There are no more bits. -/
  | exhausted (output : Array UInt8)
  /-- A rule is broken. -/
  | invalid

/-- The least length of each length symbol from 257 on, and its number of extra bits. -/
def lengthTable : Array (Nat × Nat) :=
  #[(3, 0), (4, 0), (5, 0), (6, 0), (7, 0), (8, 0), (9, 0), (10, 0), (11, 1), (13, 1), (15, 1),
    (17, 1), (19, 2), (23, 2), (27, 2), (31, 2), (35, 3), (43, 3), (51, 3), (59, 3), (67, 4),
    (83, 4), (99, 4), (115, 4), (131, 5), (163, 5), (195, 5), (227, 5), (258, 0)]

/-- The least distance of each distance symbol, and its number of extra bits. -/
def distanceTable : Array (Nat × Nat) :=
  #[(1, 0), (2, 0), (3, 0), (4, 0), (5, 1), (7, 1), (9, 2), (13, 2), (17, 3), (25, 3), (33, 4),
    (49, 4), (65, 5), (97, 5), (129, 6), (193, 6), (257, 7), (385, 7), (513, 8), (769, 8),
    (1025, 9), (1537, 9), (2049, 10), (3073, 10), (4097, 11), (6145, 11), (8193, 12), (12289, 12),
    (16385, 13), (24577, 13)]

/-- The order in which the lengths of the code for code lengths are written. -/
def lengthOrder : List Nat := [16, 17, 18, 0, 8, 7, 9, 6, 10, 5, 11, 4, 12, 3, 13, 2, 14, 1, 15]

/-- The lengths of the fixed code of bytes and lengths. -/
def fixedLengthBits : List Nat :=
  List.replicate 144 8 ++ List.replicate 112 9 ++ List.replicate 24 7 ++ List.replicate 8 8

/-- The lengths of the fixed code of distances. -/
def fixedDistanceBits : List Nat := List.replicate 32 5

/-- The fixed code of bytes and lengths. -/
def fixedLengths : Code := .ofLengths fixedLengthBits

/-- The fixed code of distances. -/
def fixedDistances : Code := .ofLengths fixedDistanceBits

/-- Copies `length` bytes from `distance` back, one after another, so that a match may overlap
itself. -/
def copyMatch : (length : Nat) → (distance : Nat) → Array UInt8 → Array UInt8
  | 0, _, output => output
  | length + 1, distance, output =>
    copyMatch length distance (output.push (output.getD (output.size - distance) 0))

/-- The number that a symbol stands for in a table: the least one plus the extra bits. -/
def extended? (entry : Nat × Nat) (r : BitReader) : Option (Nat × BitReader) :=
  (r.bits? entry.2).map fun (extra, r) => (entry.1 + extra, r)

/-- The symbols of a block, up to its end. -/
def symbols (lengths distances : Code) : (fuel : Nat) → BitReader → Array UInt8 → Flow
  | 0, _, output => .exhausted output
  | fuel + 1, r, output =>
    match lengths.decode r with
    | .exhausted => .exhausted output
    | .invalid => .invalid
    | .symbol s r =>
      if s < 256 then symbols lengths distances fuel r (output.push s.toUInt8)
      else if s = 256 then .next r output
      else match lengthTable[s - 257]? with
        | none => .invalid
        | some entry => match extended? entry r with
          | none => .exhausted output
          | some (length, r) => match distances.decode r with
            | .exhausted => .exhausted output
            | .invalid => .invalid
            | .symbol d r => match distanceTable[d]? with
              | none => .invalid
              | some entry => match extended? entry r with
                | none => .exhausted output
                | some (distance, r) =>
                  if output.size < distance then .invalid
                  else symbols lengths distances fuel r (copyMatch length distance output)

/-- A stored block: its length, the length inverted, and its bytes. -/
def stored (r : BitReader) (output : Array UInt8) : Flow :=
  match r.toBytes with
  | a :: b :: c :: d :: rest =>
    let length := Bytes.little [a, b]
    if Bytes.little [c, d] + length ≠ 0xFFFF then .invalid
    else
      let taken := rest.take length
      let output := output ++ taken.toArray
      if taken.length < length then .exhausted output
      else .next (.ofBytes (rest.drop length)) output
  | _ => .exhausted output

/-- What reading the codes of a block comes to. -/
inductive Header (α : Type) where
  | read (value : α) (rest : BitReader)
  | exhausted
  | invalid

/-- The lengths of the code for code lengths: three bits for each, in the order `order`. -/
def smallLengths : (order : List Nat) → BitReader → List (Nat × Nat) →
    Header (List (Nat × Nat))
  | [], r, found => .read found r
  | symbol :: order, r, found =>
    match r.bits? 3 with
    | none => .exhausted
    | some (length, r) => smallLengths order r ((symbol, length) :: found)

/-- The lengths of the two codes of a block, `total` of them: a symbol up to 15 is a length, and
the others repeat the length before, or zero. The lengths found so far are given last first. -/
def codeLengths (code : Code) (total : Nat) : (fuel : Nat) → BitReader → List Nat →
    Header (List Nat)
  | 0, _, _ => .exhausted
  | fuel + 1, r, found =>
    if found.length = total then .read found.reverse r
    else
      let repeated (value least extraBits : Nat) (r : BitReader) : Header (List Nat) :=
        match r.bits? extraBits with
        | none => .exhausted
        | some (extra, r) =>
          if found.length + (least + extra) ≤ total then
            codeLengths code total fuel r (List.replicate (least + extra) value ++ found)
          else .invalid
      if code.counts.isEmpty then
        match r.bit? with
        | none => .exhausted
        | some (_, r) => codeLengths code total fuel r (0 :: found)
      else match code.decode r with
        | .exhausted => .exhausted
        | .invalid => .invalid
        | .symbol s r =>
          if s < 16 then codeLengths code total fuel r (s :: found)
          else if s = 16 then
            match found with
            | [] => if (r.bits? 2).isSome then .invalid else .exhausted
            | last :: _ => repeated last 3 2 r
          else if s = 17 then repeated 0 3 3 r
          else repeated 0 11 7 r

/-- The two codes at the beginning of a block. -/
def blockCodes (r : BitReader) : Header (Code × Code) :=
  match r.bits? 14 with
  | none => .exhausted
  | some (sizes, r) =>
    let lengthCount := sizes % 32 + 257
    let distanceCount := sizes / 32 % 32 + 1
    let smallCount := sizes / 1024 + 4
    if lengthCount > 286 ∨ distanceCount > 30 then .invalid
    else match smallLengths (lengthOrder.take smallCount) r [] with
      | .exhausted => .exhausted
      | .invalid => .invalid
      | .read found r =>
        let small := Code.ofLengths ((List.range 19).map fun s => (found.lookup s).getD 0)
        if !small.isUsable false then .invalid
        else match codeLengths small (lengthCount + distanceCount) (r.size + 1) r [] with
          | .exhausted => .exhausted
          | .invalid => .invalid
          | .read all r =>
            let lengths := Code.ofLengths (all.take lengthCount)
            let distances := Code.ofLengths (all.drop lengthCount)
            if all[256]? = some 0 then .invalid
            else if lengths.isUsable true && distances.isUsable true then
              .read (lengths, distances) r
            else .invalid

/-- One block, after the bit that tells whether it is the last one. -/
def block (r : BitReader) (output : Array UInt8) : Flow :=
  match r.bits? 2 with
  | none => .exhausted output
  | some (kind, r) =>
    if kind = 0 then stored r output
    else if kind = 1 then symbols fixedLengths fixedDistances (r.size + 1) r output
    else if kind = 2 then
      match blockCodes r with
      | .exhausted => .exhausted output
      | .invalid => .invalid
      | .read (lengths, distances) r => symbols lengths distances (r.size + 1) r output
    else .invalid

/-- What a stream comes to. -/
structure Inflated where
  /-- The bytes, as far as the stream goes. -/
  bytes : Bytes
  /-- The last block is there, up to its end. -/
  isComplete : Bool
  deriving DecidableEq, Repr

/-- Blocks up to the last one. -/
def blocks : (fuel : Nat) → BitReader → Array UInt8 → Option Inflated
  | 0, _, output => some ⟨output.toList, false⟩
  | fuel + 1, r, output =>
    match r.bit? with
    | none => some ⟨output.toList, false⟩
    | some (last, r) =>
      match block r output with
      | .exhausted output => some ⟨output.toList, false⟩
      | .invalid => none
      | .next r output =>
        if last = 1 then some ⟨output.toList, true⟩ else blocks fuel r output

/-- What a stream comes to; `none` if it breaks a rule. -/
def inflate (stream : Bytes) : Option Inflated :=
  let r := BitReader.ofBytes stream
  blocks (r.size + 1) r #[]

end Jarsmith.Deflate
