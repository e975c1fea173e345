/-!
# Optimal code lengths

The lengths of the words of a prefix code that is the shortest for given weights, made by joining
the two lightest trees until one is left. Of equally light trees the flatter one goes first, and
otherwise the order of a binary heap decides. Where words would be longer than a limit, they are
shortened at the cost of others.
-/

namespace Jarsmith.Deflate

/-- A binary tree with symbols at its leaves; the word of a symbol is as long as its leaf is
deep. -/
inductive CodeTree where
  | leaf (symbol : Nat)
  | node (left right : CodeTree)
  deriving DecidableEq, Repr

namespace CodeTree

/-- The symbols, and how deep they are if the root is at `depth`. -/
def depths : CodeTree → (depth : Nat) → List (Nat × Nat)
  | leaf symbol, depth => [(symbol, depth)]
  | node left right, depth => depths left (depth + 1) ++ depths right (depth + 1)

/-- How many leaves and nodes are deeper than `limit` if the root is at `depth`. -/
def countBelow (limit : Nat) : CodeTree → (depth : Nat) → Nat
  | leaf _, depth => if limit < depth then 1 else 0
  | node left right, depth =>
    (if limit < depth then 1 else 0) + countBelow limit left (depth + 1) +
      countBelow limit right (depth + 1)

/-- The symbol of a leaf. -/
def symbols : CodeTree → List Nat
  | leaf symbol => [symbol]
  | node _ _ => []

end CodeTree

/-- A tree that is to be joined with others. -/
structure Weighed where
  weight : Nat
  /-- How many nodes are between the root and the deepest leaf. -/
  height : Nat
  tree : CodeTree

namespace Weighed

/-- The one tree may be taken before the other. -/
def isBefore (a b : Weighed) : Bool :=
  a.weight < b.weight || (a.weight == b.weight && a.height ≤ b.height)

/-- Joins two trees. -/
def join (a b : Weighed) : Weighed :=
  ⟨a.weight + b.weight, max a.height b.height + 1, .node a.tree b.tree⟩

/-- A symbol. -/
def ofSymbol (symbol weight : Nat) : Weighed := ⟨weight, 0, .leaf symbol⟩

end Weighed

/-- Trees in the order of a binary heap: each is before the two at twice its place, plus one and
plus two. -/
abbrev Heap := Array Weighed

namespace Heap

/-- Puts a tree at a place whose tree is taken away, or lower down, so that the order is kept. -/
def sink (heap : Heap) (place : Nat) (t : Weighed) : Heap :=
  if h : 2 * place + 1 < heap.size then
    let left := heap[2 * place + 1]
    let (next, below) := match heap[2 * place + 2]? with
      | some right => if right.isBefore left then (2 * place + 2, right) else (2 * place + 1, left)
      | none => (2 * place + 1, left)
    if t.isBefore below then heap.setIfInBounds place t
    else if place < next then sink (heap.setIfInBounds place below) next t
    else heap
  else heap.setIfInBounds place t
termination_by heap.size - place
decreasing_by simp only [Array.size_setIfInBounds]; omega

/-- Puts trees in order. -/
def ofArray (trees : Array Weighed) : Heap :=
  (List.range (trees.size / 2)).foldr (fun place heap =>
    match heap[place]? with
    | some t => sink heap place t
    | none => heap) trees

/-- The first tree, and the others in order. -/
def pop? (heap : Heap) : Option (Weighed × Heap) :=
  match heap[0]?, heap.back? with
  | some first, some last => some (first, sink heap.pop 0 last)
  | _, _ => none

/-- Joins trees until one is left, which takes at most `fuel` steps. Gives it after the symbols in
the order in which their leaves were joined, the last one first. -/
def joinAll : (fuel : Nat) → Heap → (joined : List Nat) → List Nat × Option CodeTree
  | 0, _, joined => (joined, none)
  | fuel + 1, heap, joined =>
    match heap.pop? with
    | none => (joined, none)
    | some (a, heap) =>
      match heap[0]? with
      | none => (joined, some a.tree)
      | some b =>
        joinAll fuel (heap.sink 0 (a.join b)) (b.tree.symbols ++ a.tree.symbols ++ joined)

end Heap

/-- The symbols that get a word: those with a weight, and others if these are less than two. -/
def withWords (weighed : List Nat) : List Nat :=
  match weighed with
  | [] => [0, 1]
  | [symbol] => if symbol < 2 then [symbol, symbol + 1] else [symbol, 0]
  | symbols => symbols

/-- Lengthens a shorter word by one bit, so that its sibling takes in a word of the greatest
length. -/
def shorten (limit : Nat) (counts : Array Nat) : Array Nat :=
  match (List.range limit).reverse.find? fun length => counts.getD length 0 ≠ 0 with
  | none => counts
  | some length =>
    ((counts.modify length (· - 1)).modify (length + 1) (· + 2)).modify limit (· - 1)

/-- Mends the counts of words of each length when `excess` leaves and nodes are too deep. -/
def shortenAll (limit : Nat) : (excess : Nat) → Array Nat → Array Nat
  | 0, counts => counts
  | 1, counts => shorten limit counts
  | excess + 2, counts => shortenAll limit excess (shorten limit counts)

/-- The length of each symbol's word where no word may be longer than `limit`; `joined` are the
symbols, the heavier ones first. -/
def limitedLengths (limit : Nat) (tree : CodeTree) (joined : List Nat) : List (Nat × Nat) :=
  let depths := tree.depths 0
  let excess := tree.countBelow limit 0
  if excess = 0 then depths
  else
    let counts := depths.foldl (fun counts d => counts.modify (min d.2 limit) (· + 1))
      (Array.replicate (limit + 1) 0)
    let counts := shortenAll limit excess counts
    let lengths := (List.range limit).flatMap fun i =>
      List.replicate (counts.getD (i + 1) 0) (i + 1)
    joined.zip lengths

/-- The length of the word of each symbol whose weight is given; zero where there is no word. -/
def optimalLengths (limit : Nat) (weights : List Nat) : List Nat :=
  let weighed := (weights.zipIdx.filter fun (weight, _) => weight ≠ 0).map Prod.snd
  let trees := (withWords weighed).map fun symbol =>
    Weighed.ofSymbol symbol (max 1 (weights.getD symbol 0))
  match Heap.joinAll (trees.length + 1) (Heap.ofArray trees.toArray) [] with
  | (_, none) => weights.map fun _ => 0
  | (joined, some tree) =>
    let lengths := (limitedLengths limit tree joined).foldl
      (fun lengths (symbol, length) => lengths.setIfInBounds symbol length)
      (Array.replicate weights.length 0)
    lengths.toList

end Jarsmith.Deflate
