import Mathlib.Logic.Function.Basic
import Mathlib.Data.Int.Notation
import Mathlib.Data.Nat.Notation

/-!
# The queue of commands that wait for a reply

The double-ended queue of the client library keeps its items under the integer keys of one object, in a
ring whose number of slots is a power of two, so that every index is masked and not divided. A slot is
`none` where the object holds `undefined`. Numbers are natural except where an index goes below zero; there
the source relies on the 32-bit operators of the language.
-/

namespace ExpressAuth.NodeRedis

/-- The least power of two that is not below `n`, by copying the highest bit of `n - 1` downwards. -/
def pow2AtLeast (n : ℕ) : ℕ :=
  let n := n - 1
  let n := n ||| n >>> 1
  let n := n ||| n >>> 2
  let n := n ||| n >>> 4
  let n := n ||| n >>> 8
  let n := n ||| n >>> 16
  n + 1

def getCapacity (capacity : ℕ) : ℕ := pow2AtLeast (min (max 16 capacity) 1073741824)

/-- The object: its integer keys, `_capacity`, `_length` and `_front`. -/
structure Deque (α : Type*) where
  slots : ℕ → Option α
  capacity : ℕ
  length : ℕ
  front : ℕ

namespace Deque

variable {α : Type*}

/-- `new Queue()`. -/
def new : Deque α := { slots := fun _ => none, capacity := 16, length := 0, front := 0 }

/-- The key of the item `j` places behind the front. -/
def index (capacity front j : ℕ) : ℕ := (front + j) &&& (capacity - 1)

/-- The key before the front. At the front 0 the operand is `-1`, all of whose 32 bits are set. -/
def indexBefore (capacity front : ℕ) : ℕ :=
  ((BitVec.ofInt 32 ((front : ℤ) - 1) &&& BitVec.ofNat 32 (capacity - 1)) ^^^ BitVec.ofNat 32 capacity).toNat -
    capacity

/-- One item after the other is moved and its old slot cleared. -/
def arrayMove (slots : ℕ → Option α) (srcIndex dstIndex : ℕ) (len : ℕ) : ℕ → Option α :=
  (List.range len).foldl
    (fun slots j =>
      Function.update (Function.update slots (j + dstIndex) (slots (j + srcIndex))) (j + srcIndex) none) slots

def resizeTo (d : Deque α) (capacity : ℕ) : Deque α :=
  if d.front + d.length > d.capacity then
    let moveItemsCount := (d.front + d.length) &&& (d.capacity - 1)
    { d with capacity, slots := arrayMove d.slots 0 d.capacity moveItemsCount }
  else { d with capacity }

/-- The capacity is a multiple of two, so half of it is whole. -/
def checkCapacity (d : Deque α) (size : ℕ) : Deque α :=
  if d.capacity < size then d.resizeTo (getCapacity (d.capacity + d.capacity / 2 + 16)) else d

def toArray (d : Deque α) : List (Option α) :=
  (List.range d.length).map (fun j => d.slots (index d.capacity d.front j))

/-- `push` of one item. -/
def pushItem (d : Deque α) (item : α) : Deque α :=
  let d := d.checkCapacity (d.length + 1)
  { d with
    slots := Function.update d.slots (index d.capacity d.front d.length) (some item), length := d.length + 1 }

/-- The loop of `push` for items that all find room. -/
def writeBack (capacity length : ℕ) : (ℕ → Option α) → ℕ → List α → ℕ → Option α
  | slots, _, [] => slots
  | slots, j, item :: items =>
    writeBack capacity length (Function.update slots (index capacity j length) (some item)) (j + 1) items

/-- `push`, with the length it returns. -/
def push (d : Deque α) : List α → ℕ × Deque α
  | [] => (d.length, d)
  | [item] => ((d.pushItem item).length, d.pushItem item)
  | items =>
    if d.length + items.length > d.capacity then
      ((items.foldl pushItem d).length, items.foldl pushItem d)
    else
      (d.length + items.length,
        { d with
          slots := writeBack d.capacity d.length d.slots d.front items, length := d.length + items.length })

def pop (d : Deque α) : Option α × Deque α :=
  if d.length = 0 then (none, d)
  else
    let i := index d.capacity d.front (d.length - 1)
    (d.slots i, { d with slots := Function.update d.slots i none, length := d.length - 1 })

def shift (d : Deque α) : Option α × Deque α :=
  if d.length = 0 then (none, d)
  else
    (d.slots d.front,
      { d with
        slots := Function.update d.slots d.front none
        front := index d.capacity d.front 1
        length := d.length - 1 })

/-- `unshift` of one item. -/
def unshiftItem (d : Deque α) (item : α) : Deque α :=
  let d := d.checkCapacity (d.length + 1)
  let i := indexBefore d.capacity d.front
  { d with slots := Function.update d.slots i (some item), length := d.length + 1, front := i }

/-- The loop of `unshift` for items that all find room; the last item is written first. -/
def writeFront (capacity : ℕ) (slots : ℕ → Option α) (front : ℕ) (items : List α) : (ℕ → Option α) × ℕ :=
  items.foldr
    (fun item p =>
      let j := indexBefore capacity p.2
      (Function.update p.1 j (some item), j)) (slots, front)

/-- `unshift`, with the length it returns. -/
def unshift (d : Deque α) : List α → ℕ × Deque α
  | [] => (d.length, d)
  | [item] => ((d.unshiftItem item).length, d.unshiftItem item)
  | items =>
    if d.length + items.length > d.capacity then
      ((items.foldr (fun item d => d.unshiftItem item) d).length,
        items.foldr (fun item d => d.unshiftItem item) d)
    else
      let p := writeFront d.capacity d.slots d.front items
      (d.length + items.length, { d with slots := p.1, front := p.2, length := d.length + items.length })

def peekBack (d : Deque α) : Option α :=
  if d.length = 0 then none else d.slots (index d.capacity d.front (d.length - 1))

def peekFront (d : Deque α) : Option α := if d.length = 0 then none else d.slots d.front

/-- `get`; a negative index counts from the back, and one beyond 32 bits is not looked up. -/
def get (d : Deque α) (i : ℤ) : Option α :=
  if i ≠ (BitVec.ofInt 32 i).toInt then none
  else
    let i := if i < 0 then i + d.length else i
    if i < 0 ∨ (d.length : ℤ) ≤ i then none else d.slots (index d.capacity d.front i.toNat)

def isEmpty (d : Deque α) : Bool := d.length == 0

def clear (d : Deque α) : Deque α :=
  { d with
    slots := (List.range d.length).foldl
      (fun slots j => Function.update slots (index d.capacity d.front j) none) d.slots
    length := 0
    front := 0 }

end Deque

end ExpressAuth.NodeRedis
