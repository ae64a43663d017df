/-
# Symbolic stacks

A stack knows only the items that were pushed since it was made; below them lie the items of
the stack that was there before, of which nothing is known.  Taking an item from an empty stack
yields a stand-in for the next of those, and counts it.  A stack has a capacity: what is pushed
on a full stack is dropped.

The items are listed from the top down.  The stack does not care what its items are, as long as
there is a stand-in for each position below its bottom (`StackItem`).
-/
import TraceLift.Fault

namespace TraceLift

/-- A kind of stack item with a stand-in for each position below the bottom. -/
class StackItem (α : Type) where
  /-- The stand-in for the item that lies so many places below the bottom. -/
  below : Nat → α

/-- A stack whose bottom is open. -/
structure Stack (α : Type) where
  /-- The items, from the top down. -/
  items : List α := []
  /-- How many items were taken from below the bottom. -/
  emptyPops : Nat := 0
  /-- The capacity. -/
  maxSize : Int := 1024
  /-- The capacity never becomes smaller than this. -/
  minMaxSize : Int := 20
  /-- The call depth of the frame whose stack this is. -/
  depth : Option Int := none
  deriving DecidableEq

namespace Stack

variable {α : Type}

/-- The last `n` items pushed; for zero all of them, and for a negative number all but that
many at the bottom. -/
def clip (n : Int) (items : List α) : List α :=
  if 0 < n then items.take n.toNat else items.take (items.length - n.natAbs)

/-- Sets the capacity, and drops what exceeds it at the bottom. -/
def setMaxSize (s : Stack α) (n : Int) : Stack α :=
  let size := max s.minMaxSize n
  { s with maxSize := size, items := clip size s.items }

/-- A stack that holds some items, given from the bottom up. -/
def make (items : List α) (maxSize minMaxSize : Int) (depth : Option Int) : Stack α :=
  { items := items.reverse, maxSize, minMaxSize, depth : Stack α }.setMaxSize maxSize

/-- A stack with the usual capacity. -/
def ofItems (items : List α) : Stack α := make items 1024 20 none

/-- The number of items. -/
def size (s : Stack α) : Nat := s.items.length

/-- Puts an item on top, unless the stack is full. -/
def push (s : Stack α) (a : α) : Stack α :=
  if s.items.length < s.maxSize then { s with items := a :: s.items } else s

/-- Pushes the items of a list, the first one first. -/
def pushMany (s : Stack α) (l : List α) : Stack α := l.foldl push s

/-- The items with a copy of the last one in front. -/
def copyLast (l : List α) : Option (List α) := l.getLast?.map (· :: l)

/-- The items with the first and the last one exchanged.  A single item is doubled. -/
def exchangeEnds (l : List α) : Option (List α) :=
  match l.head?, l.getLast? with
  | some a, some b => some (b :: (l.drop 1).dropLast ++ [a])
  | _, _ => none

/-- A copy with the same items and capacity, which belongs to no frame. -/
def copy (s : Stack α) : Stack α :=
  { items := s.items, emptyPops := s.emptyPops, maxSize := s.maxSize }

variable [StackItem α]

/-- Takes the top item. -/
def pop (s : Stack α) : α × Stack α :=
  match s.items with
  | a :: rest => (a, { s with items := rest })
  | [] => (StackItem.below s.emptyPops, { s with emptyPops := s.emptyPops + 1 })

/-- Takes so many items; the first one taken comes first. -/
def popMany (s : Stack α) : Nat → List α × Stack α
  | 0 => ([], s)
  | n + 1 =>
    let (a, s) := s.pop
    let (l, s) := popMany s n
    (a :: l, s)

/-- The item so many places below the top, which stays where it is.  A negative number counts
from the bottom: `-1` is the lowest item. -/
def peek (s : Stack α) (n : Int) : Except Fault α :=
  if s.items.length ≤ n then
    .ok (StackItem.below ((n - s.items.length).toNat + s.emptyPops))
  else
    let fromBottom := (-(n + 1)).toNat
    let i := if 0 ≤ n then n.toNat else s.items.length - 1 - fromBottom
    if n < 0 ∧ s.items.length ≤ fromBottom then .error .indexOutOfRange
    else
      match s.items[i]? with
      | some a => .ok a
      | none => .error .indexOutOfRange

/-- Takes `n` items and puts back what a function makes of them. -/
def rearrange (s : Stack α) (n : Nat) (f : List α → Option (List α)) : Except Fault (Stack α) :=
  let (l, rest) := s.popMany n
  match f l with
  | some l => .ok (rest.pushMany l.reverse)
  | none => .error .indexOutOfRange

/-- Copies item `n`, counted from one at the top, onto the top. -/
def dup (s : Stack α) (n : Nat) : Except Fault (Stack α) := s.rearrange n copyLast

/-- Exchanges the top item with item `n`, counted from one at the top. -/
def swap (s : Stack α) (n : Nat) : Except Fault (Stack α) := s.rearrange n exchangeEnds

end Stack

end TraceLift
