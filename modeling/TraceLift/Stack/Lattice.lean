/-
# Stacks of variables

Stacks of variables form a lattice: meet and join work item by item from the top down, an item
that a shorter stack does not have counting as a variable without values.
-/
import TraceLift.Stack.Basic
import TraceLift.Variable

namespace TraceLift

instance : StackItem Variable := ⟨fun n => Variable.ofPosition n Sites.bottom⟩

instance : StackItem Operand := ⟨Operand.entry⟩

namespace Stack

/-- Pairs the items of two lists from the top down, completing the shorter one. -/
def zipLongest (fill : Variable) (f : Variable → Variable → Variable) :
    List Variable → List Variable → List Variable
  | [], [] => []
  | a :: l, [] => f a fill :: zipLongest fill f l []
  | [], b :: m => f fill b :: zipLongest fill f [] m
  | a :: l, b :: m => f a b :: zipLongest fill f l m

/-- The variable of an empty slot. -/
def emptySlot : Variable := Variable.bottom Variable.defaultName Sites.bottom

/-- Drops the items without values at the bottom of a stack. -/
def trimBase (items : List Variable) : List Variable :=
  (items.reverse.dropWhile fun v => v.values.isBottom).reverse

/-- A stack of the given items, from the top down, with a capacity. -/
def ofTopDown (items : List Variable) (maxSize : Int) : Stack Variable :=
  make items.reverse maxSize 20 none

/-- The item-wise meet, without the items at the base that have no values left. -/
def meet (s t : Stack Variable) : Stack Variable :=
  ofTopDown (trimBase (zipLongest emptySlot Variable.meet s.items t.items))
    (if s.maxSize < t.maxSize then s.maxSize else t.maxSize)

/-- The item-wise join. -/
def join (s t : Stack Variable) : Stack Variable :=
  ofTopDown (zipLongest emptySlot Variable.join s.items t.items)
    (if s.maxSize > t.maxSize then s.maxSize else t.maxSize)

/-- The join of a list; an empty stack for the empty one. -/
def joinAll (l : List (Stack Variable)) : Stack Variable := l.foldl join (ofItems [])

/-- Replaces each item of which nothing is known by a stand-in for its position. -/
def standInFrom (position : Nat) : List Variable → List Variable
  | [] => []
  | v :: l =>
    (if v.isTop then Variable.ofPosition position v.sites else v) :: standInFrom (position + 1) l

/-- Replaces each item of which nothing is known by a stand-in for its position. -/
def toStandIns (s : Stack Variable) : Stack Variable := { s with items := standInFrom 0 s.items }

/-- Whether two stacks have as many items, with the same values from the top down. -/
def sameValues (s t : Stack Variable) : Bool :=
  s.items.map (·.values) == t.items.map (·.values)

/-- The items from the bottom up, each as its text. -/
def renderWith {α : Type} (f : α → String) (s : Stack α) : String :=
  "[" ++ String.intercalate ", " (s.items.reverse.map f) ++ "]"

/-- The text of a stack of variables. -/
def render (s : Stack Variable) : String := s.renderWith Variable.render

end Stack

end TraceLift
