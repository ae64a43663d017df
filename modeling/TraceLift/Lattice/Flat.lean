/-
# The flat lattice of integers

The integers are incomparable with one another, `bottom` lies below all of them and `top`
above.  A sum is known only when both terms are: anything else adds up to `bottom`.
-/
import TraceLift.Text.Numeral

namespace TraceLift

/-- An integer, or one of the two bounds. -/
inductive Flat where
  | bottom
  | int (i : Int)
  | top
  deriving DecidableEq

namespace Flat

def isTop : Flat → Bool
  | top => true
  | _ => false

def isBottom : Flat → Bool
  | bottom => true
  | _ => false

/-- Neither of the bounds. -/
def isInt (a : Flat) : Bool := !(a.isTop || a.isBottom)

/-- The greatest lower bound. -/
def meet : Flat → Flat → Flat
  | bottom, _ => bottom
  | _, bottom => bottom
  | top, b => b
  | a, top => a
  | int i, int j => if i = j then int i else bottom

/-- The least upper bound. -/
def join : Flat → Flat → Flat
  | top, _ => top
  | _, top => top
  | bottom, b => b
  | a, bottom => a
  | int i, int j => if i = j then int i else top

/-- The greatest lower bound of a list; `top` for the empty one. -/
def meetAll (l : List Flat) : Flat := l.foldl meet top

/-- The least upper bound of a list; `bottom` for the empty one. -/
def joinAll (l : List Flat) : Flat := l.foldl join bottom

/-- The sum of two integers, and `bottom` whenever one is not known. -/
def add : Flat → Flat → Flat
  | int i, int j => int (i + j)
  | _, _ => bottom

/-- The text of an element. -/
def render : Flat → Except Fault String
  | top => .ok "⊤"
  | bottom => .ok "⊥"
  | int i => Text.decimal i

end Flat

end TraceLift
