/-
# The lattice of value sets

An element is a finite set of integers, or `top`, the set of all there are.  The empty set is
the bottom.  Meet is intersection and join is union.  A function of several integers lifts to
value sets through all combinations of their members (`lift`); as soon as one of the sets is
`top` nothing is known of the result.
-/
import TraceLift.Fault
import TraceLift.Lattice.IntSet
import TraceLift.Text.Numeral

namespace TraceLift

/-- A set of possible values. -/
inductive ValueSet where
  | top
  | finite (s : IntSet)
  deriving DecidableEq

namespace ValueSet

/-! ## 1. Elements -/

def bottom : ValueSet := finite IntSet.empty

/-- The set of the members of a list. -/
def ofList (l : List Int) : ValueSet := finite (IntSet.ofList l)

/-- Whether an integer is a possible value. -/
def Mem (x : Int) : ValueSet → Prop
  | top => True
  | finite s => x ∈ s

def isTop : ValueSet → Bool
  | top => true
  | finite _ => false

def isBottom : ValueSet → Bool
  | top => false
  | finite s => s.toList.isEmpty

/-- Finitely many values and at least one. -/
def isFinite (a : ValueSet) : Bool := !(a.isTop || a.isBottom)

/-- The number of values of a finite set; `top` counts as none. -/
def size : ValueSet → Nat
  | top => 0
  | finite s => s.size

/-- The only value, if there is exactly one. -/
def const? : ValueSet → Option Int
  | finite s =>
    match s.toList with
    | [x] => some x
    | _ => none
  | top => none

/-- Exactly one value. -/
def isConst (a : ValueSet) : Bool := a.const?.isSome

/-- The values in ascending order, which `top` does not have. -/
def members : ValueSet → Except Fault (List Int)
  | top => .error .topEnumerated
  | finite s => .ok s.toList

/-! ## 2. Meet and join -/

/-- The values in both sets. -/
def meet : ValueSet → ValueSet → ValueSet
  | top, b => b
  | a, top => a
  | finite s, finite t => finite (s.inter t)

/-- The values in either set. -/
def join : ValueSet → ValueSet → ValueSet
  | finite s, finite t => finite (s.union t)
  | _, _ => top

/-- The meet of a list; `top` for the empty one. -/
def meetAll (l : List ValueSet) : ValueSet := l.foldl meet top

/-- The join of a list; the empty set for the empty one. -/
def joinAll (l : List ValueSet) : ValueSet := l.foldl join bottom

/-! ## 3. Functions of values -/

/-- The images of the values under a function; `top` stays `top`. -/
def map (f : Int → Int) : ValueSet → ValueSet
  | top => top
  | finite s => finite (s.map f)

/-- All ways to take one integer from each list, the last varying fastest. -/
def tuples : List (List Int) → List (List Int)
  | [] => [[]]
  | l :: ls => l.flatMap fun x => (tuples ls).map (x :: ·)

/-- The members of each set, if none is `top`. -/
def lists? : List ValueSet → Option (List (List Int))
  | [] => some []
  | top :: _ => none
  | finite s :: l => (lists? l).map (s.toList :: ·)

/-- The values of a function at all combinations of members; `top` if one of the sets is. -/
def lift (f : List Int → Except Fault Int) (l : List ValueSet) : Except Fault ValueSet :=
  match lists? l with
  | none => .ok top
  | some ls => (fun ys => ofList ys) <$> (tuples ls).mapM f

/-! ## 4. Text -/

/-- The members between braces, in decimal. -/
def renderMembers (l : List Int) : Except Fault String := do
  return "\x7b" ++ String.intercalate ", " (← l.mapM Text.decimal) ++ "\x7d"

/-- The text of an element: its bounds have symbols of their own. -/
def render : ValueSet → Except Fault String
  | top => .ok "⊤"
  | finite s => if s.toList.isEmpty then .ok "⊥" else renderMembers s.toList

/-- The text of an element as the bare set that it is. -/
def renderPlain : ValueSet → Except Fault String
  | top => .ok "\x7b'⊤'\x7d"
  | finite s => if s.toList.isEmpty then .ok "set()" else renderMembers s.toList

/-- The values in hexadecimal between braces. -/
def renderHex (l : List Int) : String :=
  "\x7b" ++ String.intercalate ", " (l.map Text.hex) ++ "\x7d"

end ValueSet

end TraceLift
