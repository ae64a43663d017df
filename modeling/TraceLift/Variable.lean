/-
# Symbolic variables

A variable has a name, a set of possible values and a set of sites at which it may have been
defined.  Its values are words: whatever is assigned is first reduced.  A *stand-in* is a
variable for an item that lies below everything a frame has pushed; it is printed by its name
whatever is known of it, and carries its stack position along.  Mapping a stand-in that has
values puts the images where its name should be; such a variable has no text and no hash.

Equality of variables is equality of their value sets (`sameValues`); names and sites do not
enter it.
-/
import TraceLift.Lattice.ValueSet
import TraceLift.Tac.Op
import TraceLift.Word.Arith

namespace TraceLift

/-! ## 1. Definition sites -/

/-- A place at which a variable may have been defined. -/
inductive Site where
  /-- A program counter in a block, if the block is known. -/
  | location (block : Option Nat) (pc : Int)
  /-- An operation. -/
  | operation (op : TacOp)
  deriving DecidableEq

/-- The program counter of a site. -/
def Site.pc : Site → Int
  | location _ pc => pc
  | operation op => op.pc

/-- A set of sites: anywhere, or the members of a list without repetitions. -/
inductive Sites where
  | top
  | finite (l : List Site)
  deriving DecidableEq

namespace Sites

def bottom : Sites := finite []

/-- The members of a list, each once. -/
def ofList (l : List Site) : Sites := finite l.eraseDups

def isTop : Sites → Bool
  | top => true
  | finite _ => false

/-- The sites in both sets. -/
def meet : Sites → Sites → Sites
  | top, b => b
  | a, top => a
  | finite l, finite m => finite (l.filter (m.contains ·))

/-- The sites in either set. -/
def join : Sites → Sites → Sites
  | finite l, finite m => finite (l ++ m.filter (!l.contains ·))
  | _, _ => top

/-- The sites, which "anywhere" does not have. -/
def members : Sites → Except Fault (List Site)
  | top => .error .topEnumerated
  | finite l => .ok l

/-- Two or more known sites. -/
def several : Sites → Bool
  | finite (_ :: _ :: _) => true
  | _ => false

/-- Moves every site of a known set to a block. -/
def inBlock (block : Nat) : Sites → Except Fault Sites
  | top => .error .topEnumerated
  | finite l => .ok (finite (l.map fun
      | .location _ pc => .location (some block) pc
      | s => s))

end Sites

/-! ## 2. Variables -/

/-- A plain variable, or a stand-in with the position it stands for. -/
inductive VarKind where
  | plain
  | standIn (payload : Option Int)
  /-- A stand-in with integers for a name. -/
  | misnamed (integers : List Int)
  deriving DecidableEq

/-- A symbolic variable. -/
structure Variable where
  name : String
  values : ValueSet
  sites : Sites := Sites.bottom
  kind : VarKind := .plain
  deriving DecidableEq

namespace Variable

/-- The name of a variable that was given none. -/
def defaultName : String := "Var"

/-- The name of the result of an arithmetic operation. -/
def resultName : String := "Res"

/-- The words that a list of integers stands for. -/
def words (l : List Int) : ValueSet := ValueSet.ofList (l.map Word.reduce)

/-- A variable with the given possible values. -/
def ofValues (l : List Int) (name : String) (sites : Sites) : Variable :=
  { name, values := words l, sites }

/-- A variable of which nothing is known. -/
def top (name : String) (sites : Sites) : Variable := { name, values := .top, sites }

/-- A variable without possible values. -/
def bottom (name : String) (sites : Sites) : Variable := ofValues [] name sites

/-- A stand-in, of which nothing is known. -/
def standIn (name : String) (payload : Option Int) (sites : Sites) : Variable :=
  { name, values := .top, sites, kind := .standIn payload }

/-- The stand-in for the item at a position of the stack. -/
def ofPosition (position : Nat) (sites : Sites) : Variable :=
  standIn ("S" ++ toString position) (some position) sites

def isTop (v : Variable) : Bool := v.values.isTop

/-- All values are nonzero, and there are finitely many and at least one. -/
def isTrue (v : Variable) : Bool :=
  match v.values with
  | .top => false
  | .finite s => !s.toList.isEmpty && s.toList.all (· != 0)

/-- All values are zero, and there is one. -/
def isFalse (v : Variable) : Bool :=
  match v.values with
  | .top => false
  | .finite s => !s.toList.isEmpty && s.toList.all (· == 0)

/-- Whether two variables have the same possible values. -/
def sameValues (v w : Variable) : Bool := v.values == w.values

/-! ## 3. Changing a variable's values -/

/-- Gives a variable the words that some integers stand for. -/
def assign (v : Variable) (l : List Int) : Variable := { v with values := words l }

/-- Gives a variable the values of a set, which must not be `top`. -/
def assignSet (v : Variable) (values : ValueSet) : Except Fault Variable :=
  match values.members with
  | .ok l => .ok (v.assign l)
  | .error e => .error e

/-- Forgets what is known of a variable's values. -/
def widen (v : Variable) : Variable := { v with values := .top }

/-- A variable of its own with the same name, values and sites.  A stand-in's copy knows
nothing. -/
def copy (v : Variable) : Variable :=
  match v.kind with
  | .plain => v
  | .standIn _ | .misnamed _ => v.widen

/-- A new variable of some kind with the given images of values.  A stand-in knows nothing and has
the images for a name. -/
def ofImages (kind : VarKind) (images : List Int) : Variable :=
  match kind with
  | .plain => ofValues images defaultName Sites.bottom
  | .standIn _ | .misnamed _ => { name := "", values := .top, kind := .misnamed images }

/-- The images of the values, in a new variable.  A variable of which nothing is known is its own
image.  The function can fail: there are no images if there is none of one of the values. -/
def tryMap (f : Int → Except Fault Int) (v : Variable) : Except Fault Variable :=
  match v.values with
  | .top => .ok v
  | .finite s => ofImages v.kind <$> s.toList.mapM f

/-- The variable itself, if its name is a text. -/
def named (v : Variable) : Except Fault Variable :=
  match v.kind with
  | .misnamed _ => .error .badName
  | _ => .ok v

/-! ## 4. Meet and join -/

/-- A nameless variable with a set of values, which are words already or `top`. -/
def ofSet (values : ValueSet) (sites : Sites) : Variable :=
  match values with
  | .top => top defaultName sites
  | .finite s => ofValues s.toList defaultName sites

/-- The common values and the common sites. -/
def meet (v w : Variable) : Variable := ofSet (v.values.meet w.values) (v.sites.meet w.sites)

/-- The values and the sites of both. -/
def join (v w : Variable) : Variable := ofSet (v.values.join w.values) (v.sites.join w.sites)

/-- The meet of a list, from a variable of which nothing is known and that is defined
nowhere. -/
def meetAll (l : List Variable) : Variable := l.foldl meet (top defaultName Sites.bottom)

/-- The join of a list, from a variable without values and sites. -/
def joinAll (l : List Variable) : Variable := l.foldl join (bottom defaultName Sites.bottom)

/-! ## 5. Arithmetic -/

/-- The values of an arithmetic function at all combinations of the arguments' values.  An
unknown argument makes the result unknown, which a variable cannot be built from. -/
def evalSets (fn : String) (args : List ValueSet) (room : Room := .usual) : Except Fault ValueSet :=
  match Arith.ofName fn with
  | .error e => .error e
  | .ok f => ValueSet.lift (f.eval · room) args

/-- A variable with the result of an arithmetic function. -/
def arith (fn : String) (args : List ValueSet) (name : String) (room : Room := .usual) :
    Except Fault Variable :=
  match evalSets fn args room with
  | .error e => .error e
  | .ok values =>
    match values.members with
    | .error e => .error e
    | .ok l => .ok (ofValues l name Sites.bottom)

/-! ## 6. Text -/

/-- A variable's text: its only value, its values in ascending order, or its name when nothing
is known.  A stand-in shows its name. -/
def render (v : Variable) : String :=
  match v.kind, v.values with
  | .standIn _, _ | .misnamed _, _ => v.name
  | .plain, .top => v.name
  | .plain, .finite s =>
    match s.toList with
    | [x] => Text.hex x
    | l => ValueSet.renderHex l

/-- The residues by which a set of values is hashed: those that an odd number of its members
have. -/
def hashResidues (s : IntSet) : IntSet :=
  let residues := s.toList.map fun x => x.emod Opcode.hashModulus
  IntSet.ofList (residues.filter fun r => residues.count r % 2 == 1)

/-- Whether two variables have the same hash, which depends on the name and the set of values
alone. -/
def sameHash (v w : Variable) : Except Fault Bool := do
  let v ← v.named
  let w ← w.named
  return v.name == w.name &&
    match v.values, w.values with
    | .top, .top => true
    | .finite s, .finite t => s.size == t.size && hashResidues s == hashResidues t
    | _, _ => false

end Variable

end TraceLift
