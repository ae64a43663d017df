/-
# Functions of a graph

A *private* function starts where several blocks come together, each of which pushed the
identifier of a block that the function may return to.  A *public* function is entered after the
call data's signature was compared with a constant; the last place where all comparisons fail
is the fallback function.

Every search here goes on for as many rounds as it is given, and fails if they do not suffice.
The edges and two more rounds are enough, as a block adds its successors once.
-/
import TraceLift.Graph.Reach
import TraceLift.Graph.Text

namespace TraceLift

/-- Whether one text occurs in another. -/
def occursIn (part : List Char) : List Char → Bool
  | [] => part.isEmpty
  | c :: cs => part.isPrefixOf (c :: cs) || occursIn part cs

namespace Graph

/-! ## 1. Private functions -/

/-- The first item on a block's stack that names a block which can be reached. -/
def returnBlock? (g : Graph) (pred : Nat) : List Operand → Except Fault (Option Nat)
  | [] => .ok none
  | a :: rest => do
    match ← g.blockNamed? (g.renderItem a) with
    | some n => if g.reaches pred [n] then return some n else returnBlock? g pred rest
    | none => returnBlock? g pred rest

/-- Adds the calls that enter a block to the pairs found so far, each with the block it returns
to.  One that did not push twice, or left nothing on the stack, spoils them all. -/
def callPairs (g : Graph) (start : Nat) (pairs : List (Nat × Nat)) :
    List Nat → Except Fault (Option (List (Nat × Nat)))
  | [] => .ok (some pairs)
  | p :: ps =>
    if (g.succs start).contains p then callPairs g start pairs ps
    else
      match g.block? p with
      | none => .ok none
      | some b =>
        if b.source.countP (·.opcode.isPush) ≤ 1 then .ok none
        else if b.delta.items.isEmpty then .ok none
        else do
          match ← g.returnBlock? p b.delta.items with
          | some n => callPairs g start (setEntry p n pairs) ps
          | none => callPairs g start pairs ps

/-- The calls of the private function that starts with a block, if one does: at least two. -/
def privateStart? (g : Graph) (n : Nat) : Except Fault (Option (List (Nat × Nat))) :=
  let preds := g.sortBlocks (g.preds n)
  if preds.length ≤ 1 || (g.succs n).isEmpty then .ok none
  else do return (← g.callPairs n [] preds).filter fun pairs => 1 < pairs.length

/-- Follows the calls of each list of pairs in turn from a block; yields the calling blocks
passed and the block arrived at. -/
def skipCalls : List (List (Nat × Nat)) → Nat → List Nat × Nat
  | [], n => ([], n)
  | pairs :: rest, n =>
    match pairs.lookup n with
    | some m =>
      let (passed, last) := skipCalls rest m
      (n :: passed, last)
    | none => skipCalls rest n

/-- Collects the body of a private function breadth first, up to the blocks it returns to.
Also says whether some block has all of these among its successors. -/
def bodyLoop (g : Graph) (returns : List Nat) (calls : List (List (Nat × Nat))) :
    Nat → List Nat → List Nat → Bool → Except Fault (List Nat × Bool)
  | 0, _, _, _ => .error .unfinished
  | _ + 1, [], body, ended => .ok (body, ended)
  | rounds + 1, n :: queue, body, ended =>
    let (passed, n) := skipCalls calls n
    let body := body ++ passed
    let ended := ended || returns.all ((g.succs n).contains ·)
    if !body.contains n && g.reaches n returns then
      bodyLoop g returns calls rounds (queue ++ (g.succs n).filter (!returns.contains ·))
        (body ++ [n]) ended
    else bodyLoop g returns calls rounds queue body ended

/-- The blocks that lead to every one of the given blocks. -/
def commonPreds (g : Graph) (returns : List Nat) : List Nat :=
  match returns with
  | [] => []
  | r :: _ => (g.sortBlocks (g.preds r)).filter fun p => returns.all fun s => (g.preds s).contains p

/-- The private function that starts with a block, unless no block of it leads to all the blocks
it returns to.  Its end is the last of the blocks that do. -/
def privateFunction? (g : Graph) (start : Nat) (returns : List Nat)
    (calls : List (List (Nat × Nat))) : Except Fault (Option Function) := do
  let (body, ended) ← bodyLoop g returns calls (g.edgeCount + 2) [start] [] false
  if ended then
    match (g.sortBlocks (g.commonPreds returns)).getLast? with
    | none => .error .emptyPop
    | some finish =>
      .ok (some
        { body, start, finish := some finish, isPrivate := true,
          preds := g.sortBlocks (g.preds start), succs := g.sortBlocks returns })
  else .ok none

/-- The blocks that private functions start with, from the last to the first, each with the calls
of the function. -/
def privateStarts (g : Graph) : Except Fault (List (Nat × List (Nat × Nat))) :=
  g.order.reverse.filterMapM fun n => do
    return (← g.privateStart? n).map fun pairs => (n, pairs)

/-- The private functions of a graph, from the last block to the first, and what their calls
return to.  A function of one block is none. -/
def privateFunctions (g : Graph) : Except Fault (List Function × List (Nat × Nat)) := do
  let starts ← g.privateStarts
  let calls := starts.map (·.2)
  let returns := calls.flatten.foldl (fun l (k, v) => setEntry k v l) []
  let found ← starts.mapM fun (n, pairs) => g.privateFunction? n (pairs.map (·.2)) calls
  return (found.filterMap id |>.filter (·.body.length != 1), returns)

/-! ## 2. Public functions -/

/-- Whether a block lies outside the functions found so far, their calls and the body, and the
stack names it. -/
def isOutside (g : Graph) (x : Extraction) (body : List Nat) (stack : List Char) (n : Nat) :
    Except Fault Bool :=
  if x.functions.any (·.body.contains n) || (x.returns.lookup n).isSome then .ok false
  else do return occursIn (← g.ident n).toList stack && !body.contains n

/-- Leaves the functions found so far: searches depth first for a block outside all of them that
the stack names, or one without successors. -/
def leaveLoop (g : Graph) (x : Extraction) (body : List Nat) (stack : List Char) :
    Nat → List Nat → List Nat → Except Fault (Option Nat)
  | 0, _, _ => .error .unfinished
  | _ + 1, [], _ => .ok none
  | rounds + 1, n :: queue, seen =>
    if (g.succs n).isEmpty then .ok (some n)
    else do
      if ← g.isOutside x body stack n then return some n
      else leaveLoop g x body stack rounds (g.fresh (n :: seen) n ++ queue) (n :: seen)

/-- The next block outside the functions found so far, named by an exit stack. -/
def leaveFunctions (g : Graph) (x : Extraction) (body : List Nat) (n : Nat)
    (exitStack : Stack Variable) : Except Fault (Option Nat) :=
  leaveLoop g x body exitStack.render.toList (g.edgeCount + 2) [n] []

/-- The state of the search for a public function's body. -/
structure BodySearch where
  body : List Nat := []
  finish : Option Nat := none
  /-- The block looked at last. -/
  current : Option Nat := none
  /-- Whether a call was just passed. -/
  jumped : Bool := false
  /-- The block that made that call. -/
  caller : Nat

/-- The exit stack of a block, if there is one. -/
def exitStack (g : Graph) (n : Option Nat) : Except Fault (Stack Variable) :=
  match n.bind g.block? with
  | some b => .ok b.exitStack
  | none => .error .noPreviousBlock

/-- Passes over the functions in turn that hold the current block.  The way out is looked for on
the exit stack of the block before, or of the block that made the call just passed. -/
def passFunctions (g : Graph) (x : Extraction) (body : List Nat) (prev : Option Nat)
    (caller : Nat) : List Function → Option Nat → Bool → Except Fault (Option Nat × Bool)
  | [], current, jumped => .ok (current, jumped)
  | _ :: _, none, jumped => .ok (none, jumped)
  | f :: fs, some n, jumped =>
    if f.body.contains n then
      match g.exitStack (if jumped then some caller else prev) with
      | .error e => .error e
      | .ok stack =>
        match g.leaveFunctions x body n stack with
        | .error e => .error e
        | .ok current => passFunctions g x body prev caller fs current false
    else passFunctions g x body prev caller fs (some n) jumped

/-- Where the search goes on from a block: where its call returns to, if it makes one. -/
def passCall (x : Extraction) (s : BodySearch) (n : Nat) : Nat × BodySearch :=
  match x.returns.lookup n with
  | some m => (m, { s with jumped := true, caller := n, body := insertNew n s.body })
  | none => (n, s)

/-- A block is looked at: it is in the body from then on, and it is the end if nothing leads on. -/
def arrive (g : Graph) (s : BodySearch) (n : Nat) : BodySearch :=
  { s with body := insertNew n s.body, current := some n,
           finish := if (g.succs n).isEmpty then some n else s.finish }

/-- Collects the body of a public function breadth first. -/
def publicLoop (g : Graph) (x : Extraction) :
    Nat → List Nat → BodySearch → Except Fault BodySearch
  | 0, _, _ => .error .unfinished
  | _ + 1, [], s => .ok s
  | rounds + 1, n :: queue, s => do
    let (current, jumped) ←
      passFunctions g x s.body s.current s.caller x.functions (some n) s.jumped
    match current with
    | none => publicLoop g x rounds queue { s with current := none, jumped }
    | some n =>
      let (n, s) := passCall x { s with jumped } n
      publicLoop g x rounds (if s.body.contains n then queue else queue ++ g.succs n)
        (g.arrive s n)

/-- The public function that starts with a block. -/
def publicFunction (g : Graph) (x : Extraction) (start : Nat) (signature : String) :
    Except Fault Function := do
  let s ← publicLoop g x (g.edgeCount + 2) [start] { caller := start }
  return { body := s.body, start, finish := s.finish, signature }

/-- Whether an operation loads the first word of the call data. -/
def loadsSignature (g : Graph) (op : TacOp) : Except Fault Bool :=
  if op.opcode.same Opcode.calldataload then do
    return (← (← op.arg 0).values g.machine.store).const? == some 0
  else .ok false

/-- The first block, in the order of blocks, that loads the first word of the call data, with
the variable it is loaded into. -/
def signatureLoad? (g : Graph) : List Nat → Except Fault (Option (Block × VarId))
  | [] => .ok none
  | n :: ns =>
    match g.block? n with
    | none => signatureLoad? g ns
    | some b => do
      let loads ← b.ops.filterM g.loadsSignature
      if b.gap then .error .noLastOperation
      match loads with
      | [] => signatureLoad? g ns
      | op :: _ =>
        match op.target? with
        | some v => return some (b, v)
        | none => .error .noResult

/-- Whether an operation is an assignment that uses a variable. -/
def uses (op : TacOp) (v : VarId) : Bool := op.isAssignment && op.args.contains (.var v)

/-- Follows a variable through the assignments that use it, up to the first comparison. -/
def followSignature : List TacOp → VarId → VarId
  | [], v => v
  | op :: ops, v =>
    if uses op v then
      if op.opcode.same Opcode.eq then v
      else followSignature ops (op.target?.getD v)
    else followSignature ops v

/-- The variable that the signature ends up in, if the call data's first word is loaded at all. -/
def signature? (g : Graph) : Except Fault (Option VarId) := do
  return (← g.signatureLoad? (g.sortBlocks g.order)).map fun (load, v) =>
    followSignature load.ops v

/-- The function that a block starts, named by the value that the signature is compared with. -/
def namedBy (values : ValueSet) (n : Nat) : Except Fault (Nat × String) :=
  match values.const? with
  | some i => .ok (n, Text.hex i)
  | none => .error .unknownQuantity

/-- What a comparison of the signature in a block tells: the functions entered, each with its
signature, and the block where it goes on otherwise. -/
def comparison (g : Graph) (b : Block) (op : TacOp) (v : VarId) :
    Except Fault (List (Nat × String) × Option Nat) :=
  match op.args.filter (· != .var v) with
  | [] => .error .indexOutOfRange
  | a :: _ => do
    let values ← a.values g.machine.store
    match b.fallthrough with
    | none => .error .noFallthrough
    | some f =>
      let entered ← (b.succs.filter (some · != f)).mapM (namedBy values)
      return (entered, f)

/-- The comparisons of a variable, each with its block. -/
def comparisons (g : Graph) (v : VarId) : List (Block × TacOp) :=
  (g.members.flatMap fun (_, b) => b.ops.map (b, ·)).filter fun (_, op) =>
    uses op v && op.opcode.same Opcode.eq

/-- The functions that the comparisons found lead to, and the fallback function. -/
def functionsOf (g : Graph) (x : Extraction) (found : List (List (Nat × String) × Option Nat)) :
    Except Fault (List Function) :=
  let fallback := match (found.filterMap (·.2)).getLast? with
    | some n => [(n, "")]
    | none => []
  (found.flatMap (·.1) ++ fallback).mapM fun (n, signature) => g.publicFunction x n signature

/-- The public functions of a graph, given the private ones. -/
def publicFunctions (g : Graph) (x : Extraction) : Except Fault (List Function) := do
  match ← g.signature? with
  | none => return []
  | some v => g.functionsOf x (← (g.comparisons v).mapM fun (b, op) => g.comparison b op v)

/-! ## 3. Extraction -/

/-- Finds the functions of a graph. -/
def extract (g : Graph) : Except Fault Extraction := do
  let (privates, returns) ← g.privateFunctions
  let x : Extraction := { privateFunctions := privates, returns }
  return { x with publicFunctions := ← g.publicFunctions x }

/-- Appends the number of each function to the identifiers of its blocks. -/
def markFunctions (g : Graph) (x : Extraction) : Graph :=
  (x.functions.mapIdx fun i f => (i, f)).foldl (fun g (i, f) =>
    f.body.foldl (fun g n => g.modify n fun b => { b with suffix := b.suffix ++ "_F" ++ toString i })
      g) g

end Graph

end TraceLift
