/-
# Operations on variables in registers

Variables are made, combined and changed in registers.  An operation reads the registers that it
names, computes, and then writes: a new variable to a cell of its own, or new values to the variable
that a register holds.  Many operations can fail on the way.  A failure takes nothing back: the
registers stay as the operation has left them by then.
-/
import TraceLift.Registers
import TraceLift.Variable

namespace TraceLift

namespace Registers

variable {α β γ : Type}

/-- A computation on registers that can fail, and that leaves registers even then. -/
abbrev Action (α β : Type) : Type := ExceptT Fault (StateM (Registers α)) β

/-- Runs an action: its result, and the registers that it leaves. -/
def perform (x : Action α β) (r : Registers α) : Except Fault β × Registers α := x.run.run r

/-- What a register holds. -/
def fetch (name : String) : Action α α := do
  let r ← MonadState.get
  MonadExcept.ofExcept (r.get name)

/-- Puts a new value into a register. -/
def store (name : String) (a : α) : Action α Unit := modify (·.put name a)

/-- Changes the value that a register holds. -/
def overwrite (name : String) (a : α) : Action α Unit := modify (·.update name a)

section Lemmas

variable {x : Action α β} {k : β → Action α γ} {r r' : Registers α}

@[simp] theorem perform_store (name : String) (a : α) :
    perform (store name a) r = (.ok (), r.put name a) := rfl

@[simp] theorem perform_overwrite (name : String) (a : α) :
    perform (overwrite name a) r = (.ok (), r.update name a) := rfl

@[simp] theorem perform_pure (b : β) : perform (pure b) r = (.ok b, r) := rfl

@[simp] theorem perform_ofExcept (result : Except Fault β) :
    perform (MonadExcept.ofExcept result) r = (result, r) := by
  cases result <;> rfl

@[simp] theorem perform_fetch (name : String) : perform (fetch name) r = (r.get name, r) :=
  perform_ofExcept (r.get name)

theorem perform_bind :
    perform (x >>= k) r = (ExceptT.bindCont k (perform x r).1).run (perform x r).2 := rfl

/-- An action goes on with the registers that its first part leaves. -/
theorem perform_bind_ok {b : β} (h : perform x r = (.ok b, r')) :
    perform (x >>= k) r = perform (k b) r' := by
  rw [perform_bind, h]
  rfl

/-- An action ends where its first part fails. -/
theorem perform_bind_error {e : Fault} (h : perform x r = (.error e, r')) :
    perform (x >>= k) r = (.error e, r') := by
  rw [perform_bind, h]
  rfl

end Lemmas

end Registers

/-- An operation on variables.  The first register is the one that it writes. -/
inductive VariableOp where
  /-- A variable made from integers. -/
  | ofValues (target : String) (values : List Int) (name : String) (sites : Sites)
  /-- A variable of which nothing is known. -/
  | top (target : String) (name : String) (sites : Sites)
  /-- A stand-in. -/
  | standIn (target : String) (name : String) (payload : Option Int) (sites : Sites)
  /-- Gives a variable the words of some integers. -/
  | assign (target : String) (values : List Int)
  /-- Gives a variable the values of another one. -/
  | assignFrom (target source : String)
  /-- Forgets a variable's values. -/
  | widen (target : String)
  | meet (target left right : String)
  | join (target left right : String)
  | meetAll (target : String) (sources : List String)
  | joinAll (target : String) (sources : List String)
  /-- The images under a function, which may fail. -/
  | map (target source : String) (f : Int → Except Fault Int)
  /-- The result of the arithmetic function with a name. -/
  | arith (target function : String) (args : List String)
  | copy (target source : String)

namespace VariableOp

open Registers (Action fetch store overwrite)

/-- What an operation does. -/
def act : VariableOp → Action Variable Unit
  | ofValues target values name sites => store target (.ofValues values name sites)
  | top target name sites => store target (.top name sites)
  | standIn target name payload sites => store target (.standIn name payload sites)
  | assign target values => do
    let v ← fetch target
    overwrite target (v.assign values)
  | assignFrom target source => do
    let v ← fetch target
    let w ← fetch source
    let v ← MonadExcept.ofExcept (v.assignSet w.values)
    overwrite target v
  | widen target => do
    let v ← fetch target
    overwrite target v.widen
  | meet target left right => do
    let v ← fetch left
    let w ← fetch right
    store target (v.meet w)
  | join target left right => do
    let v ← fetch left
    let w ← fetch right
    store target (v.join w)
  | meetAll target sources => do
    let l ← sources.mapM fetch
    store target (.meetAll l)
  | joinAll target sources => do
    let l ← sources.mapM fetch
    store target (.joinAll l)
  | map target source f => do
    let v ← fetch source
    let v ← MonadExcept.ofExcept (v.tryMap f)
    store target v
  | arith target function args => do
    let l ← args.mapM fetch
    let v ← MonadExcept.ofExcept (Variable.arith function (l.map (·.values)) Variable.resultName)
    store target v
  | copy target source => do
    let v ← fetch source
    store target v.copy

/-- The registers after some operations, of which any may fail. -/
def run (r : Registers Variable) (ops : List VariableOp) : Registers Variable :=
  ops.foldl (fun r op => (Registers.perform op.act r).2) r

end VariableOp

end TraceLift
