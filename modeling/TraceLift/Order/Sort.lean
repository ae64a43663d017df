/-
# Stable sorting by a comparison

The list is cut into runs that are sorted already: a run in which no item is less than the one
before it is taken over as it is, a strictly descending one in reverse, and a run that is too
short is lengthened by inserting the items that follow it.  Neighbouring runs are then merged.
The order of the merges depends on the lengths of the runs only.  A merge takes items singly from
the two runs until one run has supplied many in a row; then it looks for the place of one run's
next item in the other by steps that double.

If the comparison is a strict weak order the result is the one stable arrangement.  If it is not,
the result is the one that this procedure gives, which is why the procedure is fixed in all its
steps.
-/

namespace TraceLift.Order

variable {α : Type}

/-! ## 1. Searching -/

/-- The first position between two others at which a condition fails, by halving, if it fails
from some position on; the first argument bounds the number of halvings. -/
def halve (p : Nat → Bool) : Nat → Nat → Nat → Nat
  | 0, _, high => high
  | fuel + 1, low, high =>
    if low < high then
      let middle := low + (high - low) / 2
      if p middle then halve p fuel (middle + 1) high else halve p fuel low middle
    else high

/-- Doubles a distance as long as it stays below a bound and a condition holds there; yields the
last distance at which it held and the next one. -/
def stride (p : Nat → Bool) (bound : Nat) : Nat → Nat → Nat → Nat × Nat
  | 0, held, distance => (held, min distance bound)
  | fuel + 1, held, distance =>
    if distance < bound && p distance then stride p bound fuel distance (2 * distance + 1)
    else (held, min distance bound)

/-- The first of `n` positions at which a condition fails, searched for from a hint on. -/
def gallop (p : Nat → Bool) (n hint : Nat) : Nat :=
  if p hint then
    let (held, next) := stride (fun k => p (hint + k)) (n - hint) n 0 1
    halve p n (hint + held + 1) (hint + next)
  else
    let (held, next) := stride (fun k => !p (hint - k)) (hint + 1) n 0 1
    halve p n (hint + 1 - next) (hint - held)

/-- Whether the item at a position is less than another. -/
def lessAt (lt : α → α → Bool) (items : Array α) (x : α) (i : Nat) : Bool :=
  match items[i]? with
  | some y => lt y x
  | none => false

/-- Whether the item at a position is not greater than another. -/
def notGreaterAt (lt : α → α → Bool) (items : Array α) (x : α) (i : Nat) : Bool :=
  match items[i]? with
  | some y => !lt x y
  | none => false

/-! ## 2. Runs -/

/-- The longest run at the head of a list in which no item is less than the one before it. -/
def ascendingRun (lt : α → α → Bool) : α → List α → List α × List α
  | _, [] => ([], [])
  | a, b :: l =>
    if lt b a then ([], b :: l)
    else
      let (run, rest) := ascendingRun lt b l
      (b :: run, rest)

/-- The longest run at the head of a list in which each item is less than the one before it. -/
def descendingRun (lt : α → α → Bool) : α → List α → List α × List α
  | _, [] => ([], [])
  | a, b :: l =>
    if lt b a then
      let (run, rest) := descendingRun lt b l
      (b :: run, rest)
    else ([], b :: l)

/-- The run at the head of a list, in ascending order, and the rest of the list. -/
def headRun (lt : α → α → Bool) : List α → List α × List α
  | [] => ([], [])
  | [a] => ([a], [])
  | a :: b :: l =>
    if lt b a then
      let (run, rest) := descendingRun lt a (b :: l)
      ((a :: run).reverse, rest)
    else
      let (run, rest) := ascendingRun lt a (b :: l)
      (a :: run, rest)

/-- Inserts an item into a sorted list, behind the items that are not greater. -/
def insertByHalving (lt : α → α → Bool) (sorted : List α) (x : α) : List α :=
  let i := halve (notGreaterAt lt sorted.toArray x) (sorted.length + 1) 0 sorted.length
  sorted.take i ++ x :: sorted.drop i

/-- A number halved until it is below 64, and one more if a remainder was dropped. -/
def leastRunFrom (dropped n : Nat) : Nat :=
  if n < 64 then n + dropped else leastRunFrom (max dropped (n % 2)) (n / 2)
termination_by n

/-- The least length of a run in a list of `n` items. -/
def leastRun (n : Nat) : Nat := leastRunFrom 0 n

/-! ## 3. Merging two runs -/

/-- How many items in a row one run has to supply for the search by doubling to pay. -/
def manyInARow : Nat := 7

/-- How a merge goes on: item by item, with the number of items that each run supplied last in a
row, or by searching, for the first time or again. -/
inductive Pace where
  | single (fromFirst fromSecond : Nat)
  | search (again : Bool)

/-- The pace after an item from the first run. -/
def Pace.afterFirst (patience i : Nat) : Pace :=
  if patience ≤ i + 1 then search false else single (i + 1) 0

/-- The pace after an item from the second run. -/
def Pace.afterSecond (patience j : Nat) : Pace :=
  if patience ≤ j + 1 then search false else single 0 (j + 1)

/-- The patience during a search: each further search makes it easier to start the next one. -/
def searchPatience (again : Bool) (patience : Nat) : Nat :=
  if again then max 1 (patience - 1) else patience

/-- Merges two runs from their least items on.  `done` holds the merged items, the last one first,
and `patience` is how many items in a row switch to searching.  The last item of the first run is
known to come last.  Yields the merged run and the patience left. -/
def mergeUp (lt : α → α → Bool) :
    Nat → Nat → Pace → List α → List α → List α → List α × Nat
  | 0, patience, _, a, b, done => (done.reverse ++ a ++ b, patience)
  | fuel + 1, patience, pace, a, b, done =>
    match a, b with
    | [], b => (done.reverse ++ b, patience)
    | a, [] => (done.reverse ++ a, patience)
    | [x], b => (done.reverse ++ b ++ [x], patience)
    | x :: a, y :: b =>
      match pace with
      | .single i j =>
        if lt y x then mergeUp lt fuel patience (.afterSecond patience j) (x :: a) b (y :: done)
        else mergeUp lt fuel patience (.afterFirst patience i) a (y :: b) (x :: done)
      | .search again =>
        let patience := searchPatience again patience
        let i := gallop (notGreaterAt lt (x :: a).toArray y) (x :: a).length 0
        let done := ((x :: a).take i).reverse ++ done
        match (x :: a).drop i with
        | [] => (done.reverse ++ (y :: b), patience)
        | [x] => (done.reverse ++ (y :: b) ++ [x], patience)
        | x :: a =>
          let j := if b.isEmpty then 0 else gallop (lessAt lt b.toArray x) b.length 0
          let done := (b.take j).reverse ++ (y :: done)
          match b.drop j, a with
          | [], a => (done.reverse ++ (x :: a), patience)
          | b, [z] => ((x :: done).reverse ++ b ++ [z], patience)
          | b, a =>
            if manyInARow ≤ i || manyInARow ≤ j then
              mergeUp lt fuel patience (.search true) a b (x :: done)
            else mergeUp lt fuel (patience + 1) (.single 0 0) a b (x :: done)

/-- Merges two runs, which are given in reverse, from their greatest items on.  `done` holds the
merged items, the first one first.  The first item of the second run is known to come first. -/
def mergeDown (lt : α → α → Bool) :
    Nat → Nat → Pace → List α → List α → List α → List α × Nat
  | 0, patience, _, a, b, done => (a.reverse ++ b.reverse ++ done, patience)
  | fuel + 1, patience, pace, a, b, done =>
    match a, b with
    | [], b => (b.reverse ++ done, patience)
    | a, [] => (a.reverse ++ done, patience)
    | a, [y] => (y :: a.reverse ++ done, patience)
    | x :: a, y :: b =>
      match pace with
      | .single i j =>
        if lt y x then mergeDown lt fuel patience (.afterFirst patience i) a (y :: b) (x :: done)
        else mergeDown lt fuel patience (.afterSecond patience j) (x :: a) b (y :: done)
      | .search again =>
        let patience := searchPatience again patience
        let n := (x :: a).length
        let i := n - gallop (notGreaterAt lt (x :: a).reverse.toArray y) n (n - 1)
        let done := ((x :: a).take i).reverse ++ done
        match (x :: a).drop i, b with
        | [], b => ((y :: b).reverse ++ done, patience)
        | a, [z] => (z :: a.reverse ++ (y :: done), patience)
        | x :: a, b =>
          let m := b.length
          let j := m - gallop (lessAt lt b.reverse.toArray x) m (m - 1)
          let done := (b.take j).reverse ++ (y :: done)
          match b.drop j, a with
          | [], a => ((x :: a).reverse ++ done, patience)
          | [z], a => (z :: (x :: a).reverse ++ done, patience)
          | b, [] => (b.reverse ++ (x :: done), patience)
          | b, a =>
            if manyInARow ≤ i || manyInARow ≤ j then
              mergeDown lt fuel patience (.search true) a b (x :: done)
            else mergeDown lt fuel (patience + 1) (.single 0 0) a b (x :: done)

/-- Merges two neighbouring runs.  Items of the first that come before all of the second stay
where they are, and so do items of the second that come after all of the first; what is left is
merged from the end of the shorter one on. -/
def merge (lt : α → α → Bool) (patience : Nat) (a b : List α) : List α × Nat :=
  match b with
  | [] => (a, patience)
  | y :: _ =>
    let k := gallop (notGreaterAt lt a.toArray y) a.length 0
    let before := a.take k
    let a := a.drop k
    match a.reverse with
    | [] => (before ++ b, patience)
    | x :: ra =>
      let m := gallop (lessAt lt b.toArray x) b.length (b.length - 1)
      let after := b.drop m
      let b := b.take m
      let fuel := a.length + b.length + 1
      match b with
      | [] => (before ++ a ++ after, patience)
      | y :: rest =>
        let (merged, patience) :=
          if a.length ≤ b.length then mergeUp lt fuel patience (.single 0 0) a rest [y]
          else mergeDown lt fuel patience (.single 0 0) ra b.reverse [x]
        (before ++ merged ++ after, patience)

/-! ## 4. Which runs are merged -/

/-- A run that waits to be merged. -/
structure Waiting (α : Type) where
  /-- Where the run starts in the list. -/
  start : Nat
  run : List α
  /-- The depth, in the tree that halves the list, of the node between this run and the next. -/
  depth : Nat := 0

/-- The number of binary digits up to the first in which two fractions of `n` differ. -/
def splitDepth (n : Nat) : Nat → Nat → Nat → Nat → Nat
  | 0, depth, _, _ => depth
  | fuel + 1, depth, a, b =>
    if n ≤ a then splitDepth n fuel (depth + 1) (2 * (a - n)) (2 * (b - n))
    else if n ≤ b then depth + 1
    else splitDepth n fuel (depth + 1) (2 * a) (2 * b)

/-- The depth of the node between a run and the one of a given length that follows it. -/
def Waiting.depthBefore (w : Waiting α) (length n : Nat) : Nat :=
  let a := 2 * w.start + w.run.length
  splitDepth n (n + 1) 0 a (a + w.run.length + length)

/-- The runs that wait, the last one first, and the patience of their merges. -/
structure Merging (α : Type) where
  waiting : List (Waiting α) := []
  patience : Nat := manyInARow

/-- Merges the last two runs as long as the node between them lies deeper than a given depth. -/
def Merging.closeTo (lt : α → α → Bool) (depth : Nat) : Nat → Merging α → Merging α
  | 0, m => m
  | fuel + 1, m =>
    match m.waiting with
    | b :: a :: rest =>
      if depth < a.depth then
        let (run, patience) := merge lt m.patience a.run b.run
        closeTo lt depth fuel { waiting := { a with run } :: rest, patience }
      else m
    | _ => m

/-- Adds a run, after merging those that are to be merged before it. -/
def Merging.add (lt : α → α → Bool) (n : Nat) (m : Merging α) (start : Nat) (run : List α) :
    Merging α :=
  match m.waiting with
  | [] => { m with waiting := [{ start, run }] }
  | w :: _ =>
    let depth := w.depthBefore run.length n
    let m := m.closeTo lt depth m.waiting.length
    match m.waiting with
    | [] => { m with waiting := [{ start, run }] }
    | w :: rest => { m with waiting := { start, run } :: { w with depth } :: rest }

/-- Merges all runs that wait, from the last ones on; the two before the last are merged first if
the first of them is shorter than the last. -/
def Merging.close (lt : α → α → Bool) : Nat → Merging α → List α
  | 0, m => (m.waiting.reverse.map (·.run)).flatten
  | fuel + 1, m =>
    match m.waiting with
    | [] => []
    | [w] => w.run
    | [b, a] => (merge lt m.patience a.run b.run).1
    | c :: b :: a :: rest =>
      if a.run.length < c.run.length then
        let (run, patience) := merge lt m.patience a.run b.run
        close lt fuel { waiting := c :: { a with run } :: rest, patience }
      else
        let (run, patience) := merge lt m.patience b.run c.run
        close lt fuel { waiting := { b with run } :: a :: rest, patience }

/-! ## 5. Sorting -/

/-- Adds the runs of the rest of a list of `n` items, each of them lengthened if it is short. -/
def addRuns (lt : α → α → Bool) (n : Nat) : Nat → Merging α → List α → Merging α
  | 0, m, _ => m
  | _ + 1, m, [] => m
  | fuel + 1, m, l =>
    let (run, rest) := headRun lt l
    let missing := leastRun n - run.length
    let run := (rest.take missing).foldl (insertByHalving lt) run
    addRuns lt n fuel (m.add lt n (n - l.length) run) (rest.drop missing)

/-- Sorts a list by a comparison. -/
def sortBy (lt : α → α → Bool) (l : List α) : List α :=
  let n := l.length
  let m := addRuns lt n n {} l
  m.close lt m.waiting.length

end TraceLift.Order
