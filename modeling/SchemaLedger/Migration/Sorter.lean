import SchemaLedger.Value

set_option autoImplicit false

/-!
# Topological sorter

Names that wait for others. A sorter counts for each name the predecessors that are not done. Names
that wait for nothing are ready; they are handed out all at once, and when one of them is done its
successors wait for one less. If the names wait for each other in a circle, a depth-first search along
the successors finds it first.
-/
namespace SchemaLedger

structure Sorter.Node where
  /-- How many predecessors are not done, or what has become of the name. -/
  waiting : Int := 0
  /-- The names that wait for this one, as often as they do. -/
  successors : List String := []

structure Sorter where
  /-- In the order in which the names were first mentioned. -/
  nodes : List (String × Sorter.Node) := []
  ready : List String := []
  handedOut : Nat := 0
  finished : Nat := 0

namespace Sorter

/-- The count of a name that was handed out. -/
def isOut : Int := -1

/-- The count of a name that is done. -/
def isDone : Int := -2

def names (s : Sorter) : List String := s.nodes.map (·.1)

def node (s : Sorter) (name : String) : Node := (Entries.get? name s.nodes).getD {}

/-- Changes what is known of a name; a name that is not known yet goes to the end. -/
def change (s : Sorter) (name : String) (f : Node → Node) : Sorter :=
  { s with nodes := Entries.put name (f (s.node name)) s.nodes }

def follow (s : Sorter) (name predecessor : String) : Sorter :=
  s.change predecessor fun n => { n with successors := n.successors ++ [name] }

/-- A name that waits for others, which become known with it. -/
def add (s : Sorter) (name : String) (predecessors : List String) : Sorter :=
  predecessors.foldl (follow · name)
    (s.change name fun n => { n with waiting := n.waiting + predecessors.length })

/-- A sorter for names, each with its predecessors. -/
def ofPredecessors (adds : List (String × List String)) : Sorter :=
  adds.foldl (fun s a => s.add a.1 a.2) {}

/-! ## Circles -/

/-- Follows successors from `node`. `trail` is the way there, last step first, and `seen` holds what
needs no second visit. The answer is the new `seen`, or the circle that was closed. A trail has no
name twice, so a search that may take one step more than there are names is never cut short; if it
were, there would be no circle to show. -/
def explore (s : Sorter) : Nat → List String → List String → String →
    Except (List String) (List String)
  | 0, _, _, _ => .error []
  | fuel + 1, trail, seen, node =>
    if node ∈ seen then
      if node ∈ trail then .error ((trail.reverse.dropWhile (· ≠ node)) ++ [node]) else .ok seen
    else
      (s.node node).successors.foldlM (explore s fuel (node :: trail)) (node :: seen)

/-- Goes through all names; the error is a circle. -/
def search (s : Sorter) : Except (List String) (List String) :=
  s.names.foldlM (explore s (s.names.length + 1) []) []

/-! ## Progress -/

/-- The sorter with its first names ready, unless some names wait for each other. -/
def prepare (s : Sorter) : Except (List String) Sorter := do
  let _ ← s.search
  .ok { s with ready := (s.nodes.filter (·.2.waiting = 0)).map (·.1) }

/-- The sorter once its ready names have been handed out. -/
def handOut (s : Sorter) : Sorter :=
  { s.ready.foldl (fun s name => s.change name fun n => { n with waiting := isOut }) s with
    ready := [], handedOut := s.handedOut + s.ready.length }

def isActive (s : Sorter) : Bool := s.finished < s.handedOut || !s.ready.isEmpty

/-- One predecessor less to wait for. -/
def release (s : Sorter) (name : String) : Sorter :=
  let waiting := (s.node name).waiting - 1
  let s := s.change name fun n => { n with waiting }
  if waiting = 0 then { s with ready := s.ready ++ [name] } else s

/-- Marks a name as done. Nothing if it was not handed out, or is done already. -/
def finish? (s : Sorter) (name : String) : Option Sorter :=
  if (s.node name).waiting = isOut then
    let released := (s.node name).successors.foldl release
      (s.change name fun n => { n with waiting := isDone })
    some { released with finished := released.finished + 1 }
  else none

/-- Hands out what is ready, batch by batch in the order that `arrange` gives it, until nothing is
left to do. Nothing if that does not happen within the given number of batches. -/
def drain? (arrange : List String → List String) : Nat → Sorter → Option (List String)
  | 0, s => if s.isActive then none else some []
  | fuel + 1, s =>
    if s.isActive then do
      let batch := arrange s.ready
      let next ← batch.foldlM finish? s.handOut
      let rest ← drain? arrange fuel next
      some (batch ++ rest)
    else some []

end Sorter

end SchemaLedger
