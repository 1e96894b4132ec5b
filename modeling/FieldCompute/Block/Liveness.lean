import FieldCompute.Block
/-!
# Dead code

A statement is live if it has an effect or a live statement mentions it. `dropDead` keeps the live
statements in their order and renumbers what they mention.
-/

namespace FieldCompute.Block

/-- The positions mentioned by the live statements from position `id` on. Statements are looked at
from the last to the first, so a mention counts for the statements before it. -/
def marks : List Stmt → StmtId → List StmtId
  | [], _ => []
  | s :: rest, id =>
    let later := marks rest (id + 1)
    if s.hasEffect || id ∈ later then s.operands ++ later else later

/-- Whether the statement `s` at position `id` is live, given all marks of the block. -/
def isLive (marked : List StmtId) (s : Stmt) (id : StmtId) : Bool := s.hasEffect || id ∈ marked

/-- The live statements with their positions. -/
def survivors (b : Block) : List (Stmt × StmtId) :=
  let marked := marks b 0
  b.zipIdx.filter fun (s, id) => isLive marked s id

/-- The new position of a survivor: how many survivors stand before it. A position that no survivor
has stays as it is. -/
def newPosition (kept : List StmtId) (id : StmtId) : StmtId :=
  if id ∈ kept then kept.countP (· < id) else id

/-- The block without its dead statements. A statement's mentions of itself or of later ones are
not renumbered. -/
def dropDead (b : Block) : Block :=
  let live := b.survivors
  let kept := live.map (·.2)
  live.map fun (s, id) => s.mapOperands fun o => if o < id then newPosition kept o else o

end FieldCompute.Block
