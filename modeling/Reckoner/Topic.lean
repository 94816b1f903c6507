import Reckoner.Memory

/-!
# What a statement is about

Every statement belongs to the first topic, in the order of their priorities, whose condition it
meets. The last topic takes everything, so there always is one.
-/

namespace Reckoner

/-- What a statement is about. -/
inductive Topic where
  /-- It recalls earlier results. -/
  | history
  /-- It binds a name or mentions a bound one. -/
  | binding
  | percentage
  /-- It has a quantity or a conversion. -/
  | unit
  | math
deriving DecidableEq, Repr

namespace Topic

/-- The topics by ascending priority. -/
def all : List Topic := [history, binding, percentage, unit, math]

/-- The name that answers carry. -/
def text : Topic → String
  | history => "history"
  | binding => "variable"
  | percentage => "percentage"
  | unit => "unit"
  | math => "math"

/-- The rank of a topic; a lower one comes first. -/
def priority : Topic → Nat
  | history => 10
  | binding => 20
  | percentage => 30
  | unit => 40
  | math => 50

/-- Whether an expression recalls earlier results, leaving aside those inside it. -/
def isRecall : Expr → Bool
  | .earlier _ => true
  | _ => false

/-- Whether an expression mentions a bound name, leaving aside those inside it. -/
def mentionsBound (m : Memory) : Expr → Bool
  | .name word | .quantity _ word => m.bindings.contains word
  | _ => false

/-- Whether an expression is a percentage, leaving aside those inside it. -/
def isPercentage : Expr → Bool
  | .percent _ | .percentOf _ _ => true
  | _ => false

/-- Whether an expression is a quantity, leaving aside those inside it. -/
def isQuantity : Expr → Bool
  | .quantity _ _ => true
  | _ => false

/-- The condition of a topic. -/
def covers (m : Memory) (st : Statement) : Topic → Bool
  | history => st.expression.any isRecall
  | binding => st.assignment.isSome || st.expression.any (mentionsBound m)
  | percentage => st.expression.any isPercentage
  | unit => st.conversion.isSome || st.expression.any isQuantity
  | math => true

def ofStatement (m : Memory) (st : Statement) : Topic := (all.find? (covers m st)).getD math

theorem pairwise_priority_all : all.Pairwise (fun s t => s.priority < t.priority) := by decide

theorem covers_ofStatement (m : Memory) (st : Statement) :
    covers m st (ofStatement m st) = true := by
  unfold ofStatement
  cases h : all.find? (covers m st) with
  | none => rfl
  | some t => exact List.find?_some h

end Topic

end Reckoner
