import StepGraph.Json.Value

/-!
# Conditions of branch paths

A branch path is taken when its conditions hold, all of them or any of them.  A condition compares a
field with a value through an operator.

Operators are names.  Six of them have an older name, which is read as the current one; every other
name, known or not, is kept as it is, since only the engine that runs a workflow interprets it.
-/

namespace StepGraph

/-! ## Operators -/

namespace Operator

/-- The current name of an operator that may be given by its older name. -/
def currentName : String → String
  | "equals" => "eq"
  | "notEquals" => "neq"
  | "greaterThan" => "gt"
  | "greaterThanOrEqual" => "gte"
  | "lessThan" => "lt"
  | "lessThanOrEqual" => "lte"
  | name => name

/-- A current name stays as it is. -/
theorem currentName_currentName (name : String) :
    currentName (currentName name) = currentName name := by
  rw [currentName.eq_def name]
  split
  all_goals first | rfl | (simp only [currentName])

/-- The current names of the operators an editor offers. -/
def knownNames : List String :=
  ["eq", "neq", "gt", "gte", "lt", "lte", "contains", "notContains", "startsWith", "endsWith",
    "isEmpty", "isNotEmpty"]

end Operator

/-- An operator, under its current name. -/
structure Operator where
  name : String
  isCurrent : Operator.currentName name = name
deriving DecidableEq

namespace Operator

/-- The operator of a name, current or older. -/
def ofName (name : String) : Operator := ⟨currentName name, currentName_currentName name⟩

/-- Reading an operator's name gives the operator. -/
@[simp] theorem ofName_name (operator : Operator) : ofName operator.name = operator := by
  cases operator with
  | mk name h => simp [ofName, h]

/-- Whether an editor offers the operator. -/
def isKnown (operator : Operator) : Bool := knownNames.contains operator.name

/-- Whether the operator compares with a value: the two tests for emptiness do not. -/
def takesValue (operator : Operator) : Bool :=
  operator.name != "isEmpty" && operator.name != "isNotEmpty"

end Operator

/-! ## Conditions -/

/-- A test of one field. -/
structure Condition where
  field : String
  operator : Operator
  value : Option Value
deriving DecidableEq

/-- A condition as an editor makes it: an operator that takes no value is given none. -/
def Condition.make (field : String) (operator : Operator) (value : Option Value) : Condition :=
  ⟨field, operator, if operator.takesValue then value else none⟩

/-- How the conditions of a path are combined. -/
inductive ConditionLogic where
  | all
  | any
deriving DecidableEq, Inhabited

/-- The written form of a combination. -/
def ConditionLogic.text : ConditionLogic → String
  | .all => "AND"
  | .any => "OR"

/-- The combination of a written form, in capitals or not. -/
def ConditionLogic.ofText? : String → Option ConditionLogic
  | "AND" | "and" => some .all
  | "OR" | "or" => some .any
  | _ => none

/-- An outgoing path of a branch node. -/
structure BranchPath where
  name : String
  conditions : List Condition
  logic : ConditionLogic
  /-- The step the path leads to, as far as the editor has noted it. -/
  target : Option String
deriving DecidableEq

namespace BranchPath

/-- A path without conditions that leads nowhere yet. -/
def ofName (name : String) : BranchPath := ⟨name, [], .all, none⟩

/-- Whether the path has a condition. -/
def hasConditions (path : BranchPath) : Bool := !path.conditions.isEmpty

end BranchPath

end StepGraph
