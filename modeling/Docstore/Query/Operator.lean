import Docstore.Opcode

set_option autoImplicit false

namespace Docstore

/-- What a group of conditions asks of its members. -/
inductive Connective
  | and
  | or
deriving DecidableEq

namespace Connective

def symbol : Connective → String
  | .and => "$and"
  | .or => "$or"

end Connective

/-- The operators that a predicate applies to the value at a path. -/
inductive Operator
  | eq | ne | gt | gte | lt | lte | isIn | notIn | all | size | present | near | within
deriving DecidableEq

/-- The shape of an operand. -/
inductive OperandShape
  | single
  | bound
  | list
  | area
deriving DecidableEq

namespace Operator

def every : List Operator :=
  [.eq, .ne, .gt, .gte, .lt, .lte, .isIn, .notIn, .all, .size, .present, .near, .within]

def symbol : Operator → String
  | .eq => "$eq"
  | .ne => "$ne"
  | .gt => "$gt"
  | .gte => "$gte"
  | .lt => "$lt"
  | .lte => "$lte"
  | .isIn => "$in"
  | .notIn => "$nin"
  | .all => "$all"
  | .size => "$size"
  | .present => "$exists"
  | .near => "$near"
  | .within => "$within"

def ofSymbol? (symbol : String) : Option Operator :=
  every.find? fun op => op.symbol == symbol

def shape : Operator → OperandShape
  | .eq | .ne | .size | .present => .single
  | .gt | .gte | .lt | .lte => .bound
  | .isIn | .notIn | .all => .list
  | .near | .within => .area

def opcode : Operator → Opcode
  | .eq => .eq
  | .ne => .ne
  | .gt => .gt
  | .gte => .gte
  | .lt => .lt
  | .lte => .lte
  | .isIn => .isIn
  | .notIn => .notIn
  | .all => .all
  | .size => .size
  | .present => .present
  | .near => .near
  | .within => .within

end Operator

/-- The operators that change the value at a path. -/
inductive MutationOperator
  | set | unset | inc | push | pushAll | pull | pullAll | pop
deriving DecidableEq

namespace MutationOperator

def every : List MutationOperator :=
  [.set, .unset, .inc, .push, .pushAll, .pull, .pullAll, .pop]

def symbol : MutationOperator → String
  | .set => "$set"
  | .unset => "$unset"
  | .inc => "$inc"
  | .push => "$push"
  | .pushAll => "$pushAll"
  | .pull => "$pull"
  | .pullAll => "$pullAll"
  | .pop => "$pop"

def ofSymbol? (symbol : String) : Option MutationOperator :=
  every.find? fun op => op.symbol == symbol

def opcode : MutationOperator → Opcode
  | .set => .set
  | .unset => .unset
  | .inc => .inc
  | .push => .push
  | .pushAll => .pushAll
  | .pull => .pull
  | .pullAll => .pullAll
  | .pop => .pop

/-- Whether the operator may create what its path names. -/
def creates : MutationOperator → Bool
  | .set | .inc | .push | .pushAll => true
  | _ => false

end MutationOperator
end Docstore
