import Docstore.Json.Text
import Docstore.Query.Operator

set_option autoImplicit false

namespace Docstore

/-- The identity of a document in its collection. -/
abbrev DocId := UInt64

/-- Why a predicate or the conditions of a query are malformed. -/
inductive QueryFault
  | predicateNotObject
  | unknownTopLevel (symbol : String)
  | groupNotArray (group : Connective)
  | groupTooSmall (group : Connective)
  | groupInItself (group : Connective)
  | groupItemEmpty (group : Connective)
  | groupItemNotObject (group : Connective)
  | mixedFields (attr : String)
  | misplacedAttribute (attr : String)
  | groupInAttribute (symbol attr : String)
  | unknownOperator (symbol : String)
  | operandNotArray (symbol attr : String)
  | sizeNotCount (attr : String)
  | presenceNotBoolean (attr : String)
  | operandNotArea (symbol attr : String)
  | conditionsNotObject
  | sortDirection (path : String)
  | limitNotCount
  | malformedCondition (name : String)
  | unknownCondition (name : String)

/-- Why a machine operation, or a mutation, fails. -/
inductive ExecutionFault
  | stackUnderflow
  | notBoolean
  | notDocuments
  | noCurrentDocument
  | outsideMutatePhase
  | noProgram
  | pointerOutOfBounds (pointer : Nat)
  | noIndex (position : Nat)
  | otherCollection (target name : String)
  | unknownOpcode (byte : Nat)
  | noRangeLookups (index : String)
  | fixedIdentity
  | operandNotArray
  | operandNotNumber
  | operandNotUnit
  | targetNotNumber
  | integerOverflow
  | sumNotFinite
  | targetNotArray (path : String)
  | stepLimit

/-- Why a query or a mutation cannot become a program. -/
inductive CompileFault
  | mutationNotObject (mutation : Json)
  | unknownMutation (symbol : String) (mutation : Json)
  | pathsNotObject (symbol : String) (mutation : Json)
  | badMutation (opcode : Opcode) (fault : ExecutionFault) (mutation : Json)
  | misplacedLookup (index : String)
  | emptyAlternative

inductive DocumentFault
  | notObject
  | identityNotCount
  | duplicateIdentity (id : DocId)

/-- Why a text is not a count. -/
inductive CountFault
  | empty
  | invalidDigit
  | tooLarge

inductive ConfigFault
  | orderTooSmall (order : Nat)
  | thresholdOutOfRange (order threshold : Nat)
  | noProgramCapacity
  | treeOrderTooSmall (order : Nat)
  | treeThresholdOutOfRange (order threshold : Nat)
  | noAttributes
  | notCount (name : String) (fault : CountFault)
  | notBoolean (name text : String)

/-- How the pages of a tree can fail to be a tree. -/
inductive PageFault
  | dangling (page : Nat)
  | notLeaf (page : Nat)
  | notBranch (page : Nat)
  | noSeparator (page : Nat)
  | noChild (page slot : Nat)
  | noSibling (page : Nat)
  | endlessChain
  | sizeOutOfBounds (page size : Nat)
  | entriesOutOfOrder (page : Nat)
  | separatorCount (page : Nat)
  | unevenDepth (page : Nat)
  | separatorNotMinimum (page slot : Nat)
  | childOverlaps (page slot : Nat)
  | wrongLinks (page : Nat)
  | wrongCount (size entries : Nat)

inductive Error
  | query (fault : QueryFault) (source : Json)
  | compile (fault : CompileFault)
  | execution (operation : String) (fault : ExecutionFault)
  | damagedTree (fault : PageFault)
  | collectionNotFound (name : String)
  | collectionExists (name : String)
  | indexExists (collection index : String)
  | documentNotFound (id : DocId)
  | invalidDocument (fault : DocumentFault)
  | invalidConfig (fault : ConfigFault)
  | unreadableConfig
  | clauseOutOfRange
  | noRoom (capacity : Nat)
  | unrankedValues

def quote (text : String) : String := "'" ++ text ++ "'"

def QueryFault.message : QueryFault → String
  | .predicateNotObject => "predicate must be an object"
  | .unknownTopLevel symbol => "unknown top-level operator " ++ quote symbol
  | .groupNotArray group => group.symbol ++ " requires an array"
  | .groupTooSmall group => group.symbol ++ " requires at least 2 sub-expressions"
  | .groupInItself group => group.symbol ++ " cannot nest directly inside " ++ group.symbol
  | .groupItemEmpty group => group.symbol ++ " sub-expressions must not be empty"
  | .groupItemNotObject group => group.symbol ++ " sub-expressions must be objects"
  | .mixedFields attr => quote attr ++ " mixes operators and plain fields"
  | .misplacedAttribute attr => "attribute table out of sync for " ++ quote attr
  | .groupInAttribute symbol attr =>
    symbol ++ " is not allowed inside attribute " ++ quote attr
  | .unknownOperator symbol => "unknown operator " ++ quote symbol
  | .operandNotArray symbol attr => symbol ++ " on " ++ quote attr ++ " requires an array"
  | .sizeNotCount attr => "$size on " ++ quote attr ++ " requires a non-negative integer"
  | .presenceNotBoolean attr => "$exists on " ++ quote attr ++ " requires a boolean"
  | .operandNotArea symbol attr =>
    symbol ++ " on " ++ quote attr ++ " requires numeric lat, lon and distance"
  | .conditionsNotObject => "query conditions must be an object"
  | .sortDirection path => "sort direction for " ++ quote path ++ " must be 1 or -1"
  | .limitNotCount => "limit must be a non-negative integer"
  | .malformedCondition name => "malformed " ++ quote name ++ " condition"
  | .unknownCondition name => "unknown condition " ++ quote name

def upperHexDigit (n : Nat) : Char :=
  if n < 10 then Char.ofNat (48 + n) else Char.ofNat (55 + n)

def ExecutionFault.message : ExecutionFault → String
  | .stackUnderflow => "stack underflow"
  | .notBoolean => "expected a boolean"
  | .notDocuments => "expected a document array"
  | .noCurrentDocument => "register 1 is empty"
  | .outsideMutatePhase => "mutation outside the mutate phase"
  | .noProgram => "no program loaded"
  | .pointerOutOfBounds pointer =>
    "instruction pointer " ++ toString pointer ++ " out of bounds"
  | .noIndex position => "no index at position " ++ toString position
  | .otherCollection target name =>
    "program targets " ++ quote target ++ ", not " ++ quote name
  | .unknownOpcode byte =>
    "unknown opcode 0x" ++ String.ofList [upperHexDigit (byte / 16), upperHexDigit (byte % 16)]
  | .noRangeLookups index => "hash index " ++ quote index ++ " cannot serve range lookups"
  | .fixedIdentity => "_id cannot be modified"
  | .operandNotArray => "operand must be an array"
  | .operandNotNumber => "operand must be a number"
  | .operandNotUnit => "operand must be 1 or -1"
  | .targetNotNumber => "target is not a number"
  | .integerOverflow => "integer overflow"
  | .sumNotFinite => "result is not a finite number"
  | .targetNotArray path => quote path ++ " is not an array"
  | .stepLimit => "step limit reached"

def executionMessage (operation : String) (fault : ExecutionFault) : String :=
  "execution error in " ++ quote operation ++ ": " ++ fault.message

def compileMessage (reason context : String) : String :=
  "compile error: " ++ reason ++ "\nContext: " ++ context

def CompileFault.message : CompileFault → String
  | .mutationNotObject mutation => compileMessage "mutate must be an object" mutation.text
  | .unknownMutation symbol mutation =>
    compileMessage ("unknown mutate operator " ++ quote symbol) mutation.text
  | .pathsNotObject symbol mutation =>
    compileMessage (symbol ++ " expects an object of paths") mutation.text
  | .badMutation opcode fault mutation =>
    compileMessage (executionMessage opcode.mnemonic fault) mutation.text
  | .misplacedLookup index => compileMessage "index lookups must lead the query" index
  | .emptyAlternative => "empty predicate inside $or"

def DocumentFault.message : DocumentFault → String
  | .notObject => "document must be a JSON object"
  | .identityNotCount => "_id must be a non-negative integer"
  | .duplicateIdentity id => "duplicate _id " ++ toString id.toNat

def CountFault.message : CountFault → String
  | .empty => "cannot parse integer from empty string"
  | .invalidDigit => "invalid digit found in string"
  | .tooLarge => "number too large to fit in target type"

def thresholdMessage (name : String) (order threshold : Nat) : String :=
  name ++ " must be in 1..=" ++ toString (order / 2) ++ ", got " ++ toString threshold

def ConfigFault.message : ConfigFault → String
  | .orderTooSmall order => "tree_order must be >= 3, got " ++ toString order
  | .thresholdOutOfRange order threshold => thresholdMessage "merge_threshold" order threshold
  | .noProgramCapacity => "program_cache_capacity must be > 0 when caching is enabled"
  | .treeOrderTooSmall order => "tree order must be >= 3, got " ++ toString order
  | .treeThresholdOutOfRange order threshold => thresholdMessage "merge threshold" order threshold
  | .noAttributes => "an index needs at least one attribute"
  | .notCount name fault => name ++ ": " ++ fault.message
  | .notBoolean name text => name ++ ": expected a boolean, got " ++ quote text

def PageFault.message : PageFault → String
  | .dangling page => "dangling node handle " ++ toString page
  | .notLeaf page => "node " ++ toString page ++ " is not a leaf node"
  | .notBranch page => "node " ++ toString page ++ " is not an interior node"
  | .noSeparator page => "interior node " ++ toString page ++ " has no separator to promote"
  | .noChild page slot =>
    "interior node " ++ toString page ++ " has no child at slot " ++ toString slot
  | .noSibling page => "node " ++ toString page ++ " underflows but has no sibling to merge with"
  | .endlessChain => "the leaf chain does not end"
  | .sizeOutOfBounds page size =>
    "node " ++ toString page ++ " has size " ++ toString size ++ " outside bounds"
  | .entriesOutOfOrder page => "leaf " ++ toString page ++ " entries out of order"
  | .separatorCount page =>
    "interior " ++ toString page ++ " does not have one key less than children"
  | .unevenDepth page => "leaves under " ++ toString page ++ " at unequal depth"
  | .separatorNotMinimum page slot =>
    "interior " ++ toString page ++ ": separator " ++ toString slot ++
      " is not the minimum of its child"
  | .childOverlaps page slot =>
    "interior " ++ toString page ++ ": child " ++ toString slot ++ " overlaps its separator"
  | .wrongLinks page => "leaf " ++ toString page ++ " has wrong links"
  | .wrongCount size entries =>
    "len() is " ++ toString size ++ " but leaves hold " ++ toString entries ++ " entries"

namespace Error

def message : Error → String
  | .query fault source => "query parse error: " ++ fault.message ++ "\nQuery: " ++ source.text
  | .compile fault => fault.message
  | .execution operation fault => executionMessage operation fault
  | .damagedTree fault => "index tree corrupted: " ++ fault.message
  | .collectionNotFound name => "collection " ++ quote name ++ " not found"
  | .collectionExists name => "collection " ++ quote name ++ " already exists"
  | .indexExists collection index =>
    "index " ++ quote index ++ " already exists on collection " ++ quote collection
  | .documentNotFound id => "document " ++ toString id.toNat ++ " not found"
  | .invalidDocument fault => "invalid document: " ++ fault.message
  | .invalidConfig fault => "invalid config: " ++ fault.message
  | .unreadableConfig => "serialization error"
  | .clauseOutOfRange => "an index lookup removes a clause that is not there"
  | .noRoom capacity => "no room for " ++ toString capacity ++ " entries"
  | .unrankedValues => "the values to sort by are not totally ordered"

/-- A breakdown: what was going on is left as it stands, and nobody is told. -/
def isBreakdown : Error → Bool
  | .clauseOutOfRange | .noRoom _ | .unrankedValues => true
  | _ => false

/-- A failure of a machine operation. -/
def inOpcode (opcode : Opcode) (fault : ExecutionFault) : Error :=
  .execution opcode.mnemonic fault

end Error

/-- The operation of a byte. -/
def Opcode.decode (byte : Nat) : Except Error Opcode :=
  match Opcode.ofByte? byte with
  | some opcode => .ok opcode
  | none => .error (.execution "decode" (.unknownOpcode byte))

end Docstore
