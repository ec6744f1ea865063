import Docstore.Error
import Docstore.Json.Reader
import Docstore.Text.Blank
import Docstore.Text.Lowercase

set_option autoImplicit false

namespace Docstore

structure Config where
  treeOrder : Nat
  mergeThreshold : Option Nat
  lookupCapacity : Nat
  programCapacity : Nat
  cachePrograms : Bool
deriving DecidableEq

namespace Config

def default : Config := ⟨32, none, 64, 256, true⟩

/-- The fewest entries of a leaf: half the order unless it is set. -/
def effectiveThreshold (config : Config) : Nat :=
  config.mergeThreshold.getD (config.treeOrder / 2)

/-- Refuses what no tree and no cache can work with. -/
def validate (config : Config) : Except ConfigFault Unit :=
  if config.treeOrder < 3 then .error (.orderTooSmall config.treeOrder)
  else if config.effectiveThreshold = 0 ∨ config.treeOrder / 2 < config.effectiveThreshold then
    .error (.thresholdOutOfRange config.treeOrder config.effectiveThreshold)
  else if config.cachePrograms ∧ config.programCapacity = 0 then .error .noProgramCapacity
  else .ok ()

def validated (config : Config) : Except Error Config :=
  match config.validate with
  | .ok () => .ok config
  | .error fault => .error (.invalidConfig fault)

inductive Setting
  | treeOrder
  | mergeThreshold
  | lookupCapacity
  | programCapacity
  | cachePrograms
deriving DecidableEq

/-- The settings in the order in which an array gives them. -/
def Setting.every : List Setting :=
  [.treeOrder, .mergeThreshold, .lookupCapacity, .programCapacity, .cachePrograms]

def Setting.name : Setting → String
  | .treeOrder => "tree_order"
  | .mergeThreshold => "merge_threshold"
  | .lookupCapacity => "lookup_cache_capacity"
  | .programCapacity => "program_cache_capacity"
  | .cachePrograms => "cache_programs"

def Setting.ofName? (name : String) : Option Setting :=
  every.find? fun setting => setting.name == name

/-- Sets what a value of the right kind says. -/
def assign (config : Config) (setting : Setting) (value : Json) : Option Config :=
  match setting with
  | .treeOrder => value.unsigned?.map fun n => { config with treeOrder := n }
  | .mergeThreshold =>
    match value with
    | .null => some { config with mergeThreshold := none }
    | value => value.unsigned?.map fun n => { config with mergeThreshold := some n }
  | .lookupCapacity => value.unsigned?.map fun n => { config with lookupCapacity := n }
  | .programCapacity => value.unsigned?.map fun n => { config with programCapacity := n }
  | .cachePrograms => value.bool?.map fun b => { config with cachePrograms := b }

/-- Sets what members say. Members of other names are passed over, and none may come twice. -/
def assignMembers (config : Config) (assigned : List Setting) :
    List (Option String × Json.Literal) → Option Config
  | [] => some config
  | (none, _) :: _ => none
  | (some name, literal) :: rest =>
    match Setting.ofName? name with
    | none => config.assignMembers assigned rest
    | some setting =>
      if setting ∈ assigned then none
      else do
        let config ← config.assign setting (← literal.value?)
        config.assignMembers (setting :: assigned) rest

/-- Sets what the items of an array say, a setting each. -/
def assignItems (config : Config) : List Setting → List Json.Literal → Option Config
  | _, [] => some config
  | [], _ :: _ => none
  | setting :: settings, literal :: rest => do
    let config ← config.assign setting (← literal.value?)
    config.assignItems settings rest

/-- The settings that a literal gives, and otherwise the defaults. -/
def ofLiteral? : Json.Literal → Option Config
  | .object members => default.assignMembers [] members
  | .array items => default.assignItems Setting.every items
  | .scalar _ => none

def ofText (text : String) : Except Error Config :=
  match (Json.readLiteral? text).bind ofLiteral? with
  | some config => config.validated
  | none => .error .unreadableConfig

/-- Decimal digits of 64 bits, perhaps after a plus sign. -/
def readCount (text : String) : Except CountFault Nat :=
  match text.toList with
  | [] => .error .empty
  | ['+'] => .error .invalidDigit
  | first :: rest =>
    let digits := if first = '+' then rest else first :: rest
    readDigits 0 digits
where
  /-- The first fault from the left counts: a character that is no digit, or a count that has
  become too large. -/
  readDigits (count : Nat) : List Char → Except CountFault Nat
    | [] => .ok count
    | c :: rest =>
      if !c.isDigit then .error .invalidDigit
      else
        let count := 10 * count + (c.toNat - 48)
        if 0x10000000000000000 ≤ count then .error .tooLarge else readDigits count rest

/-- The variables that are set, by name. -/
abbrev Environment := List (String × String)

def variableText? (environment : Environment) (name : String) : Option String :=
  (environment.find? fun entry => entry.1 == name).map Prod.snd

/-- The count in a variable, or the present one where the variable is not there. -/
def countFrom (environment : Environment) (name : String) (present : Nat) :
    Except ConfigFault Nat :=
  match variableText? environment name with
  | none => .ok present
  | some text =>
    match readCount (String.ofList (Text.trim text.toList)) with
    | .ok count => .ok count
    | .error fault => .error (.notCount name fault)

def switchFrom (environment : Environment) (name : String) (present : Bool) :
    Except ConfigFault Bool :=
  match variableText? environment name with
  | none => .ok present
  | some text =>
    let word := Text.lowercase text
    if word ∈ ["1", "true", "yes", "on"] then .ok true
    else if word ∈ ["0", "false", "no", "off"] then .ok false
    else .error (.notBoolean name word)

def readEnvironment (environment : Environment) : Except ConfigFault Config := do
  let treeOrder ← countFrom environment "DQX_TREE_ORDER" default.treeOrder
  let lookupCapacity ← countFrom environment "DQX_LOOKUP_CACHE" default.lookupCapacity
  let programCapacity ← countFrom environment "DQX_PROGRAM_CACHE" default.programCapacity
  let cachePrograms ← switchFrom environment "DQX_CACHE_PROGRAMS" default.cachePrograms
  return { default with treeOrder, lookupCapacity, programCapacity, cachePrograms }

/-- The defaults, with what variables of the environment say instead. -/
def ofEnvironment (environment : Environment) : Except Error Config :=
  match readEnvironment environment with
  | .ok config => config.validated
  | .error fault => .error (.invalidConfig fault)

end Config
end Docstore
