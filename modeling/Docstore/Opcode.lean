set_option autoImplicit false

namespace Docstore

inductive Opcode
  | halt | and | or
  | lt | lte | gt | gte | all | isIn | notIn | eq | ne | size | present | within | near
  | set | unset | inc | pull | pullAll | pop | push | pushAll
  | break | find | scan | range | shift | store | intersect | start | jump | goto | read
  | transpose | limit | sort | readResult | reindex
deriving DecidableEq

namespace Opcode

/-- Every operation, in ascending order of the bytes. -/
def every : List Opcode :=
  [.halt, .and, .or, .lt, .lte, .gt, .gte, .all, .isIn, .notIn, .eq, .ne, .size, .present,
    .within, .near, .set, .unset, .inc, .pull, .pullAll, .pop, .push, .pushAll, .break, .find,
    .scan, .range, .shift, .store, .intersect, .start, .jump, .goto, .read, .transpose, .limit,
    .sort, .readResult, .reindex]

def byte : Opcode → Nat
  | .halt => 0x00
  | .and => 0x01
  | .or => 0x02
  | .lt => 0x05
  | .lte => 0x06
  | .gt => 0x07
  | .gte => 0x08
  | .all => 0x09
  | .isIn => 0x0A
  | .notIn => 0x0B
  | .eq => 0x0C
  | .ne => 0x0D
  | .size => 0x0E
  | .present => 0x0F
  | .within => 0x10
  | .near => 0x11
  | .set => 0x12
  | .unset => 0x13
  | .inc => 0x14
  | .pull => 0x15
  | .pullAll => 0x16
  | .pop => 0x17
  | .push => 0x18
  | .pushAll => 0x19
  | .break => 0x1A
  | .find => 0x1B
  | .scan => 0x1C
  | .range => 0x1D
  | .shift => 0x20
  | .store => 0x21
  | .intersect => 0x23
  | .start => 0x24
  | .jump => 0x25
  | .goto => 0x26
  | .read => 0x27
  | .transpose => 0x28
  | .limit => 0x29
  | .sort => 0x2A
  | .readResult => 0x2B
  | .reindex => 0x2C

def mnemonic : Opcode → String
  | .halt => "halt"
  | .and => "and"
  | .or => "or"
  | .lt => "lt"
  | .lte => "lte"
  | .gt => "gt"
  | .gte => "gte"
  | .all => "all"
  | .isIn => "in"
  | .notIn => "nin"
  | .eq => "eq"
  | .ne => "ne"
  | .size => "size"
  | .present => "exists"
  | .within => "within"
  | .near => "near"
  | .set => "set"
  | .unset => "unset"
  | .inc => "inc"
  | .pull => "opull"
  | .pullAll => "opullall"
  | .pop => "opop"
  | .push => "opush"
  | .pushAll => "opushall"
  | .break => "break"
  | .find => "find"
  | .scan => "scan"
  | .range => "range"
  | .shift => "shift"
  | .store => "store"
  | .intersect => "intersect"
  | .start => "start"
  | .jump => "jump"
  | .goto => "goto"
  | .read => "read"
  | .transpose => "transpose"
  | .limit => "limit"
  | .sort => "sort"
  | .readResult => "rread"
  | .reindex => "rindex"

def ofByte? (byte : Nat) : Option Opcode :=
  every.find? fun opcode => opcode.byte == byte

/-- Whether the operation changes documents. -/
def isMutation : Opcode → Bool
  | .set | .unset | .inc | .pull | .pullAll | .pop | .push | .pushAll => true
  | _ => false

end Opcode
end Docstore
