import Docstore.Digest
import Docstore.Json.Text
import Docstore.Program
import Docstore.Recent

set_option autoImplicit false

namespace Docstore

inductive Request
  | query (predicate : Json) (conditions : Conditions)
  | mutation (source : Json)

def SortOrder.word : SortOrder → String
  | .ascending => "Ascending"
  | .descending => "Descending"

def SortSpec.requestText (spec : SortSpec) : List Char :=
  "\x7b\"path\":".toList ++ Json.quoted spec.path ++ ",\"order\":".toList ++
    Json.quoted spec.order.word ++ ['\x7d']

def Conditions.requestText (conditions : Conditions) : List Char :=
  "\x7b\"sort\":".toList ++ (conditions.sort.map SortSpec.requestText).getD Json.nullText ++
    ",\"limit\":".toList ++ (conditions.limit.map (Nat.toDigits 10)).getD Json.nullText ++ ['\x7d']

namespace Request

def chars : Request → List Char
  | .query predicate conditions =>
    "query:".toList ++ predicate.textChars ++ '|' :: conditions.requestText
  | .mutation source => "mutate:".toList ++ source.textChars

def text (request : Request) : String :=
  String.ofList request.chars

def digest (request : Request) : Digest :=
  Digest.ofText request.text

end Request

structure ProgramCache where
  programs : Recent Digest Program
  hits : Nat
  misses : Nat

namespace ProgramCache

/-- A cache for so many programs, and for one at least, if there is room for them. -/
def create (capacity : Nat) : Except Error ProgramCache :=
  match Recent.create? (max capacity 1) with
  | some programs => .ok ⟨programs, 0, 0⟩
  | none => .error (.noRoom capacity)

/-- The program kept under a key. Finding none counts as a miss. -/
def get (cache : ProgramCache) (key : Digest) : Option Program × ProgramCache :=
  match cache.programs.touch key with
  | (some program, programs) => (some program, { cache with programs, hits := cache.hits + 1 })
  | (none, _) => (none, { cache with misses := cache.misses + 1 })

def insert (cache : ProgramCache) (key : Digest) (program : Program) : ProgramCache :=
  { cache with programs := cache.programs.put key program }

/-- The program kept under a key, or else the given one, which is kept unless it failed. -/
def getOrInsert (cache : ProgramCache) (key : Digest) (compiled : Except Error Program) :
    Except Error Program × ProgramCache :=
  match cache.get key with
  | (some program, cache) => (.ok program, cache)
  | (none, cache) =>
    match compiled with
    | .ok program => (.ok program, cache.insert key program)
    | .error error => (.error error, cache)

/-- Forgets every program but not the counts. -/
def clear (cache : ProgramCache) : ProgramCache :=
  { cache with programs := cache.programs.clear }

def size (cache : ProgramCache) : Nat :=
  cache.programs.size

/-- Hits in proportion to all requests. -/
def hitRatio (cache : ProgramCache) : Binary64 :=
  if cache.hits + cache.misses = 0 then .zero
  else Binary64.ofRatio false cache.hits (cache.hits + cache.misses)

end ProgramCache
end Docstore
