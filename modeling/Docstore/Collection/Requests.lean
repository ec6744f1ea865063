import Docstore.Collection
import Docstore.Machine
import Docstore.Program.Compile
import Docstore.Program.Listing
import Docstore.Query.Parse
import Docstore.Query.Selection

set_option autoImplicit false

namespace Docstore
namespace Collection

def compiled (result : Except CompileFault Program) : Except Error Program :=
  match result with
  | .ok program => .ok program
  | .error fault => .error (.compile fault)

/-- The program that answers a predicate with the help of the indices. -/
def compileQuery (collection : Collection) (predicate : Json) (conditions : Conditions) :
    Except Error Program := do
  let query ← Query.parse predicate
  let query ← query.select collection.store.indices
  compiled (Program.ofQuery query conditions collection.store.name)

/-- The program kept for a request, or else a new one. -/
def keep (collection : Collection) (request : Request) (program : Except Error Program) :
    Except Error Program × Collection :=
  match collection.programs with
  | none => (program, collection)
  | some cache =>
    let kept := cache.getOrInsert request.digest program
    (kept.1, { collection with programs := some kept.2 })

def plan (collection : Collection) (predicate : Json) (conditions : Conditions) :
    Except Error Program × Collection :=
  collection.keep (.query predicate conditions) (collection.compileQuery predicate conditions)

def planMutation (collection : Collection) (mutation : Json) :
    Except Error Program × Collection :=
  collection.keep (.mutation mutation) (compiled (Program.ofMutation mutation))

def explain (collection : Collection) (predicate : Json) (conditions : Conditions) :
    Except Error String × Collection :=
  let planned := collection.plan predicate conditions
  (planned.1.map Program.listing, planned.2)

def explainMutation (collection : Collection) (mutation : Json) :
    Except Error String × Collection :=
  let planned := collection.planMutation mutation
  (planned.1.map Program.listing, planned.2)

/-- Steps enough for a planned program: each document is read once at most. -/
def budget (collection : Collection) (instructions : Nat) : Nat :=
  instructions * (collection.size + 1)

/-- Runs a query program, and a mutation program on its result. -/
def run (collection : Collection) (program : Program) (mutation : Option Program)
    (upsert : Bool) : Except Error (List DocId) × Collection :=
  let fuel := collection.budget (program.length + (mutation.getD []).length)
  let ran := Machine.execute fuel collection.store program mutation upsert
  (ran.1, { collection with store := ran.2.2 })

/-- The documents that a predicate selects. -/
def findIds (collection : Collection) (predicate : Json) (conditions : Conditions) :
    Except Error (List DocId) × Collection :=
  match collection.plan predicate conditions with
  | (.ok program, collection) => collection.run program none false
  | (.error error, collection) => (.error error, collection)

def find (collection : Collection) (predicate : Json) (conditions : Conditions) :
    Except Error (List Json) × Collection :=
  let found := collection.findIds predicate conditions
  (found.1.map fun ids => ids.filterMap found.2.get?, found.2)

def findOne (collection : Collection) (predicate : Json) :
    Except Error (Option Json) × Collection :=
  let found := collection.find predicate { Conditions.none with limit := some 1 }
  (found.1.map List.head?, found.2)

def count (collection : Collection) (predicate : Json) : Except Error Nat × Collection :=
  let found := collection.findIds predicate Conditions.none
  (found.1.map List.length, found.2)

/-- Mutates every document that a predicate selects, and answers with their number. -/
def update (collection : Collection) (predicate mutation : Json) (upsert : Bool) :
    Except Error Nat × Collection :=
  match collection.plan predicate Conditions.none with
  | (.error error, collection) => (.error error, collection)
  | (.ok program, collection) =>
    match collection.planMutation mutation with
    | (.error error, collection) => (.error error, collection)
    | (.ok mutations, collection) =>
      let ran := collection.run program (some mutations) upsert
      (ran.1.map List.length, ran.2)

/-- Removes documents up to the first that is not there. -/
def removeAll (collection : Collection) : List DocId → Except Error Unit × Collection
  | [] => (.ok (), collection)
  | id :: rest =>
    match collection.remove id with
    | (.ok _, collection) => collection.removeAll rest
    | (.error error, collection) => (.error error, collection)

/-- Removes every document that a predicate selects, and answers with their number. -/
def delete (collection : Collection) (predicate : Json) : Except Error Nat × Collection :=
  match collection.findIds predicate Conditions.none with
  | (.error error, collection) => (.error error, collection)
  | (.ok ids, collection) =>
    let removed := collection.removeAll ids
    (removed.1.map fun _ => ids.length, removed.2)

end Collection
end Docstore
