import Docstore.Collection
import Docstore.StableSort

set_option autoImplicit false

namespace Docstore

structure Database where
  config : Config
  collections : Table String Collection

namespace Database

/-- A database without collections. -/
def create (config : Config) : Except Error Database :=
  config.validated.map fun config => ⟨config, Table.empty⟩

def collection (database : Database) (name : String) : Except Error Collection :=
  match database.collections.get? name with
  | some collection => .ok collection
  | none => .error (.collectionNotFound name)

/-- Replaces a collection by its next state. -/
def write (database : Database) (name : String) (collection : Collection) : Database :=
  { database with collections := database.collections.put name collection }

def createCollection (database : Database) (name : String) : Except Error Database :=
  if database.collections.contains name then .error (.collectionExists name)
  else (Collection.create name database.config).map (database.write name)

def dropCollection (database : Database) (name : String) :
    Except Error (Collection × Database) := do
  let dropped ← database.collection name
  return (dropped, { database with collections := database.collections.erase name })

/-- The names of the collections in ascending order. -/
def names (database : Database) : List String :=
  stableSort compare database.collections.keys

end Database
end Docstore
