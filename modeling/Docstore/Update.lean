import Docstore.Mutation
import Docstore.Table

set_option autoImplicit false

namespace Docstore
namespace Mutation

/-- Gives a document mutations one after the other, up to the first that fails. -/
def applyAll (upsert : Bool) : List Mutation → Json → Except Error Unit × Json
  | [], doc => (.ok (), doc)
  | mutation :: rest, doc =>
    match mutation.apply upsert doc with
    | (.ok (), doc) => applyAll upsert rest doc
    | (.error fault, doc) => (.error (.inOpcode mutation.op.opcode fault), doc)

/-- Gives documents all mutations, up to the first document on which one fails. -/
def applyEach (upsert : Bool) (mutations : List Mutation) :
    List DocId → Table DocId Json → Except Error Unit × Table DocId Json
  | [], documents => (.ok (), documents)
  | id :: rest, documents =>
    match documents.get? id with
    | none => (.error (.documentNotFound id), documents)
    | some doc =>
      match applyAll upsert mutations doc with
      | (.ok (), doc) => applyEach upsert mutations rest (documents.put id doc)
      | (.error error, doc) => (.error error, documents.put id doc)

end Mutation
end Docstore
