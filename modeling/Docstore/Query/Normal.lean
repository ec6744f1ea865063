import Docstore.Query.Tree

set_option autoImplicit false

namespace Docstore
namespace QueryNode

mutual

def normalize? : QueryNode → Option QueryNode
  | .group connective children =>
    match normalizeAll children with
    | [] => none
    | [only] => some only
    | first :: second :: rest => some (.group connective (first :: second :: rest))
  | .field path clauses => some (.field path clauses)
  | .lookup ref => some (.lookup ref)

def normalizeAll : List QueryNode → List QueryNode
  | [] => []
  | node :: rest =>
    match normalize? node with
    | none => normalizeAll rest
    | some node => node :: normalizeAll rest

end

end QueryNode
end Docstore
