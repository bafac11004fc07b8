import LeadSheet.Yaml.Scalar

/-!
# Nodes

What a document says: scalars, lists and mappings, and the values that are read off them.
-/

namespace LeadSheet.Yaml
set_option autoImplicit false

inductive Node
  | scalar (s : Scalar)
  | list (items : List Node)
  | mapping (entries : List (Node × Node))

namespace Node

def missing : Node := .scalar .missing

def scalar? : Node → Option Scalar
  | .scalar s => some s
  | _ => none

def as? {β : Type} (read : Scalar → Option β) (n : Node) : Option β := n.scalar?.bind read

/-- The entries of a mapping by their keys' texts. A value that was left out has none. -/
def entries? : Node → Option (List (String × Node))
  | .scalar s => if s.isMissing then some [] else none
  | .list _ => none
  | .mapping entries => entries.mapM fun (key, value) => do return ((← key.scalar?).text, value)

end Node

/-- The value of a key, or a default. A key that stands twice cannot be read. -/
def field? {β : Type} (entries : List (String × Node)) (key : String) (default : β)
    (read : Node → Option β) : Option β :=
  match entries.filter (·.1 == key) with
  | [] => some default
  | [(_, value)] => read value
  | _ => none

end LeadSheet.Yaml
