import Locksmith.Text.Bytes

namespace Locksmith
namespace Yaml

/-- A node of a document. A plain scalar is one without quotes, whose text may mean something
else than text. -/
inductive Node where
  | scalar (plain : Bool) (text : Bytes)
  | sequence (items : List Node)
  | mapping (entries : List (Node × Node))
deriving Repr, Inhabited

/-- The node that stands where nothing is written. -/
def Node.nothing : Node := .scalar true []

inductive Error where
  | badCharacter
  | unfinished
  | unexpected
  | unsupported
  | duplicateKey
  | mismatch
deriving DecidableEq, Repr

def Error.message : Error → Bytes
  | badCharacter => "yaml: character that is not allowed"
  | unfinished => "yaml: unexpected end of the document"
  | unexpected => "yaml: unexpected character"
  | unsupported => "yaml: unsupported feature"
  | duplicateKey => "yaml: key given twice"
  | mismatch => "yaml: value of another type expected"

end Yaml
end Locksmith
