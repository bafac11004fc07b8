import LeadSheet.Yaml.Name
import LeadSheet.Yaml.Scalar

/-!
# Tokens

The parts of a document in their order. Brackets and marks stand in the text; where a block of items
or of keys begins and ends follows from the columns.
-/

namespace LeadSheet.Yaml
set_option autoImplicit false

inductive Token
  | directive (d : Directive)
  | documentStart
  | documentEnd
  | blockList
  | blockMapping
  | blockEnd
  | listOpen
  | listClose
  | mappingOpen
  | mappingClose
  | comma
  | item
  | key
  | value
  | named (name : String)
  | again (name : String)
  | tag (tag : ShortTag)
  | scalar (style : Style) (text : String)

namespace Token

def isOutside : Token → Bool
  | .directive _ | .documentStart | .documentEnd => true
  | _ => false

def endsEntry : Token → Bool
  | .key | .value | .blockEnd => true
  | _ => false

def endsFlowEntry : Token → Bool
  | .comma | .listClose | .mappingClose => true
  | _ => false

end Token

end LeadSheet.Yaml
