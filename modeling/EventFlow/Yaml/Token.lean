import EventFlow.Yaml

/-!
# YAML tokens

What a document is made of, once its indentation has been understood: where mappings and sequences
by indentation begin and end is marked by tokens of their own, and so is every key.
-/

set_option autoImplicit false

namespace EventFlow

namespace Yaml

/-- A token of a document. -/
inductive Token
  | version (major minor : Nat)
  | handle (name : String) (stands : Tag)
  | documentStart
  | documentEnd
  | sequenceStart
  | mappingStart
  /-- The end of a mapping or sequence by indentation. -/
  | blockEnd
  /-- The dash in front of an item. -/
  | item
  | key
  | value
  | openSequence
  | closeSequence
  | openMapping
  | closeMapping
  | comma
  | reference (name : String)
  | anchor (name : String)
  | tag (handle : String) (rest : Tag)
  | scalar (style : Style) (text : String)
deriving DecidableEq

end Yaml

end EventFlow
