import Chronicle.Value
import Chronicle.Visibility

/-!
# Metadata

Annotations of a property: values under names, each with a label of its own, in name order.
Laying one set of annotations over another replaces the entries that both have.
-/

namespace Chronicle

/-- One annotation. -/
structure MetadataEntry where
  value : PropValue
  visibility : Visibility
  deriving DecidableEq, Inhabited

/-- Annotations under their names. -/
abbrev Metadata := OrderedMap String MetadataEntry

end Chronicle
