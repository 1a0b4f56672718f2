import JavaFrontend.Java.Tree

/-!
Types as text: without annotations, with no space but behind commas and around the words of
wildcards.
-/

namespace JavaFrontend.Java

mutual

/-- The text of a type or of a part of one; trees of other categories have none. -/
def Tree.display {category : Category} : Tree category → String
  | .primitiveType _ kind _ => kind.text
  | .classType segments => ".".intercalate segments.displays
  | .arrayType element dims => element.display ++ String.join (List.replicate dims "[]")
  | .segment _ name .nil => name.name
  | .segment _ name arguments => name.name ++ "<" ++ ", ".intercalate arguments.displays ++ ">"
  | .exactArgument type => type.display
  | .anyArgument => "?"
  | .upperBounded bound => "? extends " ++ bound.display
  | .lowerBounded bound => "? super " ++ bound.display
  | _ => ""

def Row.displays {category : Category} : Row category → List String
  | .nil => []
  | .cons tree rest => tree.display :: rest.displays

end

end JavaFrontend.Java

