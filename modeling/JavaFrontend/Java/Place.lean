import JavaFrontend.Java.Tree

/-!
Where types and expressions are said to be. An expression is where its first part is; an operator
before its operand does not count, nor does a parenthesis.
-/

namespace JavaFrontend.Java

mutual

/-- Where a type or one of its segments, a receiver or an expression is; trees of other categories
have no place. -/
def Tree.place {category : Category} : Tree category → Position
  -- types
  | .primitiveType _ _ position => position
  | .classType segments => segments.place
  | .segment _ name _ => name.position
  | .arrayType element _ => element.place
  -- receivers
  | .nameReceiver name | .qualifiedSuper name => name.position
  | .exprReceiver value => value.place
  | .superReceiver position => position
  | .typeReceiver type => type.place
  -- expressions
  | .literal value => value.position
  | .nameExpr name | .qualifiedThis name => name.position
  | .thisExpr position | .classLiteral _ position => position
  | .binary left _ _ => left.place
  | .leading _ operand | .trailing operand _ => operand.place
  | .conditional condition _ _ => condition.place
  | .assignment target _ _ => target.place
  | .instanceOf value _ => value.place
  | .cast .nil value => value.place
  | .cast (.cons type _) _ => type.place
  | .call name _ => name.position
  | .callOn receiver _ _ _ | .fieldAccess receiver _ | .methodReference receiver _ _ =>
    receiver.place
  | .arrayAccess array _ => array.place
  | .creation _ _ _ _ _ _ position => position
  | .newArray element _ _ | .newArrayOf element _ _ => element.place
  | .arrayInitializer values => values.place
  | .lambda _ _ position | .blockLambda _ _ position => position
  | _ => default

/-- Where the first of the trees is, if there is one. -/
def Row.place {category : Category} : Row category → Position
  | .nil => default
  | .cons tree _ => tree.place

end

end JavaFrontend.Java
