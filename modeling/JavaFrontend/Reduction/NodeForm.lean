import JavaFrontend.Java.Form
import JavaFrontend.Reduction.Node
import JavaFrontend.Token.Form

/-!
Nodes as forms. The head of a form says of what kind the node is, in angle brackets where the parts
behind it may be trees; a token by itself needs none.
-/

namespace JavaFrontend.Node

open Java

/-- The head of the form of a node. -/
def formHead : Node → String
  | .token _ => "token"
  | node => "<" ++ node.kindName.map (fun c => if c = ' ' then '-' else c) ++ ">"

mutual

/-- What stands behind the head. -/
def formParts : Node → List Form
  | .token leaf => leaf.formParts
  | .identifier part => [part.form]
  | .literal part => [part.form]
  | .name part => [part.form]
  | .type shown => [shown.form]
  | .dims count => [.number count]
  | .diamond => []
  | .typeArguments values => values.map Tree.form
  | .typeArgument argument => [argument.form]
  | .typeParameters parameters => parameters.map Tree.form
  | .typeParameter part => [part.form]
  | .annotationUse part => [part.form]
  | .elementValue value => [value.form]
  | .elementPair pair => [pair.form]
  | .modifier part => [part.form]
  | .expr part => [part.form]
  | .arguments values => values.map Tree.form
  | .lambdaParameters parameters => [parameters.form]
  | .stmt part => [part.form]
  | .block part => [part.form]
  | .varDeclaration declared => [declared.form]
  | .declarator part => [part.form]
  | .parameter part => [part.form]
  | .catchClause clause => [clause.form]
  | .finallyBlock part => [part.form]
  | .resources part => part.map Tree.form
  | .resource part => [part.form]
  | .switchLabel label => [label.form]
  | .switchGroup group => [group.form]
  | .switchBlock groups => groups.map Tree.form
  | .superclass shown => [shown.form]
  | .interfaces types => types.map Tree.form
  | .exceptions types => types.map Tree.form
  | .classBody body => [body.form]
  | .member part => [part.form]
  | .enumConstant constant => [constant.form]
  | .enumBody constants body => [.items (constants.map Tree.form), body.form]
  | .typeDeclaration declaration => [declaration.form]
  | .package declaration => [declaration.form]
  | .importing declaration => [declaration.form]
  | .unit part => [part.form]
  | .list rule nodes | .generic rule nodes => [.word rule, .items (formsOfAll nodes)]
  | .empty position => [position.form]

def formsOfAll : List Node → List Form
  | [] => []
  | node :: rest => .call node.formHead node.formParts :: formsOfAll rest

end

/-- The form of a node. -/
def form (node : Node) : Form := .call node.formHead node.formParts

end JavaFrontend.Node
