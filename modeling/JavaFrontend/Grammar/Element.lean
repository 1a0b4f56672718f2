import JavaFrontend.Token.Kind

/-!
Alternatives as they are written, with optional and repeated groups at any depth.
-/

namespace JavaFrontend

/-- An element of an alternative. -/
inductive Element where
  | token (kind : Kind)
  | rule (name : String)
  /-- The body or nothing. -/
  | optional (body : List Element)
  /-- The body any number of times. -/
  | repeated (body : List Element)

namespace Element

mutual

def decEq : (a b : Element) → Decidable (a = b)
  | .token a, .token b => decidable_of_iff (a = b) (by simp)
  | .rule a, .rule b => decidable_of_iff (a = b) (by simp)
  | .optional a, .optional b =>
    match decEqBody a b with
    | .isTrue h => .isTrue (h ▸ rfl)
    | .isFalse h => .isFalse fun e => h (Element.optional.inj e)
  | .repeated a, .repeated b =>
    match decEqBody a b with
    | .isTrue h => .isTrue (h ▸ rfl)
    | .isFalse h => .isFalse fun e => h (Element.repeated.inj e)
  | .token _, .rule _ | .token _, .optional _ | .token _, .repeated _
  | .rule _, .token _ | .rule _, .optional _ | .rule _, .repeated _
  | .optional _, .token _ | .optional _, .rule _ | .optional _, .repeated _
  | .repeated _, .token _ | .repeated _, .rule _ | .repeated _, .optional _ =>
    .isFalse (by simp)

def decEqBody : (a b : List Element) → Decidable (a = b)
  | [], [] => .isTrue rfl
  | a :: as, b :: bs =>
    match decEq a b, decEqBody as bs with
    | .isTrue h, .isTrue hs => .isTrue (h ▸ hs ▸ rfl)
    | .isFalse h, _ => .isFalse fun e => h (List.cons.inj e).1
    | _, .isFalse hs => .isFalse fun e => hs (List.cons.inj e).2
  | [], _ :: _ | _ :: _, [] => .isFalse (by simp)

end

instance : DecidableEq Element := decEq

mutual

/-- The names that an element refers to, at any depth. -/
def names : Element → List String
  | .token _ => []
  | .rule name => [name]
  | .optional body | .repeated body => bodyNames body

/-- The names that a row of elements refers to, at any depth. -/
def bodyNames : List Element → List String
  | [] => []
  | element :: rest => element.names ++ bodyNames rest

end

end Element

/-- One alternative for a name. -/
structure Alternative where
  name : String
  elements : List Element
deriving DecidableEq

end JavaFrontend
