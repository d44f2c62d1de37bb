/-
# Snippets.Json.Reader — reading a JSON text

The tokens of a text are read one after the other. The arrays and objects that are not yet closed
stand on a stack, each with what has been read of it; the stage says what may come next. Names in an
object may repeat, and the members keep their order. A text is read when its tokens make up exactly
one value.
-/
import Snippets.Json.Token

namespace Snippets.Json

/-- An array or object that is not yet closed. -/
inductive Frame where
  /-- An array, with the items read. -/
  | array (items : List Json)
  /-- An object, with the members read and the name of the next one. -/
  | object (members : List (Text × Json)) (name : Text)

/-- What may come next. -/
inductive Stage where
  /-- A value. -/
  | value
  /-- The first item of an array, or its end. -/
  | firstItem
  /-- The first name of an object, or its end. -/
  | firstName
  /-- The next name of an object, behind the members read. -/
  | name (members : List (Text × Json))
  /-- The colon behind a name. -/
  | colon (members : List (Text × Json)) (name : Text)
  /-- What may follow a value that has been read. -/
  | done (value : Json)

/-- A reading: what may come next, and the open arrays and objects, the innermost first. -/
structure Reading where
  /-- What may come next. -/
  stage : Stage
  /-- The open arrays and objects. -/
  stack : List Frame

namespace Reading

/-- A token at the start of a value. -/
def start (stack : List Frame) : Token → Option Reading
  | .null => some { stage := .done .null, stack }
  | .bool b => some { stage := .done (.bool b), stack }
  | .number n => some { stage := .done (.number n), stack }
  | .string s => some { stage := .done (.string s), stack }
  | .openArray => some { stage := .firstItem, stack }
  | .openObject => some { stage := .firstName, stack }
  | _ => none

/-- A token behind a value. -/
def follow (value : Json) : List Frame → Token → Option Reading
  | .array items :: stack, .comma =>
    some { stage := .value, stack := .array (items ++ [value]) :: stack }
  | .array items :: stack, .closeArray =>
    some { stage := .done (.array (items ++ [value])), stack }
  | .object members name :: stack, .comma =>
    some { stage := .name (members ++ [(name, value)]), stack }
  | .object members name :: stack, .closeObject =>
    some { stage := .done (.object (members ++ [(name, value)])), stack }
  | _, _ => none

/-- The reading after one more token. -/
def step (r : Reading) (token : Token) : Option Reading :=
  match r.stage with
  | .value => start r.stack token
  | .firstItem =>
    if token = .closeArray then some { r with stage := .done (.array []) }
    else start (.array [] :: r.stack) token
  | .firstName =>
    match token with
    | .closeObject => some { r with stage := .done (.object []) }
    | .string name => some { r with stage := .colon [] name }
    | _ => none
  | .name members =>
    match token with
    | .string name => some { r with stage := .colon members name }
    | _ => none
  | .colon members name =>
    match token with
    | .colon => some { stage := .value, stack := .object members name :: r.stack }
    | _ => none
  | .done value => follow value r.stack token

/-- The value of a reading at its end: nothing is open. -/
def finish (r : Reading) : Option Json :=
  match r.stage, r.stack with
  | .done value, [] => some value
  | _, _ => none

/-- The value of a reading at the end of more tokens. -/
def run : Reading → List Token → Option Json
  | r, [] => r.finish
  | r, token :: rest => (r.step token).bind fun next => next.run rest

end Reading

/-- The value that a text writes, if it writes one. -/
def read? (s : Text) : Option Json :=
  (tokens? s).bind fun tokens => Reading.run { stage := .value, stack := [] } tokens

end Snippets.Json
