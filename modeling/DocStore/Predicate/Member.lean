import DocStore.Error
import DocStore.Expr.Basic
import DocStore.Predicate.Node
import DocStore.Schema.Basic

/-!
# Members in expressions

A chain of member accesses from a parameter spells a path. `X.HasValue` asks whether `X` has a
value, and `X.Value` is `X` itself unless the schema indexes a member of that name.
-/

namespace DocStore

/-- The dotted path of a member chain, empty for the parameter itself. -/
def Expr.memberPath? (e : Expr) (parameter : String) : Option String :=
  match e with
  | .param name => if name = parameter then some "" else none
  | .member target name =>
    (target.memberPath? parameter).map fun parent =>
      if parent.isEmpty then name else parent ++ "." ++ name
  | _ => none

namespace MemberRef

def parent? (path : String) : Option String :=
  let chars := path.toList
  if chars.contains '.' then
    some (String.ofList ((chars.reverse.dropWhile fun c => c ≠ '.').drop 1).reverse)
  else none

def resolve (schema : Schema) (path : String) (hasValue : Bool) : MemberRef where
  path := path
  parent := parent? path
  family :=
    if schema.isId path then some schema.id.kind.family
    else (schema.accessor? path).map Accessor.storageFamily
  isId := schema.isId path
  hasValue := hasValue

def ofPath (schema : Schema) (path : String) : MemberRef :=
  match Text.before? ".HasValue".toList path.toList with
  | some stem => resolve schema (String.ofList stem) true
  | none =>
    match Text.before? ".Value".toList path.toList with
    | some stem =>
      let stem := String.ofList stem
      if (schema.accessor? path).isNone &&
          ((schema.accessor? stem).isSome || schema.isId stem) then
        resolve schema stem false
      else resolve schema path false
    | none => resolve schema path false

/-- What a member chain of the queried item refers to. -/
def ofExpr (schema : Schema) (parameter : String) (e : Expr) : Except Error MemberRef :=
  match e.memberPath? parameter with
  | some path =>
    if path.isEmpty then
      .error (Error.unsupported e.display "Expected a member of the queried item")
    else .ok (ofPath schema path)
  | none => .error (Error.unsupported e.display "Expected a member of the queried item")

end MemberRef

end DocStore
