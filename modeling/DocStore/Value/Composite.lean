import DocStore.Value.Basic

/-!
# Composites

The values of a collection are stored as one string: every distinct text between `<$` and `$>`, in
the order of first occurrence. A collection without texts is stored as null.
-/

namespace DocStore.Composite

def opening : List Char := ['<', '$']

def closing : List Char := ['$', '>']

def element (text : String) : String :=
  String.ofList (opening ++ text.toList ++ closing)

def distinct (seen : List String) : List String → List String
  | [] => []
  | s :: rest => if s ∈ seen then distinct seen rest else s :: distinct (s :: seen) rest

def ofTexts (texts : List String) : String :=
  texts.foldr (fun s composite => element s ++ composite) ""

def ofValues (values : List Value) : Value :=
  match distinct [] (Value.texts values) with
  | [] => .null
  | texts => .string (ofTexts texts)

end DocStore.Composite
