import AdaptivePi.Foundation.Json
import AdaptivePi.Foundation.Raising
import Mathlib.Data.List.TakeWhile

namespace AdaptivePi.Foundation

/-- An exception. A `KeyError` has the key that is missing. -/
inductive PythonError where
  | valueError (message : Text)
  | keyError (key : Text)
  | indexError (message : Text)
  | typeError (message : Text)
  | attributeError (message : Text)
  | osError (message : Text)
  | overflowError (message : Text)
  | recursionError (message : Text)

/-- `str` of an exception. The key of a `KeyError` needs no escapes. -/
def PythonError.text : PythonError → Text
  | .keyError key => "'".toList ++ key ++ "'".toList
  | .valueError message => message
  | .indexError message => message
  | .typeError message => message
  | .attributeError message => message
  | .osError message => message
  | .overflowError message => message
  | .recursionError message => message

/-- What is left open of an implementation of Python. A float is given by its
literal. -/
structure Python where
  unicode : PythonText.Unicode
  floatEquals : Text → Int → Bool
  floatLess : Text → Int → Bool
  /-- The message of a `JSONDecodeError` for a text. -/
  decodeMessage : Text → Text

namespace Json

def typeName : Json → Text
  | null => "NoneType".toList
  | bool _ => "bool".toList
  | int _ => "int".toList
  | float _ => "float".toList
  | string _ => "str".toList
  | array _ => "list".toList
  | object _ => "dict".toList

def isDict : Json → Bool
  | object _ => true
  | _ => false

def isText : Json → Bool
  | string _ => true
  | _ => false

/-- `type(value) is int` -/
def isInt : Json → Bool
  | int _ => true
  | _ => false

def member (members : List (Text × Json)) (key : Text) : Option Json := members.reverse.lookup key

/-- `value.get(key, default)` -/
def get (value : Json) (key : Text) (default : Json) : Except PythonError Json :=
  match value with
  | object members => pure ((member members key).getD default)
  | other => throw (.attributeError
      ("'".toList ++ other.typeName ++ "' object has no attribute 'get'".toList))

/-- `value[key]`, for a string -/
def subscript (value : Json) (key : Text) : Except PythonError Json :=
  match value with
  | object members =>
      match member members key with
      | some found => pure found
      | none => throw (.keyError key)
  | array _ => throw (.typeError "list indices must be integers or slices, not str".toList)
  | string _ => throw (.typeError "string indices must be integers, not 'str'".toList)
  | other => throw (.typeError
      ("'".toList ++ other.typeName ++ "' object is not subscriptable".toList))

def equalsText (value : Json) (text : Text) : Bool :=
  match value with
  | string other => other = text
  | _ => false

theorem equalsText_iff {value : Json} {text : Text} :
    value.equalsText text = true ↔ value = string text := by
  cases value <;> simp [equalsText]

/-- Whatever the value, a subscript raises a `KeyError` or a `TypeError`. -/
theorem satisfies_subscript {raised : PythonError → Prop} (value : Json) (key : Text)
    (hkey : raised (.keyError key)) (htype : ∀ message, raised (.typeError message)) :
    Satisfies raised (value.subscript key) fun found =>
      ∃ members, value = object members ∧ member members key = some found := by
  cases value with
  | object members =>
      unfold subscript
      dsimp only
      cases hfound : member members key with
      | none => exact hkey
      | some found => exact ⟨members, rfl, hfound⟩
  | null => exact htype _
  | bool value => exact htype _
  | int value => exact htype _
  | float literal => exact htype _
  | string value => exact htype _
  | array items => exact htype _

end Json

namespace Python

variable (python : Python)

/-- `value == n`, where `True` is 1. -/
def equalsInt (value : Json) (n : Int) : Bool :=
  match value with
  | .int m => m = n
  | .bool flag => (if flag then 1 else 0) = n
  | .float literal => python.floatEquals literal n
  | _ => false

def lessInt (value : Json) (n : Int) : Except PythonError Bool :=
  match value with
  | .int m => pure (m < n)
  | .bool flag => pure ((if flag then 1 else 0) < n)
  | .float literal => pure (python.floatLess literal n)
  | other => throw (.typeError ("'<' not supported between instances of '".toList ++
      other.typeName ++ "' and 'int'".toList))

def loads (text : Text) : Except PythonError Json :=
  match Json.loads text with
  | some value => pure value
  | none => throw (.valueError (python.decodeMessage text))

variable {raised : PythonError → Prop}

end Python

end AdaptivePi.Foundation
