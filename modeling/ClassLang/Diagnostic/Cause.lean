import ClassLang.Text.Quoted

/-!
# What can be wrong with a program

Every refusal has a cause. A cause has a name, a message of one line, and mostly a tip for the
author of the program. Names of tokens, features and operators are quoted in messages; names of
types stand as they are. An internal cause is never the fault of the program being read.
-/

namespace ClassLang

/-- Why a program is refused. -/
inductive Cause where
  | unrecognisedToken (token : String)
  | unexpectedToken (token : String)
  | unexpectedTokenDetailed (token message : String)
  | invalidNumber (token : String)
  | unknownType (name : String)
  | duplicateClass (name : String)
  | duplicateField (owner field : String)
  | duplicateMethod (name : String)
  | duplicateVariable (name : String)
  | featureNotFound (name : String)
  | wrongArgumentCount (method : String) (expected received : Nat)
  | operatorNotFound (operator left : String) (right : Option String)
  | typeMismatch (expected received : String)
  | invalidReturnType (expected received : String)
  | notAnLvalue (type : String)
  | notACall (type : String)
  | internal (message : String)
deriving DecidableEq

namespace Cause

/-- Whether the fault lies with the resolver and not with the program. -/
def isInternal : Cause → Bool
  | internal _ => true
  | _ => false

/-- The name a cause goes by in reports. -/
def name : Cause → String
  | unrecognisedToken _ => "UnrecognisedToken"
  | unexpectedToken _ => "UnexpectedToken"
  | unexpectedTokenDetailed _ _ => "UnexpectedTokenDetailed"
  | invalidNumber _ => "NumberParseError"
  | unknownType _ => "UnknownType"
  | duplicateClass _ => "DuplicateClassDeclaration"
  | duplicateField _ _ => "DuplicateFieldDeclaration"
  | duplicateMethod _ => "DuplicateMethodDeclaration"
  | duplicateVariable _ => "DuplicateVariableDeclaration"
  | featureNotFound _ => "FeatureNotFound"
  | wrongArgumentCount _ _ _ => "WrongArgumentCount"
  | operatorNotFound _ _ _ => "OperatorNotFound"
  | typeMismatch _ _ => "TypeMismatch"
  | invalidReturnType _ _ => "InvalidReturnType"
  | notAnLvalue _ => "NotAnLvalue"
  | notACall _ => "NotACall"
  | internal _ => "InternalError"

/-- The cause in one line. -/
def message : Cause → String
  | unrecognisedToken token => "unrecognised token: " ++ quoted token
  | unexpectedToken token => "unexpected token: " ++ quoted token
  | unexpectedTokenDetailed token text =>
    "unexpected token (" ++ quoted text ++ "): " ++ quoted token
  | invalidNumber token => "error parsing number: " ++ quoted token
  | unknownType name => "unknown type " ++ name
  | duplicateClass name => "class " ++ quoted name ++ " already declared"
  | duplicateField owner field =>
    "field " ++ quoted field ++ " already declared in class " ++ quoted owner
  | duplicateMethod name => "method " ++ quoted name ++ " already declared"
  | duplicateVariable name => "variable " ++ quoted name ++ " already declared"
  | featureNotFound name => "feature " ++ quoted name ++ " not found"
  | wrongArgumentCount method expected received =>
    "wrong argument count for " ++ quoted method ++ ": expected " ++ expected.repr
      ++ ", received " ++ received.repr
  | operatorNotFound operator left right =>
    "operator " ++ quoted operator ++ " not found for " ++ left
      ++ (match right with
          | some type => " and " ++ type
          | none => "")
  | typeMismatch expected received =>
    "types do not match: expected " ++ expected ++ ", received " ++ received
  | invalidReturnType expected received =>
    "invalid return type: expected " ++ expected ++ ", received " ++ received
  | notAnLvalue type => "expression of type " ++ type ++ " is not an lvalue"
  | notACall type => "expression of type " ++ type ++ " is not a call"
  | internal text => "internal compiler error: " ++ text

/-- What the author of the program may look at, if there is something to say. -/
def tip? : Cause → Option String
  | unrecognisedToken _ => none
  | unexpectedToken token =>
    some ("Unexpected token: `" ++ token ++ "`, did you miss a semicolon?")
  | unexpectedTokenDetailed token text => some ("Unexpected token: `" ++ token ++ "`, " ++ text)
  | invalidNumber token =>
    some ("Invalid number: `" ++ token ++ "`, is it above the integer limit?")
  | unknownType name => some ("Unknown type `" ++ name ++ "` found")
  | duplicateClass name => some ("Class `" ++ name ++ "` already declared")
  | duplicateField owner field =>
    some ("Field `" ++ field ++ "` already declared in class `" ++ owner ++ "`")
  | duplicateMethod name => some ("Method `" ++ name ++ "` already declared")
  | duplicateVariable name => some ("Variable `" ++ name ++ "` already declared in this block")
  | featureNotFound name => some ("`" ++ name ++ "` is not a variable, field or method in scope")
  | wrongArgumentCount method expected received =>
    some ("`" ++ method ++ "` expects " ++ expected.repr ++ " arguments, received "
      ++ received.repr)
  | operatorNotFound operator left (some right) =>
    some ("No operator `" ++ operator ++ "` between `" ++ left ++ "` and `" ++ right ++ "`")
  | operatorNotFound operator left none =>
    some ("No operator `" ++ operator ++ "` for `" ++ left ++ "`")
  | typeMismatch expected received =>
    some ("Expected type `" ++ expected ++ "`, received `" ++ received ++ "`")
  | invalidReturnType expected received =>
    some ("Method returns `" ++ expected ++ "`, but `" ++ received ++ "` is returned")
  | notAnLvalue type =>
    some ("Expression of type `" ++ type ++ "` does not denote a storage location")
  | notACall type =>
    some ("Expression of type `" ++ type ++ "` used as a statement, only calls may be")
  | internal _ => some "This is a compiler bug, please file a report"

end Cause

end ClassLang
