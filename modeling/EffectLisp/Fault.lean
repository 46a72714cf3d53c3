import EffectLisp.Datum.Error
import EffectLisp.Value.Printer

/-!
# Faults

Everything that can go wrong in reading, writing and evaluating is a fault with
a cause.  `Fault.kind` names the class of a fault and `Fault.message` is its
text.
-/

namespace EffectLisp

/-- What was expected of a value that was refused. -/
inductive Shape where
  | string
  | path
  | content
  | url
  | number
  | list
  | nonEmptyList
  | listOrString
  | callable
  | operator
  | readableSymbol
  | serializable
  deriving DecidableEq, Repr

/-- The shape as an error message names it. -/
def Shape.text : Shape → String
  | .string => "string"
  | .path => "string path"
  | .content => "string content (convert other values with show)"
  | .url => "string URL"
  | .number => "number"
  | .list => "list"
  | .nonEmptyList => "non-empty list"
  | .listOrString => "list or string"
  | .callable => "callable"
  | .operator => "callable in operator position"
  | .readableSymbol => "symbol with a readable name"
  | .serializable => "serializable value (functions have no textual form)"

inductive Malformation where
  | quoteOperands
  | ifOperands
  | lambdaOperands
  | letOperands
  | defineOperands
  | loadOperands
  | parametersNotList
  | parameterNotSymbol (parameter : Value)
  | bindingName
  | badBinding (binding : Value)
  | functionName
  | notAtTopLevel

def Malformation.message : Malformation → String
  | .quoteOperands => "expected exactly one operand"
  | .ifOperands => "expected (if cond then [else])"
  | .lambdaOperands => "expected (lambda (params...) body...)"
  | .letOperands => "expected (let ((name expr)...) body...)"
  | .defineOperands => "expected (define name expr) or (define (name params...) body...)"
  | .loadOperands => "expected (load path)"
  | .parametersNotList => "parameters must be a list"
  | .parameterNotSymbol parameter => "parameter " ++ parameter.display ++ " is not a symbol"
  | .bindingName => "binding name must be a symbol"
  | .badBinding binding => "bad binding " ++ binding.display
  | .functionName => "function name must be a symbol"
  | .notAtTopLevel => "only allowed at top level"

/-- What a panicking part of the program left behind: a text, or something that
is no text. -/
inductive Payload where
  | text (message : String)
  | other
  deriving DecidableEq, Repr

inductive Fault where
  | typeMismatch (expected : Shape) (got : Value)
  /-- A file or a URL that could not be used. -/
  | ioFailure (message : String) (resource : Option String)
  | parseFailure (cause : ReadError)
  | unbound (name : String)
  | arity (name : String) (expected : Arity) (got : Nat)
  | badForm (form : String) (cause : Malformation)
  /-- Nesting or calls beyond the limit. -/
  | recursionLimit (limit : Nat)
  /-- The host broke its contract. -/
  | internal (message : String)

namespace Fault

/-- A failure about one file or URL. -/
def io (message resource : String) : Fault :=
  ioFailure message (some resource)

/-- A panic that was contained. -/
def panicked : Payload → Fault
  | .text message => internal ("panic during evaluation: " ++ message)
  | .other => internal "panic during evaluation"

def kind : Fault → String
  | typeMismatch .. => "TypeMismatch"
  | ioFailure .. => "IOFailure"
  | parseFailure .. => "ParseFailure"
  | unbound .. => "Unbound"
  | arity .. => "Arity"
  | badForm .. => "BadForm"
  | recursionLimit .. => "RecursionLimit"
  | internal .. => "Internal"

/-- The file or URL that an input or output failure is about. -/
def resource : Fault → Option String
  | ioFailure _ resource => resource
  | _ => none

def message : Fault → String
  | typeMismatch expected got =>
      "expected " ++ expected.text ++ ", got " ++ got.typeName ++ " " ++ got.display
  | ioFailure message _ => message
  | parseFailure cause => cause.message
  | unbound name => "unbound symbol: " ++ name
  | arity name expected got =>
      name ++ ": expected " ++ expected.text ++ " argument(s), got " ++ toString got
  | badForm form cause => "malformed " ++ form ++ ": " ++ cause.message
  | recursionLimit limit => s!"recursion limit of {limit} exceeded"
  | internal message => message

end Fault

end EffectLisp
