import EventFlow.Id
import EventFlow.Text.Quoted

/-!
# Errors

An `Error` says what was wrong, as data; its `kind` is the family it is reported under and its
`message` puts it in words.  A definition, pattern or event that may not enter the engine has a
`Flaw`.

Failures of actions are not errors: they travel inside events (`EventFlow.Event`).
-/

set_option autoImplicit false

namespace EventFlow

/-- What is wrong with a definition, a pattern, a variable or an event. -/
inductive Flaw
  | blankPatternName
  | malformedField (pattern path : String)
  | invalidBinding (pattern name : String)
  | blankEventName
  | emptyEventId (event : String)
  | resultWithoutInvocation
  | failureWithoutReason
  | invalidStatus (status : Option String)
  | firingWithoutTimer
  | malformedVariable (name : String)
  | reservedVariable (name : String)
  | emptyVariable
  | emptyConflictKey (owner : String)
  | blankSend
  | blankAction
  | blankChildFlow
  | emptyFork
  | emptyRace
  | strayJoin
  | unjoinedFork
  | blankFlowId
  | inFlow (flow : FlowId) (flaw : Flaw)
deriving DecidableEq

/-- A flaw in words. -/
def Flaw.text : Flaw → String
  | blankPatternName => "pattern event name must not be empty"
  | malformedField pattern path =>
    "pattern '" ++ pattern ++ "' has malformed field path '" ++ path ++ "'"
  | invalidBinding pattern name =>
    "pattern '" ++ pattern ++ "' binds invalid variable name '" ++ name ++ "'"
  | blankEventName => "event name must not be empty"
  | emptyEventId event => "event '" ++ event ++ "' has an empty id"
  | resultWithoutInvocation => "action-result requires a string invocation_id"
  | failureWithoutReason => "failed action-result requires a reason"
  | invalidStatus status => "action-result has invalid status: " ++ Quoted.encodeOption status
  | firingWithoutTimer => "timer-fired requires a string timer_id"
  | malformedVariable name => "malformed variable reference '" ++ name ++ "'"
  | reservedVariable name =>
    "'" ++ name ++ "' is reserved and cannot be used as a local variable"
  | emptyVariable => "empty variable reference"
  | emptyConflictKey owner => "'" ++ owner ++ "' declares an empty conflict key"
  | blankSend => "send element needs an event name"
  | blankAction => "execute element needs an action name"
  | blankChildFlow => "start_flow needs a flow id"
  | emptyFork => "fork needs at least one branch"
  | emptyRace => "when needs at least one arm"
  | strayJoin => "join without a preceding fork in the same sequence"
  | unjoinedFork => "fork inside a nested block must be joined in the same block"
  | blankFlowId => "flow id must not be empty"
  | inFlow flow flaw => "flow '" ++ flow.text ++ "': " ++ flaw.text

/-- The families of errors. -/
inductive ErrorKind
  | unknownDefinition
  | duplicateDefinition
  | unknownInstance
  | validation
  | reference
  | expression
  | condition
  | configuration
  | serialization
  | channel
deriving DecidableEq

/-- The name of a family. -/
def ErrorKind.name : ErrorKind → String
  | unknownDefinition => "DefinitionNotFound"
  | duplicateDefinition => "DuplicateDefinition"
  | unknownInstance => "FlowInstanceNotFound"
  | validation => "ValidationError"
  | reference => "ReferenceError"
  | expression => "ExpressionError"
  | condition => "ConditionEvaluationError"
  | configuration => "ConfigurationError"
  | serialization => "SerializationError"
  | channel => "ChannelClosed"

/-- The family with a name. -/
def ErrorKind.ofName? : String → Option ErrorKind
  | "DefinitionNotFound" => some .unknownDefinition
  | "DuplicateDefinition" => some .duplicateDefinition
  | "FlowInstanceNotFound" => some .unknownInstance
  | "ValidationError" => some .validation
  | "ReferenceError" => some .reference
  | "ExpressionError" => some .expression
  | "ConditionEvaluationError" => some .condition
  | "ConfigurationError" => some .configuration
  | "SerializationError" => some .serialization
  | "ChannelClosed" => some .channel
  | _ => none

/-- The words a message of a family begins with. -/
def ErrorKind.label : ErrorKind → String
  | unknownDefinition => "Flow definition not found"
  | duplicateDefinition => "Duplicate flow definition"
  | unknownInstance => "Flow instance not found"
  | validation => "Validation error"
  | reference => "Reference error"
  | expression => "Expression evaluation error"
  | condition => "Condition evaluation error"
  | configuration => "Configuration error"
  | serialization => "Serialization error"
  | channel => "Channel closed"

/-- The message of a family about some detail. -/
def ErrorKind.message (kind : ErrorKind) (detail : String) : String :=
  kind.label ++ ": " ++ detail

/-- Why an operation was refused. -/
inductive Error
  | unknownFlow (id : FlowId)
  | duplicateFlow (id : FlowId)
  | unknownInstance (id : InstanceId)
  | invalid (flaw : Flaw)
  | unboundVariable (name : String)
  | unknownChild (flow child : FlowId)
  | uncompilable (expression reason : String)
  | unevaluable (expression reason : String)
  | undecidable (condition reason : String)
  | zeroLimit (setting : String)
  | noRepository
  | malformedDocument
  | malformedJson
deriving DecidableEq

namespace Error

/-- The family of an error. -/
def kind : Error → ErrorKind
  | unknownFlow _ => .unknownDefinition
  | duplicateFlow _ => .duplicateDefinition
  | unknownInstance _ => .unknownInstance
  | invalid _ => .validation
  | unboundVariable _ | unknownChild _ _ => .reference
  | uncompilable _ _ | unevaluable _ _ => .expression
  | undecidable _ _ => .condition
  | zeroLimit _ | noRepository | malformedDocument => .configuration
  | malformedJson => .serialization

/-- What an error is about. -/
def detail : Error → String
  | unknownFlow id | duplicateFlow id => id.text
  | unknownInstance id => id.text
  | invalid flaw => flaw.text
  | unboundVariable name => "Variable not bound: " ++ name
  | unknownChild flow child =>
    "flow '" ++ flow.text ++ "' starts unknown flow '" ++ child.text ++ "'"
  | uncompilable expression reason =>
    "Failed to compile JMESPath expression: " ++ expression ++ ": " ++ reason
  | unevaluable expression reason =>
    "Failed to evaluate JMESPath expression: " ++ expression ++ ": " ++ reason
  | undecidable condition reason => condition ++ ": " ++ reason
  | zeroLimit setting => setting ++ " must be at least 1"
  | noRepository => "no snapshot repository configured"
  | malformedDocument => "the document does not hold a configuration"
  | malformedJson => "the text does not hold the wanted value"

/-- An error in words. -/
def message (e : Error) : String := e.kind.message e.detail

end Error

/-- Whether something may be used, or why not. -/
abbrev Check := Except Error Unit

/-- Refuse a flaw when `test` finds it. -/
def Check.refuseIf (test : Bool) (flaw : Flaw) : Check :=
  if test then .error (.invalid flaw) else .ok ()

end EventFlow
