/-! Why a declaration is refused. -/

namespace Sequencer

inductive DeclarationError where
  | unknownOperation (name : String)
  | unknownResolver (name : String)
  | emptyName
  | notAnOperation
  | unrecognizedShape (shape : String)
  | missingBranch
  | missingLoopControl
  | missingLoopBlock
  | invalidLoopBlock (reason : String)
  | emptyGotoTarget
  | emptyErrorValue
  | invalidField (key expected : String)
  | field (key : String) (source : DeclarationError)
deriving DecidableEq, Repr

namespace DeclarationError

def message : DeclarationError → String
  | unknownOperation n => "no operation registered under '" ++ n ++ "'"
  | unknownResolver n => "no label resolver registered under '" ++ n ++ "'"
  | emptyName => "empty operation name"
  | notAnOperation => "declaration does not describe an operation"
  | unrecognizedShape s => "unrecognized declaration shape: " ++ s
  | missingBranch => "conditional has neither a usable 'then' nor 'else' branch"
  | missingLoopControl => "loop requires a control clause (true or an operation)"
  | missingLoopBlock => "loop requires a block"
  | invalidLoopBlock r => "invalid loop block: " ++ r
  | emptyGotoTarget => "goto requires a non-empty label or a label resolver"
  | emptyErrorValue => "error entry requires a non-empty message or an operation"
  | invalidField k e => "'" ++ k ++ "' must be " ++ e
  | field k s => "invalid '" ++ k ++ "': " ++ s.message

/-- The name of the kind of refusal. -/
def kind : DeclarationError → String
  | unknownOperation _ => "UnknownOperation"
  | unknownResolver _ => "UnknownResolver"
  | emptyName => "EmptyName"
  | notAnOperation => "NotAnOperation"
  | unrecognizedShape _ => "UnrecognizedShape"
  | missingBranch => "MissingBranch"
  | missingLoopControl => "MissingLoopControl"
  | missingLoopBlock => "MissingLoopBlock"
  | invalidLoopBlock _ => "InvalidLoopBlock"
  | emptyGotoTarget => "EmptyGotoTarget"
  | emptyErrorValue => "EmptyErrorValue"
  | invalidField _ _ => "InvalidField"
  | field _ _ => "Field"

end DeclarationError
end Sequencer
