/-!
# Errors

Everything that can go wrong, as one type of causes, with the text a user sees in `Error.message`.
Absent data is not an error anywhere: a missing source, column or field reads as null.
-/

namespace ReactiveMarkup

/-- What is wrong with the path of an object binding. -/
inductive PathFault where
  | unterminatedBracket
  | emptyColumn
  | tooShort
  | badSegment (segment : String)
deriving DecidableEq, Repr

/-- What is wrong with an expression. -/
inductive ExpressionFault where
  | unexpectedCharacter
  | empty
  | trailingInput
  | unexpectedEnd
  | expectedValue
  | unknownFunction (name : String)
  | expected (lexeme : String)
  | expectedName
  | expectedKey
deriving DecidableEq, Repr

/-- What is wrong with persisted options. -/
inductive OptionsFault where
  | unreadable
  | badPattern (name : String)
  | noGroup (name : String)
deriving DecidableEq, Repr

/-- What is wrong with a source in its wire form. -/
inductive SourceFault where
  | unreadable
  | emptyId
  | notRecord (index : Nat) (text : String)
deriving DecidableEq, Repr

/-- What is wrong with the markup of a command. -/
inductive MarkupFault where
  | badRowType (word : String)
  | badRetry (text : String)
  | badMergeType (member word : String)
deriving DecidableEq, Repr

/-- A failure that is reported to the host. -/
inductive Error where
  | malformedPath (path : String) (fault : PathFault)
  | invalidExpression (text : String) (position : Nat) (fault : ExpressionFault)
  | invalidOptions (fault : OptionsFault)
  | invalidSource (id : String) (fault : SourceFault)
  | waitCancelled (id : String)
  | scopeDisposed
  | unknownCommand (keyword : String)
  | missingAttribute (tag name : String)
  | invalidMarkup (fault : MarkupFault)
  | memberCount (source : String) (expected actual : Nat)
  | unknownProvider (name : String)
  | provider (message : String)
  | providerExhausted (attempts : Nat) (message : String)
  | alreadyRun
  | collectionDisposed
deriving DecidableEq, Repr

/-- The reason given for a malformed path. -/
def PathFault.message : PathFault → String
  | .unterminatedBracket => "unterminated '['"
  | .emptyColumn => "empty column in '[...]'"
  | .tooShort => "expected at least 'namespace.name'"
  | .badSegment segment => "'" ++ segment ++ "' is not a valid path segment"

/-- The reason given for an invalid expression. -/
def ExpressionFault.message : ExpressionFault → String
  | .unexpectedCharacter => "Unexpected character"
  | .empty => "Empty expression"
  | .trailingInput => "Unexpected trailing input"
  | .unexpectedEnd => "Unexpected end of expression"
  | .expectedValue => "Expected a value"
  | .unknownFunction name => "Unknown function '" ++ name ++ "'"
  | .expected lexeme => "Expected '" ++ lexeme ++ "'"
  | .expectedName => "Expected identifier after '.'"
  | .expectedKey => "Expected quoted key inside '[...]'"

/-- The reason given for invalid options; a text that cannot be read at all has none of its own. -/
def OptionsFault.message : OptionsFault → String
  | .unreadable => ""
  | .badPattern name => name ++ " is not a valid pattern"
  | .noGroup name => name ++ " needs a capture group for the binding body"

/-- The reason given for an invalid source; a text that cannot be read at all has none. -/
def SourceFault.message : SourceFault → String
  | .unreadable => ""
  | .emptyId => "source id is empty"
  | .notRecord index text => "row " ++ toString index ++ " is not a record: " ++ text

/-- The reason given for invalid command markup. -/
def MarkupFault.message : MarkupFault → String
  | .badRowType word => "rowtype must be 'odd' or 'even', got '" ++ word ++ "'"
  | .badRetry text => "retry must be a number, got '" ++ text ++ "'"
  | .badMergeType member word =>
    "member '" ++ member ++ "' has unknown merge-type '" ++ word ++ "'"

def Error.message : Error → String
  | .malformedPath path fault => "Malformed binding path '" ++ path ++ "': " ++ fault.message
  | .invalidExpression text position fault =>
    "Invalid expression '" ++ text ++ "' at " ++ toString position ++ ": " ++ fault.message
  | .invalidOptions fault => "Invalid options: " ++ fault.message
  | .invalidSource id fault => "Invalid source '" ++ id ++ "': " ++ fault.message
  | .waitCancelled id =>
    "Wait for source '" ++ id ++ "' was cancelled before the source was set"
  | .scopeDisposed => "Context has been disposed"
  | .unknownCommand keyword => "Unknown command '" ++ keyword ++ "'"
  | .missingAttribute tag name =>
    "<" ++ tag ++ "> is missing required attribute '" ++ name ++ "'"
  | .invalidMarkup fault => "Invalid command markup: " ++ fault.message
  | .memberCount source expected actual =>
    "Data source '" ++ source ++ "' returned " ++ toString actual ++ " result sets for "
      ++ toString expected ++ " members"
  | .unknownProvider name => "Unknown data provider '" ++ name ++ "'"
  | .provider message => "Provider failed: " ++ message
  | .providerExhausted attempts message =>
    "Provider gave up after " ++ toString attempts ++ " attempts: " ++ message
  | .alreadyRun => "Component collection has already run"
  | .collectionDisposed => "Component collection is disposed"

end ReactiveMarkup
