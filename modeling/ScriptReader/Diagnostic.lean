import ScriptReader.Text.Utf8
import ScriptReader.Token
import ScriptReader.Tree.Operator

/-!
# Diagnostic — what can be wrong with a script, and how it is said

A `Problem` is a cause with what it points at; its category, the rule that raises it and its
wording are functions of the cause (`Problem.category`, `Problem.context`, `Problem.message`).  An
`Error` puts a problem on a line; besides, bytes may be no text, and a store may be asked for a
token that it does not hold.
-/

namespace ScriptReader

/-- What a message points at: a token, or the end of the statement it was looked for in. -/
inductive Found where
  | token (t : Token)
  | endOfStatement (line : Nat)
  deriving DecidableEq, Repr

/-- The kind, text and line of what is pointed at. -/
def Found.description : Found → String
  | .token t => s!"{t.kind.label} '{t.text}' (on line {t.line})"
  | .endOfStatement line => s!"end of statement (on line {line})"

/-- The two expressions written between brackets of their own. -/
inductive Container where
  | array
  | dictionary
  deriving DecidableEq, Repr

/-- The four statements that `end` closes. -/
inductive BlockKind where
  | choice
  | whileLoop
  | forLoop
  | function
  deriving DecidableEq, Repr

/-- A cause for refusing a script. -/
inductive Problem where
  -- in the text
  | brokenContinuation
  | unclosedBracket (bracket : Char)
  | unterminatedString
  | unbalancedBracket (bracket : Char)
  | unexpectedCharacter (c : Char)
  -- between brackets
  | notOpening (found : Found)
  | noClosing (found : Found)
  | notClosing (found : Found)
  | noOpening (found : Found)
  -- in expressions
  | notName (text : String)
  | notEnclosed (container : Container) (found : Found)
  | colonMissing (entry : String) (found : Found)
  | argumentsNotEnclosed (found : Found)
  | malformedNamedArgument (text : String)
  | operandMissing (op : Operator)
  | leftOperandMissing (op : Operator)
  | misplacedNot (left : String)
  | expressionMissing (line : Nat)
  | adjacentOperands (left right : Found)
  | malformedNumber (found : Found)
  | notOperand (found : Found) (kind : Kind)
  -- in statements
  | noMatchingBlock (found : Found)
  | endMissing (block : BlockKind)
  | notEnd (block : BlockKind) (found : Found)
  | conditionMissing (keyword : Found)
  | branchConditionMissing
  | unexpectedInHeader (found : Found)
  | inMissing (keyword : Found)
  | iterableMissing (found : Found)
  | parametersMissing (keyword : Found)
  | notFunctionName (text : String)
  | malformedParameter (parameter : String) (found : Found)
  | valueAfterContinue (found : Found)
  | assignmentMissing (text : String)
  | assignedValueMissing (found : Found)
  deriving DecidableEq, Repr

/-- What kind of error a cause is. -/
inductive Category where
  | lexical
  | missingToken
  | unexpectedToken
  | structural
  | outOfRange
  | notText
  deriving DecidableEq, Repr

namespace Problem

/-- What kind of error the cause is. -/
def category : Problem → Category
  | brokenContinuation | unclosedBracket _ | unterminatedString | unbalancedBracket _
  | unexpectedCharacter _ => .lexical
  | noClosing _ | noOpening _ | notEnclosed .. | colonMissing .. | operandMissing _
  | expressionMissing _ | endMissing _ | conditionMissing _ | branchConditionMissing | inMissing _
  | iterableMissing _ | parametersMissing _ | assignmentMissing _ | assignedValueMissing _ =>
    .missingToken
  | malformedNamedArgument _ | misplacedNot _ | notOperand .. | noMatchingBlock _ | notEnd ..
  | unexpectedInHeader _ | malformedParameter .. | valueAfterContinue _ => .unexpectedToken
  | notOpening _ | notClosing _ | notName _ | argumentsNotEnclosed _ | leftOperandMissing _
  | adjacentOperands .. | malformedNumber _ | notFunctionName _ => .structural

/-- The rule that reads the statement which `end` closes. -/
def blockContext : BlockKind → String
  | .choice => "Parser::parse_if_statement"
  | .whileLoop => "Parser::parse_while_statement"
  | .forLoop => "Parser::parse_for_statement"
  | .function => "Parser::parse_function_statement"

/-- The rule that raises the problem, as messages name it. -/
def context : Problem → String
  | brokenContinuation | unclosedBracket _ => "Scanner::get_statement"
  | unterminatedString => "Scanner::parse_string"
  | unbalancedBracket _ | unexpectedCharacter _ => "Scanner::parse_operator"
  | notOpening _ | noClosing _ => "TokenRange::closing_bracket"
  | notClosing _ | noOpening _ => "TokenRange::opening_bracket"
  | notName _ => "parse_name_expression"
  | notEnclosed .array _ => "parse_array_expression"
  | notEnclosed .dictionary _ | colonMissing .. => "parse_dictionary_expression"
  | argumentsNotEnclosed _ | malformedNamedArgument _ => "parse_call_expression"
  | operandMissing _ | leftOperandMissing _ | misplacedNot _ => "parse_operator_expression"
  | expressionMissing _ | adjacentOperands .. | malformedNumber _ | notOperand .. =>
    "parse_token_expression"
  | noMatchingBlock _ => "Parser::parse"
  | endMissing block | notEnd block _ => blockContext block
  | conditionMissing _ | unexpectedInHeader _ => "Parser::parse_conditional_compound"
  | branchConditionMissing => "Parser::parse_branch"
  | inMissing _ | iterableMissing _ => blockContext .forLoop
  | parametersMissing _ | notFunctionName _ | malformedParameter .. => blockContext .function
  | valueAfterContinue _ => "Parser::parse_jump_statement"
  | assignmentMissing _ | assignedValueMissing _ => "Parser::parse_assign_statement"

/-- The problem in words. -/
def message : Problem → String
  | brokenContinuation => "Expected a line break after '\\'"
  | unclosedBracket c => s!"Unclosed '{c}' at end of input"
  | unterminatedString => "Unterminated string"
  | unbalancedBracket c => s!"Unbalanced '{c}'"
  | unexpectedCharacter c => s!"Unexpected character: {c}"
  | notOpening found => s!"{found.description} is not an opening bracket"
  | noClosing found => s!"Could not find closing bracket for {found.description}"
  | notClosing found => s!"{found.description} is not a closing bracket"
  | noOpening found => s!"Could not find opening bracket for {found.description}"
  | notName text => s!"'{text}' is not a name"
  | notEnclosed .array found =>
    s!"Expected brackets for the array expression beginning at {found.description}"
  | notEnclosed .dictionary found =>
    s!"Expected brackets for the dictionary expression beginning at {found.description}"
  | colonMissing entry found => s!"Colon is missing from '{entry}' at {found.description}"
  | argumentsNotEnclosed found =>
    s!"Call arguments must be enclosed in parenthesis for {found.description}"
  | malformedNamedArgument text => s!"Labeled argument '{text}' is malformed"
  | operandMissing op => s!"Expected an operand after '{op.symbol}'"
  | leftOperandMissing op => s!"'{op.symbol}' needs a left operand"
  | misplacedNot left => s!"'not' cannot follow '{left}'"
  | expressionMissing line => s!"Expected tokens, but got nothing -- near line {line}"
  | adjacentOperands left right =>
    s!"{right.description} cannot follow {left.description} without an operator or ','"
  | malformedNumber found => s!"Malformed number {found.description}"
  | notOperand found kind =>
    s!"{found.description} which was identified as {kind.label} was unexpected"
  | noMatchingBlock found => s!"{found.description} has no matching block"
  | endMissing _ => "Expected 'end', but reached the end of the script"
  | notEnd _ found => s!"Expected 'end', but got {found.description}"
  | conditionMissing keyword =>
    s!"A condition expression was expected after {keyword.description}"
  | branchConditionMissing => "Missing branch condition"
  | unexpectedInHeader found => s!"{found.description} was unexpected"
  | inMissing keyword => s!"Expected 'in' to follow {keyword.description}"
  | iterableMissing found => s!"Expected an iterable after {found.description}"
  | parametersMissing keyword => s!"Expected arguments for {keyword.description}"
  | notFunctionName text => s!"'{text}' is not a valid function name"
  | malformedParameter parameter found =>
    s!"'{parameter}' was unexpected in argument definition at {found.description}"
  | valueAfterContinue found => s!"{found.description} was unexpected after 'continue'"
  | assignmentMissing text => s!"Expected '=' or ':=' in '{text}'"
  | assignedValueMissing found => s!"Expected a value after {found.description}"

end Problem

/-- Why a request was refused. -/
inductive Error where
  /-- A problem with a script, on a line of it. -/
  | script (problem : Problem) (line : Nat)
  /-- A store was asked for a token past its last. -/
  | outOfRange (index size : Nat)
  /-- The bytes of a script are no text. -/
  | notText (fault : Text.Utf8Fault)
  deriving DecidableEq, Repr

namespace Error

def category : Error → Category
  | script problem _ => problem.category
  | outOfRange .. => .outOfRange
  | notText _ => .notText

/-- The line that the error points at, if it is about a line. -/
def line? : Error → Option Nat
  | script _ line => some line
  | _ => none

/-- The error in words. -/
def message : Error → String
  | script problem line => s!"[line {line}] {problem.context}: {problem.message}"
  | outOfRange index size => s!"TokenBuffer::at: index {index} is out of range (size {size})"
  | notText fault => fault.message

end Error

end ScriptReader
