/-! # Kinds of syntax nodes

The kinds that the library asks about, each with its name in the grammars, and every other kind by
its name.  Keywords and punctuation are nodes too.  The keyword `class` and the class expression
have the same name and so the same kind; only the expression is a named node.

The tests are those for `FUNCTION_DECLARATIONS`, `CLASS_DECLARATIONS`, `VARIABLE_DECLARATIONS`,
`FUNCTION_EXPRESSIONS`, `CLASS_EXPRESSIONS` and `STATEMENT_CONTAINERS`.
-/

namespace Injection

inductive Kind where
  | program
  | statementBlock
  | comment
  | error
  | exportStatement
  | lexicalDeclaration
  | variableDeclaration
  | variableDeclarator
  | functionDeclaration
  | generatorFunctionDeclaration
  | classDeclaration
  | abstractClassDeclaration
  | functionExpression
  /-- The name that older grammars give to a function expression. -/
  | function
  | generatorFunction
  | arrowFunction
  | classExpression
  | methodDefinition
  | formalParameters
  | requiredParameter
  | optionalParameter
  | assignmentPattern
  | restPattern
  | identifier
  | propertyIdentifier
  | shorthandPropertyIdentifier
  | shorthandPropertyIdentifierPattern
  | typeIdentifier
  | expressionStatement
  | assignmentExpression
  | memberExpression
  | decorator
  | exportKeyword
  | defaultKeyword
  | semicolon
  | other (name : String)
deriving DecidableEq, Repr

namespace Kind

/-- The name of a kind in the grammars. -/
def name : Kind → String
  | .program => "program"
  | .statementBlock => "statement_block"
  | .comment => "comment"
  | .error => "ERROR"
  | .exportStatement => "export_statement"
  | .lexicalDeclaration => "lexical_declaration"
  | .variableDeclaration => "variable_declaration"
  | .variableDeclarator => "variable_declarator"
  | .functionDeclaration => "function_declaration"
  | .generatorFunctionDeclaration => "generator_function_declaration"
  | .classDeclaration => "class_declaration"
  | .abstractClassDeclaration => "abstract_class_declaration"
  | .functionExpression => "function_expression"
  | .function => "function"
  | .generatorFunction => "generator_function"
  | .arrowFunction => "arrow_function"
  | .classExpression => "class"
  | .methodDefinition => "method_definition"
  | .formalParameters => "formal_parameters"
  | .requiredParameter => "required_parameter"
  | .optionalParameter => "optional_parameter"
  | .assignmentPattern => "assignment_pattern"
  | .restPattern => "rest_pattern"
  | .identifier => "identifier"
  | .propertyIdentifier => "property_identifier"
  | .shorthandPropertyIdentifier => "shorthand_property_identifier"
  | .shorthandPropertyIdentifierPattern => "shorthand_property_identifier_pattern"
  | .typeIdentifier => "type_identifier"
  | .expressionStatement => "expression_statement"
  | .assignmentExpression => "assignment_expression"
  | .memberExpression => "member_expression"
  | .decorator => "decorator"
  | .exportKeyword => "export"
  | .defaultKeyword => "default"
  | .semicolon => ";"
  | .other name => name

/-- The kinds that are not given by their name alone. -/
def known : List Kind :=
  [.program, .statementBlock, .comment, .error, .exportStatement, .lexicalDeclaration,
    .variableDeclaration, .variableDeclarator, .functionDeclaration, .generatorFunctionDeclaration,
    .classDeclaration, .abstractClassDeclaration, .functionExpression, .function,
    .generatorFunction, .arrowFunction, .classExpression, .methodDefinition, .formalParameters,
    .requiredParameter, .optionalParameter, .assignmentPattern, .restPattern, .identifier,
    .propertyIdentifier, .shorthandPropertyIdentifier, .shorthandPropertyIdentifierPattern,
    .typeIdentifier, .expressionStatement, .assignmentExpression, .memberExpression, .decorator,
    .exportKeyword, .defaultKeyword, .semicolon]

/-- The kind with a given name. -/
def ofName (name : String) : Kind := (known.find? (·.name = name)).getD (.other name)

/-- Kinds whose children are statements. -/
def isContainer : Kind → Bool
  | .program | .statementBlock => true
  | _ => false

def isFunctionDeclaration : Kind → Bool
  | .functionDeclaration | .generatorFunctionDeclaration => true
  | _ => false

def isClassDeclaration : Kind → Bool
  | .classDeclaration | .abstractClassDeclaration => true
  | _ => false

/-- Declarations that carry their own name. -/
def isDeclaration (k : Kind) : Bool := k.isFunctionDeclaration || k.isClassDeclaration

def isVariableDeclaration : Kind → Bool
  | .lexicalDeclaration | .variableDeclaration => true
  | _ => false

def isFunctionExpression : Kind → Bool
  | .functionExpression | .function | .generatorFunction | .arrowFunction => true
  | _ => false

/-- What a default export may hold to be given a name. -/
def isExportable (k : Kind) : Bool :=
  k.isDeclaration || k.isFunctionExpression || k = .classExpression

/-- Kinds of nodes that spell a name. -/
def isIdentifier : Kind → Bool
  | .identifier | .propertyIdentifier | .shorthandPropertyIdentifier
  | .shorthandPropertyIdentifierPattern | .typeIdentifier => true
  | _ => false

end Kind

end Injection
