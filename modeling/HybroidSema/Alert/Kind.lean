import HybroidSema.Ty.Basic
import HybroidSema.Number.Shortest
import HybroidSema.Alert.Code

/-!
# Kinds of alert

Every problem the analyzer reports, with the data its message needs. `AlertKind.message` is the
wording and `AlertKind.code` the stable code, one line per kind.
-/

namespace HybroidSema

/-- What went wrong in user code. -/
inductive AlertKind where
  /-- `name` is taken in its scope; `what` says what was to be declared. -/
  | redeclaration (name what : String)
  /-- `name` belongs to the environment of an earlier file. -/
  | duplicateEnvironmentName (name otherPath : String)
  /-- An `env` declaration that is not the first statement. -/
  | environmentRedeclaration
  /-- A program whose first statement is no `env` declaration. -/
  | missingEnvironmentDeclaration
  /-- An `env` declaration with a kind that does not exist. -/
  | invalidEnvironmentType (kind : String)
  /-- Environments that require each other, in order, the first one again at the end. -/
  | importCycle (cycle : List String)
  /-- An entity that lacks a lifecycle function it must have. -/
  | missingEntityFunction (entity function : String)
  /-- A further lifecycle function of a kind that the entity already has. -/
  | multipleEntityFunctions (entity function : String)
  /-- A lifecycle function that the engine could not call. -/
  | entityFunctionSignatureMismatch (function : String) (expected got : Ty)
  /-- A spawn function that does not start with a position. -/
  | spawnerParameters
  /-- Return types on a lifecycle function that has no one to return to. -/
  | lifecycleReturns (function : String)
  /-- A field that the constructor or the spawn function leaves unassigned. -/
  | uninitializedField (field : String)
  /-- A class that has no way to be created. -/
  | missingConstructor (className : String)
  /-- A generic parameter with the name of an earlier one of the same list. -/
  | duplicateGenericParameter (name : String)
  /-- An enum that no value can have. -/
  | emptyEnum (name : String)
  /-- A `pub` declaration inside a body, where nothing can reach it. -/
  | publicDeclarationInLocalScope
  /-- A type declared inside a body; `what` is its kind of declaration. -/
  | declarationInLocalScope (what : String)
  /-- `name` is neither an environment nor a library. -/
  | invalidEnvironment (name : String)
  /-- `name` is looked up in `env`, which has nothing of that name. -/
  | invalidEnvironmentAccess (env name : String)
  /-- An environment of one kind that reaches into one of a closed kind. -/
  | unallowedEnvironmentAccess (source targetKind : EnvKind) (target : String)
  /-- A library that environments of `kind` may not use. -/
  | unallowedLibraryUse (library : String) (kind : EnvKind)
  /-- A type name that two imports offer; the first one is taken. -/
  | environmentAccessAmbiguity (name first second : String)
  /-- A key of a map literal or a field of an enum that occurs before. -/
  | duplicateElement (name : String)
  /-- A value that its place does not accept; `context` names the place. -/
  | typeMismatch (expected got : Ty) (context : String)
  /-- Two operands that do not go together under an operator. -/
  | typesMismatch (op : String) (left right : Ty)
  /-- An operand that an operator does not take; `expected` says what it takes. -/
  | invalidOperand (op expected : String) (got : Ty)
  /-- A declared variable whose value does not have the written type. -/
  | explicitTypeMismatch (name : String) (expected got : Ty)
  /-- A declared variable about which nothing is written. -/
  | explicitTypeRequiredInDeclaration (name : String)
  /-- A declared variable without a value, of a type that has no default. -/
  | explicitTypeNotAllowed (name : String) (ty : Ty)
  /-- A written type on a constant, which takes the one of its value. -/
  | unnecessaryTypeInConstDeclaration
  /-- A constant that is given no value. -/
  | noValueGivenForConstant (name : String)
  /-- An argument that its parameter does not accept, counted from 1. -/
  | invalidArgumentType (position : Nat) (expected got : Ty)
  /-- Some places of `context` are left without a value. -/
  | tooFewValuesGiven (expected got : Nat) (context : String)
  /-- Some values of `context` have no place. -/
  | tooManyValuesGiven (expected got : Nat) (context : String)
  /-- A written type with element types that is no container. -/
  | tooManyElementsGiven (name : String)
  /-- A call of a value that is no function. -/
  | invalidCallerType (ty : Ty)
  /-- A field of a value that has none. -/
  | invalidAccessValue (ty : Ty)
  /-- A field of a container, which has elements instead. -/
  | fieldAccessOnListOrMap (field : String)
  /-- An element of a value that is no container. -/
  | memberAccessOnNonListOrMap (ty : Ty)
  /-- `owner` has neither a field nor a method of the name. -/
  | invalidField (owner field : String)
  /-- An index that the container does not take. -/
  | invalidMemberIndex (container : String) (expected got : Ty)
  /-- A known list index in front of the first element. -/
  | listIndexOutOfBounds (index : Binary64)
  /-- A known list index between two elements. -/
  | invalidListIndex (index : Binary64)
  /-- An empty literal of which nothing tells the element type. -/
  | unknownListOrMapContents
  /-- An element that does not agree with the element type of its literal. -/
  | mixedMapOrListContents (expected got : Ty)
  /-- A written container type with `count` element types, not one. -/
  | invalidListOrMapWrappedType (count : Nat)
  /-- A type name that stands for nothing. -/
  | invalidType (name : String)
  /-- A type that `keyword` cannot create. -/
  | notConstructible (name keyword : String)
  /-- A generic parameter that a call leaves open. -/
  | unresolvedGeneric (name : String)
  /-- A pattern that the subject of its match can never equal. -/
  | invalidCaseType (expected got : Ty)
  /-- A constant as the target of an assignment. -/
  | constAssignment (name : String)
  /-- A name that stands for nothing. -/
  | undeclaredVariableAccess (name : String)
  /-- `self`, or a member without it, where there is no instance. -/
  | invalidUseOfSelf
  /-- An entity test that binds a name which only one side of `or` would give. -/
  | entityConversionWithOrCondition
  /-- An entity test that binds a name to an entity of the engine. -/
  | officialEntityConversion (entity : String)
  /-- An exit statement that its scope does not permit. -/
  | invalidUseOfExitStatement (statement : String)
  /-- A path through a body that does not end in the required `exit`. -/
  | notAllCodePathsExit (exit : String)
  /-- Statements that no path reaches. -/
  | unreachableCode
  /-- A match expression that may have no value, for lack of an `else` arm. -/
  | defaultCaseMissing
  /-- An `else` arm in front of other arms. -/
  | invalidDefaultCasePlacement
  /-- A match that decides nothing. -/
  | insufficientCases
  /-- A name of another environment that is not public there. -/
  | foreignLocalVariableAccess (name env : String)
deriving Repr

namespace AlertKind

/-- The message of an alert. -/
def message : AlertKind → String
  | redeclaration name what => s!"{what} '{name}' is already declared in this scope"
  | duplicateEnvironmentName name otherPath =>
    s!"environment name '{name}' is already used by '{otherPath}'"
  | environmentRedeclaration => "the environment is already declared"
  | missingEnvironmentDeclaration => "expected an environment declaration as the first statement"
  | invalidEnvironmentType kind => s!"'{kind}' is not an environment type"
  | importCycle cycle => "import cycle detected: " ++ String.intercalate " -> " cycle
  | missingEntityFunction entity function => s!"entity '{entity}' is missing a {function} function"
  | multipleEntityFunctions entity function =>
    s!"entity '{entity}' has more than one {function} function"
  | entityFunctionSignatureMismatch function expected got =>
    s!"{function} function has signature {got.render}, expected {expected.render}"
  | spawnerParameters => "the spawn function must start with two fixed parameters for the position"
  | lifecycleReturns function => s!"the {function} function cannot return values"
  | uninitializedField field => s!"field '{field}' is not initialized"
  | missingConstructor className => s!"class '{className}' has no constructor"
  | duplicateGenericParameter name => s!"generic parameter '{name}' is declared more than once"
  | emptyEnum name => s!"enum '{name}' has no fields"
  | publicDeclarationInLocalScope => "public declarations are only allowed at the root scope"
  | declarationInLocalScope what => s!"{what} declarations are only allowed at the root scope"
  | invalidEnvironment name => s!"environment '{name}' does not exist"
  | invalidEnvironmentAccess env name => s!"'{name}' does not exist in environment '{env}'"
  | unallowedEnvironmentAccess source targetKind target =>
    s!"a {source.name} environment cannot access the {targetKind.name} environment '{target}'"
  | unallowedLibraryUse library kind =>
    s!"the {library} library cannot be used in a {kind.name} environment"
  | environmentAccessAmbiguity name first second =>
    s!"'{name}' is declared in both '{first}' and '{second}'"
  | duplicateElement name => s!"duplicate element '{name}'"
  | typeMismatch expected got context =>
    s!"expected {expected.render} in {context}, got {got.render}"
  | typesMismatch op left right =>
    s!"operator '{op}' cannot combine {left.render} and {right.render}"
  | invalidOperand op expected got => s!"operator '{op}' expects {expected}, got {got.render}"
  | explicitTypeMismatch name expected got =>
    s!"'{name}' is declared as {expected.render} but given {got.render}"
  | explicitTypeRequiredInDeclaration name => s!"'{name}' needs an explicit type or a value"
  | explicitTypeNotAllowed name ty =>
    s!"type {ty.render} has no default value, give '{name}' an initial value"
  | unnecessaryTypeInConstDeclaration => "constants take the type of their value"
  | noValueGivenForConstant name => s!"constant '{name}' needs a value"
  | invalidArgumentType position expected got =>
    s!"argument {position} expects {expected.render}, got {got.render}"
  | tooFewValuesGiven expected got context =>
    s!"too few values in {context}: expected {expected}, got {got}"
  | tooManyValuesGiven expected got context =>
    s!"too many values in {context}: expected {expected}, got {got}"
  | tooManyElementsGiven name => s!"type '{name}' does not take wrapped types"
  | invalidCallerType ty => s!"a value of type {ty.render} cannot be called"
  | invalidAccessValue ty => s!"a value of type {ty.render} has no fields"
  | fieldAccessOnListOrMap field =>
    s!"'{field}' cannot be accessed with '.' on a list or map, use brackets"
  | memberAccessOnNonListOrMap ty => s!"a value of type {ty.render} cannot be indexed"
  | invalidField owner field => s!"'{owner}' has no field or method '{field}'"
  | invalidMemberIndex container expected got =>
    s!"{container} index must be {expected.render}, got {got.render}"
  | listIndexOutOfBounds index => s!"list index {index.render} is out of bounds, lists start at 1"
  | invalidListIndex index => s!"list index {index.render} is not a whole number"
  | unknownListOrMapContents => "the contents of an empty list or map cannot be inferred"
  | mixedMapOrListContents expected got =>
    s!"list or map elements must share one type: expected {expected.render}, got {got.render}"
  | invalidListOrMapWrappedType count => s!"list and map take exactly one wrapped type, got {count}"
  | invalidType name => s!"unknown type '{name}'"
  | notConstructible name keyword => s!"'{name}' cannot be created with '{keyword}'"
  | unresolvedGeneric name => s!"generic parameter '{name}' could not be inferred"
  | invalidCaseType expected got =>
    s!"case of type {got.render} cannot match a value of type {expected.render}"
  | constAssignment name => s!"cannot assign to constant '{name}'"
  | undeclaredVariableAccess name => s!"'{name}' is not declared"
  | invalidUseOfSelf => "'self' is not available here"
  | entityConversionWithOrCondition => "entity conversions cannot be bound under an 'or' condition"
  | officialEntityConversion entity =>
    s!"'{entity}' is an engine entity and cannot be bound to a name"
  | invalidUseOfExitStatement statement => s!"'{statement}' cannot be used here"
  | notAllCodePathsExit exit => s!"not all code paths {exit}"
  | unreachableCode => "unreachable code"
  | defaultCaseMissing => "match expressions need an 'else' arm"
  | invalidDefaultCasePlacement => "the 'else' arm must be the last arm"
  | insufficientCases => "a match needs at least one case besides 'else'"
  | foreignLocalVariableAccess name env => s!"'{name}' is not public in environment '{env}'"

/-- The stable code of an alert. -/
def code : AlertKind → AlertCode
  | redeclaration .. => .redeclaration
  | duplicateEnvironmentName .. => .duplicateEnvironmentName
  | environmentRedeclaration => .environmentRedeclaration
  | missingEnvironmentDeclaration => .missingEnvironmentDeclaration
  | invalidEnvironmentType .. => .invalidEnvironmentType
  | importCycle .. => .importCycle
  | missingEntityFunction .. => .missingEntityFunction
  | multipleEntityFunctions .. => .multipleEntityFunctions
  | entityFunctionSignatureMismatch .. => .entityFunctionSignatureMismatch
  | spawnerParameters => .spawnerParameters
  | lifecycleReturns .. => .lifecycleReturns
  | uninitializedField .. => .uninitializedField
  | missingConstructor .. => .missingConstructor
  | duplicateGenericParameter .. => .duplicateGenericParameter
  | emptyEnum .. => .emptyEnum
  | publicDeclarationInLocalScope => .publicDeclarationInLocalScope
  | declarationInLocalScope .. => .declarationInLocalScope
  | invalidEnvironment .. => .invalidEnvironment
  | invalidEnvironmentAccess .. => .invalidEnvironmentAccess
  | unallowedEnvironmentAccess .. => .unallowedEnvironmentAccess
  | unallowedLibraryUse .. => .unallowedLibraryUse
  | environmentAccessAmbiguity .. => .environmentAccessAmbiguity
  | duplicateElement .. => .duplicateElement
  | typeMismatch .. => .typeMismatch
  | typesMismatch .. => .typesMismatch
  | invalidOperand .. => .invalidOperand
  | explicitTypeMismatch .. => .explicitTypeMismatch
  | explicitTypeRequiredInDeclaration .. => .explicitTypeRequiredInDeclaration
  | explicitTypeNotAllowed .. => .explicitTypeNotAllowed
  | unnecessaryTypeInConstDeclaration => .unnecessaryTypeInConstDeclaration
  | noValueGivenForConstant .. => .noValueGivenForConstant
  | invalidArgumentType .. => .invalidArgumentType
  | tooFewValuesGiven .. => .tooFewValuesGiven
  | tooManyValuesGiven .. => .tooManyValuesGiven
  | tooManyElementsGiven .. => .tooManyElementsGiven
  | invalidCallerType .. => .invalidCallerType
  | invalidAccessValue .. => .invalidAccessValue
  | fieldAccessOnListOrMap .. => .fieldAccessOnListOrMap
  | memberAccessOnNonListOrMap .. => .memberAccessOnNonListOrMap
  | invalidField .. => .invalidField
  | invalidMemberIndex .. => .invalidMemberIndex
  | listIndexOutOfBounds .. => .listIndexOutOfBounds
  | invalidListIndex .. => .invalidListIndex
  | unknownListOrMapContents => .unknownListOrMapContents
  | mixedMapOrListContents .. => .mixedMapOrListContents
  | invalidListOrMapWrappedType .. => .invalidListOrMapWrappedType
  | invalidType .. => .invalidType
  | notConstructible .. => .notConstructible
  | unresolvedGeneric .. => .unresolvedGeneric
  | invalidCaseType .. => .invalidCaseType
  | constAssignment .. => .constAssignment
  | undeclaredVariableAccess .. => .undeclaredVariableAccess
  | invalidUseOfSelf => .invalidUseOfSelf
  | entityConversionWithOrCondition => .entityConversionWithOrCondition
  | officialEntityConversion .. => .officialEntityConversion
  | invalidUseOfExitStatement .. => .invalidUseOfExitStatement
  | notAllCodePathsExit .. => .notAllCodePathsExit
  | unreachableCode => .unreachableCode
  | defaultCaseMissing => .defaultCaseMissing
  | invalidDefaultCasePlacement => .invalidDefaultCasePlacement
  | insufficientCases => .insufficientCases
  | foreignLocalVariableAccess .. => .foreignLocalVariableAccess

/-- The severity of an alert. -/
def severity (kind : AlertKind) : Severity := kind.code.severity

/-- The category of an alert. -/
def category (kind : AlertKind) : Category := kind.code.category

end AlertKind

end HybroidSema
