/-!
# Alert codes

Every kind of alert has a stable code, written `HYB` with three digits. The ranges of the numbers
are the categories.
-/

namespace HybroidSema

/-- The stable identifier of a kind of alert. -/
inductive AlertCode where
  | redeclaration
  | duplicateEnvironmentName
  | environmentRedeclaration
  | missingEnvironmentDeclaration
  | invalidEnvironmentType
  | importCycle
  | missingEntityFunction
  | multipleEntityFunctions
  | entityFunctionSignatureMismatch
  | spawnerParameters
  | lifecycleReturns
  | uninitializedField
  | missingConstructor
  | duplicateGenericParameter
  | emptyEnum
  | publicDeclarationInLocalScope
  | declarationInLocalScope
  | invalidEnvironment
  | invalidEnvironmentAccess
  | unallowedEnvironmentAccess
  | unallowedLibraryUse
  | environmentAccessAmbiguity
  | duplicateElement
  | typeMismatch
  | typesMismatch
  | invalidOperand
  | explicitTypeMismatch
  | explicitTypeRequiredInDeclaration
  | explicitTypeNotAllowed
  | unnecessaryTypeInConstDeclaration
  | noValueGivenForConstant
  | invalidArgumentType
  | tooFewValuesGiven
  | tooManyValuesGiven
  | tooManyElementsGiven
  | invalidCallerType
  | invalidAccessValue
  | fieldAccessOnListOrMap
  | memberAccessOnNonListOrMap
  | invalidField
  | invalidMemberIndex
  | listIndexOutOfBounds
  | invalidListIndex
  | unknownListOrMapContents
  | mixedMapOrListContents
  | invalidListOrMapWrappedType
  | invalidType
  | notConstructible
  | unresolvedGeneric
  | invalidCaseType
  | constAssignment
  | undeclaredVariableAccess
  | invalidUseOfSelf
  | entityConversionWithOrCondition
  | officialEntityConversion
  | invalidUseOfExitStatement
  | notAllCodePathsExit
  | unreachableCode
  | defaultCaseMissing
  | invalidDefaultCasePlacement
  | insufficientCases
  | foreignLocalVariableAccess
deriving DecidableEq, Repr

/-- How serious an alert is: an error makes the program invalid, a warning does not. -/
inductive Severity where
  | error
  | warning
deriving DecidableEq, Repr

namespace Severity

/-- The word for the severity. -/
def name : Severity → String
  | error => "error"
  | warning => "warning"

end Severity

/-- The broad groups of alerts. -/
inductive Category where
  | structural
  | environment
  | type
  | controlFlow
  | accessibility
deriving DecidableEq, Repr

namespace Category

/-- The name of the category. -/
def name : Category → String
  | structural => "Structural"
  | environment => "Environment"
  | type => "Type"
  | controlFlow => "ControlFlow"
  | accessibility => "Accessibility"

end Category

namespace AlertCode

/-- The number of a code. -/
def number : AlertCode → Nat
  | redeclaration => 1
  | duplicateEnvironmentName => 2
  | environmentRedeclaration => 3
  | missingEnvironmentDeclaration => 4
  | invalidEnvironmentType => 5
  | importCycle => 6
  | missingEntityFunction => 7
  | multipleEntityFunctions => 8
  | entityFunctionSignatureMismatch => 9
  | spawnerParameters => 10
  | lifecycleReturns => 11
  | uninitializedField => 12
  | missingConstructor => 13
  | duplicateGenericParameter => 14
  | emptyEnum => 15
  | publicDeclarationInLocalScope => 16
  | declarationInLocalScope => 17
  | invalidEnvironment => 30
  | invalidEnvironmentAccess => 31
  | unallowedEnvironmentAccess => 32
  | unallowedLibraryUse => 33
  | environmentAccessAmbiguity => 34
  | duplicateElement => 50
  | typeMismatch => 51
  | typesMismatch => 52
  | invalidOperand => 53
  | explicitTypeMismatch => 54
  | explicitTypeRequiredInDeclaration => 55
  | explicitTypeNotAllowed => 56
  | unnecessaryTypeInConstDeclaration => 57
  | noValueGivenForConstant => 58
  | invalidArgumentType => 59
  | tooFewValuesGiven => 60
  | tooManyValuesGiven => 61
  | tooManyElementsGiven => 62
  | invalidCallerType => 63
  | invalidAccessValue => 64
  | fieldAccessOnListOrMap => 65
  | memberAccessOnNonListOrMap => 66
  | invalidField => 67
  | invalidMemberIndex => 68
  | listIndexOutOfBounds => 69
  | invalidListIndex => 70
  | unknownListOrMapContents => 71
  | mixedMapOrListContents => 72
  | invalidListOrMapWrappedType => 73
  | invalidType => 74
  | notConstructible => 75
  | unresolvedGeneric => 76
  | invalidCaseType => 77
  | constAssignment => 78
  | undeclaredVariableAccess => 79
  | invalidUseOfSelf => 80
  | entityConversionWithOrCondition => 81
  | officialEntityConversion => 82
  | invalidUseOfExitStatement => 100
  | notAllCodePathsExit => 101
  | unreachableCode => 102
  | defaultCaseMissing => 103
  | invalidDefaultCasePlacement => 104
  | insufficientCases => 105
  | foreignLocalVariableAccess => 120

/-- The name of a code. -/
def name : AlertCode → String
  | redeclaration => "Redeclaration"
  | duplicateEnvironmentName => "DuplicateEnvironmentName"
  | environmentRedeclaration => "EnvironmentRedeclaration"
  | missingEnvironmentDeclaration => "MissingEnvironmentDeclaration"
  | invalidEnvironmentType => "InvalidEnvironmentType"
  | importCycle => "ImportCycle"
  | missingEntityFunction => "MissingEntityFunction"
  | multipleEntityFunctions => "MultipleEntityFunctions"
  | entityFunctionSignatureMismatch => "EntityFunctionSignatureMismatch"
  | spawnerParameters => "SpawnerParameters"
  | lifecycleReturns => "LifecycleReturns"
  | uninitializedField => "UninitializedField"
  | missingConstructor => "MissingConstructor"
  | duplicateGenericParameter => "DuplicateGenericParameter"
  | emptyEnum => "EmptyEnum"
  | publicDeclarationInLocalScope => "PublicDeclarationInLocalScope"
  | declarationInLocalScope => "DeclarationInLocalScope"
  | invalidEnvironment => "InvalidEnvironment"
  | invalidEnvironmentAccess => "InvalidEnvironmentAccess"
  | unallowedEnvironmentAccess => "UnallowedEnvironmentAccess"
  | unallowedLibraryUse => "UnallowedLibraryUse"
  | environmentAccessAmbiguity => "EnvironmentAccessAmbiguity"
  | duplicateElement => "DuplicateElement"
  | typeMismatch => "TypeMismatch"
  | typesMismatch => "TypesMismatch"
  | invalidOperand => "InvalidOperand"
  | explicitTypeMismatch => "ExplicitTypeMismatch"
  | explicitTypeRequiredInDeclaration => "ExplicitTypeRequiredInDeclaration"
  | explicitTypeNotAllowed => "ExplicitTypeNotAllowed"
  | unnecessaryTypeInConstDeclaration => "UnnecessaryTypeInConstDeclaration"
  | noValueGivenForConstant => "NoValueGivenForConstant"
  | invalidArgumentType => "InvalidArgumentType"
  | tooFewValuesGiven => "TooFewValuesGiven"
  | tooManyValuesGiven => "TooManyValuesGiven"
  | tooManyElementsGiven => "TooManyElementsGiven"
  | invalidCallerType => "InvalidCallerType"
  | invalidAccessValue => "InvalidAccessValue"
  | fieldAccessOnListOrMap => "FieldAccessOnListOrMap"
  | memberAccessOnNonListOrMap => "MemberAccessOnNonListOrMap"
  | invalidField => "InvalidField"
  | invalidMemberIndex => "InvalidMemberIndex"
  | listIndexOutOfBounds => "ListIndexOutOfBounds"
  | invalidListIndex => "InvalidListIndex"
  | unknownListOrMapContents => "UnknownListOrMapContents"
  | mixedMapOrListContents => "MixedMapOrListContents"
  | invalidListOrMapWrappedType => "InvalidListOrMapWrappedType"
  | invalidType => "InvalidType"
  | notConstructible => "NotConstructible"
  | unresolvedGeneric => "UnresolvedGeneric"
  | invalidCaseType => "InvalidCaseType"
  | constAssignment => "ConstAssignment"
  | undeclaredVariableAccess => "UndeclaredVariableAccess"
  | invalidUseOfSelf => "InvalidUseOfSelf"
  | entityConversionWithOrCondition => "EntityConversionWithOrCondition"
  | officialEntityConversion => "OfficialEntityConversion"
  | invalidUseOfExitStatement => "InvalidUseOfExitStatement"
  | notAllCodePathsExit => "NotAllCodePathsExit"
  | unreachableCode => "UnreachableCode"
  | defaultCaseMissing => "DefaultCaseMissing"
  | invalidDefaultCasePlacement => "InvalidDefaultCasePlacement"
  | insufficientCases => "InsufficientCases"
  | foreignLocalVariableAccess => "ForeignLocalVariableAccess"

/-- Every code, by number. -/
def all : List AlertCode :=
  [redeclaration, duplicateEnvironmentName, environmentRedeclaration,
    missingEnvironmentDeclaration, invalidEnvironmentType, importCycle, missingEntityFunction,
    multipleEntityFunctions, entityFunctionSignatureMismatch, spawnerParameters, lifecycleReturns,
    uninitializedField, missingConstructor, duplicateGenericParameter, emptyEnum,
    publicDeclarationInLocalScope, declarationInLocalScope, invalidEnvironment,
    invalidEnvironmentAccess, unallowedEnvironmentAccess, unallowedLibraryUse,
    environmentAccessAmbiguity, duplicateElement, typeMismatch, typesMismatch, invalidOperand,
    explicitTypeMismatch, explicitTypeRequiredInDeclaration, explicitTypeNotAllowed,
    unnecessaryTypeInConstDeclaration, noValueGivenForConstant, invalidArgumentType,
    tooFewValuesGiven, tooManyValuesGiven, tooManyElementsGiven, invalidCallerType,
    invalidAccessValue, fieldAccessOnListOrMap, memberAccessOnNonListOrMap, invalidField,
    invalidMemberIndex, listIndexOutOfBounds, invalidListIndex, unknownListOrMapContents,
    mixedMapOrListContents, invalidListOrMapWrappedType, invalidType, notConstructible,
    unresolvedGeneric, invalidCaseType, constAssignment, undeclaredVariableAccess,
    invalidUseOfSelf, entityConversionWithOrCondition, officialEntityConversion,
    invalidUseOfExitStatement, notAllCodePathsExit, unreachableCode, defaultCaseMissing,
    invalidDefaultCasePlacement, insufficientCases, foreignLocalVariableAccess]

/-- The code with a number. -/
def ofNumber? (n : Nat) : Option AlertCode := all.find? (·.number == n)

/-- The text of a code: `HYB` and the number with three digits. -/
def render (code : AlertCode) : String :=
  let digits := Nat.toDigits 10 code.number
  "HYB" ++ String.ofList (List.replicate (3 - digits.length) '0' ++ digits)

/-- The severity of a code. Only unreachable code is a warning. -/
def severity : AlertCode → Severity
  | unreachableCode => .warning
  | _ => .error

/-- The category of a code, which is a range of numbers. -/
def category (code : AlertCode) : Category :=
  if code.number < 30 then .structural
  else if code.number < 50 then .environment
  else if code.number < 100 then .type
  else if code.number < 120 then .controlFlow
  else .accessibility

@[simp] theorem ofNumber?_number (code : AlertCode) : ofNumber? code.number = some code := by
  cases code <;> rfl

theorem number_injective {a b : AlertCode} (h : a.number = b.number) : a = b := by
  have := congrArg ofNumber? h
  simpa using this

end AlertCode

end HybroidSema
