import Mathlib.Data.List.Infix
import Mathlib.Algebra.Ring.Int.Defs
import Mathlib.Algebra.Ring.Nat

/-!
# Types and limits shared by the agent core

The text of the agent is C strings: a `Str` is the list of their characters,
the terminator left out. Sizes are those of `vendor_defs.h` and the error
codes those of `usp_err_codes.h`.
-/

namespace UspTypes

abbrev Str := List Char

instance instLawfulBEqStr : LawfulBEq Str := inferInstance

/-- The codes other than `USP_ERR_OK` that the modelled functions return;
`vendor` stands for whatever code a vendor hook hands back. -/
inductive Err where
  | requestDenied
  | internalError
  | invalidArguments
  | resourcesExceeded
  | invalidPathSyntax
  | unsupportedParam
  | invalidPath
  | invalidType
  | invalidValue
  | paramReadOnly
  | objectDoesNotExist
  | creationFailure
  | notATable
  | objectNotCreatable
  | objectNotDeletable
  | permissionDenied
  | uniqueKeyConflict
  | valueConflict
  | commandFailure
  | generalFailure
  | invalidConfiguration
  | recordNotParsed
  | secureSessNotSupported
  | recordFieldInvalid
  | sessContextNotAllowed
  | sessContextTerminated
  | vendor (code : Nat)
  deriving DecidableEq, Repr

inductive NodeType where
  | objectMultiInstance
  | objectSingleInstance
  | paramConstantValue
  | paramNumEntries
  | dbParamReadWrite
  | dbParamReadOnly
  | dbParamReadOnlyAuto
  | dbParamReadWriteAuto
  | dbParamSecure
  | vendorParamReadOnly
  | vendorParamReadWrite
  | syncOperation
  | asyncOperation
  | event
  deriving DecidableEq, Repr

/-- The `DM_` type of a parameter, one flag of `type_flags`. -/
inductive ParamType where
  | string
  | dateTime
  | bool
  | int
  | uint
  | ulong
  | base64
  | hexBin
  | decimal
  | long
  deriving DecidableEq, Repr

/-- Macro `IsObject`. -/
def isObject : NodeType → Bool
  | .objectMultiInstance | .objectSingleInstance => true
  | _ => false

/-- Macro `IsParam`. -/
def isParam : NodeType → Bool
  | .objectMultiInstance | .objectSingleInstance => false
  | .syncOperation | .asyncOperation | .event => false
  | _ => true

/-- Macro `IsDbParam`: it also accepts constants and vendor parameters. -/
def isDbParam : NodeType → Bool
  | .dbParamReadWrite | .dbParamReadOnly | .dbParamReadOnlyAuto => true
  | .dbParamReadWriteAuto | .dbParamSecure | .paramConstantValue => true
  | .vendorParamReadOnly | .vendorParamReadWrite => true
  | _ => false

theorem isParam_of_isDbParam {t : NodeType} (h : isDbParam t = true) : isParam t = true := by
  cases t <;> simp_all [isDbParam, isParam]

theorem isObject_of_isParam {t : NodeType} (h : isParam t = true) : isObject t = false := by
  cases t <;> simp_all [isObject, isParam]

def maxDmInstanceOrder : Nat := 6
def maxDmPath : Nat := 256
def maxDmShortValueLen : Nat := 256
def maxPathSegments : Nat := 32
def maxNodeMapBuckets : Nat := 1024

/-- `MULTI_SEPARATOR`, the placeholder of an instance number in a schema path. -/
def multiSeparator : Str := ['{', 'i', '}']

/-- Macro `IS_NUMERIC`. -/
def isNumeric (c : Char) : Bool := c.isDigit

end UspTypes
