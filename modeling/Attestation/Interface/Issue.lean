import Attestation.Log.Event

/-!
# Problems of an interface

What can be wrong with the interface of an attestation type.

## Main definitions

* `Issue`: a problem that is reported while the interface is read to its end.
* `Issue.severity`: whether it lets the run fail afterwards.
* `SchemaError`: a problem that ends the reading.

## Design notes

Problems are collected as far as possible, so that one run shows all of them; only a problem
that leaves nothing to go on with ends the reading.
-/

namespace Attestation

/-- How severe a problem is. -/
inductive Severity where
  /-- It is only reported. -/
  | warning
  /-- It is reported, and the run fails once the interface has been read. -/
  | error
  deriving DecidableEq, Repr, Inhabited

/-- The name of a severity. -/
def Severity.name : Severity → String
  | .warning => "warning"
  | .error => "error"

/-- A problem of an interface or of one of its structs. -/
inductive Issue where
  /-- The interface has no documentation. -/
  | undocumentedInterface (interface : String)
  /-- A struct has no documentation. -/
  | undocumentedStruct (interface struct : String)
  /-- A parameter is documented again. -/
  | repeatedParam (interface struct param : String)
  /-- A parameter is documented that is no member. -/
  | unknownParam (interface struct param : String)
  /-- A member is not documented. -/
  | undocumentedMember (interface struct member : String)
  /-- A struct stands before both bodies. -/
  | unassignedStruct (interface struct : String)
  /-- A required struct is missing. -/
  | missingStruct (interface struct : String)
  deriving DecidableEq, Repr, Inhabited

namespace Issue

/-- The interface, or a struct in it. -/
def location : Issue → String
  | .undocumentedInterface interface => interface
  | .missingStruct interface _ => interface
  | .undocumentedStruct interface struct => interface ++ "." ++ struct
  | .repeatedParam interface struct _ => interface ++ "." ++ struct
  | .unknownParam interface struct _ => interface ++ "." ++ struct
  | .undocumentedMember interface struct _ => interface ++ "." ++ struct
  | .unassignedStruct interface struct => interface ++ "." ++ struct

/-- Missing documentation of a whole and an ignored struct are warnings; all else is an
error. -/
def severity : Issue → Severity
  | .undocumentedInterface _ => .warning
  | .undocumentedStruct _ _ => .warning
  | .unassignedStruct _ _ => .warning
  | _ => .error

/-- The kind of the problem, for machines. -/
def kind : Issue → String
  | .undocumentedInterface _ => "missing_documentation"
  | .undocumentedStruct _ _ => "missing_documentation"
  | .repeatedParam _ _ _ => "duplicate_param_doc"
  | .unknownParam _ _ _ => "unknown_param_doc"
  | .undocumentedMember _ _ _ => "missing_param_doc"
  | .unassignedStruct _ _ => "unassigned_struct"
  | .missingStruct _ _ => "missing_struct"

/-- The text shown to the user. -/
def message : Issue → String
  | .undocumentedInterface interface => s!"No documentation for interface {interface}"
  | .undocumentedStruct interface struct =>
      s!"No documentation for struct {interface}.{struct}"
  | .repeatedParam _ struct param =>
      s!"Param '{param}' is documented more than once in struct '{struct}'"
  | .unknownParam _ struct param =>
      s!"Param '{param}' has no corresponding member in struct '{struct}'"
  | .undocumentedMember _ struct member =>
      s!"Param '{member}' missing the '@param' comment in struct '{struct}'"
  | .unassignedStruct _ struct =>
      s!"Struct '{struct}' is declared before RequestBody and ResponseBody and is ignored"
  | .missingStruct interface struct => s!"Missing struct '{struct}' in interface {interface}"

/-- Whether the run fails for it. -/
def isError (i : Issue) : Bool := i.severity = .error

/-- The problem on one line. -/
def display (i : Issue) : String := s!"[{i.severity.name}] {i.location}: {i.message}"

/-- The problem as a log event. -/
def event (i : Issue) : Log.Event where
  level := match i.severity with
    | .warning => .warn
    | .error => .error
  target := "attestation_gen::schema::issues"
  message := i.message
  fields := [("location", .shown i.location), ("kind", .quoted i.kind)]

end Issue

/-- A problem for which no record is made of an interface. -/
inductive SchemaError where
  /-- A file holds more than one contract. -/
  | multipleContracts (first second : String)
  /-- A file holds no contract. -/
  | noInterface
  /-- A parameter documentation names no parameter. -/
  | unparsableParam (location line : String)
  /-- The interface has errors, so many of them. -/
  | inconsistent (interface : String) (count : Nat)
  deriving DecidableEq, Repr, Inhabited

/-- The text shown to the user. -/
def SchemaError.message : SchemaError → String
  | .multipleContracts first second =>
      s!"Only one interface per file is supported (found '{second}' after '{first}')"
  | .noInterface => "No interface found"
  | .unparsableParam location line =>
      s!"Could not parse line '@param{line}' in struct '{location}'"
  | .inconsistent interface count => s!"Interface {interface} has {count} schema error(s)"

end Attestation
