import Attestation.Dto.Field
import Attestation.Dto.Fixed
import Attestation.Notice

/-!
# DTO scripts

The script with one class for each struct of an attestation type, and the script that all types
share.

## Main definitions

* `Dto.Class`: a class.
* `Dto.classes`: the classes of an attestation type, in a fixed order of its structs.
* `Dto.source`, `Dto.genericSource`: the scripts.

## Design notes

The order of the classes is that of the fields of a record and does not look at what the
classes refer to.  Further structs come in the reverse of their declaration.
-/

namespace Attestation.Dto

/-- A DTO class. -/
structure Class where
  name : String
  fields : List Field
  deriving DecidableEq, Repr, Inhabited

/-- The class for a struct. -/
def Class.ofStruct (attestationType : String) (s : StructRecord) : Except Failure Class := do
  let fields ← inContext s!"Struct {s.name}" (s.params.mapM (Field.ofMember attestationType))
  return { name := attestationType ++ "_" ++ s.name, fields := fields }

/-- The structs of a record in the order of their classes: further structs last declared first,
then the bodies, then request, response and proof. -/
def structsInOrder (r : TypeRecord) : List StructRecord :=
  r.requestStructs.reverse ++ r.responseStructs.reverse
    ++ [r.responseBody, r.requestBody, r.request, r.response, r.proof]

/-- The classes of an attestation type. -/
def classes (attestationType : String) (r : TypeRecord) : Except Failure (List Class) :=
  (structsInOrder r).mapM (Class.ofStruct attestationType)

/-- The lines of a property, with an empty line in front. -/
def Field.lines (f : Field) : List String :=
  "" :: f.annotations.map ("    " ++ ·) ++ [s!"    {f.name}: {f.type};"]

/-- The lines of a class, with an empty line in front. -/
def Class.lines (c : Class) : List String :=
  ["",
    s!"export class {c.name} \x7b",
    s!"    constructor(params: Required<{c.name}>) \x7b",
    "        Object.assign(this, params);",
    "    \x7d"]
  ++ c.fields.flatMap Field.lines
  ++ ["\x7d"]

/-- The imports of a DTO script. -/
def importLines : List String :=
  ["import \x7b ApiProperty, OmitType \x7d from \"@nestjs/swagger\";",
    "import \x7b Type \x7d from \"class-transformer\";",
    "import \x7b",
    "    IsBoolean,",
    "    IsDefined,",
    "    IsNotEmptyObject,",
    "    IsObject,",
    "    IsString,",
    "    Validate,",
    "    ValidateNested,",
    "    ValidationArguments,",
    "    ValidatorConstraint,",
    "    ValidatorConstraintInterface,",
    "\x7d from \"class-validator\";",
    ""]

/-- A heading over a part of a DTO script. -/
def heading (line : String) : List String :=
  let bar := String.ofList (List.replicate 95 '/')
  [bar, line, bar, ""]

/-- The lines of the class for a flattened response. -/
def flattenedLines (name : String) : List String :=
  ["/**",
    " * Attestation response for specific attestation type (flattened)",
    " */",
    s!"export class AttestationResponseDTO_{name}_Response \x7b",
    s!"    constructor(params: Required<AttestationResponseDTO_{name}_Response>) \x7b",
    "        Object.assign(this, params);",
    "    \x7d",
    "",
    "    status: AttestationResponseStatus;",
    "",
    s!"    response?: {name}_Response;",
    "\x7d"]

/-- The script with the given classes. -/
def render (name : String) (classes : List Class) : String :=
  Text.unlines (Notice.autogenerated ++ importLines
    ++ heading "//////////////////////////////////// CUSTOM VALIDATORS ////////////////////////////////////////"
    ++ validatorLines
    ++ heading "//////////////////////////////////// DTOs /////////////////////////////////////////////////////"
    ++ statusLines ++ flattenedLines name
    ++ classes.flatMap Class.lines
    ++ ["",
      s!"export class {name}_RequestNoMic extends OmitType<{name}_Request, \"messageIntegrityCode\">({name}_Request, [\"messageIntegrityCode\"] as const) \x7b\x7d"])

/-- The DTO script of an attestation type. -/
def source (attestationType : String) (r : TypeRecord) : Except Failure String := do
  return render attestationType (← classes attestationType r)

/-- The classes that do not depend on the attestation type. -/
def genericLines : List String :=
  ["/**",
    " * This is a general object definition independent of the attestation type this verifier is implementing",
    " */",
    "export class EncodedRequestResponse \x7b",
    "    constructor(params: \x7b status: AttestationResponseStatus; abiEncodedRequest?: string \x7d) \x7b",
    "        Object.assign(this, params);",
    "    \x7d",
    "",
    "    /**",
    "     * Verification status.",
    "     */",
    "    status: AttestationResponseStatus;",
    "",
    "    /**",
    "     * Abi encoded request object see this for more info: https://gitlab.com/flarenetwork/state-connector-protocol/-/blob/main/attestation-objects/request-encoding-decoding.md",
    "     */",
    "    abiEncodedRequest?: string;",
    "\x7d",
    "",
    "export class EncodedRequest \x7b",
    "    /**",
    "     * Abi encoded request object see this for more info: https://gitlab.com/flarenetwork/state-connector-protocol/-/blob/main/attestation-objects/request-encoding-decoding.md",
    "     */",
    "    abiEncodedRequest: string;",
    "\x7d",
    "",
    "export class MicResponse \x7b",
    "    constructor(params: \x7b status: AttestationResponseStatus; messageIntegrityCode?: string \x7d) \x7b",
    "        Object.assign(this, params);",
    "    \x7d",
    "",
    "    /**",
    "     * Verification status.",
    "     */",
    "    status: AttestationResponseStatus;",
    "",
    "    /**",
    "     * Message integrity code",
    "     */",
    "    messageIntegrityCode?: string;",
    "\x7d"]

/-- The script that the DTO scripts of all attestation types share. -/
def genericSource : String :=
  Text.unlines (Notice.generatedFile ++ statusLines ++ genericLines)

end Attestation.Dto
