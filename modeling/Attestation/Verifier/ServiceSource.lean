import Attestation.Failure
import Attestation.Script.CustomSection
import Attestation.Script.ImportBlock
import Attestation.Script.ImportMerge
import Attestation.Verifier.Names

/-!
# Verifier services

The script of a verifier service. It has two sections of hand-written code, the constructor and
the verification. A script that replaces an older one keeps both sections and all imports of
the old one.

## Main definitions

* `Verifier.serviceImports`: what every service imports.
* `Verifier.serviceSource`: the script.

## Design notes

The sections are the only places where code is meant to be written by hand.  An old script is
not edited but replaced, and what is carried over is looked up in it by the tags of the
sections and by its imports.
-/

namespace Attestation.Verifier

/-- The section of the constructor. -/
def constructorSection : String := "constructor"

/-- The section of the verification. -/
def verifySection : String := "verifyRequest"

/-- What every service imports. -/
def serviceImports (here : Path) (o : Options) (n : Names) : List Import :=
  let t := n.attestationType
  let library (module : String) : String :=
    Path.specifier here n.serviceDir (o.externalLibsRelPath.entry module)
  [.ofNames "@nestjs/common" ["HttpException", "HttpStatus", "Injectable"],
    .ofNames "fs" ["readFileSync"],
    .ofNames (library "interfaces") ["ExampleData"],
    .ofNames (Path.specifier here n.serviceDir (dtoModule o t))
      [s!"AttestationResponseDTO_{t}_Response", s!"{t}_Request", s!"{t}_RequestNoMic",
        s!"{t}_Response"],
    .ofNames (library "AttestationDefinitionStore") ["AttestationDefinitionStore"],
    .ofNames (library "AttestationResponse") ["AttestationResponseStatus"],
    .ofNames (Path.specifier here n.serviceDir (genericDtoModule o))
      ["EncodedRequestResponse", "MicResponse"],
    .ofNames (library "utils")
      ["MIC_SALT", "ZERO_BYTES_32", "encodeAttestationName", "serializeBigInts"]]

/-- The constructor of a new service. -/
def defaultConstructor (typeDefinitionsPath examplePath t : String) : String :=
  Text.unlines ["// Add additional class members here.",
      "    // Augment the constructor with additional (injected) parameters, if required. Update the constructor code.",
      "    constructor() \x7b",
      s!"        this.store = new AttestationDefinitionStore(\"{typeDefinitionsPath}\");",
      s!"        this.exampleData = JSON.parse(readFileSync(\"{examplePath}/{t}.json\", \"utf8\"));",
      "    \x7d"]

/-- The verification of a new service, which answers with the example. -/
def defaultVerify (t : String) : String :=
  Text.unlines ["return \x7b",
      "            status: AttestationResponseStatus.VALID,",
      "            response: \x7b",
      "                ...this.exampleData.response,",
      "                attestationType: fixedRequest.attestationType,",
      "                sourceId: fixedRequest.sourceId,",
      "                requestBody: serializeBigInts(fixedRequest.requestBody),",
      "                lowestUsedTimestamp: \"0xffffffffffffffff\",",
      s!"            \x7d as {t}_Response,",
      "        \x7d;"]

/-- A section of a script, with its code between the comment lines that mark it. -/
def sectionLines (indent name code : String) : List String :=
  [indent ++ CustomSection.opening name, "", indent ++ code, "",
    indent ++ CustomSection.closing name]

/-- The lines behind the imports, up to the constructor. -/
def serviceHead (p t : String) : List String :=
  ["",
    "@Injectable()",
    s!"export class {p}VerifierService \x7b",
    "    store!: AttestationDefinitionStore;",
    s!"    exampleData!: ExampleData<{t}_RequestNoMic, {t}_Request, {t}_Response>;",
    ""]

/-- The lines between constructor and verification. -/
def serviceMiddle (t sourceId : String) : List String :=
  ["",
    s!"    async verifyRequestInternal(request: {t}_Request | {t}_RequestNoMic): Promise<AttestationResponseDTO_{t}_Response> \x7b",
    s!"        if (request.attestationType !== encodeAttestationName(\"{t}\") || request.sourceId !== encodeAttestationName({sourceId})) \x7b",
    "            throw new HttpException(",
    "                \x7b",
    "                    status: HttpStatus.BAD_REQUEST,",
    s!"                    error: `Attestation type and source id combination not supported: ($\x7brequest.attestationType\x7d, $\x7brequest.sourceId\x7d). This source supports attestation type '{t}' ($\x7bencodeAttestationName(\"{t}\")\x7d) and source id '$\x7b {sourceId} \x7d' ($\x7bencodeAttestationName({sourceId})\x7d).`,",
    "                \x7d,",
    "                HttpStatus.BAD_REQUEST,",
    "            );",
    "        \x7d",
    "",
    "        const fixedRequest = \x7b",
    "            ...request,",
    s!"        \x7d as {t}_Request;",
    "        if (!fixedRequest.messageIntegrityCode) \x7b",
    "            fixedRequest.messageIntegrityCode = ZERO_BYTES_32;",
    "        \x7d",
    "",
    "        return this.verifyRequest(fixedRequest);",
    "    \x7d",
    "",
    s!"    async verifyRequest(fixedRequest: {t}_Request): Promise<AttestationResponseDTO_{t}_Response> \x7b"]

/-- The lines behind the verification. -/
def serviceTail (t : String) : List String :=
  ["    \x7d",
    "",
    s!"    public async verifyEncodedRequest(abiEncodedRequest: string): Promise<AttestationResponseDTO_{t}_Response> \x7b",
    s!"        const requestJSON = this.store.parseRequest<{t}_Request>(abiEncodedRequest);",
    "        const response = await this.verifyRequestInternal(requestJSON);",
    "        return response;",
    "    \x7d",
    "",
    s!"    public async prepareResponse(request: {t}_RequestNoMic): Promise<AttestationResponseDTO_{t}_Response> \x7b",
    "        const response = await this.verifyRequestInternal(request);",
    "        return response;",
    "    \x7d",
    "",
    s!"    public async mic(request: {t}_RequestNoMic): Promise<MicResponse> \x7b",
    "        const result = await this.verifyRequestInternal(request);",
    "        if (result.status !== AttestationResponseStatus.VALID) \x7b",
    "            return new MicResponse(\x7b status: result.status \x7d);",
    "        \x7d",
    "        const response = result.response;",
    "        if (!response) return new MicResponse(\x7b status: result.status \x7d);",
    "        return new MicResponse(\x7b",
    "            status: AttestationResponseStatus.VALID,",
    s!"            messageIntegrityCode: this.store.attestationResponseHash<{t}_Response>(response, MIC_SALT),",
    "        \x7d);",
    "    \x7d",
    "",
    s!"    public async prepareRequest(request: {t}_RequestNoMic): Promise<EncodedRequestResponse> \x7b",
    "        const result = await this.verifyRequestInternal(request);",
    "        if (result.status !== AttestationResponseStatus.VALID) \x7b",
    "            return new EncodedRequestResponse(\x7b status: result.status \x7d);",
    "        \x7d",
    "        const response = result.response;",
    "",
    "        if (!response) return new EncodedRequestResponse(\x7b status: result.status \x7d);",
    "        const newRequest = \x7b",
    "            ...request,",
    s!"            messageIntegrityCode: this.store.attestationResponseHash<{t}_Response>(response, MIC_SALT)!,",
    s!"        \x7d as {t}_Request;",
    "",
    "        return new EncodedRequestResponse(\x7b",
    "            status: AttestationResponseStatus.VALID,",
    "            abiEncodedRequest: this.store.encodeRequest(newRequest),",
    "        \x7d);",
    "    \x7d",
    "\x7d"]

/-- The service script with the given imports and sections. -/
def renderService (o : Options) (n : Names) (imports : List Import)
    (constructorCode verifyCode : String) : String :=
  let t := n.attestationType
  Text.unlines (renderImports imports :: serviceHead n.classPrefix t
    ++ sectionLines "    " constructorSection constructorCode
    ++ serviceMiddle t (o.testnetPrefix ++ "\"" ++ n.dataSource ++ "\"")
    ++ sectionLines "        " verifySection verifyCode
    ++ serviceTail t)

/-- The service script, as it replaces the script `old`. -/
def serviceSource (here : Path) (o : Options) (n : Names) (old : String) :
    Except Failure String := do
  let t := n.attestationType
  let imports ← inContext "Failed to merge service imports"
    (orFail .edit
      (mergeImports (serviceImports here o n ++ (ImportBlock.ofText old.toList).imports)))
  let constructorCode := (CustomSection.extract old constructorSection).getD
    (defaultConstructor o.typeDefinitionsRelPath.plainText o.exampleRelPath.plainText t)
  let verifyCode := (CustomSection.extract old verifySection).getD (defaultVerify t)
  return renderService o n imports constructorCode verifyCode

end Attestation.Verifier
