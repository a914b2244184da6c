import Attestation.Notice
import Attestation.Text.Split
import Attestation.Verifier.Names

/-!
# Verifier controllers

The script of the controller that puts a verifier service on the network, and the script that
tests it.

## Main definitions

* `Verifier.route`: the route of a controller.
* `Verifier.controllerSource`, `Verifier.controllerTestSource`: the scripts.
-/

namespace Attestation.Verifier

/-- The route of the controller. -/
def route (o : Options) (n : Names) : String :=
  if o.prefixDataSourceInRoute then Text.toSmall n.dataSource ++ "/" ++ n.attestationType
  else n.attestationType

/-- The script of the controller. -/
def controllerSource (here : Path) (o : Options) (n : Names) : String :=
  let p := n.classPrefix
  let t := n.attestationType
  let route := route o n
  let service := Path.specifier here n.controllerDir n.serviceModule
  let dto := Path.specifier here n.controllerDir (dtoModule o t)
  let genericDto := Path.specifier here n.controllerDir (genericDtoModule o)
  Text.unlines (Notice.generatedFile ++
    ["import \x7b Body, Controller, HttpCode, Post, UseGuards \x7d from \"@nestjs/common\";",
      "import \x7b ApiSecurity, ApiTags \x7d from \"@nestjs/swagger\";",
      s!"{o.customAuthImport}",
      "",
      s!"import \x7b {p}VerifierService \x7d from \"{service}\";",
      s!"import \x7b AttestationResponseDTO_{t}_Response, {t}_RequestNoMic \x7d from \"{dto}\";",
      s!"import \x7b EncodedRequest, EncodedRequestResponse, MicResponse \x7d from \"{genericDto}\";",
      "",
      s!"@ApiTags(\"{t}\")",
      s!"@Controller(\"{route}\")",
      s!"@UseGuards({o.customAuthGuard})",
      "@ApiSecurity(\"X-API-KEY\")",
      s!"export class {p}VerifierController \x7b",
      s!"    constructor(private readonly verifierService: {p}VerifierService) \x7b\x7d",
      "",
      "    /**",
      "     *",
      "     * Tries to verify encoded attestation request without checking message integrity code, and if successful it returns response.",
      "     * @param verifierBody",
      "     * @returns",
      "     */",
      "    @HttpCode(200)",
      "    @Post()",
      s!"    async verify(@Body() body: EncodedRequest): Promise<AttestationResponseDTO_{t}_Response> \x7b",
      "        return this.verifierService.verifyEncodedRequest(body.abiEncodedRequest!);",
      "    \x7d",
      "",
      "    /**",
      "     * Tries to verify attestation request (given in JSON) without checking message integrity code, and if successful it returns response.",
      "     * @param prepareResponseBody",
      "     * @returns",
      "     */",
      "    @HttpCode(200)",
      "    @Post(\"prepareResponse\")",
      s!"    async prepareResponse(@Body() body: {t}_RequestNoMic): Promise<AttestationResponseDTO_{t}_Response> \x7b",
      "        return this.verifierService.prepareResponse(body);",
      "    \x7d",
      "",
      "    /**",
      "     * Tries to verify attestation request (given in JSON) without checking message integrity code, and if successful, it returns the correct message integrity code.",
      "     * @param body",
      "     */",
      "    @HttpCode(200)",
      "    @Post(\"mic\")",
      s!"    async mic(@Body() body: {t}_RequestNoMic): Promise<MicResponse> \x7b",
      "        return this.verifierService.mic(body);",
      "    \x7d",
      "",
      "    /**",
      "     * Tries to verify attestation request (given in JSON) without checking message integrity code.",
      "     * If successful, it returns the encoding of the attestation request with the correct message integrity code, which can be directly submitted to the State Connector contract.",
      "     * @param body",
      "     */",
      "    @HttpCode(200)",
      "    @Post(\"prepareRequest\")",
      s!"    async prepareRequest(@Body() body: {t}_RequestNoMic): Promise<EncodedRequestResponse> \x7b",
      "        return this.verifierService.prepareRequest(body);",
      "    \x7d",
      "\x7d"])

/-- The script that tests the controller. -/
def controllerTestSource (here : Path) (o : Options) (n : Names) : String :=
  let p := n.classPrefix
  let t := n.attestationType
  let service := Path.specifier here n.controllerDir n.serviceModule
  let dto := Path.specifier here n.controllerDir (dtoModule o t)
  let libraries := Path.specifier here n.controllerDir o.externalLibsRelPath
  let examples := o.exampleRelPath.plainText
  Text.unlines ["import \x7b Test, TestingModule \x7d from \"@nestjs/testing\";",
      "import \x7b readFileSync \x7d from \"fs\";",
      s!"import \x7b ExampleData \x7d from \"{libraries}/interfaces\";",
      s!"import \x7b {t}_Request, {t}_RequestNoMic, {t}_Response \x7d from \"{dto}\";",
      s!"import \x7b {p}VerifierController \x7d from \"./{n.fileStem}.controller\";",
      s!"import \x7b {p}VerifierService \x7d from \"{service}\";",
      "",
      "describe(\"AppController\", () => \x7b",
      s!"    let appController: {p}VerifierController;",
      s!"    let exampleData: ExampleData<{t}_RequestNoMic, {t}_Request, {t}_Response>;",
      "",
      "    beforeEach(async () => \x7b",
      "        const app: TestingModule = await Test.createTestingModule(\x7b",
      s!"            controllers: [{p}VerifierController],",
      s!"            providers: [{p}VerifierService],",
      "        \x7d).compile();",
      "",
      s!"        appController = app.get<{p}VerifierController>({p}VerifierController);",
      s!"        exampleData = JSON.parse(readFileSync(\"{examples}/{t}.json\", \"utf8\"));",
      "    \x7d);",
      "",
      "    describe(\"root\", () => \x7b",
      "        it(\"should 'verify' pass\", async () => \x7b",
      "            const actualRes = await appController.verify(\x7b",
      "                abiEncodedRequest: exampleData.encodedRequestZeroMic,",
      "            \x7d);",
      "            expect(actualRes.status).toEqual(\"VALID\");",
      "            expect(actualRes.response).toStrictEqual(exampleData.response);",
      "        \x7d);",
      "        it(\"should prepare response\", async () => \x7b",
      "            const actualRes = await appController.prepareResponse(exampleData.requestNoMic);",
      "            expect(actualRes.status).toEqual(\"VALID\");",
      "            expect(actualRes.response).toStrictEqual(exampleData.response);",
      "        \x7d);",
      "        it(\"should obtain 'mic'\", async () => \x7b",
      "            const actualMic = await appController.mic(\x7b",
      "                ...exampleData.requestNoMic,",
      "            \x7d);",
      "            expect(actualMic.messageIntegrityCode).toStrictEqual(exampleData.messageIntegrityCode);",
      "        \x7d);",
      "        it(\"should prepare request\", async () => \x7b",
      "            const actualRequest = await appController.prepareRequest(exampleData.requestNoMic);",
      "            expect(actualRequest.abiEncodedRequest).toStrictEqual(exampleData.encodedRequest);",
      "        \x7d);",
      "    \x7d);",
      "\x7d);"]

end Attestation.Verifier
