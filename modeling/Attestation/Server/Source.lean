import Attestation.Text.Split

/-!
# Server scaffolding

The files of a server for one attestation type, whose verification is then written by hand.

## Main definitions

* `Server.service`, `Server.controller`, `Server.module`, `Server.entryPoint`,
  `Server.dockerfile`: the sources.
* `Server.files`: the files of a server.

## Design notes

Nothing here depends on a record: only the name of the type and the directory of the servers go
into the files, and all else is left to the person who writes the verification.
-/

namespace Attestation.Server

/-- The port on which a server listens unless it is told otherwise. -/
def port : Nat := 3120

/-- The service, whose verification is left open. -/
def service (name interface : String) : String :=
  Text.unlines ["import \x7b Injectable \x7d from \"@nestjs/common\";",
      "import \x7b ConfigService \x7d from \"@nestjs/config\";",
      s!"import \x7b {name}_Request, {name}_Response \x7d from \"generated/dto/{name}.dto\";",
      "import \x7b IConfig \x7d from \"src/config/configuration\";",
      "import \x7b BaseVerifierService, IVerificationServiceConfig \x7d from \"src/services/common/verifier-base.service\";",
      "import \x7b AttestationResponse \x7d from \"../../src/dtos/generic/generic.dto\";",
      "",
      "@Injectable()",
      s!"export class {interface}VerifierService extends BaseVerifierService<{name}_Request, {name}_Response> \x7b",
      "    constructor(protected configService: ConfigService<IConfig>) \x7b",
      "        const config: IVerificationServiceConfig = \x7b",
      "            source: \"WEB2\", // CONFIGURE THIS",
      s!"            attestationName: \"{name}\",",
      "        \x7d;",
      "        super(configService, config);",
      "    \x7d",
      "",
      s!"    protected verifyRequest(fixedRequest: {name}_Request): Promise<AttestationResponse<{name}_Response>> \x7b",
      "        throw \"implement this function\";",
      "    \x7d",
      "\x7d"]

/-- The controller. -/
def controller (name interface : String) : String :=
  Text.unlines ["import \x7b Controller \x7d from \"@nestjs/common\";",
      "import \x7b ApiTags \x7d from \"@nestjs/swagger\";",
      s!"import \x7b {name}_Request, {name}_Response \x7d from \"generated/dto/{name}.dto\";",
      "import \x7b BaseVerifierController \x7d from \"src/controllers/base/verifier-base.controller\";",
      s!"import \x7b {interface}VerifierService \x7d from \"./{interface}.service\";",
      "",
      s!"@ApiTags(\"{interface}\")",
      s!"@Controller(\"{interface}\")",
      s!"export class {interface}VerifierController extends BaseVerifierController<{name}_Request, {name}_Response> \x7b",
      s!"    constructor(protected readonly verifierService: {interface}VerifierService) \x7b",
      "        super();",
      "    \x7d",
      "\x7d"]

/-- The module. -/
def module (interface : String) : String :=
  Text.unlines ["import \x7b Module \x7d from \"@nestjs/common\";",
      "import \x7b ConfigModule \x7d from \"@nestjs/config\";",
      "import \x7b ApiKeyStrategy \x7d from \"src/auth/apikey.strategy\";",
      "import \x7b AuthModule \x7d from \"src/auth/auth.module\";",
      "import \x7b AuthService \x7d from \"src/auth/auth.service\";",
      "import configuration from \"src/config/configuration\";",
      s!"import \x7b {interface}VerifierController \x7d from \"./{interface}.controller\";",
      s!"import \x7b {interface}VerifierService \x7d from \"./{interface}.service\";",
      "",
      "@Module(\x7b",
      "    imports: [",
      "        ConfigModule.forRoot(\x7b",
      "            load: [configuration],",
      "            isGlobal: true,",
      "        \x7d),",
      "        // add a database connection here, e.g.",
      "        // TypeOrmModule.forRootAsync(\x7b",
      "        //     imports: [ConfigModule],",
      "        //     useFactory: (config: ConfigService<IConfig>) => config.get(\"typeOrmModuleOptions\"),",
      "        //     inject: [ConfigService],",
      "        // \x7d),",
      "        AuthModule,",
      "    ],",
      s!"    controllers: [{interface}VerifierController],",
      s!"    providers: [ApiKeyStrategy, AuthService, {interface}VerifierService],",
      "\x7d)",
      s!"export class {interface}VerifierServerModule \x7b\x7d"]

/-- The entry point. -/
def entryPoint (interface : String) : String :=
  Text.unlines ["import \x7b Logger, ValidationPipe \x7d from \"@nestjs/common\";",
      "import \x7b NestFactory \x7d from \"@nestjs/core\";",
      "import \x7b DocumentBuilder, SwaggerModule \x7d from \"@nestjs/swagger\";",
      "import helmet from \"helmet\";",
      s!"import \x7b {interface}VerifierServerModule \x7d from \"./{interface}.module\";",
      "",
      s!"export async function run{interface}VerifierServer() \x7b",
      s!"    const moduleClass = {interface}VerifierServerModule;",
      "    const app = await NestFactory.create(moduleClass);",
      "",
      "    const logger = new Logger();",
      "",
      "    app.use(helmet());",
      "    app.useGlobalPipes(new ValidationPipe(\x7b transform: true \x7d));",
      "    app.enableCors();",
      "",
      "    const basePath = process.env.APP_BASE_PATH ?? \"\";",
      "",
      "    app.setGlobalPrefix(basePath);",
      "    const config = new DocumentBuilder()",
      "        .setTitle(\"Verifier server\")",
      "        .setBasePath(basePath)",
      "        .setDescription(\"Verifier\")",
      "        .addApiKey(\x7b type: \"apiKey\", name: \"X-API-KEY\", in: \"header\" \x7d, \"X-API-KEY\")",
      "        .setVersion(\"1.0\")",
      "        .build();",
      "    const document = SwaggerModule.createDocument(app, config);",
      "    SwaggerModule.setup(`$\x7bbasePath\x7d/api-doc`, app, document);",
      "",
      s!"    const PORT = process.env.PORT ? parseInt(process.env.PORT) : {port};",
      "",
      "    await app.listen(PORT, \"0.0.0.0\", () => logger.log(`Server started listening at http://0.0.0.0:$\x7bPORT\x7d`));",
      "",
      "    logger.log(`Websocket server started listening at ws://0.0.0.0:$\x7bPORT\x7d`);",
      "\x7d"]

/-- The recipe for the image that runs a server from the given directory. -/
def dockerfile (name interface serverDir : String) : String :=
  Text.unlines [s!"# Verifier server for the {name} attestation type",
      "FROM node:18-alpine AS build",
      "",
      "WORKDIR /app",
      "COPY package.json yarn.lock ./",
      "RUN yarn install --frozen-lockfile",
      "COPY . .",
      "RUN yarn build",
      "",
      "FROM node:18-alpine",
      "",
      "WORKDIR /app",
      "COPY --from=build /app/package.json ./",
      "COPY --from=build /app/node_modules ./node_modules",
      "COPY --from=build /app/dist ./dist",
      "",
      s!"ENV PORT={port}",
      s!"EXPOSE {port}",
      "",
      s!"CMD [\"node\", \"-e\", \"require('./dist/{serverDir}/{interface}/{interface}.server').run{interface}VerifierServer()\"]"]

/-- The files of a server for the attestation type, by their names. -/
def files (name serverDir : String) : List (String × String) :=
  let interface := "I" ++ name
  [(interface ++ ".service.ts", service name interface),
    (interface ++ ".controller.ts", controller name interface),
    (interface ++ ".module.ts", module interface),
    (interface ++ ".server.ts", entryPoint interface),
    ("Dockerfile", dockerfile name interface serverDir)]

end Attestation.Server
