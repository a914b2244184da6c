import Attestation.Json.Decoder
import Attestation.Settings.Locations
import Attestation.Text.Unicode.LetterCase

/-!
# Verifier options

How code is put into the repository of a verifier server. A settings file picks a preset and
replaces any of its options.

## Main definitions

* `Verifier.Options`: the options.
* `Verifier.Options.template`, `Verifier.Options.attestationClient`: the presets.
* `Verifier.Overrides`: what a settings file says.
* `Verifier.Overrides.resolve`: the options for a data source.

## Design notes

An option that a file leaves out is that of the preset.  The data source takes part in the
directories of a verifier, so the options are those for one data source.
-/

namespace Attestation.Verifier

/-- How code is put into the repository of a verifier server. All paths but that of the
repository are relative to it. -/
structure Options where
  repoPath : Path
  /-- The module that lists controllers and providers. -/
  appModuleRelativePath : Path
  dtoRelPath : Path
  dtoGenericRelPath : Path
  /-- Where generated services find the attestation definitions. -/
  typeDefinitionsRelPath : Path
  exampleRelPath : Path
  externalLibsRelPath : Path
  servicesRelPath : Path
  controllersRelPath : Path
  /-- Whether controllers get a test. -/
  controllerTests : Bool
  /-- The guard of the controllers. -/
  customAuthGuard : String
  /-- The line that imports the guard. -/
  customAuthImport : String
  /-- Whether the route of a controller starts with the data source. -/
  prefixDataSourceInRoute : Bool
  /-- An expression in front of the name of the data source. -/
  testnetPrefix : String
  deriving DecidableEq, Repr, Inhabited

namespace Options

/-- A verifier server of its own. -/
def template : Options where
  repoPath := ⟨"../verifier-server-template"⟩
  appModuleRelativePath := ⟨"src/app.module.ts"⟩
  dtoRelPath := ⟨"src/dto"⟩
  dtoGenericRelPath := ⟨"src/dto"⟩
  typeDefinitionsRelPath := ⟨"type-definitions"⟩
  exampleRelPath := ⟨"src/example-data"⟩
  externalLibsRelPath := ⟨"src/external-libs/ts"⟩
  servicesRelPath := ⟨"src/service"⟩
  controllersRelPath := ⟨"src/controller"⟩
  controllerTests := true
  customAuthGuard := "ApiKeyAuthGuard"
  customAuthImport := "import \x7b ApiKeyAuthGuard \x7d from \"../../auth/apikey.guard\";"
  prefixDataSourceInRoute := true
  testnetPrefix := ""

/-- A verifier inside the repository of the attestation client. -/
def attestationClient (dataSource : String) : Options where
  repoPath := ⟨"../attestation-client"⟩
  appModuleRelativePath :=
    ⟨"src/servers/verifier-server/src/verifier-" ++ Text.toSmall dataSource
      ++ "-server.module.ts"⟩
  dtoRelPath := ⟨"src/servers/verifier-server/src/dtos/attestation-types"⟩
  dtoGenericRelPath := ⟨"src/servers/verifier-server/src/dtos/generic"⟩
  typeDefinitionsRelPath := ⟨"configs/type-definitions"⟩
  exampleRelPath := ⟨"src/servers/verifier-server/src/example-data"⟩
  externalLibsRelPath := ⟨"src/external-libs"⟩
  servicesRelPath := ⟨"src/servers/verifier-server/src/services"⟩
  controllersRelPath := ⟨"src/servers/verifier-server/src/controllers"⟩
  controllerTests := false
  customAuthGuard := "AuthGuard(\"api-key\")"
  customAuthImport := "import \x7b AuthGuard \x7d from \"@nestjs/passport\";"
  prefixDataSourceInRoute := false
  testnetPrefix := "(process.env.TESTNET ? \"test\" : \"\") + "

end Options

/-- The options from which a settings file starts. -/
inductive Preset where
  | template
  | attestationClient
  deriving DecidableEq, Repr, Inhabited

/-- The preset of the given name. -/
def Preset.ofName? (name : String) : Option Preset :=
  if name = "template" then some .template
  else if name = "attestation-client" then some .attestationClient
  else none

/-- A preset as data: its name, or an object whose only field has that name and the empty
content that `isUnit` accepts. -/
def Preset.ofJson? (isUnit : Json → Bool) : Json.Decoder Preset
  | .string name => Preset.ofName? name
  | .object [(name, content)] => if isUnit content then Preset.ofName? name else none
  | _ => none

/-- What a settings file says about the options. -/
structure Overrides where
  preset : Preset := .template
  repoPath : Option Path := none
  appModuleRelativePath : Option Path := none
  dtoRelPath : Option Path := none
  dtoGenericRelPath : Option Path := none
  typeDefinitionsRelPath : Option Path := none
  exampleRelPath : Option Path := none
  externalLibsRelPath : Option Path := none
  servicesRelPath : Option Path := none
  controllersRelPath : Option Path := none
  controllerTests : Option Bool := none
  customAuthGuard : Option String := none
  customAuthImport : Option String := none
  prefixDataSourceInRoute : Option Bool := none
  testnetPrefix : Option String := none
  deriving DecidableEq, Repr, Inhabited

/-- The options with those that are given in their stead. -/
def Options.overriddenBy (d : Options) (o : Overrides) : Options where
  repoPath := o.repoPath.getD d.repoPath
  appModuleRelativePath := o.appModuleRelativePath.getD d.appModuleRelativePath
  dtoRelPath := o.dtoRelPath.getD d.dtoRelPath
  dtoGenericRelPath := o.dtoGenericRelPath.getD d.dtoGenericRelPath
  typeDefinitionsRelPath := o.typeDefinitionsRelPath.getD d.typeDefinitionsRelPath
  exampleRelPath := o.exampleRelPath.getD d.exampleRelPath
  externalLibsRelPath := o.externalLibsRelPath.getD d.externalLibsRelPath
  servicesRelPath := o.servicesRelPath.getD d.servicesRelPath
  controllersRelPath := o.controllersRelPath.getD d.controllersRelPath
  controllerTests := o.controllerTests.getD d.controllerTests
  customAuthGuard := o.customAuthGuard.getD d.customAuthGuard
  customAuthImport := o.customAuthImport.getD d.customAuthImport
  prefixDataSourceInRoute := o.prefixDataSourceInRoute.getD d.prefixDataSourceInRoute
  testnetPrefix := o.testnetPrefix.getD d.testnetPrefix

namespace Overrides

/-- The options for a data source. -/
def resolve (o : Overrides) (dataSource : String) : Options :=
  let base := match o.preset with
    | .template => Options.template
    | .attestationClient => Options.attestationClient dataSource
  base.overriddenBy o

/-- The names of the options in a settings file. -/
def names : List String :=
  ["preset", "repo_path", "app_module_relative_path", "dto_rel_path", "dto_generic_rel_path",
    "type_definitions_rel_path", "example_rel_path", "external_libs_rel_path",
    "services_rel_path",
    "controllers_rel_path", "controller_tests", "custom_auth_guard", "custom_auth_import",
    "prefix_data_source_in_route", "testnet_prefix"]

/-- What a value says about the options, where `isUnit` accepts the empty content of a
preset. -/
def ofJson? (isUnit : Json → Bool) : Json.Decoder Overrides := fun j => do
  let r ← Json.closedRecord names j
  return {
    preset := ← r.defaulted "preset" .template (Preset.ofJson? isUnit)
    repoPath := ← r.optional "repo_path" Path.ofJson?
    appModuleRelativePath := ← r.optional "app_module_relative_path" Path.ofJson?
    dtoRelPath := ← r.optional "dto_rel_path" Path.ofJson?
    dtoGenericRelPath := ← r.optional "dto_generic_rel_path" Path.ofJson?
    typeDefinitionsRelPath := ← r.optional "type_definitions_rel_path" Path.ofJson?
    exampleRelPath := ← r.optional "example_rel_path" Path.ofJson?
    externalLibsRelPath := ← r.optional "external_libs_rel_path" Path.ofJson?
    servicesRelPath := ← r.optional "services_rel_path" Path.ofJson?
    controllersRelPath := ← r.optional "controllers_rel_path" Path.ofJson?
    controllerTests := ← r.optional "controller_tests" Json.flag
    customAuthGuard := ← r.optional "custom_auth_guard" Json.text
    customAuthImport := ← r.optional "custom_auth_import" Json.text
    prefixDataSourceInRoute := ← r.optional "prefix_data_source_in_route" Json.flag
    testnetPrefix := ← r.optional "testnet_prefix" Json.text }

end Overrides

end Attestation.Verifier
