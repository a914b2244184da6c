import Attestation.Json.Decoder
import Attestation.Path.Basic

/-!
# Locations

Where the generators read and write, relative to the project root.

## Main definitions

* `Locations`: the places, with their default values.
* `LocationOverrides`: the places that a settings file names.
* `Locations.overriddenBy`: the places with those in their stead.

## Design notes

Each place can be named on its own, so the overrides are a record of the same shape with
optional fields, and the defaults stand in one place only.
-/

namespace Attestation

/-- The places of inputs and outputs. -/
structure Locations where
  /-- One interface for each attestation type. -/
  typeInterfaceDefinitions : Path := ⟨"contracts/interfaces/types"⟩
  /-- The only build-info file. -/
  buildInfo : Path := ⟨"artifacts/build-info"⟩
  verificationContracts : Path := ⟨"contracts/generated/implementation/verification"⟩
  verificationInterfaces : Path := ⟨"contracts/generated/interfaces/verification"⟩
  temporaryContracts : Path := ⟨"contracts/generated/temporary"⟩
  /-- What the compiler made of the temporary contracts. -/
  temporaryContractsCompilation : Path := ⟨"artifacts/contracts/generated/temporary"⟩
  configs : Path := ⟨"generated/config"⟩
  abi : Path := ⟨"generated/abi"⟩
  dto : Path := ⟨"generated/dto"⟩
  tsTypes : Path := ⟨"generated/types/typescript"⟩
  server : Path := ⟨"server"⟩
  deriving DecidableEq, Repr, Inhabited

/-- The places that a settings file names. -/
structure LocationOverrides where
  typeInterfaceDefinitions : Option Path := none
  buildInfo : Option Path := none
  verificationContracts : Option Path := none
  verificationInterfaces : Option Path := none
  temporaryContracts : Option Path := none
  temporaryContractsCompilation : Option Path := none
  configs : Option Path := none
  abi : Option Path := none
  dto : Option Path := none
  tsTypes : Option Path := none
  server : Option Path := none
  deriving DecidableEq, Repr, Inhabited

/-- A path as data. -/
def Path.ofJson? : Json.Decoder Path := fun j => (Json.text j).map Path.mk

namespace LocationOverrides

/-- The names of the places in a settings file. -/
def names : List String :=
  ["type_interface_definitions", "build_info", "verification_contracts",
    "verification_interfaces",
    "temporary_contracts", "temporary_contracts_compilation", "configs", "abi", "dto",
    "ts_types",
    "server"]

/-- The places that a value names. -/
def ofJson? : Json.Decoder LocationOverrides := fun j => do
  let r ← Json.closedRecord names j
  return {
    typeInterfaceDefinitions := ← r.optional "type_interface_definitions" Path.ofJson?
    buildInfo := ← r.optional "build_info" Path.ofJson?
    verificationContracts := ← r.optional "verification_contracts" Path.ofJson?
    verificationInterfaces := ← r.optional "verification_interfaces" Path.ofJson?
    temporaryContracts := ← r.optional "temporary_contracts" Path.ofJson?
    temporaryContractsCompilation :=
      ← r.optional "temporary_contracts_compilation" Path.ofJson?
    configs := ← r.optional "configs" Path.ofJson?
    abi := ← r.optional "abi" Path.ofJson?
    dto := ← r.optional "dto" Path.ofJson?
    tsTypes := ← r.optional "ts_types" Path.ofJson?
    server := ← r.optional "server" Path.ofJson? }

end LocationOverrides

/-- The places with the named ones in their stead. -/
def Locations.overriddenBy (l : Locations) (o : LocationOverrides) : Locations where
  typeInterfaceDefinitions := o.typeInterfaceDefinitions.getD l.typeInterfaceDefinitions
  buildInfo := o.buildInfo.getD l.buildInfo
  verificationContracts := o.verificationContracts.getD l.verificationContracts
  verificationInterfaces := o.verificationInterfaces.getD l.verificationInterfaces
  temporaryContracts := o.temporaryContracts.getD l.temporaryContracts
  temporaryContractsCompilation :=
    o.temporaryContractsCompilation.getD l.temporaryContractsCompilation
  configs := o.configs.getD l.configs
  abi := o.abi.getD l.abi
  dto := o.dto.getD l.dto
  tsTypes := o.tsTypes.getD l.tsTypes
  server := o.server.getD l.server

end Attestation
