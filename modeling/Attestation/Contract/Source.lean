import Attestation.Text.Split

/-!
# Generated contracts

Solidity sources for an attestation type: a contract that stands in for verification, its
interface, and a temporary contract from which the compiler derives the shapes of the messages.

## Main definitions

* `Contract.verification`, `Contract.verificationInterface`, `Contract.temporary`: the sources.

## Design notes

The sources are fixed text but for the name of the type and the imports.  What is put in for a
specifier is not escaped, so it has to be plain text between double quotes.
-/

namespace Attestation.Contract

/-- The head of every contract. -/
def headLines : List String :=
  ["// SPDX-License-Identifier: MIT",
    "pragma solidity 0.8.20;",
    ""]

/-- A contract that accepts every proof of the attestation type. -/
def verification (name typeImport interfaceImport : String) : String :=
  Text.unlines (headLines ++ [s!"import \"{typeImport}\";",
      s!"import \"{interfaceImport}\";",
      "",
      "/**",
      s!" * Contract mocking verifying {name} attestations.",
      " */",
      s!"contract {name}Verification is I{name}Verification \x7b",
      "    /**",
      s!"     * @inheritdoc I{name}Verification",
      "     */",
      s!"    function verify{name}(",
      s!"        I{name}.Proof calldata _proof",
      "    ) external pure returns (bool _proved) \x7b",
      s!"        return _proof.data.attestationType == bytes32(\"{name}\");",
      "    \x7d",
      "\x7d"])

/-- The interface of that contract. -/
def verificationInterface (name typeImport : String) : String :=
  Text.unlines (headLines ++ [s!"import \"{typeImport}\";",
      "",
      s!"interface I{name}Verification \x7b",
      s!"    function verify{name}(",
      s!"        I{name}.Proof calldata _proof",
      "    ) external view returns (bool _proved);",
      "\x7d"])

/-- A contract whose functions take the request, the response and the proof. -/
def temporary (name typeImport : String) : String :=
  Text.unlines (headLines ++ [s!"import \"{typeImport}\";",
      "",
      s!"contract I{name}Temporary \x7b",
      s!"    function request(I{name}.Request calldata _request) public pure \x7b\x7d",
      "",
      s!"    function response(I{name}.Response calldata _response) public pure \x7b\x7d",
      "",
      s!"    function proof(I{name}.Proof calldata _proof) public pure \x7b\x7d",
      "\x7d"])

end Attestation.Contract
