/-!
# Fixed parts of DTO scripts

The validators and the status that every DTO script declares.

## Main definitions

* `Dto.validatorLines`: the validator classes.
* `Dto.statusLines`: the status of an attestation.

## Design notes

These parts depend on no type.  They are kept apart from `Dto.Source`, which is about the parts
that do.
-/

namespace Attestation.Dto

/-- The validators for numbers, hashes, hexadecimal texts and addresses. -/
def validatorLines : List String :=
  ["/**",
    " * Validator constraint if the given value is a number or 0x-prefixed hexadecimal string.",
    " */",
    "@ValidatorConstraint(\x7b name: \"unsigned-int\", async: false \x7d)",
    "class IsUnsignedIntLike implements ValidatorConstraintInterface \x7b",
    "    /**",
    "     * Validates if the given value is a string of decimal unsigned number or 0x-prefixed hexadecimal string.",
    "     * @param text",
    "     * @param args",
    "     * @returns",
    "     */",
    "    validate(text: any, _args: ValidationArguments) \x7b",
    "        return typeof text === \"string\" && (/^0x[0-9a-fA-F]+$/i.test(text) || /^[0-9]+$/i.test(text));",
    "    \x7d",
    "",
    "    /**",
    "     * Returns the default error message template.",
    "     * @param args",
    "     * @returns",
    "     */",
    "    defaultMessage(_args: ValidationArguments) \x7b",
    "        return \"($property) value ($value) is not a decimal number in string or 0x-prefixed hexadecimal string\";",
    "    \x7d",
    "\x7d",
    "",
    "/**",
    " * Validator constraint if the given value is a signed number or signed 0x-prefixed hexadecimal string.",
    " */",
    "@ValidatorConstraint(\x7b name: \"signed-int\", async: false \x7d)",
    "class IsSignedIntLike implements ValidatorConstraintInterface \x7b",
    "    /**",
    "     * Validates if the given value is a signed number or signed 0x-prefixed hexadecimal string.",
    "     * @param text",
    "     * @param args",
    "     * @returns",
    "     */",
    "    validate(text: any, _args: ValidationArguments) \x7b",
    "        return typeof text === \"string\" && (/^\\-?0x[0-9a-fA-F]+$/i.test(text) || /^\\-?[0-9]+$/i.test(text));",
    "    \x7d",
    "",
    "    /**",
    "     * Returns the default error message template.",
    "     * @param args",
    "     * @returns",
    "     */",
    "    defaultMessage(_args: ValidationArguments) \x7b",
    "        return \"($property) value ($value) is not a signed decimal integer in string or signed 0x-prefixed hexadecimal string\";",
    "    \x7d",
    "\x7d",
    "",
    "/**",
    " * Validator constraint if the given value is a 0x-prefixed hexadecimal string representing 32 bytes.",
    " */",
    "@ValidatorConstraint(\x7b name: \"hash-32\", async: false \x7d)",
    "class IsHash32 implements ValidatorConstraintInterface \x7b",
    "    /**",
    "     * Validates if the given value is a 0x-prefixed hexadecimal string representing 32 bytes.",
    "     * @param text",
    "     * @param args",
    "     * @returns",
    "     */",
    "    validate(text: any, _args: ValidationArguments) \x7b",
    "        return typeof text === \"string\" && /^0x[0-9a-f]\x7b64\x7d$/i.test(text);",
    "    \x7d",
    "",
    "    /**",
    "     * Returns the default error message template.",
    "     * @param args",
    "     * @returns",
    "     */",
    "    defaultMessage(_args: ValidationArguments) \x7b",
    "        return \"($property) value ($value) is not 0x-prefixed hexadecimal string representing 32 bytes\";",
    "    \x7d",
    "\x7d",
    "",
    "/**",
    " * Validator constraint if the given value is a 0x-prefixed hexadecimal string",
    " */",
    "@ValidatorConstraint(\x7b name: \"hash-0x\", async: false \x7d)",
    "class Is0xHex implements ValidatorConstraintInterface \x7b",
    "    /**",
    "     * Validates if the given value is a 0x-prefixed hexadecimal string",
    "     * @param text",
    "     * @param args",
    "     * @returns",
    "     */",
    "    validate(text: any, _args: ValidationArguments) \x7b",
    "        return typeof text === \"string\" && /^0x[0-9a-f]+$/i.test(text);",
    "    \x7d",
    "",
    "    /**",
    "     * Returns the default error message template.",
    "     * @param args",
    "     * @returns",
    "     */",
    "    defaultMessage(_args: ValidationArguments) \x7b",
    "        return \"($property) value ($value) is not 0x-prefixed hexadecimal string\";",
    "    \x7d",
    "\x7d",
    "",
    "/**",
    " * Validator constraint if the given value is an EVM address, hence 0x-prefixed hexadecimal string representing 20 bytes.",
    " */",
    "@ValidatorConstraint(\x7b name: \"evm-address\", async: false \x7d)",
    "class IsEVMAddress implements ValidatorConstraintInterface \x7b",
    "    /**",
    "     * Validates if the given value is an EVM address, hence 0x-prefixed hexadecimal string representing 20 bytes.",
    "     * @param text",
    "     * @param args",
    "     * @returns",
    "     */",
    "    validate(text: any, _args: ValidationArguments) \x7b",
    "        return typeof text === \"string\" && /^0x[0-9a-f]\x7b40\x7d$/i.test(text);",
    "    \x7d",
    "",
    "    /**",
    "     * Returns the default error message template.",
    "     * @param args",
    "     * @returns",
    "     */",
    "    defaultMessage(_args: ValidationArguments) \x7b",
    "        return \"($property) value ($value) is not 0x-prefixed hexadecimal string representing 20 bytes (EVM address)\";",
    "    \x7d",
    "\x7d"]

/-- The status of an attestation. -/
def statusLines : List String :=
  ["/**",
    " * Attestation status",
    " */",
    "export enum AttestationResponseStatus \x7b",
    "    /**",
    "     * Attestation request is valid.",
    "     */",
    "    VALID = \"VALID\",",
    "    /**",
    "     * Attestation request is invalid.",
    "     */",
    "    INVALID = \"INVALID\",",
    "    /**",
    "     * Attestation request cannot be confirmed neither rejected by the verifier at the moment.",
    "     */",
    "    INDETERMINATE = \"INDETERMINATE\",",
    "\x7d"]

end Attestation.Dto
