/-!
# Notices

The comments with which generated scripts start.
-/

namespace Attestation.Notice

/-- The notice above code that is generated as a whole. -/
def autogenerated : List String :=
  ["//////////////////////////////////////////////////////////////////////////////////////////",
    "/////// THIS CODE IS AUTOGENERATED. DO NOT CHANGE!!!                             /////////",
    "//////////////////////////////////////////////////////////////////////////////////////////"]

/-- The notice above a file of a verifier repository that is generated. -/
def generatedFile : List String :=
  ["///////////////////////////////////////////////////////////////",
    "// THIS IS GENERATED CODE. DO NOT CHANGE THIS FILE MANUALLY .//",
    "///////////////////////////////////////////////////////////////"]

end Attestation.Notice
