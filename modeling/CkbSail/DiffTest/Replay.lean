import CkbSail.DiffTest.Run

/-!
# Replays

A replay runs the program of a stored artifact, under the id the artifact gives it.
-/

namespace CkbSail.DiffTest

open CkbSail.Core RustStd

/-- The file system and the JSON reader, as far as a replay needs them. -/
structure ArtifactSource where
  readToString : String → Except String String
  fromStr : String → Except String Artifact

def Artifact.read (source : ArtifactSource) (path : String) : Except Error Artifact :=
  match source.readToString path with
  | .error fault => .error ((Error.msg fault).context s!"failed to read {path}")
  | .ok text =>
      match source.fromStr text with
      | .error fault => .error ((Error.msg fault).context s!"failed to parse artifact {path}")
      | .ok artifact =>
          if artifact.schemaVersion = 2 || artifact.schemaVersion = ARTIFACT_SCHEMA_VERSION then
            .ok artifact
          else
            .error (.msg (s!"artifact schema version {artifact.schemaVersion} is not " ++
              s!"supported (2 or {ARTIFACT_SCHEMA_VERSION})"))

/-- `select_cases` with `--replay`. -/
def selectReplay (source : ArtifactSource) (path : String) : Except Error (List TestProgram) :=
  match Artifact.read source path with
  | .error error => .error error
  | .ok artifact =>
      match artifact.program with
      | .error error => .error error
      | .ok case => .ok [case]

end CkbSail.DiffTest
