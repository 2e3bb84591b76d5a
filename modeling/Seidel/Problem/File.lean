import Seidel.Problem.Json
import Seidel.Problem.Lines
import Seidel.Problem.Yaml
import Seidel.Text.Utf8

/-!
Problem files. The name of a file decides its format: `.yaml` and `.yml`, `.json`, and plain text
with one equation on each line for `.txt` and for names without an extension.
-/

namespace Seidel

/-- Why a file cannot be read as text. -/
inductive FileFault
  | notFound
  | isDirectory
  | notUtf8
  | other
  deriving DecidableEq, Repr

def FileFault.message : FileFault → String
  | .notFound => "no such file"
  | .isDirectory => "is a directory"
  | .notUtf8 => "not valid UTF-8"
  | .other => "cannot be read"

/-- Why a problem cannot be loaded. -/
inductive ProblemError
  | invalid (cause : ValidationError)
  | unsupportedExtension (path : String)
  | file (fault : FileFault)
  | yaml
  | json
  deriving DecidableEq, Repr

def ProblemError.message : ProblemError → String
  | .invalid cause => cause.message
  | .unsupportedExtension path => "Unsupported problem file extension: " ++ path
  | .file fault => "I/O error: " ++ fault.message
  | .yaml => "YAML error: not a problem"
  | .json => "JSON error: not a problem"

/-- How a problem with all its parts is written. -/
inductive FileFormat
  | yaml
  | json
  deriving DecidableEq, Repr

namespace FileFormat

def parse? : FileFormat → String → Option Problem
  | .yaml => Problem.parseYaml?
  | .json => Problem.parseJson?

def print : FileFormat → Problem → String
  | .yaml => Problem.printYaml
  | .json => Problem.printJson

def error : FileFormat → ProblemError
  | .yaml => .yaml
  | .json => .json

end FileFormat

/-! ## File names -/

/-- The last part of a path; none for a path that ends in the current or the parent directory. -/
def fileName? (path : List UInt8) : Option (List UInt8) :=
  match ((path.splitOn 0x2F).filter fun part => part ≠ [] ∧ part ≠ [0x2E]).getLast? with
  | some name => if name = [0x2E, 0x2E] then none else some name
  | none => none

/-- What follows the last point of a file name. A point at the start of the name does not count. -/
def extension? (path : List UInt8) : Option (List UInt8) :=
  (fileName? path).bind fun name =>
    match name.reverse.span (· != 0x2E) with
    | (_, []) | (_, [_]) => none
    | (reversed, _) => some reversed.reverse

/-- What a file holds, by its name. -/
inductive FileKind
  | formatted (format : FileFormat)
  | plain
  | unsupported
  deriving DecidableEq, Repr

/-- An extension that is not UTF-8 counts as none. -/
def FileKind.ofPath (path : List UInt8) : FileKind :=
  match (extension? path).bind fun extension => String.fromUTF8? ⟨extension.toArray⟩ with
  | none => .plain
  | some extension =>
    if extension = "yaml" ∨ extension = "yml" then .formatted .yaml
    else if extension = "json" then .formatted .json
    else if extension = "txt" then .plain
    else .unsupported

/-! ## Loading and saving -/

namespace Problem

/-- The problem itself when it is valid. -/
def checked (p : Problem) : Except ProblemError Problem :=
  match p.validate with
  | .ok () => .ok p
  | .error cause => .error (.invalid cause)

/-- Reads a file with all parts of a problem, given what it holds. -/
def loadAs (format : FileFormat) (content : Except FileFault ByteArray) :
    Except ProblemError Problem := do
  let bytes ← content.mapError .file
  match String.fromUTF8? bytes with
  | none => .error (.file .notUtf8)
  | some source =>
    match format.parse? source with
    | none => .error format.error
    | some p => p.checked

/-- Reads a plain text, given its bytes. -/
def ofLines (bytes : ByteArray) : Except FileFault Problem :=
  match Lines.equations? bytes with
  | none => .error .notUtf8
  | some equations => .ok { equations }

/-- Reads the file with this name, given what it holds. -/
def load (path : ByteArray) (content : Except FileFault ByteArray) : Except ProblemError Problem :=
  match FileKind.ofPath path.data.toList with
  | .formatted format => loadAs format content
  | .plain => do
    let p ← (content.bind ofLines).mapError .file
    p.checked
  | .unsupported => .error (.unsupportedExtension (Text.showBytes path))

/-- Writes a file over whatever it held before; an invalid problem leaves it as it was. Gives the
verdict and what the file holds afterwards. -/
def saveAs (format : FileFormat) (p : Problem) (content : Option ByteArray) :
    Except ValidationError Unit × Option ByteArray :=
  match p.validate with
  | .ok () => (.ok (), some (format.print p).toUTF8)
  | .error cause => (.error cause, content)

end Problem

end Seidel
