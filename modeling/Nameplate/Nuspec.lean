/-
# Making a package document

The document of a project's package is made from the project's metadata, which
must be complete, and written to the package directory under the package's id.
The id is the title with the configuration after a dot, without spaces. Every
package holds the usual build products unless they are overridden; a directory
keeps its name under the folder it goes to.

Key definitions: `Package.idFor`, `placeFiles`, `makePackage`.
-/
import Nameplate.Nuspec.Document
import Nameplate.Record.Metadata

namespace Nameplate

/-- The files of every package, with the folders they go to. -/
def usualFiles : List PackedFile :=
  [⟨"**\\*.dll", "lib"⟩, ⟨"**\\*.exe", "lib"⟩, ⟨"**\\*.sql", "lib"⟩, ⟨"**\\*.dtsx", "lib"⟩,
    ⟨"**\\*.config", "content"⟩, ⟨"**\\*.xml", "content"⟩, ⟨"**\\*.dtsConfig", "content"⟩,
    ⟨"**\\*.zip", "content"⟩, ⟨"**\\*.cmd", "content"⟩, ⟨"**\\*.bat", "content"⟩]

/-- The id of a package: the title and the configuration, without spaces. -/
def Package.idFor (title : Text) (configuration : Option Text) : Text :=
  let full := match configuration.bind Text.nonBlank? with
    | some c => title ++ '.' :: c
    | none => title
  full.filter (· ≠ ' ')

/-- The package of a project with the given metadata. -/
def Package.ofRecord (r : Record) (configuration : Option Text) (dependencies : List Dependency)
    (files : List PackedFile) : Package where
  id := Package.idFor r.title configuration
  description := r.description
  authors := r.company
  version := r.version
  dependencies
  files

/-- What goes into a package, and where the document goes. -/
structure PackageRequest where
  packageDir : Path
  projectDir : Path
  /-- The build artifact. -/
  outputPath : Path
  language : Language
  configuration : Option Text := none
  /-- Whether only the given files are packaged. -/
  overrideDefaultFiles : Bool := false
  files : List FileEntry := []
  dependencies : List Dependency := []
  deriving DecidableEq, Repr

/-- What was written. -/
structure PackageReport where
  path : Path
  id : Text
  version : Text
  fileCount : Nat
  dependencyCount : Nat
  deriving DecidableEq, Repr

/-- The place in the package of a given file, when it is known whether it is a directory. -/
def FileEntry.place (f : FileEntry) (isDirectory : Bool) : PackedFile :=
  ⟨f.src, if isDirectory then f.fileType ++ '\\' :: f.src else f.fileType⟩

variable {m : Type → Type} [Monad m] [FileAccess m]

/-- The files of a package: the usual ones unless they are overridden, then the given ones. -/
def placeFiles (packageDir : Path) (overrideDefaultFiles : Bool) (given : List FileEntry) :
    m (List PackedFile) := do
  let given ← given.mapM fun f => do
    return f.place (← FileAccess.isDirectory (Path.join packageDir f.src))
  return (if overrideDefaultFiles then [] else usualFiles) ++ given

/-- The package of a project. -/
def buildPackage (r : PackageRequest) : ExceptT Failure m Package := do
  let found ← findBuiltMetadata
    { projectDir := r.projectDir, language := r.language, artifact := some r.outputPath }
  let found ← ExceptT.mk (pure found.ensureComplete)
  let files ← ExceptT.lift (placeFiles r.packageDir r.overrideDefaultFiles r.files)
  return .ofRecord found.record r.configuration r.dependencies files

/-- Makes the package document of a project and writes it to the package directory. -/
def makePackage (r : PackageRequest) : ExceptT Failure m PackageReport := do
  let package ← buildPackage r
  let path := Path.join r.packageDir package.fileName
  writeFile path (package.document ++ ['\n'])
  return ⟨path, package.id, package.version, package.files.length, package.dependencies.length⟩

end Nameplate
