import ClassUniverse.Level

/-!
# What can go wrong

Each constructor is one cause; the wording of all of them is in `Error.message`.
-/

namespace ClassUniverse

/-- Why a file could not be read. -/
inductive FileProblem
  | missing
  | isDirectory
  | notDirectory
  | notMapped
  | notText
  | notExecutable
  | nameTooLong
  | endInName
  | wrongChecksum
  | notExpandable
  deriving DecidableEq, Repr

/-- The wording of the system for a file that could not be read. -/
def FileProblem.message : FileProblem → String
  | missing => "No such file or directory (os error 2)"
  | isDirectory => "Is a directory (os error 21)"
  | notDirectory => "Not a directory (os error 20)"
  | notMapped => "No such device (os error 19)"
  | notText => "stream did not contain valid UTF-8"
  | notExecutable => "Permission denied (os error 13)"
  | nameTooLong => "File name too long (os error 36)"
  | endInName => "file name contained an unexpected NUL byte"
  | wrongChecksum => "Invalid checksum"
  | notExpandable => "corrupt deflate stream"

/-- Why the note on a cipher in an archive cannot be used. -/
inductive CipherProblem
  | noNote
  | wrongLength
  | unknownVendor
  | unknownVersion
  | unknownStrength
  deriving DecidableEq, Repr

def CipherProblem.message : CipherProblem → String
  | noNote => "invalid Zip archive: AES encryption without AES extra data field"
  | wrongLength => "unsupported Zip archive: AES extra data field has an unsupported length"
  | unknownVendor => "invalid Zip archive: Invalid AES vendor"
  | unknownVersion => "invalid Zip archive: Invalid AES vendor version"
  | unknownStrength => "invalid Zip archive: Invalid AES encryption strength"

/-- Why an archive could not be read. -/
inductive ArchiveProblem
  | tooShort
  | noEnd
  | cutOff
  | severalDisks
  | misplaced
  | noRoomForLargeEnd
  | noLargeEnd
  | noDirectoryRecord
  | tooFar
  | cipher (problem : CipherProblem)
  | noModuleHeader
  | noSuchEntry
  | encrypted
  | noEntryRecord
  | unknownMethod
  deriving DecidableEq, Repr

/-- The wording for an archive that could not be read. -/
def ArchiveProblem.message : ArchiveProblem → String
  | tooShort => "invalid Zip archive: Invalid zip header"
  | noEnd => "invalid Zip archive: Could not find central directory end"
  | cutOff => "failed to fill whole buffer"
  | severalDisks => "unsupported Zip archive: Support for multi-disk files is not implemented"
  | misplaced => "invalid Zip archive: Invalid central directory size or offset"
  | noRoomForLargeEnd => "invalid Zip archive: File cannot contain ZIP64 central directory end"
  | noLargeEnd => "invalid Zip archive: Could not find ZIP64 central directory end"
  | noDirectoryRecord => "invalid Zip archive: Invalid Central Directory header"
  | tooFar => "invalid Zip archive: Archive header is too large"
  | cipher problem => problem.message
  | noModuleHeader => "invalid Zip archive: missing jmod header"
  | noSuchEntry => "specified file not found in archive"
  | encrypted => "unsupported Zip archive: Password required to decrypt file"
  | noEntryRecord => "invalid Zip archive: Invalid local file header"
  | unknownMethod => "unsupported Zip archive: Compression method not supported"

/-- The causes of a problem with an archive, nearest first.  Bytes that end early are a failure of
reading, which is told once more. -/
def ArchiveProblem.causes : ArchiveProblem → List String
  | cutOff => [cutOff.message, cutOff.message]
  | problem => [problem.message]

/-- Why no platform was found: a Java runtime or an Android SDK platform. -/
inductive PlatformProblem
  | noPlatformDirectory (directory : String)
  | noTargetJar (jar : String)
  | noForcedJar (jar : String)
  | noAndroidPlatform
  | javaHomeUnset
  | noRuntimeArchive (home : String)
  | notStarted (program : String) (problem : FileProblem)
  deriving DecidableEq, Repr

def PlatformProblem.message : PlatformProblem → String
  | noPlatformDirectory directory =>
      "android platform directory " ++ directory ++ " does not exist"
  | noTargetJar jar => "target android.jar " ++ jar ++ " does not exist"
  | noForcedJar jar => "forced android.jar " ++ jar ++ " does not exist"
  | noAndroidPlatform =>
      "analyzing an Android application requires android_jars or force_android_jar"
  | javaHomeUnset => "java home is not set; pass --java-home or set JAVA_HOME"
  | noRuntimeArchive home => "no rt.jar under " ++ home ++ " (tried lib/ and jre/lib/)"
  | notStarted program problem =>
      "failed to execute " ++ program ++ " (ensure a JRE/JDK is installed): " ++ problem.message

/-- Why an input or an option cannot be used. -/
inductive ConfigurationProblem
  | phantomPromotion (name : String) (partition : Partition)
  | malformedTraceLine (line : String)
  | unknownTraceKind (kind : String)
  | malformedClassFile (name : String)
  | noFile (path : String)
  | severalApplications
  | noApplication
  deriving DecidableEq, Repr

/-- The wording for an input or an option that cannot be used. -/
def ConfigurationProblem.message : ConfigurationProblem → String
  | phantomPromotion name partition =>
      "phantom class " ++ name ++ " cannot become a " ++ partition.name ++ " class"
  | malformedTraceLine line => "malformed reflection trace line: " ++ line
  | unknownTraceKind kind => "unknown reflection trace entry kind: " ++ kind
  | malformedClassFile name => "malformed class file for " ++ name
  | noFile path => "file " ++ path ++ " does not exist"
  | severalApplications =>
      "only one Android application can be analyzed when using android_jars"
  | noApplication => "no apk file given"

/-- Why there is no main class. -/
inductive MainClassProblem
  | neverSet
  | notDeclared (name member : String)
  deriving DecidableEq, Repr

def MainClassProblem.message : MainClassProblem → String
  | neverSet => "no main class has been set or inferred"
  | notDeclared name member => name ++ " does not declare " ++ member

/-- A failed operation. -/
inductive Error
  | duplicateClass (name : String)
  | notManaged (name : String)
  | classNotFound (name : String)
  | platformNotFound (problem : PlatformProblem)
  | noCallGraph
  | memberNotFound (signature : String)
  | unresolvedClass (name : String) (required : Level)
  | malformedSignature (signature : String)
  | noBasicClassesLoaded
  | resolutionFinished (name : String) (level : Level)
  | cyclicHierarchy (name : String)
  | unknownVersionScheme (version : String)
  | noMainClass (problem : MainClassProblem)
  | contextsAlreadySet
  | configuration (problem : ConfigurationProblem)
  | archive (path : String) (problem : ArchiveProblem)
  | file (problem : FileProblem)
  deriving DecidableEq, Repr

namespace Error

def message : Error → String
  | duplicateClass name => "duplicate class: " ++ name
  | notManaged name => "class is not managed by this scene: " ++ name
  | classNotFound name => "can't find classfile " ++ name
  | platformNotFound problem => "platform not found: " ++ problem.message
  | noCallGraph => "no call graph present in scene; run whole-program construction first"
  | memberNotFound signature => "no such member: " ++ signature
  | unresolvedClass name required => name ++ " is not resolved to level " ++ required.name
  | malformedSignature signature => "malformed signature: " ++ signature
  | noBasicClassesLoaded =>
      "none of the basic classes could be loaded; check the class path"
  | resolutionFinished name level =>
      "resolution has finished and " ++ name ++ " is not resolved at level " ++ level.name
  | cyclicHierarchy name => "cyclic class hierarchy through " ++ name
  | unknownVersionScheme version => "unknown runtime version schema: " ++ version
  | noMainClass problem => "no main class: " ++ problem.message
  | contextsAlreadySet => "context numberer is already set"
  | configuration problem => "configuration error: " ++ problem.message
  | archive path problem => "failed to read archive " ++ path ++ ": " ++ problem.message
  | file problem => "IO error: " ++ problem.message

def causes : Error → List String
  | archive _ problem => problem.causes
  | file problem => [problem.message]
  | _ => []

end Error

end ClassUniverse
