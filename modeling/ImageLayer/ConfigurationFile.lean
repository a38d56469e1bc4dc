import ImageLayer.Host.Operation
import ImageLayer.Image.Architecture
import ImageLayer.Image.Configuration
import ImageLayer.Sbom.Format
import ImageLayer.Text.Blank
import ImageLayer.Yaml.Value
/-!
Configuration files.

A configuration file is a YAML mapping that names an image and declares its contents. It has a default for every
part, so that an empty file is a configuration as well. Fields that are not known are allowed and worth a
warning.

Reading has two parts. A text is decoded into a `ConfigurationFile`, and one that is no YAML of the right shape
is refused without saying where. What was decoded is then asked whether it makes sense (`fault?`): the first
thing that is wrong, by the order of fields, is told with its place in the file and with advice.

What a file declares about the tree is a `Configuration`, which is all that the assembly gets to see of it.
-/

namespace ImageLayer

open Yaml (Node Decode)

/-- What a configuration file says. -/
structure ConfigurationFile where
  /-- Name of the image. -/
  name : Option String := none
  /-- Repository that the image is kept in. -/
  repository : Option String := none
  /-- The reference that the image was asked for under. -/
  reference : Option String := none
  /-- Tags of the image. -/
  tags : List String := []
  /-- Architecture of the image, as it is written. -/
  architecture : Option String := none
  /-- Seconds since the epoch for every date in the output. -/
  sourceDate : Option Int := none
  /-- Formats of documents to write, as they are written. -/
  formats : List String := []
  /-- What the image declares about its tree. -/
  configuration : Configuration := {}
  /-- Fields that are not known, in order. -/
  unknown : List String := []
  deriving DecidableEq

namespace ConfigurationFile

/-! ## Parts of the mapping -/

/-- A number of 32 bits. -/
def decodeWord (n : Node) : Decode UInt32 := return UInt32.ofNat (← Decode.natural Numeral.maxWord n)

/-- A user. -/
def decodeUser (n : Node) : Decode User := do
  let fs ← Decode.record ["username", "uid", "gid", "shell", "homedir"] n
  return {
    name := ← Decode.required fs "username" Decode.text
    uid := ← Decode.required fs "uid" decodeWord
    gid := ← Decode.optionalField fs "gid" decodeWord
    shell := ← Decode.optionalField fs "shell" Decode.text
    home := ← Decode.optionalField fs "homedir" Decode.text }

/-- A group. -/
def decodeGroup (n : Node) : Decode Group := do
  let fs ← Decode.record ["groupname", "gid", "members"] n
  return {
    name := ← Decode.required fs "groupname" Decode.text
    gid := ← Decode.required fs "gid" decodeWord
    members := ← Decode.withDefault fs "members" (Decode.list Decode.text) [] }

/-- The accounts. -/
def decodeAccounts (n : Node) : Decode Accounts := do
  let fs ← Decode.record ["run_as", "users", "groups"] n
  return {
    runAs := ← Decode.optionalField fs "run_as" Decode.text
    users := ← Decode.withDefault fs "users" (Decode.list decodeUser) []
    groups := ← Decode.withDefault fs "groups" (Decode.list decodeGroup) [] }

/-- A change to a path. -/
def decodeChange (n : Node) : Decode PathChange := do
  let fs ← Decode.record ["path", "type", "uid", "gid", "permissions", "source", "recursive"] n
  return {
    path := ← Decode.required fs "path" Decode.text
    kind := ← Decode.required fs "type" (Decode.choice ChangeKind.ofKey?)
    owner := ⟨← Decode.withDefault fs "uid" decodeWord 0, ← Decode.withDefault fs "gid" decodeWord 0⟩
    permissions :=
      ← Decode.withDefault fs "permissions" (Decode.natural Numeral.maxWord) defaultPermissions
    source := ← Decode.optionalField fs "source" Decode.text
    recursive := ← Decode.withDefault fs "recursive" Decode.truth false }

/-- The operating system. -/
def decodeOsRelease (n : Node) : Decode OsRelease := do
  let fs ← Decode.record
    ["id", "name", "pretty_name", "version_id", "home_url", "bug_report_url"] n
  return {
    id := ← Decode.optionalField fs "id" Decode.text
    name := ← Decode.optionalField fs "name" Decode.text
    prettyName := ← Decode.optionalField fs "pretty_name" Decode.text
    versionId := ← Decode.optionalField fs "version_id" Decode.text
    homeUrl := ← Decode.optionalField fs "home_url" Decode.text
    bugReportUrl := ← Decode.optionalField fs "bug_report_url" Decode.text }

/-- The commands of services by name; of two under one name the later counts. -/
def decodeServices (n : Node) : Decode (SortedMap String String) := do
  let pairs ← (← Decode.fields n).mapM fun (name, command) => return (name, ← Decode.text command)
  return .ofList pairs

/-- The supervised services. -/
def decodeEntrypoint (n : Node) : Decode (SortedMap String String) := do
  let fs ← Decode.record ["services"] n
  Decode.withDefault fs "services" decodeServices .empty

/-- The tags that follow a package's version. -/
def decodeTagging (n : Node) : Decode VersionTagging := do
  let fs ← Decode.record
    ["package_version_tag", "package_version_tag_stem", "package_version_tag_prefix"] n
  return {
    package := ← Decode.optionalField fs "package_version_tag" Decode.text
    stems := ← Decode.withDefault fs "package_version_tag_stem" Decode.truth false
    lead := ← Decode.optionalField fs "package_version_tag_prefix" Decode.text }

/-! ## The whole mapping -/

/-- The fields that are known. -/
def known : List String :=
  ["name", "repository", "reference", "tags", "architecture", "source_date_epoch", "sbom_formats",
    "accounts", "paths", "os_release", "entrypoint", "version_tagging"]

/-- What the image declares about its tree. -/
def decodeConfiguration (fs : Decode.Fields) : Decode Configuration :=
  return {
    accounts := ← Decode.withDefault fs "accounts" decodeAccounts {}
    paths := ← Decode.withDefault fs "paths" (Decode.list decodeChange) []
    osRelease := ← Decode.withDefault fs "os_release" decodeOsRelease {}
    services := ← Decode.withDefault fs "entrypoint" decodeEntrypoint .empty
    versionTagging := ← Decode.withDefault fs "version_tagging" decodeTagging {} }

/-- The names of unknown fields, each of which must have a value. The mapping around them counts as the
first of the collections that are nested. -/
def decodeUnknown (fs : Decode.Fields) : Decode (List String) := do
  let names ← (fs.filter fun f => !known.contains f.1).mapM fun (name, n) => do
    let _ ← Decode.value (Yaml.Value.maxDepth - 1) n
    return name
  let ordered : SortedMap String Unit := .ofList (names.map fun name => (name, ()))
  return ordered.toList.map Prod.fst

/-- A configuration file. -/
def decode (n : Node) : Decode ConfigurationFile := do
  let all ← Decode.fields n
  let fs := all.filter fun f => known.contains f.1
  if !(fs.map Prod.fst).Nodup then failure
  return {
    name := ← Decode.optionalField fs "name" Decode.text
    repository := ← Decode.optionalField fs "repository" Decode.text
    reference := ← Decode.optionalField fs "reference" Decode.text
    tags := ← Decode.withDefault fs "tags" (Decode.list Decode.text) []
    architecture := ← Decode.optionalField fs "architecture" Decode.text
    sourceDate := ← Decode.optionalField fs "source_date_epoch" (Decode.integer Numeral.maxLong)
    formats := ← Decode.withDefault fs "sbom_formats" (Decode.list Decode.text) []
    configuration := ← decodeConfiguration fs
    unknown := ← decodeUnknown all }

/-- The configuration file with a text, unless it is no YAML of the right shape. -/
def parse? (text : String) : Option ConfigurationFile := Decode.parse decode text

/-! ## Whether it makes sense -/

/-- Whether nothing is left of a text without the blanks around it. -/
def isBlank (s : String) : Bool := (Text.trim s.toList).isEmpty

/-- What is wrong with a change to a path, by its position. -/
def changeFault? (index : Nat) (c : PathChange) : Option ConfigurationFault :=
  if isBlank c.path then some (.blankPath index)
  else if c.kind.isLink && c.target?.isNone then some (.linkWithoutSource index c.path)
  else none

/-- The first fault among items, by their position from a number on. -/
def firstFault? {α : Type} (fault? : Nat → α → Option ConfigurationFault) :
    (start : Nat) → List α → Option ConfigurationFault
  | _, [] => none
  | start, a :: rest => (fault? start a).or (firstFault? fault? (start + 1) rest)

/-- The architecture that is named. -/
def architectureOf (f : ConfigurationFile) : Except Failure (Option Architecture) :=
  match f.architecture with
  | none => .ok none
  | some name => (Architecture.parse name).map some

/-- The formats that are named. -/
def formatsOf (f : ConfigurationFile) : Except Failure (List SbomFormat) :=
  f.formats.mapM fun name =>
    match SbomFormat.parse? name with
    | some format => .ok format
    | none => .error (.configuration (.format name))

/-- What is wrong with the architecture. -/
def architectureFault? (f : ConfigurationFile) : Option ConfigurationFault :=
  match f.architectureOf with
  | .error (.architecture name) => some (.architecture name)
  | _ => none

/-- What is wrong with the formats. -/
def formatFault? (f : ConfigurationFile) : Option ConfigurationFault :=
  (f.formats.find? fun name => (SbomFormat.parse? name).isNone).map .format

/-- The first thing that is wrong. -/
def fault? (f : ConfigurationFile) : Option ConfigurationFault :=
  let accounts := f.configuration.accounts
  let users := firstFault? (fun i u => if isBlank u.name then some (.blankUser i) else none) 0
    accounts.users
  let groups := firstFault? (fun i g => if isBlank g.name then some (.blankGroup i) else none) 0
    accounts.groups
  (((users.or groups).or (firstFault? changeFault? 0 f.configuration.paths)).or
    f.architectureFault?).or f.formatFault?

/-- What is said about fields that are not known. -/
def warnings (f : ConfigurationFile) : List String :=
  f.unknown.map fun key => "⚠️  Warning: Unknown config field '" ++ key ++ "' will be ignored."

/-- How the configuration file of a directory is called. -/
def standardName : Path := .ofString "layercraft.yaml"

end ConfigurationFile

namespace Host

/-- Reads a configuration file that makes sense. -/
def loadConfiguration (h : Host) (p : Path) : Except Failure ConfigurationFile := do
  let text ← inContext (.readConfiguration p) ((h.readText p).mapError .host)
  let file ← match ConfigurationFile.parse? text with
    | some file => .ok file
    | none => .error (.within (.parseConfiguration p) .yaml)
  match file.fault? with
  | some fault => throw (.configuration fault)
  | none => return file

/-- Reads the configuration file of a directory, if there is one. -/
def discoverConfiguration (h : Host) (directory : Path) :
    Except Failure (Option ConfigurationFile) :=
  let p := directory.join ConfigurationFile.standardName
  if h.exists? p then some <$> h.loadConfiguration p else .ok none

end Host

end ImageLayer
