import ImageLayer.Build.Layer
import ImageLayer.CommandLine.Options
import ImageLayer.ConfigurationFile
import ImageLayer.Host.Load
import ImageLayer.Text.Calendar
/-!
What a command line leads to: lines for its two outputs, a code, and the host as it is afterwards.

What the command line says comes before what the configuration file says, and for the source date that comes
before the variable of the environment. The layer and its documents are announced on the first output;
everything that is said on the way goes to the second.

A command is a computation on a session, which has the host, the files that were written and the lines that were
said so far. A failure ends it with the lines for the failure and its causes. A command that never comes to an
end has no code, but what it said and wrote until then is there.

Layers are compressed with stored blocks here (`Gzip.stored`), which is one way to do it among others.
-/

namespace ImageLayer

/-! ## Lines -/

/-- The lines that say something on a plain output, where positions in a sequence are not shown. -/
def Message.lines : Message → List String
  | .report text => [text]
  | .progress .. => []
  | .warning text => ["⚠️  Warning: " ++ text]
  | .error text => [text]
  | .completion text => ["", text]

/-- The lines that say why nothing more was done. -/
def Failure.lines (f : Failure) : List String :=
  ["", "❌ An error occurred:", "", f.message] ++
    f.causes.flatMap (fun c => ["", "Caused by: " ++ c]) ++ [""]

/-- The lines that say what was built. -/
def BuildResponse.lines (r : BuildResponse) : List String :=
  ["layer: " ++ r.layer.path.display, "diffID: " ++ r.layer.diffId.text,
    "digest: " ++ r.layer.digest.text, s!"size: {r.layer.size}"] ++
  r.sboms.map (fun p => "sbom: " ++ p.display) ++ r.tags.map ("tag: " ++ ·) ++
  (r.index.map fun p => "index: " ++ p.display).toList

/-! ## Codes -/

/-- How the program ends. -/
inductive ExitCode where
  /-- It did what it was asked for. -/
  | success
  /-- It could not do it. -/
  | applicationError
  /-- It was asked for nothing that it can do. -/
  | invalidArguments
  deriving DecidableEq, Repr

namespace ExitCode

/-- All codes. -/
def all : List ExitCode := [.success, .applicationError, .invalidArguments]

/-- The number that the caller gets. -/
def number : ExitCode → UInt8
  | .success => 0
  | .applicationError => 1
  | .invalidArguments => 2

/-- A code in words. -/
def text : ExitCode → String
  | .success => "Success (0)"
  | .applicationError => "Application Error (1)"
  | .invalidArguments => "Invalid Arguments (2)"

end ExitCode

/-- What a command line leads to. -/
structure Outcome where
  /-- How the program ends, if it does. -/
  code : Option ExitCode
  /-- The lines of the first output. -/
  results : List String
  /-- The lines of the second output. -/
  remarks : List String
  /-- The host afterwards. -/
  host : Host
  /-- The files that were written, in order. -/
  written : List (Path × Bytes)

/-! ## Building -/

/-- The state of a command that is carried out. -/
structure Session where
  /-- The host. -/
  host : Host
  /-- The lines of the second output. -/
  remarks : List String
  /-- The files that were written, in order. -/
  written : List (Path × Bytes)

/-- A computation of a command that may give no result; the changes made before are kept. -/
abbrev Execution := EStateM NoResult Session

namespace BuildOptions

/-- The number of seconds that the environment gives: none unless there is more than blanks. -/
def environmentDate (environment : Option String) : Except Failure Int :=
  let word := (environment.map fun v => Text.trim v.toList).getD []
  if word.isEmpty then .ok 0
  else match Numeral.integer 10 Numeral.maxLong word with
    | .ok seconds => .ok seconds
    | .error _ => .error (.configuration (.epochNotNumber (String.ofList word)))

/-- The seconds since the epoch for every date in the output. -/
def resolveDate (o : BuildOptions) (f : ConfigurationFile) (environment : Option String) :
    Except Failure Int := do
  let seconds ← match o.sourceDate.or f.sourceDate with
    | some seconds => .ok seconds
    | none => environmentDate environment
  if Calendar.hasDate seconds then .ok seconds
  else .error (.configuration (.epochOutOfRange seconds))

/-- The configuration file that is given, or that of the working directory, or an empty one. -/
def configurationFile (o : BuildOptions) (h : Host) : Except Failure ConfigurationFile :=
  match o.config with
  | some p => h.loadConfiguration p
  | none => (h.discoverConfiguration h.workingPath).map (·.getD {})

/-- The architecture of the image. -/
def resolveArchitecture (o : BuildOptions) (f : ConfigurationFile) :
    Except Failure (Option Architecture) :=
  match o.architecture with
  | some a => .ok (some a)
  | none => f.architectureOf

/-- The formats of documents to write. -/
def resolveFormats (o : BuildOptions) (f : ConfigurationFile) : Except Failure (List SbomFormat) :=
  if !o.formats.isEmpty then .ok o.formats
  else if f.formats.isEmpty then .ok [.spdx]
  else f.formatsOf

/-- What is known about the image. -/
def image (o : BuildOptions) (f : ConfigurationFile) (sourceDate : Int)
    (architecture : Option Architecture) : ImageInfo where
  name := (o.name.or f.name).getD ""
  repository := f.repository
  tags := if o.tags.isEmpty then f.tags else o.tags
  reference := f.reference
  imageDigest := o.imageDigest
  architecture := architecture
  sourceDate := sourceDate

/-- The index of the image. -/
def readIndex (o : BuildOptions) (h : Host) : Except Failure (Option Bytes) :=
  match o.index with
  | none => .ok none
  | some p =>
    match h.contentsAt p with
    | .ok raw => .ok (some raw)
    | .error e => .error (.configuration (.indexUnreadable p e))

end BuildOptions

namespace Execution

/-- Adds lines to the second output. -/
def remark (lines : List String) : Execution Unit :=
  modify fun s => { s with remarks := s.remarks ++ lines }

/-- Asks something of the host. -/
def ask {α : Type} (question : Host → Except Failure α) : Execution α := do
  match question (← get).host with
  | .ok a => return a
  | .error e => throw (.failure e)

/-- Makes the directory for the output. -/
def makeOutput (directory : Path) : Execution Unit := fun s =>
  match HostEdit.makeDirectories directory s.host with
  | .ok _ h => .ok () { s with host := h }
  | .error e h => .error (.failure (.archive directory (.outputDirectory e))) { s with host := h }

/-- Carries out an order on a tree. -/
def build (r : BuildRequest) (tree : Tree) : Execution BuildResponse := fun s =>
  let after (site : Site) : Session :=
    ⟨site.host, s.remarks ++ site.workspace.messages.flatMap Message.lines,
      s.written ++ site.written⟩
  match Build.run Gzip.stored r (r.site tree s.host) with
  | .ok response site => .ok response (after site)
  | .error e site => .error e (after site)

/-- Builds a layer as the command line says. -/
def run (o : BuildOptions) (environment : Option String) : Execution BuildResponse := do
  let file ← ask o.configurationFile
  remark file.warnings
  let sourceDate ← ask fun _ => o.resolveDate file environment
  let architecture ← ask fun _ => o.resolveArchitecture file
  makeOutput o.output.directory
  let formats ← ask fun _ => o.resolveFormats file
  let index ← ask o.readIndex
  let tree ← ask (·.loadTree o.rootfs)
  build {
    metadata := ⟨o.image file sourceDate architecture, {}, o.output⟩
    configuration := file.configuration, formats := formats, index := index } tree

end Execution

/-! ## Commands -/

namespace Command

/-- How the program is called. -/
def usage : List String :=
  ["Usage: " ++ toolName ++ " build --rootfs <DIR> [OPTIONS]", "", "Options:"] ++
    OptionKey.all.map fun k =>
      match k.letter? with
      | some c => String.ofList ['-', c] ++ ", --" ++ k.long
      | none => "    --" ++ k.long

/-- What a command leads to. -/
def run (c : Command) (environment : Option String) (h : Host) : Outcome :=
  match c with
  | .version => ⟨some .success, [toolName ++ " " ++ toolVersion], [], h, []⟩
  | .help => ⟨some .success, usage, [], h, []⟩
  | .build o =>
    match Execution.run o environment ⟨h, [], []⟩ with
    | .ok response s => ⟨some .success, response.lines, s.remarks, s.host, s.written⟩
    | .error (.failure e) s =>
      ⟨some .applicationError, [], s.remarks ++ e.lines, s.host, s.written⟩
    | .error .endless s => ⟨none, [], s.remarks, s.host, s.written⟩

end Command

/-- What a command line leads to, where the environment's variable for the source date has a value. -/
def Outcome.ofWords (words : List String) (environment : Option String) (h : Host) : Outcome :=
  match Command.parse? words with
  | some c => c.run environment h
  | none => ⟨some .invalidArguments, [], Command.usage, h, []⟩

end ImageLayer
