import ImageLayer.Image.Architecture
import ImageLayer.Image.Metadata
import ImageLayer.Sbom.Format
import ImageLayer.Text.Blank
/-!
The words of a command line.

An option is written with its name behind two dashes or with its letter behind one. Its value stands behind an
equals sign, directly behind the letter, or in the next word, which then must not look like an option itself.
Only formats and tags may be given more than once.

Words are read from the left, and asking for help ends that, so that faults further right do not matter then.
Otherwise any fault refuses the line as a whole: a word that is no option, an option without a value or given
twice, or a value that the option does not take.

What is read are options with their values in order (`readGiven`), and an order to build is made of them
(`BuildOptions.ofGiven?`). A directory with the tree must be among them.
-/

namespace ImageLayer

/-- The options of a build. -/
inductive OptionKey where
  /-- The directory with the tree. -/
  | rootfs
  /-- The configuration file. -/
  | config
  /-- The directory for the output. -/
  | outputDirectory
  /-- A path of its own for the layer. -/
  | tarball
  /-- A format of documents to write. -/
  | format
  /-- Name of the image. -/
  | name
  /-- A tag of the image. -/
  | tag
  /-- Architecture of the image. -/
  | architecture
  /-- Digest of the image. -/
  | imageDigest
  /-- Seconds since the epoch for every date in the output. -/
  | sourceDate
  /-- The index of the image. -/
  | index
  deriving DecidableEq, Repr

namespace OptionKey

/-- All options. -/
def all : List OptionKey :=
  [.rootfs, .config, .outputDirectory, .tarball, .format, .name, .tag, .architecture, .imageDigest,
    .sourceDate, .index]

/-- The name of an option. -/
def long : OptionKey → String
  | .rootfs => "rootfs"
  | .config => "config"
  | .outputDirectory => "output-dir"
  | .tarball => "tarball"
  | .format => "sbom-format"
  | .name => "name"
  | .tag => "tag"
  | .architecture => "arch"
  | .imageDigest => "image-digest"
  | .sourceDate => "source-date-epoch"
  | .index => "index"

/-- The letter of an option. -/
def letter? : OptionKey → Option Char
  | .rootfs => some 'r'
  | .config => some 'c'
  | .outputDirectory => some 'o'
  | .format => some 'f'
  | .tag => some 't'
  | .architecture => some 'a'
  | _ => none

/-- The option with a name. -/
def ofLong? (name : String) : Option OptionKey := all.find? (·.long = name)

/-- The option with a letter. -/
def ofLetter? (c : Char) : Option OptionKey := all.find? (·.letter? = some c)

/-- Whether an option may be given more than once. -/
def isRepeatable : OptionKey → Bool
  | .format | .tag => true
  | _ => false

/-- Whether an option may have a value. -/
def accepts (k : OptionKey) (value : String) : Bool :=
  match k with
  | .rootfs | .config | .outputDirectory | .tarball | .index => !value.isEmpty
  | .format => (SbomFormat.parse? value).isSome
  | .architecture => (Architecture.parse value).toOption.isSome
  | .sourceDate => (Numeral.integer 10 Numeral.maxLong value.toList).toOption.isSome
  | .name | .tag | .imageDigest => true

end OptionKey

/-! ## Words -/

/-- What a word means. -/
inductive Word where
  /-- An option, with its value if that belongs to the word. -/
  | option (key : OptionKey) (value : Option String)
  /-- A wish for help. -/
  | help
  /-- The end of the options. -/
  | stop
  /-- Nothing that is understood. -/
  | unknown
  deriving DecidableEq, Repr

namespace Word

/-- The value behind an equals sign, or the text itself where there is none. -/
def withoutEquals : List Char → List Char
  | '=' :: rest => rest
  | rest => rest

/-- The meaning of an option's name, with the value behind an equals sign. -/
def ofLong (name : String) (value : Option String) : Word :=
  if name = "help" && value.isNone then .help
  else match OptionKey.ofLong? name with
    | some key => .option key value
    | none => .unknown

/-- The meaning of an option's letter, with what stands behind it. -/
def ofLetter (c : Char) (rest : List Char) : Word :=
  if c = 'h' then .help
  else match OptionKey.ofLetter? c with
    | some key =>
      .option key (if rest.isEmpty then none else some (String.ofList (withoutEquals rest)))
    | none => .unknown

/-- The meaning of a word. -/
def ofText (word : String) : Word :=
  match word.toList with
  | ['-', '-'] => .stop
  | '-' :: '-' :: long =>
    match Text.splitFirst? '=' long with
    | some (name, value) => ofLong (String.ofList name) (some (String.ofList value))
    | none => ofLong (String.ofList long) none
  | '-' :: c :: rest => ofLetter c rest
  | _ => .unknown

/-- Whether a word can be the value of the option before it. A dash alone can. -/
def isValue (word : String) : Bool :=
  match word.toList with
  | '-' :: _ :: _ => false
  | _ => true

end Word

/-! ## The options of a build -/

/-- How a list of words ends. -/
inductive Ending where
  /-- All of it was understood. -/
  | complete
  /-- Help is asked for. -/
  | help
  /-- Something was not understood. -/
  | refused
  deriving DecidableEq, Repr

/-- An option and its value. -/
abbrev Given := OptionKey × String

/-- The options that words give, and how the words end. -/
def readGiven : List String → List Given × Ending
  | [] => ([], .complete)
  | word :: rest =>
    match Word.ofText word with
    | .stop => ([], if rest.isEmpty then .complete else .refused)
    | .help => ([], .help)
    | .unknown => ([], .refused)
    | .option key (some value) =>
      let (given, ending) := readGiven rest
      ((key, value) :: given, ending)
    | .option key none =>
      match rest with
      | value :: rest =>
        if Word.isValue value then
          let (given, ending) := readGiven rest
          ((key, value) :: given, ending)
        else ([], .refused)
      | [] => ([], .refused)

/-- Whether options are given as they may be. -/
def isAllowed (given : List Given) : Bool :=
  given.all (fun g => g.1.accepts g.2) &&
    decide ((given.map Prod.fst).filter fun k => !k.isRepeatable).Nodup

/-- An order to build a layer as the command line gives it. -/
structure BuildOptions where
  /-- The directory with the tree. -/
  rootfs : Path
  /-- The configuration file. -/
  config : Option Path := none
  /-- Where the output goes. -/
  output : OutputPaths
  /-- Formats of documents to write. -/
  formats : List SbomFormat := []
  /-- Name of the image. -/
  name : Option String := none
  /-- Tags of the image. -/
  tags : List String := []
  /-- Architecture of the image. -/
  architecture : Option Architecture := none
  /-- Digest of the image. -/
  imageDigest : Option String := none
  /-- Seconds since the epoch for every date in the output. -/
  sourceDate : Option Int := none
  /-- The index of the image. -/
  index : Option Path := none
  deriving DecidableEq, Repr

namespace BuildOptions

/-- Where the output goes unless the command line says it. -/
def standardOutput : Path := .ofString "."

/-- The values of an option. -/
def values (given : List Given) (key : OptionKey) : List String :=
  (given.filter (·.1 = key)).map Prod.snd

/-- The path that is the value of an option. -/
def path? (given : List Given) (key : OptionKey) : Option Path :=
  (given.lookup key).map Path.ofString

/-- The order that allowed options give. A directory with the tree must be among them. -/
def ofGiven? (given : List Given) : Option BuildOptions := do
  let rootfs ← path? given .rootfs
  return {
    rootfs := rootfs, config := path? given .config
    output := ⟨(path? given .outputDirectory).getD standardOutput, path? given .tarball⟩
    formats := (values given .format).filterMap SbomFormat.parse?
    name := given.lookup .name, tags := values given .tag
    architecture := (given.lookup .architecture).bind fun v => (Architecture.parse v).toOption
    imageDigest := given.lookup .imageDigest
    sourceDate := (given.lookup .sourceDate).bind fun v =>
      (Numeral.integer 10 Numeral.maxLong v.toList).toOption
    index := path? given .index }

end BuildOptions

/-! ## Commands -/

/-- What a command line asks for. -/
inductive Command where
  /-- To build a layer. -/
  | build (options : BuildOptions)
  /-- The version of the program. -/
  | version
  /-- Help. -/
  | help
  deriving DecidableEq, Repr

namespace Command

/-- The command of the words behind `build`. -/
def ofBuildWords? (words : List String) : Option Command :=
  let (given, ending) := readGiven words
  if !isAllowed given then none
  else match ending with
    | .complete => (BuildOptions.ofGiven? given).map .build
    | .help => some .help
    | .refused => none

/-- The command that a command line asks for. -/
def parse? : List String → Option Command
  | [] => none
  | "build" :: words => ofBuildWords? words
  | "help" :: words => if [[], ["build"], ["help"]].contains words then some .help else none
  | "--version" :: _ => some .version
  | "--help" :: _ => some .help
  | word :: _ =>
    match word.toList with
    | '-' :: 'V' :: _ => some .version
    | '-' :: 'h' :: _ => some .help
    | _ => none

end Command

end ImageLayer
