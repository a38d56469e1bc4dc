import ImageLayer.Tree.Basic
/-!
What an image declares about the contents of its tree: accounts, paths to change, the operating
system, supervised services and tags that follow a package's version.
-/

namespace ImageLayer

/-- A user account. -/
structure User where
  /-- Name of the account. -/
  name : String
  /-- Number of the user. -/
  uid : UInt32
  /-- Number of the group, unless it is the user's own. -/
  gid : Option UInt32 := none
  /-- Login shell. -/
  shell : Option String := none
  /-- Home directory. -/
  home : Option String := none
  deriving DecidableEq, Repr

namespace User

/-- The group of the account: one with the user's number unless another is given. -/
def effectiveGid (u : User) : UInt32 := u.gid.getD u.uid

/-- The home directory: one named after the user unless another is given. -/
def effectiveHome (u : User) : String := u.home.getD ("/home/" ++ u.name)

/-- The login shell: the standard one unless another is given. -/
def effectiveShell (u : User) : String := u.shell.getD "/bin/sh"

end User

/-- A group of accounts. -/
structure Group where
  /-- Name of the group. -/
  name : String
  /-- Number of the group. -/
  gid : UInt32
  /-- Names of its members. -/
  members : List String := []
  deriving DecidableEq, Repr

/-- The accounts of an image. -/
structure Accounts where
  /-- Name of the account that the image runs as. -/
  runAs : Option String := none
  /-- The users. -/
  users : List User := []
  /-- The groups. -/
  groups : List Group := []
  deriving DecidableEq, Repr

/-- What is done to a path. -/
inductive ChangeKind where
  /-- Make a directory and all that lead to it. -/
  | directory
  /-- Write a file without contents. -/
  | emptyFile
  /-- Make a further name of a file. -/
  | hardlink
  /-- Make a symbolic link. -/
  | symlink
  /-- Set permissions and owner only. -/
  | permissions
  deriving DecidableEq, Repr

namespace ChangeKind

/-- All kinds. -/
def all : List ChangeKind := [.directory, .emptyFile, .hardlink, .symlink, .permissions]

/-- How a kind is called in messages. -/
def label : ChangeKind → String
  | .directory => "Directory"
  | .emptyFile => "EmptyFile"
  | .hardlink => "Hardlink"
  | .symlink => "Symlink"
  | .permissions => "Permissions"

/-- How a kind is written in configuration files. -/
def key : ChangeKind → String
  | .directory => "directory"
  | .emptyFile => "empty-file"
  | .hardlink => "hardlink"
  | .symlink => "symlink"
  | .permissions => "permissions"

/-- The kind that a word in a configuration file stands for. -/
def ofKey? (word : String) : Option ChangeKind := all.find? (·.key = word)

/-- Whether the kind makes a link and so needs to know to what. -/
def isLink : ChangeKind → Bool
  | .hardlink | .symlink => true
  | _ => false

end ChangeKind

/-- The permissions that a changed path gets unless others are given. -/
def defaultPermissions : Nat := 0o755

/-- A change to one path of the tree. -/
structure PathChange where
  /-- The path. -/
  path : String
  /-- What is done to it. -/
  kind : ChangeKind
  /-- Owner of the path afterwards. -/
  owner : Ownership := ⟨0, 0⟩
  /-- Permissions of the path afterwards. -/
  permissions : Nat := defaultPermissions
  /-- What a link points to. -/
  source : Option String := none
  /-- Whether everything below a directory is changed too. -/
  recursive : Bool := false
  deriving DecidableEq, Repr

/-- The target of a change that makes a link; an empty one is none. -/
def PathChange.target? (c : PathChange) : Option String := c.source.filter fun s => !s.isEmpty

/-- What the file that identifies the operating system says. -/
structure OsRelease where
  /-- Short name. -/
  id : Option String := none
  /-- Full name. -/
  name : Option String := none
  /-- Name to show to people. -/
  prettyName : Option String := none
  /-- Version. -/
  versionId : Option String := none
  /-- Home page. -/
  homeUrl : Option String := none
  /-- Where to report faults. -/
  bugReportUrl : Option String := none
  deriving DecidableEq, Repr

/-- How tags follow the version of a package. -/
structure VersionTagging where
  /-- Name of the package. -/
  package : Option String := none
  /-- Whether the shorter forms of the version are tags as well. -/
  stems : Bool := false
  /-- What is put in front of each version. -/
  lead : Option String := none
  deriving DecidableEq, Repr

/-- Everything that an image declares about its tree. -/
structure Configuration where
  /-- Users and groups. -/
  accounts : Accounts := {}
  /-- Changes to paths, in order. -/
  paths : List PathChange := []
  /-- The operating system. -/
  osRelease : OsRelease := {}
  /-- Commands of the supervised services by name. -/
  services : SortedMap String String := .empty
  /-- Tags that follow a package's version. -/
  versionTagging : VersionTagging := {}
  deriving DecidableEq

end ImageLayer
