import ImageLayer.Tree.Basic
/-!
Packages, and what the package manager recorded about the ones that are installed.
-/

namespace ImageLayer

/-- A package at a version. -/
structure Package where
  /-- Name of the package. -/
  name : String := ""
  /-- Its version. -/
  version : String := ""
  /-- The licence expression. -/
  license : String := ""
  /-- Who maintains it. -/
  maintainer : String := ""
  /-- One line about it. -/
  description : String := ""
  /-- Home page. -/
  url : String := ""
  /-- Checksum of its contents. -/
  checksum : Bytes := []
  /-- Architecture it was built for. -/
  architecture : String := ""
  /-- The source package it was built from. -/
  origin : String := ""
  deriving DecidableEq, Repr

/-- Owner and permissions recorded for a path. -/
structure PathAttributes where
  /-- Owner of the path. -/
  owner : Ownership
  /-- Its permissions. -/
  mode : Nat
  deriving DecidableEq, Repr

/-- A path that a package brought into the tree. -/
structure InstalledPath where
  /-- The path. -/
  path : Path
  /-- Whether it was recorded as a directory. -/
  isDirectory : Bool
  /-- Owner and permissions, if they were recorded. -/
  attributes : Option PathAttributes := none
  deriving DecidableEq, Repr

/-- An installed package. -/
structure InstalledPackage where
  /-- The package. -/
  package : Package := {}
  /-- The paths recorded for it, in order. -/
  paths : List InstalledPath := []
  deriving DecidableEq, Repr

end ImageLayer
