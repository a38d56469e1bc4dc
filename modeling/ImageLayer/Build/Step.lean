/-!
The steps that turn an unpacked tree into a finished one, and their fixed order.

A step needs what the ones before it left. Recorded owners come first, so that declared ones count. Tags and
applets are read off the database of packages. The file that identifies the operating system comes behind the
declared changes, which may have made one.
-/

namespace ImageLayer

/-- A step of the assembly. -/
inductive Step where
  /-- Apply recorded ownership and modes. -/
  | installPackages
  /-- Derive tags from a package version. -/
  | additionalTags
  /-- Merge users and groups into the account files. -/
  | mutateAccounts
  /-- Apply the configured path changes. -/
  | mutatePaths
  /-- Write the file that identifies the operating system. -/
  | generateOsRelease
  /-- Write one script per supervised service. -/
  | writeSupervisionTree
  /-- Link applets to the multi-call binary. -/
  | installBusyboxLinks
  /-- Link shared objects under their sonames. -/
  | installLdconfigLinks
  /-- Create the standard character devices. -/
  | installCharDevices
  deriving DecidableEq, Repr

namespace Step

/-- All steps in the only order in which they run: each reads what the ones before it left in
the tree. -/
def order : List Step :=
  [.installPackages, .additionalTags, .mutateAccounts, .mutatePaths, .generateOsRelease,
   .writeSupervisionTree, .installBusyboxLinks, .installLdconfigLinks, .installCharDevices]

/-- The name that reports and failures use. -/
def name : Step → String
  | .installPackages => "install-packages"
  | .additionalTags => "additional-tags"
  | .mutateAccounts => "mutate-accounts"
  | .mutatePaths => "mutate-paths"
  | .generateOsRelease => "generate-os-release"
  | .writeSupervisionTree => "write-supervision-tree"
  | .installBusyboxLinks => "install-busybox-links"
  | .installLdconfigLinks => "install-ldconfig-links"
  | .installCharDevices => "install-char-devices"

end Step

end ImageLayer
