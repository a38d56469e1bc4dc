import ImageLayer.Tree.Operation
import ImageLayer.Package.Basic
import ImageLayer.Text.Blank
/-!
Links for the applets of a multi-call binary.

The binary does a different job under each name it is called by, so every applet is a link to it. Its package
lists the applets in a file of the tree; where that is missing a fixed list is used. Paths that exist already
stay as they are, and the directories on the way to an applet are made.

There is nothing to link where the binary is missing from the tree or its package is not installed. A list that
has the binary itself among its applets does not make it a link to itself (`Applet.readListing`).

Links are counted as they are made. The count leaves out applets that existed and directories.
-/

namespace ImageLayer

namespace Applet

/-- The multi-call binary. -/
def binary : Path := .ofString "/bin/busybox"

/-- The package that the binary comes from. -/
def packageName : String := "busybox"

/-- Where the package lists its applets. -/
def listing : Path := (Path.ofString "etc/busybox-paths.d").join (.ofString packageName)

/-- The names of the applets in each directory where no list says otherwise. -/
def defaultNames : List (String × List String) :=
  [("/bin/",
    ["ash", "cat", "chgrp", "chmod", "chown", "cp", "date", "dd", "df", "echo", "egrep", "false",
     "grep", "gunzip", "gzip", "hostname", "kill", "ln", "ls", "mkdir", "mktemp", "mount", "mv",
     "ps", "pwd", "rm", "rmdir", "sed", "sh", "sleep", "tar", "touch", "true", "umount", "uname"]),
   ("/sbin/", ["ifconfig", "ip"]),
   ("/usr/bin/",
    ["[", "awk", "basename", "cut", "dirname", "du", "env", "find", "head", "id", "less", "nc",
     "sort", "tail", "tee", "test", "tr", "uniq", "vi", "wc", "wget", "which", "xargs"])]

/-- The applets where no list says otherwise. -/
def defaults : List Path :=
  defaultNames.flatMap fun (directory, names) => names.map fun n => .ofString (directory ++ n)

/-- The applets of a list: one to a line, blanks at both ends dropped, lines that start with a hash
sign being comments. The binary itself is no applet. -/
def readListing (contents : String) : List Path :=
  (Text.lines contents.toList).map Text.trim
    |>.filter (fun line => !line.isEmpty && line.head? ≠ some '#')
    |>.map (fun line => Path.ofString (String.ofList line))
    |>.filter (fun p => !p.same binary)

end Applet

namespace Edit

/-- The applets to be linked. -/
def listApplets : Edit (List Path) := do
  if (← get).exists? Applet.listing then
    let contents ← inContext (.read Applet.listing) (consult (·.contentsAt Applet.listing))
    return Applet.readListing (Utf8.lossy contents)
  else return Applet.defaults

/-- Links an applet unless its path exists; says how many links were made. -/
def linkApplet (applet : Path) : Edit Nat := do
  if (← get).exists? applet then return 0
  ensureDirectories 0o755 [] applet.parts.dropLast
  inContext (.appletLink applet) (change (·.symlink Applet.binary applet))
  return 1

/-- Links the applets if the binary is in the tree and its package installed; says how many links
were made. -/
def linkApplets (installed : List InstalledPackage) : Edit Nat := do
  if (← get).exists? Applet.binary && installed.any (·.package.name = Applet.packageName) then
    let applets ← listApplets
    applets.foldlM (fun made applet => return made + (← linkApplet applet)) 0
  else return 0

end Edit

end ImageLayer
