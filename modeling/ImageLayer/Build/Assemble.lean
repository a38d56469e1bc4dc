import ImageLayer.Build.Message
import ImageLayer.Package.Version
import ImageLayer.Pass.Accounts
import ImageLayer.Pass.Paths
import ImageLayer.Pass.OsRelease
import ImageLayer.Pass.Supervision
import ImageLayer.Pass.Applets
import ImageLayer.Pass.SharedObjects
import ImageLayer.Pass.Devices
import ImageLayer.Pass.Ownership
/-!
The assembly: all steps, once each and in their order, on one tree.

A step works on a workspace: the tree, the tags of the image and what was said so far. Most steps are a pass
over the tree. One adds tags, and two say how many links they made.

There are three ways for a step to end.

* It succeeds, and the next one works on what it left.
* It fails. The failure stops the assembly, is said, and names the step; the tree is as the failing step left
  it. One failure is an exception: a file that identifies the operating system and is there already is only
  warned of (`Failure.isRecoverable`), and the assembly goes on.
* It never comes to an end, and the assembly never gets past it.

A package whose version is to be tagged need not be installed. That is a warning which the step gives itself,
and no failure.
-/

namespace ImageLayer

/-- What an assembly works on. -/
structure Workspace where
  /-- The tree. -/
  tree : Tree
  /-- The tags of the image. -/
  tags : List String
  /-- What was said so far. -/
  messages : List Message
  deriving DecidableEq

/-- A computation on a workspace that may give no result; the changes made before are kept. -/
abbrev Assembly := EStateM NoResult Workspace

namespace Assembly

/-- Says something. -/
def say (m : Message) : Assembly Unit := modify fun w => { w with messages := w.messages ++ [m] }

/-- A computation on the tree alone. -/
def edit {α : Type} (x : Edit α) : Assembly α := fun w =>
  match x w.tree with
  | .ok a t => .ok a { w with tree := t }
  | .error r t => .error r { w with tree := t }

/-- Says how many links were made, if any were. -/
def reportLinks (what : String) (made : Nat) : Assembly Unit :=
  if 0 < made then say (.report s!"🔗 Linked {made} {what}(s)") else pure ()

/-- Adds the tags that follow the version of a package, if one is declared and installed. -/
def addVersionTags (tagging : VersionTagging) : Assembly Unit := do
  match tagging.package with
  | none => pure ()
  | some name =>
    let installed ← edit (Edit.consult (·.installedPackages))
    match installed.find? (·.package.name = name) with
    | none => say (.warning ("Package '" ++ name ++ "' is not installed; no version tags added"))
    | some p => do
      let version := p.package.version
      let added := Version.newTags (← get).tags version tagging
      if added.isEmpty then pure ()
      else say (.report (s!"🏷️  Added {added.length} tag(s) from " ++ name ++ " " ++ version))
      modify fun w => { w with tags := w.tags ++ added }

/-- What a step does. -/
def runStep (c : Configuration) : Step → Assembly Unit
  | .installPackages => edit Edit.applyAllRecorded
  | .additionalTags => addVersionTags c.versionTagging
  | .mutateAccounts => edit (Edit.mergeAccounts c.accounts)
  | .mutatePaths => edit (Edit.applyChanges c.paths)
  | .generateOsRelease => edit (Edit.writeOsRelease c.osRelease)
  | .writeSupervisionTree => edit (Edit.writeServices c.services)
  | .installBusyboxLinks => do
    let installed ← edit (Edit.consult (·.installedPackages))
    reportLinks "busybox applet" (← edit (Edit.linkApplets installed))
  | .installLdconfigLinks => do
    reportLinks "shared object soname" (← edit Edit.linkSonames)
  | .installCharDevices => edit Edit.makeDevices

/-- Runs a step. A failure that the assembly can live with becomes a warning; any other is said and
names the step. -/
def attempt (c : Configuration) (step : Step) : Assembly Unit := fun w =>
  match runStep c step w with
  | .ok () w' => .ok () w'
  | .error (.failure e) w' =>
    if e.isRecoverable then say (.warning e.message) w'
    else
      let text := "Step " ++ step.name ++ " failed"
      .error (.failure (.stepFailed step e)) { w' with messages := w'.messages ++ [.error text] }
  | .error .endless w' => .error .endless w'

/-- Runs steps in order, of which `done` went before. -/
def runSteps (c : Configuration) : (done : Nat) → List Step → Assembly Unit
  | _, [] => pure ()
  | done, step :: rest => do
    say (.progress (done + 1) Step.order.length step.name)
    attempt c step
    runSteps c (done + 1) rest

/-- Runs all steps for the image of the given name. -/
def run (name : String) (c : Configuration) : Assembly Unit := do
  say (.report ("🔧 Assembling filesystem for " ++ name))
  runSteps c 0 Step.order
  say (.completion s!"✅ Filesystem assembled in {Step.order.length} steps")

end Assembly

end ImageLayer
