import ImageLayer.Tree.Operation
import ImageLayer.Text.Blank
/-!
One directory with a script for each service that a supervisor is to run.

Services are written in the order of their names. A name has to be that of a single directory, and one that is
not stops the pass (`Failure.serviceName`). The script of a service starts the declared command.

A script is written with permissions that let it be executed. A file that is there already is written over and
keeps the permissions it has.
-/

namespace ImageLayer

namespace Service

/-- The directory of all services. -/
def directory : Path := .ofString "sv"

/-- Whether a name can be that of a directory. -/
def isValidName (name : String) : Bool :=
  name ≠ "" && name ≠ "." && name ≠ ".." && !name.toList.contains '/'

/-- The script that runs a command. -/
def script (command : String) : String := "#!/bin/execlineb -P\n" ++ command ++ "\n"

/-- The directory of a service. -/
def directoryOf (name : String) : Path := directory.join (.ofString name)

/-- The script of a service. -/
def scriptOf (name : String) : Path := (directoryOf name).join (.ofString "run")

end Service

namespace Edit

/-- Writes the directory and the script of one service. -/
def writeService (name command : String) : Edit Unit := do
  ask fun _ => if Service.isValidName name then .ok () else .error (.serviceName name)
  makeDirectories (Service.directoryOf name) 0o755
  inContext (.runScript name)
    (change (·.writeFile (Service.scriptOf name) (Bytes.ofString (Service.script command)) 0o755))

/-- Writes the services in the order of their names. -/
def writeServices (services : SortedMap String String) : Edit Unit :=
  services.toList.forM fun (name, command) => writeService name command

end Edit

end ImageLayer
