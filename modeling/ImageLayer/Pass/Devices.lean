import ImageLayer.Tree.Operation
/-!
The character devices that every image has.
-/

namespace ImageLayer

namespace Device

/-- The directory of devices. -/
def directory : Path := .ofString "dev"

/-- The devices with their numbers, in the order in which they are made. -/
def all : List (Path × UInt32 × UInt32) :=
  [(.ofString "dev/zero", 1, 5), (.ofString "dev/urandom", 1, 9), (.ofString "dev/null", 1, 3),
   (.ofString "dev/random", 1, 8), (.ofString "dev/console", 5, 1)]

end Device

namespace Edit

/-- Makes a device unless its path exists. -/
def makeDeviceIfMissing (p : Path) (major minor : UInt32) : Edit Unit := do
  if (← get).exists? p then return ()
  inContext (.device p) (change (·.makeDevice p 0o666 major minor))

/-- Makes the devices that are not there. -/
def makeDevices : Edit Unit := do
  makeDirectories Device.directory 0o755
  Device.all.forM fun (p, major, minor) => makeDeviceIfMissing p major minor

end Edit

end ImageLayer
