import ImageLayer.Tree.Operation
import ImageLayer.Image.Configuration
import ImageLayer.Text.Blank
/-!
Merging declared users and groups into the account files of a tree.

An account file is a text of records, one to a line, whose name is what stands before the first colon. A record
that is there stays; a declared one is added at the end if no record before it has its name. Every declared user
has a home directory of its own.

A file is read as text, with replacement characters for faults in its UTF-8, and written anew from its records.
Blank lines and carriage returns at the ends of lines are lost, and a line feed at the end is added, also where
no record is new. A file that is missing is made. It is written where its path leads, with the permissions that
it has.

Nothing is done if no account is declared. If any is, both files are merged, and a failure in between leaves
what was done before it.
-/

namespace ImageLayer.AccountFile

/-- The file of groups. -/
def groups : String := "etc/group"

/-- The file of users. -/
def users : String := "etc/passwd"

/-- The record of a group. -/
def groupRecord (g : Group) : String :=
  g.name ++ ":x:" ++ toString g.gid ++ ":" ++ ",".intercalate g.members

/-- The record of a user. -/
def userRecord (u : User) : String :=
  u.name ++ ":x:" ++ toString u.uid ++ ":" ++ toString u.effectiveGid ++
    ":Account created by layercraft:" ++ u.effectiveHome ++ ":" ++ u.effectiveShell

/-- The name of a record. -/
def recordName (record : String) : String := String.ofList (record.toList.takeWhile (· ≠ ':'))

/-- The records of a text: its lines but for the empty ones. -/
def records (contents : String) : List String :=
  ((Text.lines contents.toList).filter fun line => !line.isEmpty).map String.ofList

/-- Adds records at the end, each unless one of its name is there by then. -/
def merge (present added : List String) : List String :=
  added.foldl
    (fun all record =>
      if all.any fun r => recordName r = recordName record then all else all ++ [record])
    present

/-- The text of records. -/
def render (all : List String) : String := "\n".intercalate all ++ "\n"

end ImageLayer.AccountFile

namespace ImageLayer.Edit

/-- The text of a file, or nothing if there is none; faults in its UTF-8 become replacement
characters. -/
def readTextIfPresent (p : Path) : Edit String := do
  if (← get).exists? p then
    let contents ← inContext (.read p) (consult (·.contentsAt p))
    return Utf8.lossy contents
  else return ""

/-- Merges records into an account file. -/
def mergeRecords (file : String) (added : List String) : Edit Unit := do
  let p := Path.ofString file
  let contents ← readTextIfPresent p
  let merged := AccountFile.render (AccountFile.merge (AccountFile.records contents) added)
  inContext (.write p) (change (·.writeFile p (Bytes.ofString merged) 0o644))

/-- Makes the home directory of a user and gives it to the user. -/
def makeHome (u : User) : Edit Unit := do
  let home := Path.ofString u.effectiveHome
  inContext (.homeDirectory home) (makeDirectories home 0o755)
  change (·.chown home ⟨u.uid, u.effectiveGid⟩)

/-- Merges the declared accounts into the account files and makes the home directories; does
nothing if no account is declared. -/
def mergeAccounts (accounts : Accounts) : Edit Unit :=
  if accounts.users.isEmpty && accounts.groups.isEmpty then pure ()
  else do
    makeDirectories (.ofString "etc") 0o755
    mergeRecords AccountFile.groups (accounts.groups.map AccountFile.groupRecord)
    mergeRecords AccountFile.users (accounts.users.map AccountFile.userRecord)
    accounts.users.forM makeHome

end ImageLayer.Edit
