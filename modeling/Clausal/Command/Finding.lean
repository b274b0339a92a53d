/-
  Clausal.Command.Finding

  What a command finds under a path, and what it makes of it. A text is read, an archive is
  opened, and opening makes one where there is none: so the same finding can be a fault for the
  one and none for the other.
-/
import Clausal.Archive.Basic
import Clausal.Text.Piece

namespace Clausal

/-- What a file holds. -/
inductive Content where
  | text (t : Text)
  | database (d : Database)

/-- What keeps a path from being opened. -/
inductive Obstacle where
  | missing
  | isFolder
  | notFolder
  | longName
  deriving DecidableEq, Repr

def Obstacle.text : Obstacle → String
  | .missing => "no such file or directory"
  | .isFolder => "is a directory"
  | .notFolder => "not a directory"
  | .longName => "file name too long"

/-- What stands under a path. The way to the last name is clear in all cases but `blocked`. -/
inductive Finding where
  | file (c : Content)
  | folder
  /-- Nothing stands there, and something may be put there. -/
  | free
  /-- The last name is longer than a name can be. -/
  | longName
  | blocked (o : Obstacle)

/-- Why a path cannot be opened. -/
inductive OpenFault where
  | obstacle (path : String) (o : Obstacle)
  | notDatabase
  deriving DecidableEq, Repr

def OpenFault.message : OpenFault → String
  | .obstacle path o => "open " ++ path ++ ": " ++ o.text
  | .notDatabase => "invalid database"

namespace Finding

/-- Whether a path is written as that of a folder. -/
def namesFolder (path : String) : Bool := path.endsWith "/"

/-- The text to read. A folder can be opened and holds no text; a database is no text either,
    and what is read of it begins with a zero byte. -/
def text (path : String) : Finding → Except OpenFault Text
  | .file c =>
    if namesFolder path then .error (.obstacle path .notFolder)
    else match c with
      | .text t => .ok t
      | .database _ => .ok (Text.ofString "\x00")
  | .folder => .ok []
  | .free => .error (.obstacle path .missing)
  | .longName => .error (.obstacle path .longName)
  | .blocked o => .error (.obstacle path o)

/-- The database to open. Where nothing stands yet, or an empty file, it is a new one; a path
    that is written as that of a folder is never one of a database, whatever stands there. -/
def database (path : String) (f : Finding) : Except OpenFault Database :=
  match f with
  | .blocked o => .error (.obstacle path o)
  | _ =>
    if namesFolder path then .error (.obstacle path .isFolder)
    else match f with
      | .file (.database d) => .ok d
      | .file (.text []) => .ok .empty
      | .file (.text _) => .error .notDatabase
      | .folder => .error (.obstacle path .isFolder)
      | .free => .ok .empty
      | .longName => .error (.obstacle path .longName)
      | .blocked o => .error (.obstacle path o)

end Finding

end Clausal
