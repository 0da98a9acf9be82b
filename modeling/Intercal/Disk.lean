import Intercal.Text

namespace Intercal

namespace Path

def isRelative (path : String) : Bool := path.toList.head? != some '/'

def piecesFrom (piece : List Char) : List Char → List String
  | [] => [String.ofList piece.reverse]
  | c :: cs => if c = '/' then String.ofList piece.reverse :: piecesFrom [] cs else piecesFrom (c :: piece) cs

def pieces (path : String) : List String := piecesFrom [] path.toList

def join (directory path : String) : String :=
  match directory.toList.getLast? with
  | none => path
  | some '/' => directory ++ path
  | some _ => directory ++ "/" ++ path

def fileName? (path : String) : Option String :=
  match ((pieces path).filter fun piece => piece != "" && piece != ".").getLast? with
  | some ".." => none
  | name => name

/-- What follows the last dot of the last name, unless nothing stands before that dot. -/
def extension? (path : String) : Option String := do
  let name ← fileName? path
  let tail := name.toList.reverse.takeWhile (· != '.')
  if tail.length + 1 < name.length then some (String.ofList tail.reverse) else none

end Path

inductive Disk.Error where
  | notFound
  | notDirectory
  | isDirectory
  | nameTooLong
  | nulInName
  | notText
  | other (message : String)

def Disk.Error.message : Disk.Error → String
  | .notFound => "No such file or directory (os error 2)"
  | .notDirectory => "Not a directory (os error 20)"
  | .isDirectory => "Is a directory (os error 21)"
  | .nameTooLong => "File name too long (os error 36)"
  | .nulInName => "file name contained an unexpected NUL byte"
  | .notText => "stream did not contain valid UTF-8"
  | .other message => message

/-- `canonical` gives two paths of the same file the same name. -/
structure Disk (m : Type → Type) where
  isFile : String → m Bool
  canonical : String → m (Except Disk.Error String)
  read : String → m (Except Disk.Error (List UInt8))

namespace Disk

variable {m : Type → Type} [Monad m]

def readText (disk : Disk m) (path : String) : m (Except Disk.Error (List Char)) := do
  match ← disk.read path with
  | .error e => return .error e
  | .ok bytes =>
    match Text.Utf8.decode? bytes with
    | some text => return .ok text
    | none => return .error .notText

end Disk

end Intercal
