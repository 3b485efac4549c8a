import SoftScript.Device

/-! A directory held in memory. -/
namespace SoftScript

structure Directory where
  files : List (String × ByteArray)
  folders : List String

namespace Directory

def pathOf (parts : List String) : String := "/".intercalate parts.reverse

/-- Folders are those listed and those in which something lies; the directory itself is one. -/
def isFolder (d : Directory) (parts : List String) : Bool :=
  parts.isEmpty || (d.folders ++ d.files.map Prod.fst).any fun name =>
    name = pathOf parts && d.folders.contains name || (pathOf parts ++ "/").isPrefixOf name

/-- The number of bytes that a name may have at most. -/
def maxName : Nat := 255

/-- The number of bytes that a whole path may have at most. -/
def maxPath : Nat := 4095

/-- Outside of the directory nothing is known but that its parents are folders. -/
def outside : List String → DeviceError
  | [] => .isADirectory
  | step :: rest =>
    if step.isEmpty || step = "." || step = ".." then outside rest
    else if maxName < step.utf8ByteSize then .invalidFilename
    else .notFound

/-- Follows the steps of a path from a folder, whose own steps are given last first. -/
def follow (d : Directory) : List String → List String → Except DeviceError ByteArray
  | parts, [] =>
    if d.isFolder parts then .error .isADirectory
    else match d.files.lookup (pathOf parts) with
      | some bytes => .ok bytes
      | none => .error .notFound
  | parts, step :: rest =>
    if !d.isFolder parts then
      if (d.files.lookup (pathOf parts)).isSome then .error .notADirectory else .error .notFound
    else if step.isEmpty || step = "." then d.follow parts rest
    else if step = ".." then
      match parts with
      | [] => .error (outside rest)
      | _ :: outer => d.follow outer rest
    else if maxName < step.utf8ByteSize then .error .invalidFilename
    else d.follow (step :: parts) rest

/-- The contents of the file at a path relative to the directory. -/
def read (d : Directory) (path : String) : Except DeviceError ByteArray :=
  if path.contains '\x00' then .error .invalidInput
  else if path.isEmpty then .error .notFound
  else if maxPath < path.utf8ByteSize then .error .invalidFilename
  else
    let steps := path.splitOn "/"
    if path.front = '/' then .error (outside steps) else d.follow [] steps

end Directory

/-- Contents as text, which must be UTF-8. -/
def decodeContents (bytes : Except DeviceError ByteArray) : Except DeviceError String :=
  match bytes with
  | .error error => .error error
  | .ok bytes =>
    match String.fromUTF8? bytes with
    | some text => .ok text
    | none => .error .invalidData

end SoftScript
