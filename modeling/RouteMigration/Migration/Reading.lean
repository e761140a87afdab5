import RouteMigration.Disk.Access
import RouteMigration.Migration.FileError

set_option autoImplicit false

namespace RouteMigration

def saturatingSuccessor (word : UInt64) : UInt64 :=
  if word = UInt64.ofNat (UInt64.size - 1) then word else word + 1

def readUpTo (count : UInt64) (data : ByteArray) : ByteArray :=
  data.extract 0 count.toNat

def unopenedFailure (path : Path) (cause : AccessError) : FileError where
  file := path
  kind := .ioError
  message := "Failed to open file: ".toList ++ cause.describe

def unreadableFailure (path : Path) (cause : AccessError) : FileError where
  file := path
  kind := .ioError
  message := "Failed to read file: ".toList ++ cause.describe

def tooLargeFailure (path : Path) (limit : UInt64) : FileError where
  file := path
  kind := .fileTooLarge
  message := "File exceeds maximum size of ".toList ++ Text.ofNat limit.toNat ++ " bytes".toList

def invalidEncodingFailure (path : Path) : FileError where
  file := path
  kind := .invalidEncoding
  message := "File is not valid UTF-8".toList

-- One octet more than the limit shows that a file is too large.
def boundedText (path : Path) (limit : UInt64) (data : ByteArray) : Except FileError Text :=
  let read := readUpTo (saturatingSuccessor limit) data
  if limit.toNat < read.size then .error (tooLargeFailure path limit)
  else
    match Utf8.decode? read with
    | none => .error (invalidEncodingFailure path)
    | some text => .ok text

def Disk.readBounded (disk : Disk) (path : Path) (limit : UInt64) : Except FileError Text :=
  match disk.openForReading path with
  | .error cause => .error (unopenedFailure path cause)
  | .ok .directory => .error (unreadableFailure path .isDirectory)
  | .ok (.file data) => boundedText path limit data

end RouteMigration
