import RouteMigration.Path.Basic

set_option autoImplicit false

namespace RouteMigration

inductive FileErrorKind where
  | ioError
  | fileTooLarge
  | invalidEncoding
  | writeError
  | walkError
  | outsideRoot
  deriving DecidableEq

namespace FileErrorKind

def all : List FileErrorKind :=
  [.ioError, .fileTooLarge, .invalidEncoding, .writeError, .walkError, .outsideRoot]

def describe : FileErrorKind → Text
  | .ioError => "io error".toList
  | .fileTooLarge => "file too large".toList
  | .invalidEncoding => "invalid encoding".toList
  | .writeError => "write error".toList
  | .walkError => "walk error".toList
  | .outsideRoot => "outside root".toList

def keyword : FileErrorKind → Text
  | .ioError => "io_error".toList
  | .fileTooLarge => "file_too_large".toList
  | .invalidEncoding => "invalid_encoding".toList
  | .writeError => "write_error".toList
  | .walkError => "walk_error".toList
  | .outsideRoot => "outside_root".toList

def ofKeyword? (word : Text) : Option FileErrorKind :=
  all.find? fun kind => kind.keyword == word

theorem ofKeyword?_keyword (kind : FileErrorKind) : ofKeyword? kind.keyword = some kind := by
  cases kind <;> decide

end FileErrorKind

structure FileError where
  file : Path
  kind : FileErrorKind
  message : Text
  deriving DecidableEq

def FileError.describe (error : FileError) : Text :=
  error.file.shown ++ ": [".toList ++ error.kind.describe ++ "] ".toList ++ error.message

end RouteMigration
