import RouteMigration.Shape.Replacement

set_option autoImplicit false

namespace RouteMigration

namespace Route

def helperImportSource : Text :=
  "from \"@/lib/bffHelpers\"".toList

def helperImportLine : Text :=
  "import \x7b buildBFFHeaders \x7d from \"@/lib/bffHelpers\";".toList

def frameworkImportPrefix : Text :=
  "import \x7b NextRequest, NextResponse \x7d".toList

def frameworkImportLine : Text :=
  "import \x7b NextRequest, NextResponse \x7d from \"next/server\";".toList

def importWord : Text :=
  "import".toList

def carriageReturnLineFeed : Text :=
  ['\r', '\n']

def lineBreak (content : Text) : Text :=
  if Text.holds carriageReturnLineFeed content then carriageReturnLineFeed else ['\n']

-- Lines keep their carriage return, so a line put between them needs one too.
def importLineFor (content : Text) : Text :=
  if Text.holds carriageReturnLineFeed content then helperImportLine ++ ['\r']
  else helperImportLine

def isImportLine (line : Text) : Bool :=
  importWord.isPrefixOf line

def afterFirstImport (inserted : Text) (lines : List Text) : List Text :=
  match lines.span fun line => !isImportLine line with
  | (before, first :: later) => before ++ first :: inserted :: later
  | (before, []) => before

def afterFrameworkImport (content : Text) : Text :=
  Shape.replaceAll [.literal frameworkImportLine]
    (frameworkImportLine ++ lineBreak content ++ helperImportLine) content

-- A framework import that is spelled differently is left alone, and so is the rest of the file.
def injectImport (content : Text) : Text :=
  if Text.holds helperImportSource content then content
  else if Text.holds frameworkImportPrefix content then afterFrameworkImport content
  else join '\n' (afterFirstImport (importLineFor content) (split '\n' content))

end Route

end RouteMigration
