import RouteMigration.Migration.Config

set_option autoImplicit false

namespace RouteMigration

namespace CommandLine

abbrev Argument := Octets

inductive ReportFormat where
  | human
  | json
  deriving DecidableEq

inductive Valued where
  | root
  | fileName
  | exclude
  | maxFileSize
  | format
  deriving DecidableEq

inductive Flag where
  | dryRun
  | followLinks
  | verbose
  | help
  | version
  deriving DecidableEq

structure Options where
  root : Option Path := none
  fileName : Option Text := none
  dryRun : Bool := false
  exclude : List Text := []
  maxFileSize : Option UInt64 := none
  followLinks : Bool := false
  format : Option ReportFormat := none
  verbosity : Nat := 0

inductive Request where
  | run (options : Options)
  | help
  | version
  | refused

def valued? (word : Text) : Option Valued :=
  if word = "root".toList then some .root
  else if word = "file-name".toList then some .fileName
  else if word = "exclude".toList then some .exclude
  else if word = "max-file-size".toList then some .maxFileSize
  else if word = "format".toList then some .format
  else none

def flag? (word : Text) : Option Flag :=
  if word = "dry-run".toList then some .dryRun
  else if word = "follow-links".toList then some .followLinks
  else if word = "verbose".toList then some .verbose
  else if word = "help".toList then some .help
  else if word = "version".toList then some .version
  else none

def shortFlag? (letter : UInt8) : Option Flag :=
  if letter = 0x76 then some .verbose
  else if letter = 0x68 then some .help
  else if letter = 0x56 then some .version
  else none

def digitsValue? : Nat → Text → Option UInt64
  | value, [] => if value < UInt64.size then some (UInt64.ofNat value) else none
  | value, c :: rest =>
    if c.isDigit then digitsValue? (value * 10 + (c.toNat - 0x30)) rest else none

-- A plus sign and leading zeros are accepted, a minus sign is not.
def size? (text : Text) : Option UInt64 :=
  match text with
  | [] => none
  | '+' :: rest => if rest = [] then none else digitsValue? 0 rest
  | _ => digitsValue? 0 text

def reportFormat? (text : Text) : Option ReportFormat :=
  if text = "human".toList then some .human
  else if text = "json".toList then some .json
  else none

namespace Options

def give (options : Options) (option : Valued) (value : Argument) : Option Options :=
  match option with
  | .root =>
    if value = [] ∨ options.root.isSome then none
    else some { options with root := some { octets := value } }
  | .fileName =>
    if options.fileName.isSome then none
    else (Utf8.decodeOctets? value).map fun text => { options with fileName := some text }
  | .exclude =>
    (Utf8.decodeOctets? value).map fun text =>
      { options with exclude := options.exclude ++ [text] }
  | .maxFileSize =>
    if options.maxFileSize.isSome then none
    else
      ((Utf8.decodeOctets? value).bind size?).map fun size =>
        { options with maxFileSize := some size }
  | .format =>
    if options.format.isSome then none
    else
      ((Utf8.decodeOctets? value).bind reportFormat?).map fun format =>
        { options with format := some format }

def raise (options : Options) (flag : Flag) : Except Request Options :=
  match flag with
  | .dryRun => if options.dryRun then .error .refused else .ok { options with dryRun := true }
  | .followLinks =>
    if options.followLinks then .error .refused else .ok { options with followLinks := true }
  | .verbose => .ok { options with verbosity := options.verbosity + 1 }
  | .help => .error .help
  | .version => .error .version

def raiseShort (options : Options) : Octets → Except Request Options
  | [] => .ok options
  | letter :: later =>
    match shortFlag? letter with
    | none => .error .refused
    | some flag =>
      match options.raise flag with
      | .error request => .error request
      | .ok raised => raised.raiseShort later

def toConfig (options : Options) : Config :=
  let defaults : Config := {}
  { root := options.root.getD defaults.root
    targetFileName := options.fileName.getD defaults.targetFileName
    dryRun := options.dryRun
    exclude := options.exclude
    maxFileSize := options.maxFileSize.getD defaults.maxFileSize
    followLinks := options.followLinks }

end Options

def hyphen : UInt8 := 0x2D

def equalsSign : UInt8 := 0x3D

inductive ArgumentForm where
  -- Two hyphens alone: no option may follow.
  | endOfOptions
  | long (word : Option Text) (attached : Option Argument)
  | short (letters : Octets)
  | plain (value : Argument)

-- A single hyphen is a plain value.
def ArgumentForm.of (argument : Argument) : ArgumentForm :=
  match argument with
  | [first, second] =>
    if first = hyphen ∧ second = hyphen then .endOfOptions
    else if first = hyphen then .short [second]
    else .plain argument
  | first :: second :: rest =>
    if first = hyphen ∧ second = hyphen then
      let word := rest.takeWhile (· != equalsSign)
      .long (Utf8.decodeOctets? word)
        (if word.length < rest.length then some (rest.drop (word.length + 1)) else none)
    else if first = hyphen then .short (second :: rest)
    else .plain argument
  | _ => .plain argument

def read (options : Options) : Option Valued → List Argument → Request
  | none, [] => .run options
  | some _, [] => .refused
  | waiting, argument :: later =>
    match ArgumentForm.of argument, waiting with
    | .plain value, some option =>
      match options.give option value with
      | none => .refused
      | some given => read given none later
    | .plain _, none => .refused
    | .endOfOptions, none => if later = [] then .run options else .refused
    | _, some _ => .refused
    | .short letters, none =>
      match options.raiseShort letters with
      | .error request => request
      | .ok raised => read raised none later
    | .long none _, none => .refused
    | .long (some word) attached, none =>
      match valued? word, flag? word, attached with
      | some option, _, some value =>
        match options.give option value with
        | none => .refused
        | some given => read given none later
      | some option, _, none => read options (some option) later
      | none, some flag, none =>
        match options.raise flag with
        | .error request => request
        | .ok raised => read raised none later
      | none, _, _ => .refused

def Request.ofArguments (arguments : List Argument) : Request :=
  read {} none arguments

end CommandLine

end RouteMigration
