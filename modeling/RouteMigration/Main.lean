import RouteMigration.CommandLine.Answer
import RouteMigration.Disk.Edit
/-!
The command on the files of the machine. It copies what a run can see onto a disk, answers there,
and writes back the files that the answer changed.
-/
set_option autoImplicit false

namespace RouteMigration

namespace CommandLine

def placeOf (path : String) : Location :=
  (split slash (Utf8.encodeOctets path.toList)).filter (· ≠ [])

def placeText (place : Location) : String :=
  String.ofList place.path.shown

structure Copy where
  disk : Disk
  complete : List Location := []
  followLinks : Bool

def copyFile (path : String) : IO Item := do
  let data ← (IO.FS.readBinFile path).toBaseIO
  let append ← (IO.FS.Handle.mk path .append).toBaseIO
  let mode : Mode := { readable := data.toOption.isSome, writable := append.toOption.isSome }
  return .file mode (data.toOption.getD ByteArray.empty)

-- A link to nothing keeps no target, and one that cannot be followed leads to itself.
def linkTarget (path : String) : IO (Option String) := do
  try
    return some (← IO.FS.realPath path).toString
  catch
    | .noFileOrDirectory .. => return none
    | _ => return some path

partial def copyTree (copy : Copy) (path : String) : IO Copy := do
  let file := (← IO.currentDir) / path
  let place := placeOf path
  match ← file.symlinkMetadata.toBaseIO with
  | .error _ => return copy
  | .ok metadata =>
    match metadata.type with
    | .symlink =>
      match ← linkTarget path with
      | none => return { copy with disk := copy.disk.put place (.link { octets := [] }) }
      | some target =>
        let linked :=
          { copy with disk := copy.disk.put place (.link (Path.ofText target.toList)) }
        if target = path then return linked
        else if copy.followLinks ∨ !(← file.isDir) then copyTree linked target
        else return { linked with disk := linked.disk.put (placeOf target) (.directory {}) }
    | .dir =>
      if place ∈ copy.complete then return copy
      match ← file.readDir.toBaseIO with
      | .error _ =>
        return { copy with disk := copy.disk.put place (.directory { readable := false }) }
      | .ok entries =>
        let mut next :=
          { copy with
            disk := copy.disk.put place (.directory {})
            complete := place :: copy.complete }
        for entry in entries do
          next ← copyTree next entry.path.toString
        return next
    | _ => return { copy with disk := copy.disk.put place (← copyFile path) }

def copyWay (copy : Copy) (parts : List Name) : IO Copy := do
  let mut next := copy
  let mut way : Location := []
  for part in parts do
    way := way ++ [part]
    let file := (← IO.currentDir) / placeText way
    if ← file.isDir then
      match ← linkTarget (placeText way) with
      | some target =>
        if placeOf target = way then
          next := { next with disk := next.disk.put way (.directory {}) }
        else next ← copyTree next (placeText way)
      | none => pure ()
  return next

def copyDisk (options : Options) : IO Disk := do
  let here := (← IO.FS.realPath ".").toString
  let workingDirectory := placeOf here
  let config := options.toConfig
  let empty : Copy :=
    { disk := { items := [([], .directory {})], workingDirectory }
      followLinks := config.followLinks }
  let arrived ← copyWay empty workingDirectory
  let root := placeText ((config.root.absolute workingDirectory).opening.2)
  match ← (IO.FS.realPath root).toBaseIO with
  | .error _ => return arrived.disk
  | .ok canonical =>
    let onTheWay ← copyWay (← copyWay arrived (placeOf root)) (placeOf canonical.toString)
    return (← copyTree onTheWay canonical.toString).disk

def writeChanges (before after : Disk) : IO Unit := do
  for entry in after.items do
    match entry.2, before.item? entry.1 with
    | .file _ data, some (.file _ old) =>
      if data ≠ old then IO.FS.writeBinFile (placeText entry.1) data
    | _, _ => pure ()

def perform (request : Request) : IO UInt32 := do
  let disk ←
    match request with
    | .run options => copyDisk options
    | _ => pure { items := [], workingDirectory := [] }
  let answer := request.answer disk
  writeChanges disk answer.disk
  IO.print (String.ofList answer.output)
  IO.eprint (String.ofList answer.diagnostics)
  return UInt32.ofNat answer.exitCode

end CommandLine

end RouteMigration

def main (arguments : List String) : IO UInt32 :=
  RouteMigration.CommandLine.perform
    (RouteMigration.CommandLine.Request.ofArguments
      (arguments.map fun argument => RouteMigration.Utf8.encodeOctets argument.toList))
