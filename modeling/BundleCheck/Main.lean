import BundleCheck.CommandLine

/-! # The program

Takes a snapshot of the files that a command names, runs the command on it, and prints its
answer. -/

namespace BundleCheck.Program

def readEntry? (path : FilePath) : IO (Option FileEntry) := do
  try
    let bytes ← IO.FS.readBinFile path.display
    return some (.file bytes.toList)
  catch _ => return none

/-- The bundle files below a directory. -/
partial def filesBelow (directory : FilePath) : IO (List (FilePath × FileEntry)) := do
  let entries ← try (← IO.FS.realPath directory.display).readDir catch _ => return []
  let mut files := [(directory, .directory [])]
  for entry in entries.toList do
    let name : FilePath := entry.fileName
    let path := directory.join name
    if ← entry.path.isDir then
      if !BundleFiles.isSkipped name (.directory []) then
        files := files ++ (← filesBelow path)
    else if !BundleFiles.isSkipped name (.file []) && BundleFiles.isBundleName name then
      files := files ++ ((← readEntry? path).map fun file => (path, file)).toList
  return files

/-- The files at a path: those below a directory, or the file itself. -/
def filesAt (path : FilePath) : IO (List (FilePath × FileEntry)) := do
  let isDirectory ← try (← IO.FS.realPath path.display).isDir catch _ => pure false
  if isDirectory then filesBelow path
  else return ((← readEntry? path).map fun file => (path, file)).toList

def filesIncluded (path : FilePath) : FileEntry → IO (List (FilePath × FileEntry))
  | .directory _ => return []
  | .file bytes => do
      match Text.ofUtf8? bytes with
      | none => return []
      | some text =>
          return (← (includedFiles text path.directory).mapM filesAt).flatten

def userDirectory : IO FilePath := do
  match ← IO.getEnv "XDG_CONFIG_HOME" with
  | some directory => if FilePath.isAbsolute directory then return directory
  | none => pure ()
  return FilePath.join ((← IO.getEnv "HOME").getD "/") ".config"

def survey (request : CommandLine.Request) : IO Host := do
  let directory : FilePath := (← IO.currentDir).toString
  let userDirectory ← userDirectory
  let named ← request.command.paths.mapM filesAt
  let settings ←
    (request.config.toList ++ Config.candidates directory userDirectory).mapM filesAt
  let files := named.flatten ++ settings.flatten
  let included ← files.mapM fun file => filesIncluded file.1 file.2
  return {
    files := .ofFiles (directory.resolve []) (files ++ included.flatten)
    directory
    userDirectory }

end BundleCheck.Program

open BundleCheck in
def main (arguments : List String) : IO UInt32 := do
  match CommandLine.read (← IO.getEnv "CHARMBUNDLE_CONFIG") arguments with
  | .error stop =>
      if stop.exitCode = 0 then IO.println stop.message else IO.eprintln stop.message
      return stop.exitCode.toUInt32
  | .ok request =>
      let answer := request.command.run (← Program.survey request) request.config
      IO.print answer.output
      match answer.failure with
      | none => return 0
      | some failure =>
          IO.eprintln s!"Error: {failure.message}"
          return 1
