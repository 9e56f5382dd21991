/-!
# Failures of the outside world

What files, connections and addresses can answer instead of doing as they are told, and the
words for it.
-/

set_option autoImplicit false

namespace BackupVault

/-- A failed operation on a file, a connection or an address. -/
inductive IoFailure where
  | notFound
  | alreadyExists
  /-- A step of the path that should be a directory is something else. -/
  | notADirectory
  /-- A directory stands where a file is wanted. -/
  | isADirectory
  /-- A directory that still holds something cannot be replaced. -/
  | directoryNotEmpty
  /-- A component of the path, or the whole path, is longer than a file system allows. -/
  | nameTooLong
  /-- The path leads from one symbolic link to the next without end. -/
  | linkLoop
  /-- The file would grow over the limit on file sizes. -/
  | fileTooLarge
  | notText
  | nulInPath
  | noFileName (path : String)
  | connectionReset
  | timedOut
  /-- The connection ended in the middle of something. -/
  | unexpectedEnd
  /-- The peer no longer reads. -/
  | brokenPipe
  | connectionRefused
  | addressInUse
  | invalidAddress
  | invalidPort
  /-- Any other failure, in the words of the system. -/
  | other (words : String)
deriving DecidableEq, Repr

def IoFailure.message : IoFailure → String
  | notFound => "No such file or directory (os error 2)"
  | alreadyExists => "File exists (os error 17)"
  | notADirectory => "Not a directory (os error 20)"
  | isADirectory => "Is a directory (os error 21)"
  | directoryNotEmpty => "Directory not empty (os error 39)"
  | nameTooLong => "File name too long (os error 36)"
  | linkLoop => "Too many levels of symbolic links (os error 40)"
  | fileTooLarge => "File too large (os error 27)"
  | notText => "stream did not contain valid UTF-8"
  | nulInPath => "file name contained an unexpected NUL byte"
  | noFileName path => path ++ " has no usable file name"
  | connectionReset => "connection reset"
  | timedOut => "timed out"
  | unexpectedEnd => "unexpected end of file"
  | brokenPipe => "broken pipe"
  | connectionRefused => "Connection refused (os error 111)"
  | addressInUse => "Address already in use (os error 98)"
  | invalidAddress => "invalid socket address"
  | invalidPort => "invalid port value"
  | other words => words

end BackupVault
