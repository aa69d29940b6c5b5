import DatasetAudit.Error
/-!
What an audit can ask about single files: their size and time, and their bytes. Files may be missing
or unreadable, and nothing is assumed about how the answers hang together.
-/

namespace DatasetAudit

/-- The size and the time of a file, the time in nanoseconds since 1970. -/
structure FileStat where
  sizeBytes : UInt64
  mtimeNs : Int64
deriving DecidableEq, Repr

/-- The answers that a file system gives, by path. -/
structure FileView where
  stat : String → Except FileError FileStat
  read : String → Except FileError (List UInt8)

end DatasetAudit
