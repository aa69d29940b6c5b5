import DatasetAudit.Digest.Sha256
import DatasetAudit.Finding.Catalog
import DatasetAudit.Text.Utf8
/-!
Fingerprints, by which a defect is recognised in later runs. A fingerprint is the digest of the
finding's name and the texts that identify the defect; nothing of a run itself goes into it.
-/

namespace DatasetAudit

namespace Fingerprint

/-- The byte in front of each part, which keeps the parts apart. -/
def separator : UInt8 := 0x1f

/-- The bytes that identify a defect: the finding's name, and each part behind a separator. -/
def message (id : FindingId) (parts : List String) : List UInt8 :=
  Utf8.encode id.name ++ parts.flatMap fun part => separator :: Utf8.encode part

/-- A digest with the name of its algorithm in front. -/
def digestText (bytes : List UInt8) : String :=
  "sha256:" ++ Sha256.hexDigest bytes

end Fingerprint

/-- The fingerprint of a defect. -/
def fingerprint (id : FindingId) (parts : List String) : String :=
  Fingerprint.digestText (Fingerprint.message id parts)

end DatasetAudit
