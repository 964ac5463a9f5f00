import FileApi.Compress.Os
import FileApi.Compress.Zip.ReaderEntry

/-!
# Walking the central directory

`zip_reader.c:394-427` and the loop of `ZipReaderExtractAllFiles` (`zip_reader.c:888-922`): the
first central header, the next one, and the end of the walk. What is done with the outside world
for one entry is the parameter `extractEntry`; the walk returns the entries it has extracted.
-/

namespace FileApi.Compress.Zip

/-- `offsetOfNextCentralDirHeader`, of the header behind the one at `pos`. -/
def nextCentralDirHeaderPos (pos : UInt64) (header : ReadCentralDirHeader) : UInt64 :=
  pos + UInt64.ofNat ZIP_SIZE_CD_ITEM + header.fileNameLength.toUInt64 +
    header.extraFieldLength.toUInt64 + header.fileCommentLength.toUInt64

section

variable {W : Type} (convert : List UInt8 → Option CString) (reader : ZipReader)
  (extractEntry : ZipReaderEntry → Run W Unit)

/-- The loop of `ZipReaderExtractAllFiles` from the header at `pos` on, with `announced` more
entries announced behind it. -/
def zipReaderExtractFrom : Nat → UInt64 → ZipReaderEntry → Run W (List ZipReaderEntry)
  | 0, _, entry => do
      extractEntry entry
      return [entry]
  | announced + 1, pos, entry => do
      extractEntry entry
      let next := nextCentralDirHeaderPos pos entry.centralDirHeader
      match zipReaderGoToCentralDirHeader convert reader next with
      | .error .endOfList => return [entry]
      | .error err => throw (.error err)
      | .ok nextEntry =>
          let rest ← zipReaderExtractFrom announced next nextEntry
          return entry :: rest

/-- `ZipReaderExtractAllFiles`. -/
def zipReaderExtractAllFiles : Run W (List ZipReaderEntry) :=
  match reader.totalNumberOfEntries.toNat with
  | 0 => throw (.error .endOfList)
  | announced + 1 => do
      let entry ← liftStatus (zipReaderGoToCentralDirHeader convert reader
        reader.offsetOfCentralDir)
      zipReaderExtractFrom convert reader extractEntry announced reader.offsetOfCentralDir entry

end

end FileApi.Compress.Zip
