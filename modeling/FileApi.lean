import FileApi.Compress.ArchiveUtils
import FileApi.Compress.Buffer
import FileApi.Compress.Directories
import FileApi.Compress.Os
import FileApi.Compress.Posix
import FileApi.Compress.Proofs.Buffer
import FileApi.Compress.Proofs.BufferBound
import FileApi.Compress.Proofs.CreateDirectory
import FileApi.Compress.Proofs.FileSystem
import FileApi.Compress.Proofs.NormalizePath
import FileApi.Compress.Proofs.OutputPath
import FileApi.Compress.Proofs.PathCalls
import FileApi.Compress.Proofs.PlainPaths
import FileApi.Compress.Proofs.StreamDeflate
import FileApi.Compress.Proofs.StreamMem
import FileApi.Compress.Proofs.StreamRead
import FileApi.Compress.Proofs.StreamWrite
import FileApi.Compress.Proofs.StreamWriteRun
import FileApi.Compress.Stream.Buffered
import FileApi.Compress.Stream.Deflate
import FileApi.Compress.Stream.Entry
import FileApi.Compress.Stream.File
import FileApi.Compress.Stream.Mem
import FileApi.Compress.Stream.Out
import FileApi.Compress.StreamRead
import FileApi.Compress.StreamWrite
import FileApi.Compress.TreeOs
import FileApi.Compress.Zip.ExtraField
import FileApi.Compress.Zip.Format
import FileApi.Compress.Zip.NameEncoding
import FileApi.Compress.Zip.Proofs.AddedFiles
import FileApi.Compress.Zip.Proofs.Catalogue
import FileApi.Compress.Zip.Proofs.CentralDirBounds
import FileApi.Compress.Zip.Proofs.CentralEntry
import FileApi.Compress.Zip.Proofs.Closed
import FileApi.Compress.Zip.Proofs.ClosedEntry
import FileApi.Compress.Zip.Proofs.Contained
import FileApi.Compress.Zip.Proofs.Delivered
import FileApi.Compress.Zip.Proofs.DosTime
import FileApi.Compress.Zip.Proofs.EndRecords
import FileApi.Compress.Zip.Proofs.EntryRecords
import FileApi.Compress.Zip.Proofs.EocdSearch
import FileApi.Compress.Zip.Proofs.ExtraField
import FileApi.Compress.Zip.Proofs.ExtraFieldReader
import FileApi.Compress.Zip.Proofs.NameEncoding
import FileApi.Compress.Zip.Proofs.OutBase
import FileApi.Compress.Zip.Proofs.ReaderProgress
import FileApi.Compress.Zip.Proofs.RoundTrip
import FileApi.Compress.Zip.Proofs.Save
import FileApi.Compress.Zip.Proofs.SavedNames
import FileApi.Compress.Zip.Proofs.Traces
import FileApi.Compress.Zip.Proofs.Walk
import FileApi.Compress.Zip.Proofs.WriterInvariant
import FileApi.Compress.Zip.Proofs.WriterProgress
import FileApi.Compress.Zip.ReaderEntry
import FileApi.Compress.Zip.ReaderExtract
import FileApi.Compress.Zip.ReaderOpen
import FileApi.Compress.Zip.ReaderProgress
import FileApi.Compress.Zip.ReaderWalk
import FileApi.Compress.Zip.WriterAdd
import FileApi.Compress.Zip.WriterClose
import FileApi.Compress.Zip.WriterEntry
import FileApi.Compress.Zip.WriterFiles
import FileApi.Compress.Zip.WriterOut
import FileApi.Compress.Zip.WriterProgress
import FileApi.HyperAio.Lifecycle
import FileApi.HyperAio.Machine
import FileApi.HyperAio.Proofs.Answers
import FileApi.HyperAio.Proofs.Lifecycle
import FileApi.Misc.BoundedBuffer
import FileApi.Misc.ByteFile
import FileApi.Misc.CString
import FileApi.Misc.Crc32
import FileApi.Misc.Entries
import FileApi.Misc.Except
import FileApi.Misc.Keyed
import FileApi.Misc.LastBelow
import FileApi.Misc.LittleEndian
import FileApi.Misc.Liveness
import FileApi.Misc.Machine
import FileApi.Misc.Merge
import FileApi.Misc.PlainTree
import FileApi.Misc.Pool
import FileApi.Misc.Program
import FileApi.Misc.Registers
import FileApi.Misc.StackPath
import FileApi.Misc.Stdio
import FileApi.Misc.Volume
import FileApi.Misc.Walk
import FileApi.ModFile.Proofs.Answers
import FileApi.ModFile.Proofs.MoveRequests
import FileApi.ModFile.Proofs.Uri
import FileApi.ModFs.AtomicFile
import FileApi.ModFs.AtomicFileExporter
import FileApi.ModFs.Copy
import FileApi.ModFs.CopyDir
import FileApi.ModFs.CopyFile
import FileApi.ModFs.CopyNotify
import FileApi.ModFs.CopyProgress
import FileApi.ModFs.FdTag
import FileApi.ModFs.FileMapping
import FileApi.ModFs.FileWatcher
import FileApi.ModFs.ListFile
import FileApi.ModFs.Move
import FileApi.ModFs.NotifyEvent
import FileApi.ModFs.Proofs.AtomicFile
import FileApi.ModFs.Proofs.AtomicFileExporter
import FileApi.ModFs.Proofs.Copy
import FileApi.ModFs.Proofs.CopyDir
import FileApi.ModFs.Proofs.CopyDirConflicts
import FileApi.ModFs.Proofs.CopyFile
import FileApi.ModFs.Proofs.CopyIntoItself
import FileApi.ModFs.Proofs.CopyNotify
import FileApi.ModFs.Proofs.CopyProgress
import FileApi.ModFs.Proofs.FdTag
import FileApi.ModFs.Proofs.FileMapping
import FileApi.ModFs.Proofs.FileWatcher
import FileApi.ModFs.Proofs.ListFile
import FileApi.ModFs.Proofs.Mmap
import FileApi.ModFs.Proofs.Move
import FileApi.ModFs.Proofs.MoveDir
import FileApi.ModFs.Proofs.MoveDirConflicts
import FileApi.ModFs.Proofs.NotifyEvent
import FileApi.ModFs.Proofs.RandomAccessFile
import FileApi.ModFs.Proofs.ReadText
import FileApi.ModFs.Proofs.ReaderIterator
import FileApi.ModFs.Proofs.Rmdirent
import FileApi.ModFs.Proofs.RmdirentBodies
import FileApi.ModFs.Proofs.TransListenerCore
import FileApi.Native.Proofs.RemoteUri
import FileApi.StreamRw.Proofs.ReadStream
import FileApi.StreamRw.Proofs.WriteStream
import FileApi.Swapfs.CApi
import FileApi.Swapfs.Control
import FileApi.Swapfs.Device
import FileApi.Swapfs.History
import FileApi.Swapfs.Lifecycle
import FileApi.Swapfs.Manager
import FileApi.Swapfs.Proofs.CApi
import FileApi.Swapfs.Proofs.Device
import FileApi.Swapfs.Proofs.FailedSwapOut
import FileApi.Swapfs.Proofs.Integrity
import FileApi.Swapfs.Proofs.Keys
import FileApi.Swapfs.Proofs.Lifecycle
import FileApi.Swapfs.Proofs.Linearizability
import FileApi.Swapfs.Proofs.Quota
import FileApi.Swapfs.Proofs.ReadEngines
import FileApi.Swapfs.Proofs.Readers
import FileApi.Swapfs.Proofs.RemoveAll
import FileApi.Swapfs.Proofs.Removed
import FileApi.Swapfs.Proofs.SessionCleaner
import FileApi.Swapfs.Proofs.TreeRemoval
import FileApi.Swapfs.Proofs.UringPool
import FileApi.Swapfs.ReadEngines
import FileApi.Swapfs.SessionCleaner
import FileApi.Swapfs.UringPool
import FileApi.Zlib.Bound
import FileApi.Zlib.Deflate
import FileApi.Zlib.Framed
import FileApi.Zlib.Inflate
import FileApi.Swapfs.Proofs.Liveness
