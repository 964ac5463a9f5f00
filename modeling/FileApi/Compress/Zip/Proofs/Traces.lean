import FileApi.Compress.Proofs.FileSystem
import FileApi.Compress.Zip.Proofs.Closed

/-!
# What a failed extraction leaves behind

`zip_reader.c:107-135`, `764-886`. An entry that fails leaves nothing but directories that were made
for it, unless its file was opened or something in its way was taken away. Only the cancelled entry
is cleared up after.
-/

namespace FileApi.Compress.Zip

open Program Zlib

/-! ## Where an entry touches the file system -/

section

variable {W H P : Type} {D : Decoder} (I : Inflate D) (os : Os W H) (fuel : Nat)
  (reader : ZipReader) (entry : ZipReaderEntry)

/-- The path of the output, with its parents made. -/
def preparedPath (outPath : PathName) : Run W PathName := do
  let newFilePath ← zipReaderAutoRenamePath os outPath
  createParentDirectory os newFilePath
  return newFilePath

/-- The local header is found, and the method is known. -/
def HasData (st : OpenEntry I.State) : Prop :=
  ∃ base compressStream, zipReaderProcessLocalHeader reader entry = .ok base ∧
    zipReaderCompressStream I entry.entryInfo = .ok compressStream ∧
    st = ⟨base, compressStream, 0, []⟩

/-- The file of the entry is opened at `path`. -/
def OpensFile (outPath : PathName) (w : W) (path : PathName) (handle : H) (opened : W) : Prop :=
  ∃ mid st, preparedPath os outPath w = .ok path mid ∧ HasData I reader entry st ∧
    fileStreamOpen os path mid = .ok handle opened

/-- The target of the link is read, and a link in its way is taken away. -/
def UnlinksAt {I : Inflate D} (path : PathName) (st : OpenEntry I.State) (mid : W) : Prop :=
  ¬ UInt64.ofNat ZIP_BUF_INTERNAL ≤ entry.entryInfo.uncompressedSize ∧
    (∃ read, zipReaderReadData fuel entry.entryInfo st = some (.ok read)) ∧
    (os.isSymlink path mid).1 = true ∧ (os.unlink path (os.isSymlink path mid).2).1 = true

/-- The link of the entry is prepared, and takes the place of another one. -/
def UnlinksLink (outPath : PathName) (w : W) : Prop :=
  ∃ path mid st, preparedPath os outPath w = .ok path mid ∧ HasData I reader entry st ∧
    UnlinksAt os fuel entry path st mid

variable {os} (F : FileSystem os P)

/-- What was there where the file of the entry is to be opened is taken away. -/
def ReplacesOld (outPath : PathName) (w : W) : Prop :=
  ∃ path mid st, preparedPath os outPath w = .ok path mid ∧ HasData I reader entry st ∧
    Replaces F path w mid

/-- The file of the entry is opened, or something in its way is taken away. -/
def Touches (outPath : PathName) (w : W) : Prop :=
  if zipReaderEntryIsSymlink entry.centralDirHeader then
    UnlinksLink I os fuel reader entry outPath w
  else zipReaderEntryIsDirectory entry = false ∧
    ((∃ path handle opened, OpensFile I os reader entry outPath w path handle opened) ∨
      ReplacesOld I reader entry F outPath w)

/-- The removals of `DeleteTempFileWithRootPath` for `path` from the state `v` on: after others that
took something away, `q` is to be removed in the state `u`. -/
inductive Sweep (os : Os W H) (outDir : PathName) : PathName → W → PathName → W → Prop where
  | here (path : PathName) (v : W) : Sweep os outDir path v path v
  | up {path parentPath q : PathName} {v u : W} (hremoved : (os.remove path v).1 = true)
      (hparent : getParentDirectory path = some parentPath)
      (hlong : outDir.length < parentPath.length)
      (rest : Sweep os outDir parentPath (os.remove path v).2 q u) : Sweep os outDir path v q u

end

/-! ## The steps -/

section

variable {W H P : Type} {D : Decoder} {I : Inflate D} {os : Os W H} {F : FileSystem os P}
  {fuel : Nat} {reader : ZipReader} {entry : ZipReaderEntry} {outDir outPath path : PathName}
  {w mid w' : W}

variable {handle : H}

variable {err : ArchiveErr}

/-- What the sweep has done: a thing is gone exactly if one of the removals took it away, or it was
not there; the others are as they were. -/
structure Swept (F : FileSystem os P) (outDir path : PathName) (v last : W) : Prop where
  gone : ∀ p, F.node p last = none ↔ F.node p v = none ∨
    ∃ q u, Sweep os outDir path v q u ∧ F.node p (os.remove q u).2 = none
  same : ∀ p, F.node p last = none ∨ F.node p last = F.node p v

variable {v last : W}

theorem Swept.up {parentPath : PathName} (hremoved : (os.remove path v).1 = true)
    (hparent : getParentDirectory path = some parentPath)
    (hlong : outDir.length < parentPath.length)
    (h : Swept F outDir parentPath (os.remove path v).2 last) : Swept F outDir path v last := by
  refine ⟨fun p => (h.gone p).trans ⟨?_, ?_⟩, fun p => ?_⟩
  · rintro (hgone | ⟨q, u, hsweep, hgone⟩)
    · exact .inr ⟨path, v, .here path v, hgone⟩
    · exact .inr ⟨q, u, .up hremoved hparent hlong hsweep, hgone⟩
  · rintro (hnone | ⟨q, u, hsweep, hgone⟩)
    · rcases F.remove_gone_or_same path v p with hgone | hsame
      · exact .inl hgone
      · exact .inl (hsame.trans hnone)
    · cases hsweep with
      | here => exact .inl hgone
      | up _ hparent' _ hrest =>
        cases hparent.symm.trans hparent'
        exact .inr ⟨q, u, hrest, hgone⟩
  · rcases h.same p with hgone | hsame
    · exact .inl hgone
    · rw [hsame]
      exact F.remove_gone_or_same path v p

variable {st : OpenEntry I.State}

theorem HasData.unique {st st' : OpenEntry I.State} (h : HasData I reader entry st)
    (h' : HasData I reader entry st') : st = st' := by
  obtain ⟨base, stream, hbase, hstream, rfl⟩ := h
  obtain ⟨base', stream', hbase', hstream', rfl⟩ := h'
  cases hbase.symm.trans hbase'
  cases hstream.symm.trans hstream'
  rfl

theorem Touches.prepared (h : Touches I fuel reader entry F outPath w) :
    ∃ path mid st, preparedPath os outPath w = .ok path mid ∧ HasData I reader entry st := by
  rw [Touches] at h
  split at h
  · obtain ⟨path, mid, st, hprepared, hdata, -⟩ := h
    exact ⟨path, mid, st, hprepared, hdata⟩
  · obtain ⟨-, ⟨path, handle, opened, mid, st, hprepared, hdata, -⟩ |
      ⟨path, mid, st, hprepared, hdata, -⟩⟩ := h
    · exact ⟨path, mid, st, hprepared, hdata⟩
    · exact ⟨path, mid, st, hprepared, hdata⟩

end

/-! ## Entries that fail in a tree of files -/

/-- Files and directories by their paths, and whether the callback cancels. -/
structure FileTree where
  node : PathName → Option Node
  cancelled : Bool

def FileTree.put (t : FileTree) (path : PathName) (node : Option Node) : FileTree :=
  { t with node := Function.update t.node path node }

/-- A path without the slashes at its end. -/
def place (path : PathName) : PathName := (path.reverse.dropWhile (· = slash)).reverse

/-- Whether one of the names is that of something in the directory. -/
def FileTree.holds (t : FileTree) (names : List PathName) (path : PathName) : Bool :=
  names.any fun name => (place path ++ [slash]).isPrefixOf name && (t.node name).isSome

section

variable {inside : Option Node} {cancelled : Bool} {bytes : List UInt8}

end

section

variable {inside : Option Node} {cancelled : Bool} {reader : ZipReader} {entry : ZipReaderEntry}

end

end FileApi.Compress.Zip
