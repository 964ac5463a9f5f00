import Mathlib.Logic.Function.Basic
import FileApi.Misc.Errno

/-!
# Directory entries

Names and what they are entries of: the inode of a regular file, a symbolic link to another name,
a directory, or a special file. Several names may be entries of one inode. Links are followed up
to a number of them. The calls are those of POSIX that deal with single names; a call that fails
changes nothing.
-/

namespace FileApi.Entries

variable {ν : Type}

inductive Entry (ν : Type) where
  | file (inode : Nat)
  | link (target : ν)
  | directory
  | special
  deriving DecidableEq

/-- The entries, and the contents of the regular files by their inodes. -/
structure Disk (ν : Type) where
  names : ν → Option (Entry ν)
  contents : List (List UInt8)
  valid : ∀ name inode, names name = some (.file inode) → inode < contents.length

/-- Where a name leads: to an entry that is no link, to a name that is missing, or nowhere. -/
inductive Found (ν : Type) where
  | there (name : ν) (entry : Entry ν)
  | missing (name : ν)
  | nowhere
  deriving DecidableEq

/-- Where a name leads; `again` is where the target of a link leads. -/
def followWith (names : ν → Option (Entry ν)) (again : ν → Found ν) (name : ν) : Found ν :=
  match names name with
  | none => .missing name
  | some (.link target) => again target
  | some entry => .there name entry

/-- Where a name leads with so many links. -/
def follow (names : ν → Option (Entry ν)) : Nat → ν → Found ν
  | 0 => followWith names fun _ => .nowhere
  | limit + 1 => followWith names (follow names limit)

section Follow

variable {names : ν → Option (Entry ν)} {again : ν → Found ν} {limit : Nat} {name q : ν}
  {entry : Entry ν}

theorem followWith_none (h : names name = none) : followWith names again name = .missing name := by
  rw [followWith, h]

theorem followWith_link {target : ν} (h : names name = some (.link target)) :
    followWith names again name = again target := by
  rw [followWith, h]

theorem followWith_entry (h : names name = some entry) (hlink : ∀ target, entry ≠ .link target) :
    followWith names again name = .there name entry := by
  rw [followWith, h]
  cases entry with
  | link target => exact absurd rfl (hlink target)
  | file inode => rfl
  | directory => rfl
  | special => rfl

theorem follow_none (h : names name = none) : follow names limit name = .missing name := by
  cases limit with
  | zero => exact followWith_none h
  | succ limit => exact followWith_none h

theorem follow_entry (h : names name = some entry) (hlink : ∀ target, entry ≠ .link target) :
    follow names limit name = .there name entry := by
  cases limit with
  | zero => exact followWith_entry h hlink
  | succ limit => exact followWith_entry h hlink

theorem followWith_there (hagain : ∀ n, again n = .there q entry →
      names q = some entry ∧ ∀ target, entry ≠ .link target)
    (h : followWith names again name = .there q entry) :
    names q = some entry ∧ ∀ target, entry ≠ .link target := by
  unfold followWith at h
  split at h
  · cases h
  · exact hagain _ h
  · next e hlink he =>
    cases h
    exact ⟨he, hlink⟩

theorem follow_there (h : follow names limit name = .there q entry) :
    names q = some entry ∧ ∀ target, entry ≠ .link target := by
  induction limit generalizing name with
  | zero => exact followWith_there (fun n hn => by cases hn) h
  | succ limit ih => exact followWith_there (fun n hn => ih hn) h

theorem followWith_missing (hagain : ∀ n, again n = .missing q → names q = none)
    (h : followWith names again name = .missing q) : names q = none := by
  unfold followWith at h
  split at h
  · next hnone =>
    cases h
    exact hnone
  · exact hagain _ h
  · cases h

theorem follow_missing (h : follow names limit name = .missing q) : names q = none := by
  induction limit generalizing name with
  | zero => exact followWith_missing (fun n hn => by cases hn) h
  | succ limit ih => exact followWith_missing (fun n hn => ih hn) h

variable [DecidableEq ν]

section Update

variable {again' : ν → Found ν} {p : ν} {x : Option (Entry ν)}

theorem followWith_update (hp : ∀ target, names p ≠ some (.link target)) (hq : q ≠ p)
    (hagain : ∀ n, again n = .there q entry → again' n = .there q entry)
    (h : followWith names again name = .there q entry) :
    followWith (Function.update names p x) again' name = .there q entry := by
  have hkeep : ∀ n, n ≠ p → Function.update names p x n = names n := fun n hn =>
    Function.update_of_ne hn _ _
  unfold followWith at h
  split at h
  · cases h
  · next target htarget =>
    have hname : name ≠ p := by
      rintro rfl
      exact hp target htarget
    rw [followWith_link ((hkeep name hname).trans htarget)]
    exact hagain target h
  · next e hlink he =>
    cases h
    exact followWith_entry ((hkeep name hq).trans he) hlink

theorem follow_update (hp : ∀ target, names p ≠ some (.link target)) (hq : q ≠ p)
    (h : follow names limit name = .there q entry) :
    follow (Function.update names p x) limit name = .there q entry := by
  induction limit generalizing name with
  | zero => exact followWith_update hp hq (fun n hn => by cases hn) h
  | succ limit ih => exact followWith_update hp hq (fun n hn => ih hn) h

theorem followWith_put (hnone : names q = none) (hlink : ∀ target, entry ≠ .link target)
    (hagain : ∀ n, again n = .missing q → again' n = .there q entry)
    (h : followWith names again name = .missing q) :
    followWith (Function.update names q (some entry)) again' name = .there q entry := by
  unfold followWith at h
  split at h
  · cases h
    exact followWith_entry (Function.update_self _ _ _) hlink
  · next target htarget =>
    have hname : name ≠ q := by
      rintro rfl
      rw [hnone] at htarget
      cases htarget
    rw [followWith_link ((Function.update_of_ne hname _ _).trans htarget)]
    exact hagain target h
  · cases h

theorem follow_put (hlink : ∀ target, entry ≠ .link target)
    (h : follow names limit name = .missing q) :
    follow (Function.update names q (some entry)) limit name = .there q entry := by
  have hnone := follow_missing h
  induction limit generalizing name with
  | zero => exact followWith_put hnone hlink (fun n hn => by cases hn) h
  | succ limit ih => exact followWith_put hnone hlink (fun n hn => ih hn) h

end Update

end Follow

namespace Disk

variable [DecidableEq ν] (d : Disk ν) (limit : Nat)

/-- The bytes of the regular file that a name leads to. -/
def read (name : ν) : Option (List UInt8) :=
  match follow d.names limit name with
  | .there _ (.file inode) => d.contents[inode]?
  | _ => none

/-- An entry is taken away. -/
def erase (name : ν) : Disk ν where
  names := Function.update d.names name none
  contents := d.contents
  valid n inode h := by
    by_cases hn : n = name
    · rw [hn, Function.update_self] at h
      cases h
    · rw [Function.update_of_ne hn] at h
      exact d.valid n inode h

/-- A new regular file. -/
def create (name : ν) (bytes : List UInt8) : Disk ν where
  names := Function.update d.names name (some (.file d.contents.length))
  contents := d.contents ++ [bytes]
  valid n inode h := by
    rw [List.length_append, List.length_singleton]
    by_cases hn : n = name
    · rw [hn, Function.update_self] at h
      cases h
      exact Nat.lt_succ_self _
    · rw [Function.update_of_ne hn] at h
      exact Nat.lt_succ_of_lt (d.valid n inode h)

/-- A file has other bytes. -/
def write (inode : Nat) (bytes : List UInt8) : Disk ν where
  names := d.names
  contents := d.contents.set inode bytes
  valid n i h := by
    rw [List.length_set]
    exact d.valid n i h

/-- An entry goes from one name to another. -/
def move (source target : ν) : Disk ν where
  names := Function.update (Function.update d.names target (d.names source)) source none
  contents := d.contents
  valid n inode h := by
    by_cases hn : n = source
    · rw [hn, Function.update_self] at h
      cases h
    · rw [Function.update_of_ne hn] at h
      by_cases ht : n = target
      · rw [ht, Function.update_self] at h
        exact d.valid source inode h
      · rw [Function.update_of_ne ht] at h
        exact d.valid n inode h

/-- `rename` of an entry that is no directory; two entries of one file stay as they are. -/
def rename (source target : ν) : Except Errno (Disk ν) :=
  match d.names source, d.names target with
  | none, _ => .error .enoent
  | some _, some .directory => .error .eisdir
  | some (.file i), some (.file j) => if i = j then .ok d else .ok (d.move source target)
  | some _, _ => .ok (d.move source target)

/-- `unlink`. -/
def unlink (name : ν) : Except Errno (Disk ν) :=
  match d.names name with
  | none => .error .enoent
  | some .directory => .error .eisdir
  | some _ => .ok (d.erase name)

/-- Whether a file can be copied to a name, and what becomes of the disk when it has these bytes:
the target is opened behind its links, made if it is missing, and is not the source itself. -/
def overwrite (source target : ν) (bytes : List UInt8) : Except Errno (Disk ν) :=
  match follow d.names limit source, follow d.names limit target with
  | .there _ (.file i), .there _ (.file j) =>
      if i = j then .error .eexist else .ok (d.write j bytes)
  | .there _ (.file _), .missing name => .ok (d.create name bytes)
  | .there _ (.file _), .there _ _ => .error .enotsup
  | .there _ (.file _), .nowhere => .error .eloop
  | .there _ _, _ => .error .enotsup
  | .missing _, _ => .error .enoent
  | .nowhere, _ => .error .eloop

end Disk

end FileApi.Entries
