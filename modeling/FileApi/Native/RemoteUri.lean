import FileApi.Misc.CString
import FileApi.Misc.Decimal
import FileApi.Misc.Errno
import Mathlib.Data.Finset.Max
import Mathlib.Data.Int.Order.Basic

/-!
# Remote uris

The table of descriptors of `remote_uri.cpp`, and the two routines that encode and decode them. The
application opens and closes files in between.
-/

namespace FileApi.Native

def FRAGMENT_TAG : UInt8 := 0x23
def FD_TAG : UInt8 := 0x3d
def SCHEME_TAG : UInt8 := 0x3a
def REMOTE_URI_TAG : List UInt8 := ascii "fdFromBinder"
def SCHEME : List UInt8 := ascii "datashare"
def MAX_URI_SIZE : Nat := 128
def DIGIT_LENGTH_LIMIT : Nat := 9
def O_RDONLY : Int := 0

/-- The set `fdFromBinder`, and the descriptors that are open. -/
structure Binder where
  fdFromBinder : Finset Int := ∅
  opened : Finset Int
  deriving DecidableEq

/-- `IsAllDigits`. -/
def isAllDigits (fdStr : List UInt8) : Bool := fdStr.all isDigit

/-- `find` of a string of one character. -/
def find (tag : UInt8) (path : List UInt8) : Option Nat := path.findIdx? (· == tag)

/-- `RemoveFd`. -/
def Binder.removeFd (b : Binder) (fd : Int) : Binder :=
  { b with fdFromBinder := b.fdFromBinder.erase fd }

/-- `IsRemoteUri`: the descriptor, if the answer is `true`. -/
def isRemoteUri (b : Binder) (path : List UInt8) (flags : Int) : Option Int × Binder :=
  match find SCHEME_TAG path, find FRAGMENT_TAG path, find FD_TAG path with
  | some posDatashare, some posFragment, some posFd =>
      let scheme := path.take posDatashare
      if scheme ≠ SCHEME then (none, b)
      else
        let fragment := (path.drop (posFragment + 1)).take REMOTE_URI_TAG.length
        if fragment = REMOTE_URI_TAG then
          let fdStr := path.drop (posFd + 1)
          if isAllDigits fdStr then
            if DIGIT_LENGTH_LIMIT < fdStr.length ∨ fdStr.length < 1 then (none, b)
            else
              let fd : Int := ofDecimal fdStr
              let fd := if fd < 0 ∨ flags ≠ O_RDONLY then -1 else fd
              (some fd, b.removeFd fd)
          else (some (-1), b)
        else (none, b)
  | _, _, _ => (none, b)

/-- The descriptor that is closed when another one comes: the smallest of a full set. -/
def Binder.evicts (b : Binder) : Option Int :=
  if hfull : b.fdFromBinder.card = MAX_URI_SIZE then
    some (b.fdFromBinder.min' (Finset.card_pos.mp (hfull ▸ Nat.succ_pos _)))
  else none

/-- `close(*fdFromBinder.begin())` and `erase`. -/
def Binder.evict (b : Binder) : Binder :=
  match b.evicts with
  | some fd => { fdFromBinder := b.fdFromBinder.erase fd, opened := b.opened.erase fd }
  | none => b

/-- The uri of a descriptor. -/
def uriOf (pkgName : List UInt8) (fd : Int) : List UInt8 :=
  SCHEME ++ ascii ":///" ++ pkgName ++ ascii "/" ++ [FRAGMENT_TAG] ++ REMOTE_URI_TAG ++ [FD_TAG] ++
    decimal fd.toNat

/-- `ConvertUri`, for the package that calls. -/
def convertUri (b : Binder) (fd : Int) (pkgName : List UInt8) : Except Errno (List UInt8) × Binder :=
  if fd < 0 then (.error .einval, b)
  else
    let b := b.evict
    (.ok (uriOf pkgName fd), { b with fdFromBinder := insert fd b.fdFromBinder })

/-! ## Runs -/

/-- A call, or a file that the application opens or closes. -/
inductive Action where
  | convertUri (fd : Int) (pkgName : List UInt8)
  | isRemoteUri (path : List UInt8) (flags : Int)
  | opens (fd : Int)
  | closes (fd : Int)
  deriving DecidableEq

/-- The table, and which descriptors `IsRemoteUri` has handed out since they were put there. -/
structure World where
  binder : Binder
  handedOut : Finset Int := ∅
  deriving DecidableEq

def step (w : World) : Action → Option World
  | .convertUri fd pkgName =>
      match convertUri w.binder fd pkgName with
      | (.error _, b) => some { w with binder := b }
      | (.ok _, b) => some ⟨b, w.handedOut.erase fd⟩
  | .isRemoteUri path flags =>
      match isRemoteUri w.binder path flags with
      | (none, b) => some { w with binder := b }
      | (some fd, b) => some ⟨b, if fd < 0 then w.handedOut else insert fd w.handedOut⟩
  | .opens fd => some { w with binder := { w.binder with opened := insert fd w.binder.opened } }
  | .closes fd => some { w with binder := { w.binder with opened := w.binder.opened.erase fd } }

end FileApi.Native
