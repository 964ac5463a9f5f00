import FileApi.Compress.Posix
import FileApi.Misc.CString

/-!
# The uris of `system.file`

`CheckUri` and `UriToAbsolute` of `file_n_exporter.cpp`. The first makes a path in a directory of the
application from a uri, the second takes the dots out of a path whose file is not there.
-/

namespace FileApi.ModFile

open Compress Zip

/-- What `AbilityContext` gives. -/
structure AbilityContext where
  filesDir : PathName
  cacheDir : PathName
  deriving DecidableEq

/-- The loop over a path with a slash at its end; `temp` is what is in front of the next slash, its
last byte first. -/
def uriSplitLoop : PathName → PathName → List PathName
  | _, [] => []
  | temp, b :: pathTmp =>
      if b = slash then temp.reverse :: uriSplitLoop [] pathTmp
      else uriSplitLoop (b :: temp) pathTmp

/-- `uriSplit`. -/
def uriSplit (path : PathName) : List PathName := uriSplitLoop [] (path ++ [slash])

/-- The directory that the third part of a uri names. -/
def uriDir (context : AbilityContext) (uri : PathName) : Option PathName :=
  if (uriSplit uri)[2]? = some (ascii "app") then some context.filesDir
  else if (uriSplit uri)[2]? = some (ascii "cache") then some context.cacheDir
  else none

/-- `CheckUri`, with what `GetJsAbility` and `GetAbilityContext` give: the path, if it is true. -/
def checkUri (ability : Option (Option AbilityContext)) (path : PathName) : Option PathName :=
  if path = [] then none
  else if (uriSplit path).length ≤ 3 ∨ (uriSplit path)[0]? ≠ some (ascii "internal:") ∨
      (uriSplit path)[1]? ≠ some [] then none
  else
    match ability with
    | some (some context) =>
        (uriDir context path).map fun dir =>
          ((uriSplit path).drop 3).foldl (fun path part => path ++ [slash] ++ part) dir
    | _ => none

/-- What a part of a path does to `uriResult`. -/
def uriPush (uriResult : List PathName) (urisp : PathName) : List PathName :=
  if urisp = [dot] ∨ urisp = [] then uriResult
  else if urisp = [dot, dot] ∧ uriResult ≠ [] then uriResult.tail
  else urisp :: uriResult

/-- The last loop of `UriToAbsolute`. -/
def uriPop : List PathName → PathName → PathName
  | [], path => path
  | top :: rest, path => uriPop rest (slash :: top ++ path)

/-- `UriToAbsolute`. -/
def uriToAbsolute (path : PathName) : PathName :=
  uriPop ((uriSplit path).foldl uriPush []) []

end FileApi.ModFile
