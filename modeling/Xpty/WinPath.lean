import Xpty.Builder

/- Windows paths and the program search of the Windows `CommandBuilder`. `join`,
   `withExtension`, `isAbsolute` and `splitPaths` are those of `std::path` and
   `std::env` on Windows, prefixes included (`C:`, `\\server\share`, `\\.\`, `\\?\`).
   A path is looked up as a string: `pathExists` and `isDir` answer for it, from the
   directory of the process where it is relative.

   `searchPath` can panic on an entry of `PATHEXT`. -/
namespace Xpty.Win

def SPACE : UInt16 := 0x20
def QUOTE : UInt16 := 0x22
def DOT : UInt16 := 0x2E
def SLASH : UInt16 := 0x2F
def COLON : UInt16 := 0x3A
def SEMICOLON : UInt16 := 0x3B
def BACKSLASH : UInt16 := 0x5C

def isSep (c : UInt16) : Bool := c == SLASH || c == BACKSLASH

/-- What precedes the root of a path: whether it is verbatim (`\\?\`), whether it is a
drive, and its length. -/
structure Prefix where
  verbatim : Bool
  drive : Bool
  len : Nat

/-- The next component, and what stands after its separator. -/
def nextComponent (sep : UInt16 → Bool) (p : WinStr) : WinStr × WinStr :=
  let component := p.takeWhile fun c => !sep c
  (component, p.drop (component.length + 1))

def isAsciiAlphabetic (c : UInt16) : Bool := (0x41 ≤ c && c ≤ 0x5A) || (0x61 ≤ c && c ≤ 0x7A)

def startsWithDrive : WinStr → Bool
  | d :: c :: _ => isAsciiAlphabetic d && c == COLON
  | _ => false

/-- `Verbatim`, `VerbatimUNC` or `VerbatimDisk`, of what follows `\\?\`. -/
def parseVerbatim (p : WinStr) : Prefix :=
  let verbatimSep := (· == BACKSLASH)
  if p.take 3 = wide "UNC" ∧ p[3]?.any isSep = true then
    let (server, p) := nextComponent verbatimSep (p.drop 4)
    let share := (nextComponent verbatimSep p).1
    let shareLen := if share.isEmpty then 0 else 1 + share.length
    { verbatim := true, drive := false, len := 8 + server.length + shareLen }
  else if startsWithDrive p && p[2]?.all isSep then { verbatim := true, drive := false, len := 6 }
  else { verbatim := true, drive := false, len := 4 + (nextComponent verbatimSep p).1.length }

def parsePrefix (p : WinStr) : Option Prefix :=
  if p[0]?.any isSep && p[1]?.any isSep then
    -- `\\?\` counts as verbatim only with backslashes
    if p.take 4 = [BACKSLASH, BACKSLASH, 0x3F, BACKSLASH] then some (parseVerbatim (p.drop 4))
    else if p[2]? = some DOT ∧ p[3]?.any isSep = true then
      some { verbatim := false, drive := false, len := 4 + (nextComponent isSep (p.drop 4)).1.length }
    else
      let (server, p) := nextComponent isSep (p.drop 2)
      let share := (nextComponent isSep p).1
      if server.isEmpty || share.isEmpty then none
      else some { verbatim := false, drive := false, len := 3 + server.length + share.length }
  else if startsWithDrive p then some { verbatim := false, drive := true, len := 2 }
  else none

def prefixLen (p : WinStr) : Nat := ((parsePrefix p).map (·.len)).getD 0

/-- `Path::has_root`: any prefix but a drive implies one. -/
def hasRoot (p : WinStr) : Bool :=
  (p.drop (prefixLen p)).head?.any isSep || (parsePrefix p).any fun pre => !pre.drive

def isAbsolute (p : WinStr) : Bool := (parsePrefix p).isSome && hasRoot p

/-! `PathBuf::push`. -/

inductive Component where
  | ofPrefix (s : WinStr)
  | rootDir
  | curDir
  | parentDir
  | normal (s : WinStr)
  deriving DecidableEq, Repr

def Component.asOsStr : Component → WinStr
  | .ofPrefix s => s
  | .rootDir => [BACKSLASH]
  | .curDir => [DOT]
  | .parentDir => [DOT, DOT]
  | .normal s => s

/-- The components after the root; `.` is one only in a verbatim path. -/
def bodyComponents (verbatim : Bool) (body : WinStr) : List Component :=
  let sep := if verbatim then (· == BACKSLASH) else isSep
  (body.splitOnP sep).filterMap fun s =>
    if s = [] then none
    else if s = [DOT] then (if verbatim then some .curDir else none)
    else if s = [DOT, DOT] then some .parentDir
    else some (.normal s)

def rootComponent (body : WinStr) : List Component :=
  if body.head?.any isSep then [.rootDir] else []

/-- A component of `path` pushed on those of a verbatim path. -/
def pushComponent (buf : List Component) : Component → List Component
  | .rootDir => buf.take 1 ++ [.rootDir]
  | .curDir => buf
  | .parentDir =>
    match buf.getLast? with
    | some (.normal _) => buf.dropLast
    | _ => buf
  | c => buf ++ [c]

/-- The text of the components of a verbatim path, `needSep` telling whether a separator
is due before a component that is not the root. -/
def render : Bool → List Component → WinStr
  | _, [] => []
  | needSep, c :: cs =>
    (if needSep ∧ c ≠ .rootDir then [BACKSLASH] else []) ++ c.asOsStr ++ render (c ≠ .rootDir) cs

/-- `Path::join`. -/
def join (p q : WinStr) : WinStr :=
  let needSep := p.getLast?.any (!isSep ·) &&
    !((parsePrefix p).any fun pre => pre.drive && pre.len == p.length)
  -- with a prefix of its own, `q` replaces `p`
  if isAbsolute q || (parsePrefix q).isSome then q
  -- a verbatim path is put together again from its components
  else if ((parsePrefix p).any fun pre => pre.verbatim) && !q.isEmpty then
    let body := p.drop (prefixLen p)
    let root := rootComponent body
    let buf := .ofPrefix (p.take (prefixLen p)) :: root ++ bodyComponents true (body.drop root.length)
    render false ((rootComponent q ++ bodyComponents false q).foldl pushComponent buf)
  -- a root without a prefix: only the prefix of `p` is kept
  else if hasRoot q then p.take (prefixLen p) ++ q
  else if needSep then p ++ BACKSLASH :: q
  else p ++ q

/-! `Path::with_extension`. -/

/-- Drops what follows the file name, from the end: separators and, unless the path is
verbatim, `.` components. -/
def dropTail (verbatim : Bool) (sep : UInt16 → Bool) : WinStr → WinStr
  | [] => []
  | c :: r =>
    if sep c then dropTail verbatim sep r
    else if !verbatim ∧ c = DOT ∧ r.head?.all sep = true then dropTail verbatim sep r
    else c :: r

/-- The path up to its file name, and the file name, if it ends in one. -/
def splitFileName (p : WinStr) : Option (WinStr × WinStr) :=
  let verbatim := (parsePrefix p).any (·.verbatim)
  let sep := if verbatim then (· == BACKSLASH) else isSep
  let body := dropTail verbatim sep (p.drop (prefixLen p)).reverse
  let name := (body.takeWhile fun c => !sep c).reverse
  if name = [] ∨ name = [DOT] ∨ name = [DOT, DOT] then none
  else some (p.take (prefixLen p) ++ (body.drop name.length).reverse, name)

/-- `Path::file_stem` of a file name: what stands before its last dot, if that is not
its first unit. -/
def fileStem (name : WinStr) : WinStr :=
  let before := ((name.reverse.dropWhile (· != DOT)).drop 1).reverse
  if before = [] then name else before

def withExtension (p ext : WinStr) : WinStr :=
  match splitFileName p with
  | none => p
  | some (parent, name) => parent ++ fileStem name ++ if ext = [] then [] else DOT :: ext

/-! `std::env::split_paths`. -/

/-- Splits at the semicolons outside quotes and drops the quotes; `entry` is what has
been read of the current entry. -/
def splitPathsFrom (inQuote : Bool) (entry : WinStr) : WinStr → List WinStr
  | [] => [entry]
  | c :: s =>
    if c = QUOTE then splitPathsFrom (!inQuote) entry s
    else if c = SEMICOLON ∧ inQuote = false then entry :: splitPathsFrom false [] s
    else splitPathsFrom inQuote (entry ++ [c]) s

def splitPaths (path : WinStr) : List WinStr := splitPathsFrom false [] path

/-! The search. -/

/-- What the process sees. A path with a NUL in it does not exist. -/
structure World where
  pathExists : WinStr → Bool
  isDir : WinStr → Bool
  /-- `std::env::current_dir`. -/
  currentDir : Option WinStr
  exists_nul : ∀ p, 0 ∈ p → pathExists p = false

/-- Nothing exists. -/
def noFiles : World where
  pathExists _ := false
  isDir _ := false
  currentDir := none
  exists_nul _ _ := rfl

inductive Panic where
  /-- `PATHEXT entries must be utf8`. -/
  | notUtf8
  /-- `&ext[1..]` out of range or inside a character. -/
  | slice
  /-- `extension cannot contain path separators`. -/
  | separator
  deriving DecidableEq, Repr

variable [ToLowercase]

/-- `CommandBuilder` on Windows, which has no further fields. -/
abbrev Builder := CommandBuilder WinStr Unit

/-- `&ext[1..]`. -/
def dropFirstByte (ext : WinStr) : Except Panic WinStr :=
  match ext with
  | [] => .error .slice
  | c :: rest => if c < 0x80 then .ok rest else .error .slice

/-- The loop over the entries of `PATHEXT`. -/
def searchExtensions (w : World) (candidate : WinStr) : List WinStr → Except Panic (Option WinStr)
  | [] => .ok none
  | ext :: exts => do
    let ext ← match toStr ext with
      | some ext => Except.ok ext
      | none => .error .notUtf8
    let ext ← dropFirstByte ext
    if ext.any isSep then .error .separator
    let path := withExtension candidate ext
    if w.pathExists path then .ok (some path) else searchExtensions w candidate exts

/-- The loop over the entries of `PATH`. -/
def searchDirs (w : World) (exe : WinStr) (extensions : List WinStr) :
    List WinStr → Except Panic WinStr
  | [] => .ok exe
  | path :: paths => do
    let candidate := join path exe
    if w.pathExists candidate then .ok candidate
    else
      match ← searchExtensions w candidate extensions with
      | some found => .ok found
      | none => searchDirs w exe extensions paths

/-- `CommandBuilder::search_path`. -/
def searchPath (w : World) (b : Builder) (exe : WinStr) : Except Panic WinStr :=
  match b.getEnv (wide "PATH") with
  | some path =>
    let extensions := (b.getEnv (wide "PATHEXT")).getD (wide ".EXE")
    searchDirs w exe (splitPaths extensions) (splitPaths path)
  | none => .ok exe

end Xpty.Win
