import Xpty.Common
import Xpty.OsStr

/- Unix paths and the filesystem. `join`, `isAbsolute` and `splitPaths` are those of
   `std::path` and `std::env`. A filesystem resolves a path from a directory to a
   node or an errno; `is_dir` and `access` are read off the node. The laws of path
   resolution that are used are fields: an absolute path does not depend on the
   starting directory, `p/q` is `q` resolved from what `p` resolves to, and `p/` is
   a directory. A program search uses the answers for each path only, which are a
   `Lookup`.

   `TreeFs` is a filesystem given as a finite tree, for which the laws are proved. -/
namespace Xpty.Unix

def SEP : UInt8 := 0x2F
def COLON : UInt8 := 0x3A
def DOT : UInt8 := 0x2E

def isAbsolute (p : UnixStr) : Bool := p.head? == some SEP

/-- `Path::join`: an absolute `q` replaces `p`. -/
def join (p q : UnixStr) : UnixStr :=
  if isAbsolute q then q
  else if p = [] ∨ p.getLast? = some SEP then p ++ q
  else p ++ SEP :: q

/-- `std::env::split_paths`. -/
def splitPaths (path : UnixStr) : List UnixStr := path.splitOn COLON

/-- The first component of a relative path: what stands before its first `/`. -/
def firstComponent (p : UnixStr) : UnixStr := p.takeWhile (· != SEP)

/-- `is_cwd_relative_path`: the first component is `.` or `..`. -/
def isCwdRelativePath (p : UnixStr) : Bool :=
  !isAbsolute p && (firstComponent p == [DOT] || firstComponent p == [DOT, DOT])

@[simp] theorem isAbsolute_nil : isAbsolute [] = false := rfl

theorem isAbsolute_append {p q : UnixStr} (h : p ≠ []) : isAbsolute (p ++ q) = isAbsolute p := by
  cases p with
  | nil => exact absurd rfl h
  | cons c p => rfl

/-- A join is absolute exactly when one of its parts is. -/
theorem isAbsolute_join {p q : UnixStr} :
    isAbsolute (join p q) = (isAbsolute p || isAbsolute q) := by
  cases hq : isAbsolute q with
  | true => simp [join, hq]
  | false =>
    cases p with
    | nil => simp [join, hq]
    | cons c p =>
      simp only [join, hq, Bool.false_eq_true, if_false, Bool.or_false]
      split <;> rfl

theorem join_of_isAbsolute {p q : UnixStr} (h : isAbsolute q = true) : join p q = q := if_pos h

/-- The separator that `join` puts after `p`, if any. -/
def glue (p : UnixStr) : UnixStr := if p = [] ∨ p.getLast? = some SEP then [] else [SEP]

theorem join_of_relative {p q : UnixStr} (h : isAbsolute q = false) : join p q = p ++ glue p ++ q := by
  simp only [join, h, Bool.false_eq_true, if_false, glue]
  split <;> simp

theorem glue_append {p q : UnixStr} (h : q ≠ []) : glue (p ++ q) = glue q := by
  simp [glue, h]

theorem glue_glue (p : UnixStr) : glue (p ++ glue p) = [] := by
  by_cases h : p = [] ∨ p.getLast? = some SEP
  · simp [glue, h]
  · simp [glue, h]

theorem join_assoc (p q r : UnixStr) : join (join p q) r = join p (join q r) := by
  cases hr : isAbsolute r with
  | true =>
    rw [join_of_isAbsolute hr, join_of_isAbsolute hr, join_of_isAbsolute hr]
  | false =>
    cases hq : isAbsolute q with
    | true =>
      -- `q` replaces what is before it, on both sides
      have hqr : isAbsolute (join q r) = true := by rw [isAbsolute_join, hq]; rfl
      rw [join_of_isAbsolute hq, join_of_isAbsolute hqr]
    | false =>
      have hqr : isAbsolute (join q r) = false := by rw [isAbsolute_join, hq, hr]; rfl
      rw [join_of_relative hr, join_of_relative hqr, join_of_relative hr, join_of_relative hq]
      cases q with
      | nil => rw [List.append_nil, glue_glue]; simp [glue]
      | cons c q => rw [glue_append (by simp)]; simp

/-- A filesystem over nodes `N`. -/
structure UnixFs (N : Type) where
  resolve : N → UnixStr → Except Errno N
  isDir : N → Bool
  /-- `X_OK`: a regular file may be executed, a directory searched. -/
  xOk : N → Bool
  resolve_nil : ∀ d, resolve d [] = .error ENOENT
  resolve_absolute : ∀ d d' p, isAbsolute p = true → resolve d p = resolve d' p
  resolve_join : ∀ d p q, p ≠ [] → q ≠ [] → isAbsolute q = false →
    resolve d (join p q) = (resolve d p).bind fun n => resolve n q
  resolve_slash : ∀ d p n, p ≠ [] → resolve d (join p []) = .ok n → isDir n = true

/-- An entry of the password database, as `getpwuid` returns it. -/
structure Passwd where
  pwDir : UnixStr
  pwShell : UnixStr

/-- What the parent sees: the filesystem, its working directory and its entry of
the password database. -/
structure World (N : Type) where
  fs : UnixFs N
  cwd : N
  passwd : Option Passwd

inductive AccessFlags where
  | F_OK
  | X_OK

/-- What `Path::is_dir` and `access(2)` answer for each path. -/
structure Lookup where
  isDir : UnixStr → Bool
  access : UnixStr → AccessFlags → Except Errno Unit
  access_F_OK : ∀ p, (access p .X_OK).isOk = true → (access p .F_OK).isOk = true

namespace World

variable {N : Type}

/-- `Path::is_dir`, from the parent's working directory. -/
def isDir (w : World N) (p : UnixStr) : Bool :=
  match w.fs.resolve w.cwd p with
  | .ok n => w.fs.isDir n
  | .error _ => false

/-- `access(2)`, from the parent's working directory. -/
def access (w : World N) (p : UnixStr) (flags : AccessFlags) : Except Errno Unit :=
  match w.fs.resolve w.cwd p, flags with
  | .ok n, .X_OK => if w.fs.xOk n then .ok () else .error EACCES
  | .ok _, .F_OK => .ok ()
  | .error e, _ => .error e

theorem access_X_OK {w : World N} {p : UnixStr} : w.access p .X_OK = .ok () ↔
    ∃ n, w.fs.resolve w.cwd p = .ok n ∧ w.fs.xOk n = true := by
  cases h : w.fs.resolve w.cwd p with
  | ok n => cases hx : w.fs.xOk n <;> simp [access, h, hx]
  | error e => simp [access, h]

/-- The answers of a filesystem, from the parent's working directory. -/
def lookup (w : World N) : Lookup where
  isDir := w.isDir
  access := w.access
  access_F_OK p h := by
    unfold access at h ⊢
    cases hp : w.fs.resolve w.cwd p with
    | ok n => rfl
    | error e => rw [hp] at h; cases h

instance : CoeOut (World N) Lookup := ⟨lookup⟩

@[simp] theorem lookup_isDir (w : World N) : w.lookup.isDir = w.isDir := rfl

@[simp] theorem lookup_access (w : World N) : w.lookup.access = w.access := rfl

end World

/-! Filesystems given as finite trees. -/

def ENOTDIR : Errno := 20

inductive FileKind where
  | dir
  | file (executable : Bool)
  deriving DecidableEq, Repr

/-- The nodes, each named by its components below the root. -/
abbrev TreeFs := List (List UnixStr × FileKind)

namespace TreeFs

abbrev Node := List UnixStr

def kind (t : TreeFs) : Node → Option FileKind
  | [] => some .dir
  | n => List.lookup n t

/-- One component from `n`, which has to be a directory. -/
def walkOne (t : TreeFs) (n : Node) (c : UnixStr) : Except Errno Node :=
  if t.kind n ≠ some .dir then .error ENOTDIR
  else if c = [] ∨ c = [DOT] then .ok n
  else if c = [DOT, DOT] then .ok n.dropLast
  else if (t.kind (n ++ [c])).isSome then .ok (n ++ [c])
  else .error ENOENT

def walk (t : TreeFs) : Node → List UnixStr → Except Errno Node
  | n, [] => .ok n
  | n, c :: cs => (t.walkOne n c).bind fun m => walk t m cs

def resolve (t : TreeFs) (d : Node) (p : UnixStr) : Except Errno Node :=
  if p = [] then .error ENOENT
  else t.walk (if isAbsolute p then [] else d) (p.splitOn SEP)

theorem walk_append (t : TreeFs) : ∀ (cs ds : List UnixStr) (n : Node),
    t.walk n (cs ++ ds) = (t.walk n cs).bind fun m => t.walk m ds
  | [], _, _ => rfl
  | c :: cs, ds, n => by
    simp only [List.cons_append, walk]
    cases t.walkOne n c with
    | ok m => exact walk_append t cs ds m
    | error e => rfl

/-- An empty component checks that the node is a directory, as any other does. -/
theorem walk_nil_cons (t : TreeFs) (n : Node) {cs : List UnixStr} (h : cs ≠ []) :
    t.walk n ([] :: cs) = t.walk n cs := by
  cases cs with
  | nil => exact absurd rfl h
  | cons c cs =>
    by_cases hk : t.kind n = some .dir
    · simp [walk, walkOne, hk, Except.bind]
    · simp [walk, walkOne, hk, Except.bind]

/-- The node a path starts from. -/
def start (d : Node) (p : UnixStr) : Node := if isAbsolute p then [] else d

theorem resolve_eq_walk (t : TreeFs) (d : Node) {p : UnixStr} (h : p ≠ []) :
    t.resolve d p = t.walk (start d p) (p.splitOn SEP) := if_neg h

theorem resolve_absolute (t : TreeFs) (d d' : Node) {p : UnixStr} (h : isAbsolute p = true) :
    t.resolve d p = t.resolve d' p := by
  simp [resolve, h]

theorem resolve_join (t : TreeFs) (d : Node) {p q : UnixStr} (hp : p ≠ []) (hq : q ≠ [])
    (hr : isAbsolute q = false) :
    t.resolve d (join p q) = (t.resolve d p).bind fun n => t.resolve n q := by
  have hstart : ∀ s, start d (p ++ s) = start d p := by
    intro s; rw [start, isAbsolute_append hp, start]
  have hsnd : ∀ n, t.resolve n q = t.walk n (q.splitOn SEP) := by
    intro n; rw [resolve_eq_walk t n hq, start, hr]; rfl
  simp only [join, hr, Bool.false_eq_true, if_false, hp, false_or, hsnd]
  by_cases hl : p.getLast? = some SEP
  · -- `p` ends in a separator, so its last component is empty
    obtain ⟨p', rfl⟩ := List.getLast?_eq_some_iff.mp hl
    rw [if_pos hl, resolve_eq_walk t d (by simp), resolve_eq_walk t d hp, hstart]
    rw [List.append_assoc, List.singleton_append, List.splitOn_append_cons_self,
      List.splitOn_append_cons_self, List.splitOn_nil, walk_append, walk_append]
    cases t.walk (start d (p' ++ [SEP])) (p'.splitOn SEP) with
    | error e => rfl
    | ok m => exact (walk_nil_cons t m (List.splitOn_ne_nil SEP q)).symm.trans (walk_append t [[]] _ m)
  · rw [if_neg hl, resolve_eq_walk t d (by simp), resolve_eq_walk t d hp, hstart,
      List.splitOn_append_cons_self, walk_append]

theorem resolve_slash (t : TreeFs) (d : Node) {p : UnixStr} {n : Node} (hp : p ≠ [])
    (h : t.resolve d (join p []) = .ok n) : (t.kind n == some .dir) = true := by
  obtain ⟨s, hs⟩ : ∃ s, join p [] = s ++ [SEP] := by
    rw [join_of_relative rfl, List.append_nil]
    by_cases hl : p.getLast? = some SEP
    · obtain ⟨s, rfl⟩ := List.getLast?_eq_some_iff.mp hl
      exact ⟨s, by simp [glue]⟩
    · exact ⟨p, by simp [glue, hp, hl]⟩
  rw [hs, resolve_eq_walk t d (by simp), List.splitOn_append_cons_self, List.splitOn_nil,
    walk_append] at h
  cases hw : t.walk (start d (s ++ [SEP])) (s.splitOn SEP) with
  | error e => rw [hw] at h; cases h
  | ok m =>
    by_cases hk : t.kind m = some .dir
    · simp [hw, Except.bind, walk, walkOne, hk] at h
      simp [← h, hk]
    · simp [hw, Except.bind, walk, walkOne, hk] at h

/-- The tree as a filesystem. -/
def toUnixFs (t : TreeFs) : UnixFs Node where
  resolve := t.resolve
  isDir n := t.kind n == some .dir
  resolve_slash d _ _ := t.resolve_slash d
  xOk n := t.kind n == some .dir || t.kind n == some (.file true)
  resolve_nil _ := if_pos rfl
  resolve_absolute d d' _ := t.resolve_absolute d d'
  resolve_join d _ _ := t.resolve_join d

end TreeFs

end Xpty.Unix
