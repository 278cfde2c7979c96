import Xpty.BuilderHistory
import Xpty.UnixEnv
import Xpty.UnixExec

/- What a program on Unix is started with, from the calls that were made on its builder to
   what `execvp` leaves. `as_command` turns the builder into a command and the child turns
   the command into its own state; `program_from_history` puts both together, for any
   builder in any run of the parent. -/
namespace Xpty.UnixSpawn

open BuilderHistory Unix

variable {N : Type}

/-! Builders on Unix. -/

/-- A call that only Unix has. -/
inductive OwnCall where
  | umask (mask : Option UInt32)
  | preExec (hook : Hook)

def OwnCall.apply (b : Builder) : OwnCall → Builder
  | .umask mask => Unix.umask b mask
  | .preExec hook => Unix.preExec b hook

/-- The base environment is that of the parent and of the password database. -/
def platform (N : Type) : Platform UnixStr UnixFields OwnCall (World N × List (UnixStr × UnixStr)) where
  fresh := { umask := none, preExecHooks := [] }
  getBaseEnv now := Unix.getBaseEnv now.1 now.2
  own := OwnCall.apply
  clone := cloneBuilder
  inherited now := inherited_getBaseEnv now.1 now.2
  own_eq b x := by cases x <;> rfl
  clone_eq _ := rfl

abbrev Deed := BuilderHistory.Deed UnixStr OwnCall

abbrev History := BuilderHistory.History UnixStr OwnCall

abbrev Act (N : Type) := BuilderHistory.Act UnixStr OwnCall (World N × List (UnixStr × UnixStr))

def umaskOf : Deed → Option (Option UInt32)
  | .own (.umask mask) => some mask
  | _ => none

def hookOf : Deed → Option Hook
  | .own (.preExec hook) => some hook
  | _ => none

def isClone : Deed → Bool
  | .cloned => true
  | _ => false

/-- The umask that was set last. -/
def umaskAfter (h : History) : Option UInt32 := (h.deeds.filterMap umaskOf).getLast?.getD none

/-- The hooks that were added since the builder was cloned. -/
def hooksAfter (h : History) : List Hook :=
  (h.deeds.rtakeWhile fun d => !isClone d).filterMap hookOf

/-- What a deed makes of the fields that only Unix has. -/
structure OwnApplied (b : Builder) (d : Deed) (b' : Builder) : Prop where
  umask : b'.unix.umask = (umaskOf d).getD b.unix.umask
  hooks : b'.unix.preExecHooks = if isClone d then [] else b.unix.preExecHooks ++ (hookOf d).toList

theorem ownApplied (b : Builder) (d : Deed) : OwnApplied b d (d.apply (platform N) b) := by
  cases d with
  | call op =>
    have hunix : (BuilderHistory.Deed.apply (platform N) b (.call op)).unix = b.unix := by
      cases h : op.apply b with
      | ok b' => rw [apply_ok h, unix_of_apply h]
      | error message => rw [apply_error h]
    exact ⟨congrArg UnixFields.umask hunix,
      (congrArg UnixFields.preExecHooks hunix).trans (List.append_nil _).symm⟩
  | own x =>
    cases x with
    | umask mask => exact ⟨rfl, (List.append_nil _).symm⟩
    | preExec hook => exact ⟨rfl, rfl⟩
  | argvMut args => exact ⟨rfl, (List.append_nil _).symm⟩
  | cloned => exact ⟨rfl, rfl⟩

theorem start_unix (base : Envs UnixStr) (c : Start UnixStr) :
    (c.build (platform N) base).unix = { umask := none, preExecHooks := [] } := by
  cases c <;> rfl

theorem umask_replay (base : Envs UnixStr) (h : History) :
    (h.replay (platform N) base).unix.umask = umaskAfter h := by
  have hstart : (h.start.build (platform N) base).unix.umask = none :=
    congrArg UnixFields.umask (start_unix base h.start)
  rw [umaskAfter, ← hstart]
  exact @Cell.register _ _ _ (BuilderHistory.Deed.apply (platform N)) (fun b : Builder => b.unix.umask)
    umaskOf (fun b d => (ownApplied b d).umask) h.deeds _

theorem hooks_deeds (b : Builder) (hb : b.unix.preExecHooks = []) (ds : List Deed) :
    (ds.foldl (BuilderHistory.Deed.apply (platform N)) b).unix.preExecHooks =
      (ds.rtakeWhile fun d => !isClone d).filterMap hookOf := by
  induction ds using List.reverseRecOn with
  | nil => exact hb
  | append_singleton ds d ih =>
    rw [List.foldl_append, List.foldl_cons, List.foldl_nil, (ownApplied _ d).hooks, ih]
    cases hd : isClone d with
    | true =>
      rw [List.rtakeWhile_concat_neg _ _ _ (by rw [hd]; exact Bool.false_ne_true)]
      rfl
    | false =>
      have hlast : [d].filterMap hookOf = (hookOf d).toList := by
        cases hh : hookOf d with
        | none => exact List.filterMap_cons_none hh
        | some hook => exact List.filterMap_cons_some hh
      rw [List.rtakeWhile_concat_pos _ _ _ (by rw [hd]; rfl), List.filterMap_append, hlast]
      rfl

theorem hooks_replay (base : Envs UnixStr) (h : History) :
    (h.replay (platform N) base).unix.preExecHooks = hooksAfter h :=
  hooks_deeds _ (congrArg UnixFields.preExecHooks (start_unix base h.start)) h.deeds

/-! Their programs. -/

/-- The home directory of the password database, or the root. -/
def passwdHome (w : World N) : UnixStr := (w.passwd.bind fun ent => toStr ent.pwDir).getD (bytes "/")

/-- What a history says of the program that is started from it. -/
structure StartedWith (base : Envs UnixStr) (h : History) (w : World N) (m : Machine)
    (cmd : Command) (st : ChildState) : Prop where
  /-- The arguments, or for the default program the name of a login shell. -/
  args : cmd.arg0 :: cmd.args =
    if h.args = [] then [bytes "-" ++ basename cmd.program] else h.args
  /-- The default program: `SHELL` if it can be executed, or that of the password database. -/
  shell : h.args = [] → cmd.program = (((h.var base (bytes "SHELL")).bind toStr).filter fun shell =>
    (w.access shell .X_OK).isOk).getD (getPasswdShell w)
  /-- Nothing is inherited, and only `SHELL` is never missing. -/
  vars : cmd.envCleared = true ∧ ∀ k, cmd.vars[k]? =
    (h.var base k).or (if k = bytes "SHELL" then some (getPasswdShell w) else none)
  dir : cmd.currentDir = some (((h.cwd.filter w.isDir).or
    ((h.var base (bytes "HOME")).bind toStr)).getD (passwdHome w))
  umask : st.umask = umaskAfter h
  fds : ∀ fd, st.fds fd =
    if fd ∈ (hooksAfter h).flatMap Hook.closes then none
    else if fd ∈ [0, 1, 2] then some .slave
    else if Closes m fd ∨ fd = m.pipe ∨ m.cloexec fd = true then none
    else m.fds fd

theorem getHomeDir_eq (w : World N) (b : Builder) : getHomeDir w b =
    ((b.getEnv (bytes "HOME")).bind toStr).getD (passwdHome w) := by
  rw [getHomeDir, passwdHome]
  cases (b.getEnv (bytes "HOME")).bind toStr with
  | some home => rfl
  | none => cases w.passwd <;> rfl

theorem getShell_eq (w : World N) (b : Builder) : getShell w b =
    (((b.getEnv (bytes "SHELL")).bind toStr).filter fun shell =>
      (w.access shell .X_OK).isOk).getD (getPasswdShell w) := by
  rw [getShell]
  cases (b.getEnv (bytes "SHELL")).bind toStr with
  | none => rfl
  | some shell =>
    rw [Option.filter_some]
    dsimp only
    cases w.access shell .X_OK <;> rfl

theorem getShell_unset {w : World N} {b : Builder} (h : b.getEnv (bytes "SHELL") = none) :
    getShell w b = getPasswdShell w := by
  rw [getShell_eq, h]
  rfl

theorem startedWith {now : World N × List (UnixStr × UnixStr)} {h : History} {b : Builder}
    (hreplay : b = h.replay (platform N) (Unix.getBaseEnv now.1 now.2)) {w : World N} {m : Machine}
    {cmd : Command} {st : ChildState} (hcmd : asCommand w b = .ok cmd)
    (hexec : programState m cmd (preExecClosure m b.controllingTty b.unix.umask
      b.unix.preExecHooks) = some st) :
    StartedWith (Unix.getBaseEnv now.1 now.2) h w m cmd st := by
  have hb : FromHistory (Unix.getBaseEnv now.1 now.2) h b :=
    hreplay ▸ @fromHistory_replay _ _ _ _ _ _ (platform N) now h
  obtain ⟨hdir, hclear, hvars⟩ := asCommand_setup hcmd
  obtain ⟨-, rfl⟩ := (programState_iff m b cmd st).mp hexec
  refine ⟨?_, ?_, ⟨hclear, ?_⟩, ?_, ?_, ?_⟩
  · rw [← hb.args]
    cases hargs : b.args with
    | nil =>
      rw [asCommand_default hargs] at hcmd
      cases hcmd
      rfl
    | cons exe args =>
      rw [asCommand_prog hargs] at hcmd
      cases hs : searchPath w b exe (chosenDir w b) with
      | error e => rw [hs] at hcmd; cases hcmd
      | ok resolved =>
        rw [hs] at hcmd
        cases hcmd
        rfl
  · intro hargs
    rw [← hb.args] at hargs
    rw [asCommand_default hargs] at hcmd
    cases hcmd
    rw [← hb.env]
    exact getShell_eq w b
  · intro k
    rw [hvars, getElem?_childVars, ← hb.env]
    split
    · rename_i hk
      subst hk
      cases hget : b.getEnv (bytes "SHELL") with
      | none => rw [getShell_unset hget]; rfl
      | some shell => rfl
    · exact Option.or_none.symm
  · rw [hdir, chosenDir, getHomeDir_eq, hb.cwd, hb.env]
    cases h.cwd.filter w.isDir <;> rfl
  · show b.unix.umask = _
    rw [hreplay, umask_replay]
  · intro fd
    rw [finalState_fds, hookCloses, hreplay, hooks_replay]

/-- A builder that refuses an argument and gets a umask and a hook, and its clone; the
environment has changed when that gets its variable. -/
def parent : List (Act TreeFs.Node) :=
  [.make .newDefaultProg, .outside (inH, []), .on 0 (.call (.arg (bytes "-x"))),
    .on 0 (.own (.umask (some 18))), .on 0 (.own (.preExec { closes := [1], result := .ok () })),
    .clone 0, .on 1 (.call (.env (.env (bytes "A") (bytes "1"))))]

end Xpty.UnixSpawn
