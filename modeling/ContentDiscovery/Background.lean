import ContentDiscovery.Machine
import Mathlib.Logic.Function.Basic

/-!
# Gateways in the background

The lifecycle files of an installed gateway: `Runtime` and `running` of
`iroh-link-gateway/src/background.rs`, and the launcher of
`iroh-link-gateway/src/bin/iroh-link-gateway-background.rs`. Any number of gateways and launchers
use one state directory; the operating system interleaves their file operations, and can end each of
them anywhere. Locks are released when the process that holds them ends. `running` takes the lock
of the gateway for a moment to see whether it can.
-/

namespace ContentDiscovery

namespace Background

/-- A gateway process, by what it does next. -/
inductive GatewayPc where
  /-- it is not started -/
  | off
  /-- it locks `gateway.lock` -/
  | starting
  /-- it removes an old `stop` -/
  | locked
  /-- it removes an old `ready` -/
  | unstopped
  /-- it rotates the log -/
  | unready
  /-- it binds its listener -/
  | acquired
  /-- it writes `ready` -/
  | bound
  /-- it serves, and looks for `stop` -/
  | serving
  /-- it removes its `ready` -/
  | dropping
  /-- it removes `stop` -/
  | dropped
  /-- it closes the lock -/
  | closing
  /-- it has ended -/
  | gone
  deriving DecidableEq

/-- The gateway has the lock. -/
def GatewayPc.Holds : GatewayPc → Prop
  | .off | .starting | .gone => False
  | _ => True

/-- The gateway has removed an old `stop`, and not yet the one that stops it. -/
def GatewayPc.Listens : GatewayPc → Prop
  | .unstopped | .unready | .acquired | .bound | .serving | .dropping | .dropped => True
  | _ => False

/-- What a gateway does. -/
inductive GatewayAct where
  /-- it is started -/
  | start
  /-- `lock` -/
  | tryLock
  /-- `remove` of `stop` in `Runtime::acquire` -/
  | removeStop
  /-- `remove` of `ready` in `Runtime::acquire` -/
  | removeReady
  /-- `Runtime::acquire` returns -/
  | acquire
  /-- the listener is bound -/
  | bind
  /-- `Runtime::ready` -/
  | ready
  /-- `Runtime::stopped` returns -/
  | stopped
  /-- it ends for another reason, and drops its `Runtime` -/
  | quit
  /-- `Runtime::drop` removes `ready`, or cannot -/
  | dropReady (removed : Bool)
  /-- `Runtime::drop` removes `stop`, or cannot -/
  | dropStop (removed : Bool)
  /-- the lock is closed -/
  | close
  /-- it ends without dropping a `Runtime`: `Runtime::acquire` fails, or it is killed -/
  | exit

/-- The actions of a launcher. -/
inductive Action where
  /-- start a gateway, unless one runs -/
  | start
  /-- stop the gateway -/
  | stop
  /-- tell whether there is one -/
  | status
  deriving DecidableEq

/-- Why a launcher calls `running`. -/
inductive Probe (G : Type) where
  /-- it begins -/
  | first (action : Action)
  /-- it waits for the gateway it has started -/
  | start (child : G)
  /-- it waits for the gateway to stop -/
  | stop

/-- A launcher process, by what it does next. -/
inductive LauncherPc (G : Type) where
  /-- it is not started -/
  | off
  /-- it locks `launcher.lock` -/
  | entering (action : Action)
  /-- `running` locks `gateway.lock` -/
  | probing (why : Probe G)
  /-- `running` closes it again -/
  | probed (why : Probe G)
  /-- `start` removes an old `ready` -/
  | removing
  /-- `start` starts a gateway -/
  | spawning
  /-- `start` sleeps -/
  | waiting (child : G)
  /-- `start` looks for `ready` -/
  | looking (child : G)
  /-- `stop` writes `stop` -/
  | writing
  /-- `stop` sleeps -/
  | polling
  /-- it has ended -/
  | gone

/-- The launcher has the lock of launchers. -/
def LauncherPc.Acts {G : Type} : LauncherPc G → Prop
  | .off | .entering _ | .gone => False
  | _ => True

/-- The launcher has removed an old `ready`. -/
def LauncherPc.Awaits {G : Type} : LauncherPc G → Prop
  | .spawning | .waiting _ | .looking _ | .probing (.start _) | .probed (.start _) => True
  | _ => False

/-- What a launcher does. -/
inductive LauncherAct (G : Type) where
  /-- it is started -/
  | launch (action : Action)
  /-- it locks `launcher.lock` -/
  | enter
  /-- `running` finds no `gateway.lock` -/
  | missing
  /-- `running` tries the lock of the gateway -/
  | tryLock
  /-- `running` closes it again -/
  | unlock
  /-- an old `ready` is removed -/
  | removeReady
  /-- a gateway is started -/
  | spawn (child : G)
  /-- `start` sees that its gateway has ended -/
  | exited
  /-- `start` sees that it has not -/
  | again
  /-- `start` looks for `ready` -/
  | look
  /-- `start` has waited for too long, and kills its gateway -/
  | kill
  /-- `stop` is written -/
  | write
  /-- `stop` has slept -/
  | poll
  /-- it ends with an error, or is killed -/
  | exit

/-- A process, or its step. -/
inductive Event (G L : Type) where
  /-- of a gateway -/
  | gateway (g : G) (act : GatewayAct)
  /-- of a launcher -/
  | launcher (l : L) (act : LauncherAct G)

/-- Who has the lock of the gateway. -/
inductive Holder (G L : Type) where
  /-- a gateway -/
  | gateway (g : G)
  /-- a launcher, to see whether it can -/
  | launcher (l : L)
  deriving DecidableEq

/-- A state directory, and those who use it. -/
structure State (G L : Type) where
  /-- whether there is a file `gateway.lock` -/
  lockFile : Bool
  /-- who has `gateway.lock` -/
  lock : Option (Holder G L)
  /-- who has `launcher.lock` -/
  launcherLock : Option L
  /-- whether there is a file `stop` -/
  stop : Bool
  /-- whether there is a file `ready` -/
  ready : Bool
  /-- the gateways -/
  gateway : G → GatewayPc
  /-- the launchers -/
  launcher : L → LauncherPc G

namespace State

variable {G L : Type} [DecidableEq G] [DecidableEq L] (s : State G L)

/-- A gateway goes on. -/
def setGateway (g : G) (pc : GatewayPc) : State G L :=
  { s with gateway := Function.update s.gateway g pc }

/-- A gateway ends, and with it its lock. -/
def endGateway (g : G) : State G L :=
  { s.setGateway g .gone with
    lock := if s.lock = some (.gateway g) then none else s.lock }

/-- A launcher goes on. -/
def setLauncher (l : L) (pc : LauncherPc G) : State G L :=
  { s with launcher := Function.update s.launcher l pc }

/-- A launcher ends, and with it its locks. -/
def endLauncher (l : L) : State G L :=
  { s.setLauncher l .gone with
    lock := if s.lock = some (.launcher l) then none else s.lock
    launcherLock := if s.launcherLock = some l then none else s.launcherLock }

section

omit [DecidableEq L]

@[simp] theorem lock_setGateway (g : G) (pc : GatewayPc) : (s.setGateway g pc).lock = s.lock := rfl

@[simp] theorem launcherLock_setGateway (g : G) (pc : GatewayPc) :
    (s.setGateway g pc).launcherLock = s.launcherLock := rfl

@[simp] theorem stop_setGateway (g : G) (pc : GatewayPc) : (s.setGateway g pc).stop = s.stop := rfl

@[simp] theorem ready_setGateway (g : G) (pc : GatewayPc) :
    (s.setGateway g pc).ready = s.ready := rfl

@[simp] theorem launcher_setGateway (g : G) (pc : GatewayPc) (l' : L) :
    (s.setGateway g pc).launcher l' = s.launcher l' := rfl

@[simp] theorem gateway_setGateway (g : G) (pc : GatewayPc) (g' : G) :
    (s.setGateway g pc).gateway g' = if g' = g then pc else s.gateway g' := Function.update_apply ..

end

@[simp] theorem lock_endGateway (g : G) :
    (s.endGateway g).lock = if s.lock = some (.gateway g) then none else s.lock := rfl

@[simp] theorem launcherLock_endGateway (g : G) :
    (s.endGateway g).launcherLock = s.launcherLock := rfl

@[simp] theorem stop_endGateway (g : G) : (s.endGateway g).stop = s.stop := rfl

@[simp] theorem ready_endGateway (g : G) : (s.endGateway g).ready = s.ready := rfl

@[simp] theorem launcher_endGateway (g : G) (l' : L) :
    (s.endGateway g).launcher l' = s.launcher l' := rfl

@[simp] theorem gateway_endGateway (g : G) (g' : G) :
    (s.endGateway g).gateway g' = if g' = g then .gone else s.gateway g' := Function.update_apply ..

section

omit [DecidableEq G]

@[simp] theorem lock_setLauncher (l : L) (pc : LauncherPc G) :
    (s.setLauncher l pc).lock = s.lock := rfl

@[simp] theorem launcherLock_setLauncher (l : L) (pc : LauncherPc G) :
    (s.setLauncher l pc).launcherLock = s.launcherLock := rfl

@[simp] theorem stop_setLauncher (l : L) (pc : LauncherPc G) :
    (s.setLauncher l pc).stop = s.stop := rfl

@[simp] theorem ready_setLauncher (l : L) (pc : LauncherPc G) :
    (s.setLauncher l pc).ready = s.ready := rfl

@[simp] theorem gateway_setLauncher (l : L) (pc : LauncherPc G) (g' : G) :
    (s.setLauncher l pc).gateway g' = s.gateway g' := rfl

@[simp] theorem launcher_setLauncher (l : L) (pc : LauncherPc G) (l' : L) :
    (s.setLauncher l pc).launcher l' = if l' = l then pc else s.launcher l' :=
  Function.update_apply ..

end

@[simp] theorem lock_endLauncher (l : L) :
    (s.endLauncher l).lock = if s.lock = some (.launcher l) then none else s.lock := rfl

@[simp] theorem launcherLock_endLauncher (l : L) :
    (s.endLauncher l).launcherLock = if s.launcherLock = some l then none else s.launcherLock := rfl

@[simp] theorem stop_endLauncher (l : L) : (s.endLauncher l).stop = s.stop := rfl

@[simp] theorem ready_endLauncher (l : L) : (s.endLauncher l).ready = s.ready := rfl

@[simp] theorem gateway_endLauncher (l : L) (g' : G) :
    (s.endLauncher l).gateway g' = s.gateway g' := rfl

@[simp] theorem launcher_endLauncher (l : L) (l' : L) :
    (s.endLauncher l).launcher l' = if l' = l then .gone else s.launcher l' :=
  Function.update_apply ..

/-- A launcher knows whether a gateway runs: it returns, or goes on. -/
def known (l : L) (running : Bool) : Probe G → State G L × Option Bool
  | .first .start =>
    if running then (s.endLauncher l, some true) else (s.setLauncher l .removing, none)
  | .first .stop =>
    if running then (s.setLauncher l .writing, none) else (s.endLauncher l, some true)
  | .first .status => (s.endLauncher l, some running)
  | .start child =>
    if running then (s.setLauncher l (.looking child), none)
    else (s.setLauncher l (.waiting child), none)
  | .stop => if running then (s.setLauncher l .polling, none) else (s.endLauncher l, some true)

/-- One step of a gateway. -/
def stepGateway (g : G) : GatewayAct → State G L
  | .start => s.setGateway g .starting
  | .tryLock =>
    match s.lock with
    | none => { s.setGateway g .locked with lockFile := true, lock := some (.gateway g) }
    | some _ => { s.endGateway g with lockFile := true }
  | .removeStop => { s.setGateway g .unstopped with stop := false }
  | .removeReady => { s.setGateway g .unready with ready := false }
  | .acquire => s.setGateway g .acquired
  | .bind => s.setGateway g .bound
  | .ready => { s.setGateway g .serving with ready := true }
  | .stopped | .quit => s.setGateway g .dropping
  | .dropReady removed => { s.setGateway g .dropped with ready := s.ready && !removed }
  | .dropStop removed => { s.setGateway g .closing with stop := s.stop && !removed }
  | .close | .exit => s.endGateway g

/-- One step of a launcher, and the result it returns. -/
def stepLauncher (l : L) : LauncherAct G → State G L × Option Bool
  | .launch action => (s.setLauncher l (.entering action), none)
  | .enter =>
    match s.launcher l, s.launcherLock with
    | .entering action, none =>
      ({ s.setLauncher l (.probing (.first action)) with launcherLock := some l }, none)
    | _, _ => (s.endLauncher l, some false)
  | .missing =>
    match s.launcher l with
    | .probing why => s.known l false why
    | _ => (s, none)
  | .tryLock =>
    match s.launcher l with
    | .probing why =>
      match s.lock with
      | none => ({ s.setLauncher l (.probed why) with lock := some (.launcher l) }, none)
      | some _ => s.known l true why
    | _ => (s, none)
  | .unlock =>
    match s.launcher l with
    | .probed why => { s with lock := none }.known l false why
    | _ => (s, none)
  | .removeReady => ({ s.setLauncher l .spawning with ready := false }, none)
  | .spawn child => ((s.setGateway child .starting).setLauncher l (.waiting child), none)
  | .again =>
    match s.launcher l with
    | .waiting child => (s.setLauncher l (.probing (.start child)), none)
    | _ => (s, none)
  | .look =>
    match s.launcher l with
    | .looking child =>
      if s.ready then (s.endLauncher l, some true) else (s.setLauncher l (.waiting child), none)
    | _ => (s, none)
  | .kill =>
    match s.launcher l with
    | .waiting child => ((s.endGateway child).endLauncher l, some false)
    | _ => (s, none)
  | .write => ({ s.setLauncher l .polling with stop := true }, none)
  | .poll => (s.setLauncher l (.probing .stop), none)
  | .exited | .exit => (s.endLauncher l, some false)

/-- When a gateway can take a step. -/
def GatewayEnabled (g : G) : GatewayAct → Prop
  | .start => s.gateway g = .off
  | .tryLock => s.gateway g = .starting
  | .removeStop => s.gateway g = .locked
  | .removeReady => s.gateway g = .unstopped
  | .acquire => s.gateway g = .unready
  | .bind => s.gateway g = .acquired
  | .ready => s.gateway g = .bound
  | .stopped => s.gateway g = .serving ∧ s.stop = true
  | .quit => s.gateway g = .acquired ∨ s.gateway g = .bound ∨ s.gateway g = .serving
  | .dropReady _ => s.gateway g = .dropping
  | .dropStop _ => s.gateway g = .dropped
  | .close => s.gateway g = .closing
  | .exit => s.gateway g ≠ .off ∧ s.gateway g ≠ .gone

/-- When a launcher can take a step. -/
def LauncherEnabled (l : L) : LauncherAct G → Prop
  | .launch _ => s.launcher l = .off
  | .enter => ∃ action, s.launcher l = .entering action
  | .missing => s.lockFile = false ∧ ∃ why, s.launcher l = .probing why
  | .tryLock => s.lockFile = true ∧ ∃ why, s.launcher l = .probing why
  | .unlock => ∃ why, s.launcher l = .probed why
  | .removeReady => s.launcher l = .removing
  | .spawn child => s.launcher l = .spawning ∧ s.gateway child = .off
  | .exited => ∃ child, s.launcher l = .waiting child ∧ s.gateway child = .gone
  | .again => ∃ child, s.launcher l = .waiting child ∧ s.gateway child ≠ .gone
  | .look => ∃ child, s.launcher l = .looking child
  | .kill => ∃ child, s.launcher l = .waiting child
  | .write => s.launcher l = .writing
  | .poll => s.launcher l = .polling
  | .exit => s.launcher l ≠ .off ∧ s.launcher l ≠ .gone

end State

/-- A state directory in which no process has begun, whatever files were left there. -/
def machine (G L : Type) [DecidableEq G] [DecidableEq L] :
    Machine (State G L) (Event G L) (Option Bool) where
  init s := s.lock = none ∧ s.launcherLock = none ∧ (∀ g, s.gateway g = .off) ∧
    ∀ l, s.launcher l = .off
  enabled _ s
    | .gateway g act => s.GatewayEnabled g act
    | .launcher l act => s.LauncherEnabled l act
  step s
    | .gateway g act => (s.stepGateway g act, none)
    | .launcher l act => s.stepLauncher l act

end Background

end ContentDiscovery
