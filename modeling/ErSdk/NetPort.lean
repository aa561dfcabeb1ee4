import Mathlib.Data.Set.Insert
import Mathlib.Logic.Function.Basic
import ErSdk.Basic
import ErSdk.Interaction

namespace ErSdk.NetPort

open Interaction Error

/-- The operations of struct net_dev_operations that a client calls. A socket is named by its
number: how many were handed out before it. The host and the port are those of the server. `wild`
is an access to memory that is not allocated. -/
inductive NetOp
  | socket
  | connect (sock : Nat)
  | close (sock : Nat)
  | recv (sock : Nat) (size : Nat)
  | send (sock : Nat) (buf : List UInt8)
  | lookup
  | wild
  deriving DecidableEq, Repr

/-- The result of an operation and its out parameters: the new socket, the bytes received, or how
many were sent. -/
@[reducible] def NetAnswer : NetOp → Type
  | .socket => Int × Nat
  | .connect _ => Int
  | .close _ => Int
  | .recv _ _ => Int × List UInt8
  | .send _ _ => Int × Nat
  | .lookup => Int
  | .wild => Unit

abbrev Net := Prog NetOp NetAnswer

abbrev net (q : NetOp) : Net (NetAnswer q) := Prog.call q

inductive Stage
  | closed
  | opened
  | linked
  deriving DecidableEq, Repr

/-- What is not closed, by the stages of sockets or of what stands behind them. -/
def inUse {κ : Type} (stage : κ → Stage) : Set κ := {c | stage c ≠ .closed}

section

variable {κ : Type} [DecidableEq κ] {stage : κ → Stage} {c : κ}

theorem inUse_open {s : Stage} (h : s ≠ .closed) :
    inUse (Function.update stage c s) = insert c (inUse stage) := by
  ext d
  by_cases hd : d = c
  · subst hd
    simp [inUse, h]
  · simp [inUse, hd]

theorem inUse_alter {s : Stage} (hs : s ≠ .closed) (hc : stage c ≠ .closed) :
    inUse (Function.update stage c s) = inUse stage := by
  rw [inUse_open hs]
  exact Set.insert_eq_of_mem hc

theorem inUse_close : inUse (Function.update stage c .closed) = inUse stage \ {c} := by
  ext d
  by_cases hd : d = c
  · subst hd
    simp [inUse]
  · simp [inUse, hd]

end

/-- How many sockets were handed out, and what has become of each. -/
structure Sockets where
  opened : Nat
  stage : Nat → Stage

namespace Sockets

def none : Sockets := ⟨0, fun _ => .closed⟩

def set (u : Sockets) (k : Nat) (stage : Stage) : Sockets :=
  { u with stage := Function.update u.stage k stage }

@[simp] theorem set_opened (u : Sockets) (k : Nat) (stage : Stage) :
    (u.set k stage).opened = u.opened := rfl

@[simp] theorem set_stage (u : Sockets) (k : Nat) (stage : Stage) :
    (u.set k stage).stage = Function.update u.stage k stage := rfl

end Sockets

def netAllowed (u : Sockets) : NetOp → Prop
  | .socket => True
  | .connect k => u.stage k ≠ .closed
  | .close k => u.stage k ≠ .closed
  | .recv k _ => u.stage k = .linked
  | .send k _ => u.stage k = .linked
  | .lookup => True
  | .wild => False

def netSound (u : Sockets) : (q : NetOp) → NetAnswer q → Prop
  | .socket, a => a.1 = errSuccess → a.2 = u.opened ∧ u.stage a.2 = .closed
  | .connect _, _ => True
  | .close _, _ => True
  | .recv _ size, a => a.1 = errSuccess → a.2.length ≤ size
  | .send _ buf, a => a.1 = errSuccess → a.2 ≤ buf.length
  | .lookup, _ => True
  | .wild, _ => True

def netNext (u : Sockets) : (q : NetOp) → NetAnswer q → Sockets
  | .socket, a => if a.1 = errSuccess then { u.set u.opened .opened with opened := u.opened + 1 } else u
  | .connect k, a => if a = errSuccess then u.set k .linked else u
  | .close k, _ => u.set k .closed
  | .recv _ _, _ => u
  | .send _ _, _ => u
  | .lookup, _ => u
  | .wild, _ => u

/-- The promises of net_port.h: data flows over connected sockets only, nothing is done with a
socket that is closed, and never are more bytes reported than the caller has room for or offers. -/
def netPort : Contract NetOp NetAnswer Sockets := ⟨netAllowed, netSound, netNext⟩

end ErSdk.NetPort
