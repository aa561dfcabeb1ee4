import ErSdk.Basic
import ErSdk.Runs
import ErSdk.Linked

namespace ErSdk.Pclb

open Linked Runs Error

/-- What a registration consists of, without the links of its record. -/
structure Registration where
  clb : Nat
  period : UInt64
  cnt : UInt64
  id : Int
  param : Nat
deriving DecidableEq

structure PeriodicClb extends Registration where
  next : Option Nat
  shadowNext : Option Nat
deriving DecidableEq

inductive Fault
  | useAfterFree
  | endlessList
  | overflow
deriving DecidableEq

/-- The static variables of the module and the records they lead to. -/
structure Statics where
  cells : Memory PeriodicClb
  periodicClbHead : Option Nat
  shadowPeriodicClbHead : Option Nat
  clbObjCnt : Int
  clbNum : Int
  lastSystemTime : SysTime
deriving DecidableEq

def Statics.zero : Statics := ⟨[], none, none, 0, 0, 0⟩

def deref (m : Memory PeriodicClb) (a : Nat) : Except Fault PeriodicClb :=
  match fetch m a with
  | some obj => .ok obj
  | none => .error .useAfterFree

def int32Max : Int := 2 ^ 31 - 1

/-- `n++` of an int32_t, which must not overflow. -/
def increment (n : Int) : Except Fault Int :=
  if n < int32Max then .ok (n + 1) else .error .overflow

/-- The arguments of a `pclb_register` call, and whether its sf_malloc gets memory. -/
structure RegisterArgs where
  period : UInt64
  fn : Nat
  param : Nat
  allocated : Bool
deriving DecidableEq

def lastShadow (m : Memory PeriodicClb) : Nat → Nat → Except Fault Nat
  | 0, _ => .error .endlessList
  | fuel + 1, a => do
      let obj ← deref m a
      match obj.shadowNext with
      | none => .ok a
      | some b => lastShadow m fuel b

def appendShadow (new : Nat) (head : Option Nat) (m : Memory PeriodicClb) :
    Except Fault (Option Nat × Memory PeriodicClb) :=
  match head with
  | none => .ok (some new, m)
  | some first => do
      let last ← lastShadow m m.length first
      let obj ← deref m last
      .ok (some first, store m last { obj with shadowNext := some new })

def pclbRegister (args : RegisterArgs) (s : Statics) :
    Except Fault ((Int × Option Int) × Statics) :=
  if args.allocated then do
    let new : PeriodicClb := ⟨⟨args.fn, args.period, 0, s.clbObjCnt, args.param⟩, none, none⟩
    let (head, cells) ←
      appendShadow s.cells.length s.shadowPeriodicClbHead (allocate s.cells new)
    let clbObjCnt ← increment s.clbObjCnt
    let clbNum ← increment s.clbNum
    .ok ((errSuccess, some s.clbObjCnt),
      { s with cells := cells, shadowPeriodicClbHead := head, clbObjCnt := clbObjCnt,
               clbNum := clbNum })
  else .ok ((errNoMemory, none), s)

/-- The search of `pclb_unregister` behind a record that is not the wanted one. -/
def removeAfter (id : Int) : Nat → Nat → Memory PeriodicClb →
    Except Fault (Option (Memory PeriodicClb))
  | 0, _, _ => .error .endlessList
  | fuel + 1, prev, m => do
      let prevObj ← deref m prev
      match prevObj.next with
      | none => .ok none
      | some a => do
          let obj ← deref m a
          if obj.id = id then
            .ok (some (release (store m prev { prevObj with next := obj.next }) a))
          else removeAfter id fuel a m

def pclbUnregister (id : Int) (s : Statics) : Except Fault (Int × Statics) :=
  match s.periodicClbHead with
  | none => .ok (errFailure, s)
  | some first => do
      let obj ← deref s.cells first
      if obj.id = id then
        .ok (errSuccess, { s with periodicClbHead := obj.next, cells := release s.cells first,
                                  clbNum := s.clbNum - 1 })
      else
        match ← removeAfter id s.cells.length first s.cells with
        | none => .ok (errFailure, s)
        | some cells => .ok (errSuccess, { s with cells := cells, clbNum := s.clbNum - 1 })

def pclbGetClbNum (s : Statics) : Int := s.clbNum

def relink : Nat → Nat → Memory PeriodicClb → Except Fault (Memory PeriodicClb)
  | 0, _, _ => .error .endlessList
  | fuel + 1, a, m => do
      let obj ← deref m a
      match obj.shadowNext with
      | none => .ok m
      | some b => relink fuel b (store m a { obj with next := some b })

/-- The elapsed time and the new `last_system_time`; without `ms` the clock is read twice. -/
def elapsed (ms now later last : SysTime) : SysTime × SysTime :=
  if ms = 0 then (now - last, later) else (ms, last + ms)

/-- A record that a run of `pclb_task` visits, and whether its callback is called. -/
structure Visit where
  id : Int
  called : Bool
deriving DecidableEq

def registerAll : List RegisterArgs → Statics → Except Fault Statics
  | [], s => .ok s
  | args :: rest, s => do
      let (_, s) ← pclbRegister args s
      registerAll rest s

/-- One round of the loop of `pclb_task`; `within` gives the registrations a callback makes. -/
def visitOne (dtime : SysTime) (within : Int → List RegisterArgs) (a : Nat) (s : Statics) :
    Except Fault (Visit × Statics) := do
  let obj ← deref s.cells a
  let cnt := obj.cnt + dtime.toUInt64
  let s := { s with cells := store s.cells a { obj with cnt := cnt } }
  if obj.period < cnt then
    let s ← registerAll (within obj.id) s
    let obj' ← deref s.cells a
    .ok (⟨obj.id, true⟩, { s with cells := store s.cells a { obj' with cnt := 0 } })
  else .ok (⟨obj.id, false⟩, s)

def visitFrom (dtime : SysTime) (within : Int → List RegisterArgs) :
    Nat → Option Nat → Statics → Except Fault (List Visit × Statics)
  | _, none, s => .ok ([], s)
  | 0, some _, _ => .error .endlessList
  | fuel + 1, some a, s => do
      let (visit, s) ← visitOne dtime within a s
      let obj ← deref s.cells a
      let (visits, s) ← visitFrom dtime within fuel obj.next s
      .ok (visit :: visits, s)

def pclbTask (ms now later : SysTime) (within : Int → List RegisterArgs) (s : Statics) :
    Except Fault (List Visit × Statics) :=
  match s.shadowPeriodicClbHead with
  | none => .ok ([], { s with periodicClbHead := none })
  | some first => do
      let cells ← relink s.cells.length first s.cells
      let (dtime, last) := elapsed ms now later s.lastSystemTime
      visitFrom dtime within cells.length (some first)
        { s with cells := cells, periodicClbHead := some first, lastSystemTime := last }

inductive Call
  | register (args : RegisterArgs)
  | unregister (id : Int)
  | getClbNum
  | task (ms now later : SysTime) (within : Int → List RegisterArgs)

inductive Reply
  | registered (status : Int) (id : Option Int)
  | unregistered (status : Int)
  | clbNum (n : Int)
  | visited (visits : List Visit)
deriving DecidableEq

def answer : Call → Statics → Except Fault (Reply × Statics)
  | .register args, s => do
      let (r, s) ← pclbRegister args s
      .ok (.registered r.1 r.2, s)
  | .unregister id, s => do
      let (status, s) ← pclbUnregister id s
      .ok (.unregistered status, s)
  | .getClbNum, s => .ok (.clbNum (pclbGetClbNum s), s)
  | .task ms now later within, s => do
      let (visits, s) ← pclbTask ms now later within s
      .ok (.visited visits, s)

def answers : List Call → Statics → Except Fault (List Reply)
  | [], _ => .ok []
  | call :: calls, s => do
      let (reply, s) ← answer call s
      let replies ← answers calls s
      .ok (reply :: replies)

/-- The current registrations, in order. No operation depends on where `fresh`
starts (what has been registered since the last run began) nor on `removed`. -/
structure Registry where
  seen : List Registration
  fresh : List Registration
  made : Int
  removed : Bool
  lastSystemTime : SysTime

namespace Registry

def empty : Registry := ⟨[], [], 0, false, 0⟩

def registrations (r : Registry) : List Registration := r.seen ++ r.fresh

def register (r : Registry) (args : RegisterArgs) : Registry :=
  if args.allocated then
    { r with fresh := r.fresh ++ [⟨args.fn, args.period, 0, r.made, args.param⟩],
             made := r.made + 1 }
  else r

def unregister (r : Registry) (id : Int) : Registry :=
  if id ∈ r.registrations.map Registration.id then
    { r with seen := r.seen.filter (fun e => e.id ≠ id),
             fresh := r.fresh.filter (fun e => e.id ≠ id), removed := true }
  else r

def due (dtime : SysTime) (e : Registration) : Bool := e.period < e.cnt + dtime.toUInt64

def tick (dtime : SysTime) (e : Registration) : Registration :=
  { e with cnt := if due dtime e then 0 else e.cnt + dtime.toUInt64 }

def visit (dtime : SysTime) (e : Registration) : Visit := ⟨e.id, due dtime e⟩

/-- The registrations that the callbacks of these make when the time has come. -/
def calledWithin (dtime : SysTime) (within : Int → List RegisterArgs) (l : List Registration) :
    List RegisterArgs :=
  (l.filter (due dtime)).flatMap (fun e => within e.id)

def task (r : Registry) (ms now later : SysTime) (within : Int → List RegisterArgs) : Registry :=
  if r.registrations = [] then r else
    let (dtime, last) := elapsed ms now later r.lastSystemTime
    (calledWithin dtime within r.registrations).foldl register
      { r with seen := r.registrations.map (tick dtime), fresh := [], lastSystemTime := last }

def reply (r : Registry) : Call → Reply
  | .register args =>
      if args.allocated then .registered errSuccess (some r.made) else .registered errNoMemory none
  | .unregister id =>
      .unregistered (if id ∈ r.registrations.map Registration.id then errSuccess else errFailure)
  | .getClbNum => .clbNum r.registrations.length
  | .task ms now later _ =>
      .visited (r.registrations.map (visit (elapsed ms now later r.lastSystemTime).1))

def after (r : Registry) : Call → Registry
  | .register args => r.register args
  | .unregister id => r.unregister id
  | .getClbNum => r
  | .task ms now later within => r.task ms now later within

def replies : Registry → List Call → List Reply
  | _, [] => []
  | r, call :: calls => r.reply call :: replies (r.after call) calls

/-- A call is safe unless it walks the shadow list after a removal, removes a registration
that no run has seen, or makes a counter overflow. -/
def Safe (r : Registry) : Call → Prop
  | .register args => args.allocated → ¬ r.removed ∧ r.made < int32Max
  | .unregister id => id ∉ r.fresh.map Registration.id
  | .getClbNum => True
  | .task ms now later within => ¬ r.removed ∧ (r.task ms now later within).made ≤ int32Max

end Registry

/-- All calls answer as the registry of the current registrations does. -/
def Correct (calls : List Call) : Prop :=
  answers calls Statics.zero = .ok (Registry.empty.replies calls)

end ErSdk.Pclb
