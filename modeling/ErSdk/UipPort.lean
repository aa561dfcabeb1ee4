import ErSdk.Basic

namespace ErSdk.UipPort

open Error

/-- UIP application states. -/
inductive SocketState
  | idle
  | send
  | recv
  | recv2
  | connect
  | close
  | toIdle
  deriving DecidableEq, Repr

/-- The state of a connection that the application part of uIP keeps. A pointer into a buffer
is an offset, and a buffer holds what was last copied to it. -/
structure UipState where
  state : SocketState
  res : Int
  connected : Bool
  inbuf : List UInt8
  inptr : Nat
  inbufLen : Nat
  outbuf : List UInt8
  outptr : Option Nat
  outbufLen : Nat
  outbufMaxLen : Nat
  deriving DecidableEq, Repr

/-- What uIP tells in a call of uip_appcall: its event flags, uip_mss() and the data at
uip_appdata. -/
structure Callback where
  connected : Bool
  aborted : Bool
  timedout : Bool
  closed : Bool
  acked : Bool
  rexmit : Bool
  poll : Bool
  newdata : Bool
  mss : Nat
  appdata : List UInt8
  deriving DecidableEq, Repr

/-- A connection: whether it is stopped, whether uip_close was called, and what the last
callback passed to uip_send. -/
structure Conn where
  appstate : UipState
  stopped : Bool
  closing : Bool
  segment : List UInt8
  deriving DecidableEq, Repr

namespace UipState

/-- The bytes between outptr and the end of what was accepted. -/
def unsent (s : UipState) : List UInt8 := (s.outbuf.drop (s.outptr.getD 0)).take s.outbufLen

/-- The bytes between inptr and the end of what was received. -/
def unread (s : UipState) : List UInt8 := (s.inbuf.drop s.inptr).take s.inbufLen

end UipState

/-- NULL stays NULL only when nothing is added to it. -/
def advance (ptr : Option Nat) (n : Nat) : Option Nat :=
  if n = 0 then ptr else some (ptr.getD 0 + n)

/-- The segment that was acknowledged is taken from the buffer; its length is computed from
the segment size of now. -/
def dropAcked (mss : Nat) (s : UipState) : UipState :=
  let minlen := min s.outbufLen mss
  let outptr := advance s.outptr minlen
  { s with
    outbufLen := s.outbufLen - minlen
    outptr
    res := if outptr = none then errSuccess else s.res }

def handleSend (cb : Callback) (c : Conn) : Conn :=
  if cb.acked ∨ cb.rexmit ∨ cb.poll then
    let s := if cb.acked then dropAcked cb.mss c.appstate else c.appstate
    { c with
      appstate := s
      segment :=
        if 0 < s.outbufLen then (s.outbuf.drop (s.outptr.getD 0)).take (min s.outbufLen cb.mss)
        else [] }
  else c

/-- A segment is not longer than uip_buf, whose size inbuf has. -/
def handleReceive (cb : Callback) (c : Conn) : Conn :=
  if cb.newdata ∧ cb.appdata ≠ [] then
    { c with
      appstate := { c.appstate with
        inbuf := cb.appdata
        inbufLen := cb.appdata.length
        inptr := 0
        res := errSuccess
        state := .idle }
      stopped := true }
  else c

/-- Whether the callback returns before it looks at the data. -/
def Callback.early (cb : Callback) : Bool :=
  cb.connected || cb.aborted || cb.timedout || cb.closed

/-- The application of uIP, behind the check that the network is configured. -/
def uipAppcall (cb : Callback) (c : Conn) : Conn :=
  let c := { c with segment := [] }
  if cb.connected then
    { c with appstate := { c.appstate with connected := true, res := errSuccess }, stopped := true }
  else
    let c := if c.appstate.state = .recv then
        { c with appstate := { c.appstate with state := .idle }, stopped := false }
      else c
    if cb.aborted ∨ cb.timedout ∨ cb.closed then
      { c with appstate := { c.appstate with
          res :=
            if cb.aborted then errNetAborted
            else if cb.timedout then errNetTimedout else errNetClosed } }
    else
      let c := if c.appstate.state = .close then
          { c with appstate := { c.appstate with state := .idle }, closing := true }
        else c
      handleReceive cb (handleSend cb c)

def prepSocketState (res : UInt8) (state : SocketState) (s : UipState) : UipState :=
  { s with res := res.toNat, state }

/-- `active` tells whether the socket is valid and its connection not closed. -/
def uipNetSend (buf : List UInt8) (active : Bool) (s : UipState) : Int × UipState :=
  if buf = [] then (0, s)
  else if active then
    if s.outbufLen = 0 then
      let sizeToSend := if s.outbufMaxLen ≤ buf.length then s.outbufMaxLen else buf.length
      (sizeToSend, prepSocketState 0 .send { s with
        outbuf := buf.take sizeToSend
        outptr := some 0
        outbufLen := sizeToSend })
    else (-1, { s with res := if s.res = errSuccess then errWouldBlock else s.res })
  else (-1, s)

/-- The result, and the bytes that are copied to the buffer of the caller. -/
def netRecvInternal (maxsize : Nat) (active : Bool) (s : UipState) :
    (Int × List UInt8) × UipState :=
  if maxsize = 0 then ((0, []), s)
  else if active then
    if s.inbufLen = 0 then
      ((-1, []), { s with
        state := .recv
        res := if s.res = errSuccess then errWouldBlock else s.res })
    else
      let toCopy := if maxsize ≤ s.inbufLen then maxsize else s.inbufLen
      ((toCopy, (s.inbuf.drop s.inptr).take toCopy), { s with
        inbufLen := s.inbufLen - toCopy
        inptr := s.inptr + toCopy })
  else ((-1, []), s)

def uipNetRecv (maxsize : Nat) (active : Bool) (s : UipState) : (Int × List UInt8) × UipState :=
  netRecvInternal maxsize active s

theorem advance_getD (ptr : Option Nat) (n : Nat) : (advance ptr n).getD 0 = ptr.getD 0 + n := by
  unfold advance
  split
  · rename_i h
    rw [h, Nat.add_zero]
  · rfl

theorem unsent_dropAcked (mss : Nat) (s : UipState) :
    (dropAcked mss s).unsent = s.unsent.drop (min s.outbufLen mss) := by
  unfold UipState.unsent dropAcked
  rw [advance_getD, List.drop_take, List.drop_drop]

theorem segment_handleSend (cb : Callback) (c : Conn) (h : cb.acked ∨ cb.rexmit ∨ cb.poll) :
    (handleSend cb c).segment = (handleSend cb c).appstate.unsent.take cb.mss := by
  unfold handleSend
  rw [if_pos h]
  dsimp only
  generalize (if cb.acked then dropAcked cb.mss c.appstate else c.appstate) = s
  unfold UipState.unsent
  rw [List.take_take, Nat.min_comm cb.mss]
  split
  · rfl
  · rename_i hzero
    rw [Nat.eq_zero_of_not_pos hzero, Nat.zero_min, List.take_zero]

theorem appcall_early (cb : Callback) (c : Conn) (h : cb.early) :
    (uipAppcall cb c).segment = [] ∧
      (uipAppcall cb c).appstate.unsent = c.appstate.unsent ∧
      (uipAppcall cb c).appstate.outbufLen = c.appstate.outbufLen ∧
      (uipAppcall cb c).appstate.unread = c.appstate.unread := by
  unfold uipAppcall
  dsimp only
  split
  · exact ⟨rfl, rfl, rfl, rfl⟩
  · rename_i hconnected
    have hended : cb.aborted ∨ cb.timedout ∨ cb.closed := by
      simpa [Callback.early, hconnected, or_assoc] using h
    rw [if_pos hended]
    by_cases hrecv : c.appstate.state = .recv
    · simp [hrecv, UipState.unread, UipState.unsent]
    · simp [hrecv, UipState.unread, UipState.unsent]

theorem appcall_late (cb : Callback) (c : Conn) (h : ¬ cb.early) :
    ∃ d : Conn, uipAppcall cb c = handleReceive cb (handleSend cb d) ∧ d.segment = [] ∧
      d.appstate.outbuf = c.appstate.outbuf ∧ d.appstate.outptr = c.appstate.outptr ∧
      d.appstate.outbufLen = c.appstate.outbufLen ∧ d.appstate.unread = c.appstate.unread ∧
      d.appstate.inbufLen = c.appstate.inbufLen ∧
      d.appstate.state ≠ .recv ∧
      d.stopped = if c.appstate.state = .recv then false else c.stopped := by
  obtain ⟨⟨⟨hconnected, haborted⟩, htimedout⟩, hclosed⟩ :
      ((¬ cb.connected ∧ ¬ cb.aborted) ∧ ¬ cb.timedout) ∧ ¬ cb.closed := by
    simpa [Callback.early, not_or] using h
  unfold uipAppcall
  simp only [hconnected, haborted, htimedout, hclosed, or_self]
  refine ⟨_, rfl, ?_⟩
  by_cases hrecv : c.appstate.state = .recv
  · simp [hrecv, UipState.unread]
  · by_cases hclose : c.appstate.state = .close
    · simp [hclose, UipState.unread]
    · simp [hrecv, hclose, UipState.unread]

section

variable (cb : Callback) (c : Conn)

theorem handleReceive_output :
    (handleReceive cb c).segment = c.segment ∧
      (handleReceive cb c).appstate.unsent = c.appstate.unsent ∧
      (handleReceive cb c).appstate.outbufLen = c.appstate.outbufLen := by
  unfold handleReceive
  split
  · exact ⟨rfl, rfl, rfl⟩
  · exact ⟨rfl, rfl, rfl⟩

theorem handleSend_input :
    (handleSend cb c).stopped = c.stopped ∧
      (handleSend cb c).appstate.unread = c.appstate.unread ∧
      (handleSend cb c).appstate.inbufLen = c.appstate.inbufLen ∧
      (handleSend cb c).appstate.state = c.appstate.state := by
  unfold handleSend dropAcked
  split
  · split
    · exact ⟨rfl, rfl, rfl, rfl⟩
    · exact ⟨rfl, rfl, rfl, rfl⟩
  · exact ⟨rfl, rfl, rfl, rfl⟩

theorem appcall_output (h : ¬ cb.early) :
    (uipAppcall cb c).appstate.unsent =
        (if cb.acked then c.appstate.unsent.drop (min c.appstate.outbufLen cb.mss)
          else c.appstate.unsent) ∧
      (uipAppcall cb c).appstate.outbufLen =
        (if cb.acked then c.appstate.outbufLen - min c.appstate.outbufLen cb.mss
          else c.appstate.outbufLen) ∧
      (uipAppcall cb c).segment =
        (if cb.acked ∨ cb.rexmit ∨ cb.poll then (uipAppcall cb c).appstate.unsent.take cb.mss
          else []) := by
  obtain ⟨d, hd, hsegment, hbuf, hptr, hlen, -⟩ := appcall_late cb c h
  obtain ⟨hsegment', hunsent', hlen'⟩ := handleReceive_output cb (handleSend cb d)
  have hunsent : d.appstate.unsent = c.appstate.unsent := by
    unfold UipState.unsent
    rw [hbuf, hptr, hlen]
  rw [hd, hsegment', hunsent', hlen']
  by_cases hsend : cb.acked ∨ cb.rexmit ∨ cb.poll
  · rw [segment_handleSend cb d hsend, if_pos hsend]
    refine ⟨?_, ?_, rfl⟩
    · unfold handleSend
      rw [if_pos hsend, ← hunsent, ← hlen]
      dsimp only
      split
      · exact unsent_dropAcked _ _
      · rfl
    · unfold handleSend
      rw [if_pos hsend, ← hlen]
      dsimp only
      split
      · rfl
      · rfl
  · have hacked : ¬ cb.acked := fun ha => hsend (.inl ha)
    unfold handleSend
    rw [if_neg hsend, if_neg hsend, if_neg hacked, if_neg hacked]
    exact ⟨hunsent, hlen, hsegment⟩

theorem appcall_early_input (h : cb.early) :
    (uipAppcall cb c).appstate.inbufLen = c.appstate.inbufLen ∧
      (c.appstate.state ≠ .recv → c.stopped →
        (uipAppcall cb c).appstate.state ≠ .recv ∧ (uipAppcall cb c).stopped) := by
  unfold uipAppcall
  dsimp only
  split
  · exact ⟨rfl, fun hstate _ => ⟨hstate, rfl⟩⟩
  · rename_i hconnected
    have hended : cb.aborted ∨ cb.timedout ∨ cb.closed := by
      simpa [Callback.early, hconnected, or_assoc] using h
    rw [if_pos hended]
    by_cases hrecv : c.appstate.state = .recv
    · simp [hrecv]
    · simp [hrecv]

theorem appcall_newdata (h : ¬ cb.early) (hnew : cb.newdata ∧ cb.appdata ≠ []) :
    (uipAppcall cb c).appstate.unread = cb.appdata ∧
      (uipAppcall cb c).appstate.inbufLen = cb.appdata.length ∧
      (uipAppcall cb c).appstate.state ≠ .recv ∧ (uipAppcall cb c).stopped := by
  obtain ⟨d, hd, -⟩ := appcall_late cb c h
  rw [hd]
  unfold handleReceive
  rw [if_pos hnew]
  simp [UipState.unread]

theorem appcall_nodata (h : ¬ cb.early) (hnew : ¬ (cb.newdata ∧ cb.appdata ≠ [])) :
    (uipAppcall cb c).appstate.unread = c.appstate.unread ∧
      (uipAppcall cb c).appstate.inbufLen = c.appstate.inbufLen ∧
      (c.appstate.state ≠ .recv → c.stopped →
        (uipAppcall cb c).appstate.state ≠ .recv ∧ (uipAppcall cb c).stopped) := by
  obtain ⟨d, hd, -, -, -, -, hunread, hlen, hstate, hstopped⟩ := appcall_late cb c h
  obtain ⟨hstopped', hunread', hlen', hstate'⟩ := handleSend_input cb d
  rw [hd]
  unfold handleReceive
  rw [if_neg hnew]
  refine ⟨hunread'.trans hunread, hlen'.trans hlen, fun hs hc => ⟨hstate' ▸ hstate, ?_⟩⟩
  rw [hstopped', hstopped, if_neg hs]
  exact hc

end

end ErSdk.UipPort
