import ErSdk.UipPort
import ErSdk.Runs

namespace ErSdk.UipRecv

open UipPort Runs Error

inductive Action
  | recv (maxsize : Nat) (active : Bool)
  | send (buf : List UInt8) (active : Bool)
  | callback (cb : Callback)
  deriving DecidableEq

/-- A connection, the bytes of its new-data events and those that uip_net_recv returned. -/
structure Link where
  conn : Conn
  delivered : List UInt8
  read : List UInt8
  deriving DecidableEq

def step (l : Link) : Action → Link
  | .recv maxsize active =>
      let r := uipNetRecv maxsize active l.conn.appstate
      { l with conn := { l.conn with appstate := r.2 }, read := l.read ++ r.1.2 }
  | .send buf active =>
      { l with conn := { l.conn with appstate := (uipNetSend buf active l.conn.appstate).2 } }
  | .callback cb =>
      { l with
        conn := uipAppcall cb l.conn
        delivered := if cb.newdata then l.delivered ++ cb.appdata else l.delivered }

/-- A connection on which nothing has been received. -/
def initialLink (conn : Conn) : Link := ⟨conn, [], []⟩

/-- uIP delivers nothing while the connection is stopped. -/
def Legal (l : Link) : Action → Prop
  | .callback cb => cb.newdata ∧ cb.appdata ≠ [] → ¬ l.conn.stopped
  | _ => True

/-- What was delivered has been read, or is what the buffer holds. -/
def Intact (l : Link) : Prop := l.delivered = l.read ++ l.conn.appstate.unread

/-- Nothing is lost or repeated, and what has not been read can be read. -/
def Delivers (l : Link) (a : Action) : Prop :=
  Intact (step l a) ∧
    match a with
    | .recv maxsize active =>
        0 < maxsize → l.conn.appstate.unread ≠ [] →
          (uipNetRecv maxsize active l.conn.appstate).1 =
            (((l.conn.appstate.unread.take maxsize).length : Int),
              l.conn.appstate.unread.take maxsize)
    | _ => True

/-- No data comes in a callback that returns early, and the connection is not closed while
data is unread. -/
def Ok (l : Link) : Action → Prop
  | .recv maxsize active => 0 < maxsize → l.conn.appstate.unread ≠ [] → active
  | .send _ _ => True
  | .callback cb => cb.newdata ∧ cb.appdata ≠ [] → ¬ cb.early

/-- While data is unread the connection is stopped, and the next callback will not change it. -/
structure Held (l : Link) : Prop where
  intact : Intact l
  whole : l.conn.appstate.unread.length = l.conn.appstate.inbufLen
  stopped : l.conn.appstate.inbufLen ≠ 0 → l.conn.appstate.state ≠ .recv ∧ l.conn.stopped

theorem held_initial (conn : Conn) (h : conn.appstate.inbufLen = 0) : Held (initialLink conn) where
  intact := by simp [Intact, initialLink, UipState.unread, h]
  whole := by simp [initialLink, UipState.unread, h]
  stopped hne := absurd h hne

theorem held_send {l : Link} (h : Held l) (buf : List UInt8) (active : Bool) :
    Held (step l (.send buf active)) := by
  have hkeeps : (uipNetSend buf active l.conn.appstate).2.unread = l.conn.appstate.unread ∧
      (uipNetSend buf active l.conn.appstate).2.inbufLen = l.conn.appstate.inbufLen ∧
      (l.conn.appstate.state ≠ .recv →
        (uipNetSend buf active l.conn.appstate).2.state ≠ .recv) := by
    unfold uipNetSend
    split
    · exact ⟨rfl, rfl, id⟩
    · split
      · split
        · exact ⟨rfl, rfl, fun _ => SocketState.noConfusion⟩
        · exact ⟨rfl, rfl, id⟩
      · exact ⟨rfl, rfl, id⟩
  obtain ⟨hunread, hlen, hstate⟩ := hkeeps
  refine ⟨?_, ?_, fun hne => ?_⟩
  · simp only [Intact, step, hunread]
    exact h.intact
  · simp only [step, hunread, hlen]
    exact h.whole
  · obtain ⟨hs, hc⟩ := h.stopped (hlen ▸ hne)
    exact ⟨hstate hs, hc⟩

theorem netRecv_cases (maxsize : Nat) (active : Bool) (s : UipState)
    (hwhole : s.unread.length = s.inbufLen) :
    let r := uipNetRecv maxsize active s
    (r.1.2 = [] ∧ r.2.unread = s.unread ∧ r.2.inbufLen = s.inbufLen ∧
        (s.inbufLen ≠ 0 → r.2.state = s.state) ∧
        (0 < maxsize → s.unread ≠ [] → active = false)) ∨
      (r.1 = (((s.unread.take maxsize).length : Int), s.unread.take maxsize) ∧
        r.2.unread = s.unread.drop maxsize ∧
        r.2.inbufLen = (s.unread.drop maxsize).length ∧ r.2.state = s.state ∧ s.inbufLen ≠ 0 ∧
        active) := by
  unfold uipNetRecv netRecvInternal
  dsimp only
  split
  · rename_i hzero
    exact .inl ⟨rfl, rfl, rfl, fun _ => rfl, fun hpos => absurd hzero (by omega)⟩
  · split
    · rename_i hactive
      split
      · rename_i hempty
        refine .inl ⟨rfl, rfl, rfl, fun hne => absurd hempty hne, fun _ hne => ?_⟩
        exact absurd (List.eq_nil_of_length_eq_zero (hwhole.trans hempty)) hne
      · rename_i hfull
        have hcopy : (if maxsize ≤ s.inbufLen then maxsize else s.inbufLen) = min maxsize s.inbufLen := by
          split
          · omega
          · omega
        rw [hcopy]
        have hread : (s.inbuf.drop s.inptr).take (min maxsize s.inbufLen) = s.unread.take maxsize := by
          unfold UipState.unread
          rw [List.take_take]
        have hrest : (s.inbuf.drop (s.inptr + min maxsize s.inbufLen)).take
            (s.inbufLen - min maxsize s.inbufLen) = s.unread.drop maxsize := by
          rw [← List.drop_drop, ← List.drop_take]
          show s.unread.drop _ = _
          rw [← hwhole]
          by_cases hle : maxsize ≤ s.unread.length
          · rw [Nat.min_eq_left hle]
          · rw [Nat.min_eq_right (by omega), List.drop_length, List.drop_eq_nil_of_le (by omega)]
        refine .inr ⟨?_, hrest, ?_, rfl, hfull, hactive⟩
        · rw [hread, List.length_take, hwhole]
        · simp only [List.length_drop, hwhole]
          omega
    · rename_i hactive
      exact .inl ⟨rfl, rfl, rfl, fun _ => rfl, fun _ _ => by simpa using hactive⟩

theorem held_recv {l : Link} (h : Held l) (maxsize : Nat) (active : Bool) :
    Held (step l (.recv maxsize active)) := by
  have hintact := h.intact
  unfold Intact at hintact
  obtain ⟨hread, hunread, hlen, hstate, -⟩ | ⟨hresult, hunread, hlen, hstate, hfull, -⟩ :=
    netRecv_cases maxsize active l.conn.appstate h.whole
  · refine ⟨?_, ?_, fun hne => ?_⟩
    · simp only [Intact, step, hread, hunread, List.append_nil]
      exact hintact
    · simp only [step, hunread, hlen]
      exact h.whole
    · have hne : l.conn.appstate.inbufLen ≠ 0 := hlen ▸ hne
      obtain ⟨hs, hc⟩ := h.stopped hne
      exact ⟨(hstate hne).trans_ne hs, hc⟩
  · refine ⟨?_, ?_, fun _ => ?_⟩
    · simp only [Intact, step, hresult, hunread]
      rw [List.append_assoc, List.take_append_drop]
      exact hintact
    · simp only [step, hunread, hlen]
    · obtain ⟨hs, hc⟩ := h.stopped hfull
      exact ⟨hstate.trans_ne hs, hc⟩

theorem held_callback {l : Link} (h : Held l) {cb : Callback} (hlegal : Legal l (.callback cb))
    (hok : Ok l (.callback cb)) : Held (step l (.callback cb)) := by
  have hintact := h.intact
  unfold Intact at hintact
  by_cases hnew : cb.newdata ∧ cb.appdata ≠ []
  · obtain ⟨hunread, hlen, hstate, hstopped⟩ := appcall_newdata cb l.conn (hok hnew) hnew
    have hempty : l.conn.appstate.inbufLen = 0 := by
      by_contra hne
      exact hlegal hnew (h.stopped hne).2
    have hnone : l.conn.appstate.unread = [] := List.eq_nil_of_length_eq_zero (h.whole.trans hempty)
    refine ⟨?_, ?_, fun _ => ⟨hstate, hstopped⟩⟩
    · simp only [Intact, step, hunread, hnew.1, if_true]
      rw [hintact, hnone, List.append_nil]
    · simp only [step, hunread, hlen]
  · have hdelivered : (step l (.callback cb)).delivered = l.delivered := by
      simp only [step]
      split
      · rename_i hflag
        rw [not_not.mp (fun hne => hnew ⟨hflag, hne⟩), List.append_nil]
      · rfl
    have hkeeps : (uipAppcall cb l.conn).appstate.unread = l.conn.appstate.unread ∧
        (uipAppcall cb l.conn).appstate.inbufLen = l.conn.appstate.inbufLen ∧
        (l.conn.appstate.state ≠ .recv → l.conn.stopped →
          (uipAppcall cb l.conn).appstate.state ≠ .recv ∧ (uipAppcall cb l.conn).stopped) := by
      by_cases hearly : cb.early
      · exact ⟨(appcall_early cb l.conn hearly).2.2.2, appcall_early_input cb l.conn hearly⟩
      · exact appcall_nodata cb l.conn hearly hnew
    obtain ⟨hunread, hlen, hstopped⟩ := hkeeps
    refine ⟨?_, ?_, fun hne => ?_⟩
    · unfold Intact
      rw [hdelivered]
      simp only [step, hunread]
      exact hintact
    · simp only [step, hunread, hlen]
      exact h.whole
    · obtain ⟨hs, hc⟩ := h.stopped (hlen ▸ hne)
      exact hstopped hs hc

theorem held_step {l : Link} (h : Held l) {a : Action} (hlegal : Legal l a) (hok : Ok l a) :
    Held (step l a) := by
  cases a with
  | recv maxsize active => exact held_recv h maxsize active
  | send buf active => exact held_send h buf active
  | callback cb => exact held_callback h hlegal hok

theorem delivers_of_ok {l : Link} (h : Held l) {a : Action} (hlegal : Legal l a) (hok : Ok l a) :
    Delivers l a := by
  refine ⟨(held_step h hlegal hok).intact, ?_⟩
  cases a with
  | recv maxsize active =>
      intro hpos hne
      obtain ⟨-, -, -, -, hinactive⟩ | ⟨hresult, -⟩ :=
        netRecv_cases maxsize active l.conn.appstate h.whole
      · exact absurd (hok hpos hne) (by simp [hinactive hpos hne])
      · exact hresult
  | send buf active => exact trivial
  | callback cb => exact trivial

/-- Data that comes with the end of the connection is not copied, and a closed connection
does not give back what it holds. -/
theorem ok_of_delivers {l : Link} (h : Held l) {a : Action} (hd : Delivers l a) : Ok l a := by
  obtain ⟨hintact, hrecv⟩ := hd
  cases a with
  | recv maxsize active =>
      intro hpos hne
      cases active with
      | true => rfl
      | false =>
          have hresult := congrArg Prod.fst (hrecv hpos hne)
          simp only [uipNetRecv, netRecvInternal, Nat.ne_of_gt hpos, if_false,
            Bool.false_eq_true] at hresult
          omega
  | send buf active => exact trivial
  | callback cb =>
      intro hnew hearly
      have hbefore := h.intact
      unfold Intact at hintact hbefore
      simp only [step, hnew.1, if_true, (appcall_early cb l.conn hearly).2.2.2] at hintact
      rw [hbefore] at hintact
      exact hnew.2 (List.append_right_eq_self.mp hintact)

/-- In a run what uIP delivered is at all times what has been read with what the buffer
holds, and every call for unread data gets it, if and only if no data comes in a callback
that signals the end of the connection and the connection is active while data is unread. -/
theorem received_in_order_iff (conn : Conn) (hempty : conn.appstate.inbufLen = 0) (acts : List Action)
    (hlegal : Guarded step Legal (initialLink conn) acts) :
    Guarded step Delivers (initialLink conn) acts ↔ Guarded step Ok (initialLink conn) acts := by
  have hstart := held_initial conn hempty
  have hkeep : ∀ l a, Legal l a ∧ Ok l a → Held l → Held (step l a) :=
    fun _ _ ho h => held_step h ho.1 ho.2
  constructor
  · intro hd
    have hkeep' : ∀ l a, Legal l a ∧ Delivers l a → Held l → Held (step l a) :=
      fun l a hb h => hkeep l a ⟨hb.1, ok_of_delivers h hb.2⟩ h
    exact (hlegal.and hd).imp hkeep' (fun _ _ h hb => ok_of_delivers h hb.2) hstart
  · intro hok
    exact (hlegal.and hok).imp hkeep (fun _ _ h hb => delivers_of_ok h hb.1 hb.2) hstart

def openConn : Conn := ⟨⟨.idle, errSuccess, true, [], 0, 0, [], none, 0, 8⟩, true, false, []⟩

def polled : Action := .callback ⟨false, false, false, false, false, false, true, false, 536, []⟩

/-- New data, in a callback that may tell that the peer has closed. -/
def arrived (closed : Bool) (appdata : List UInt8) : Action :=
  .callback ⟨false, false, false, closed, false, false, false, true, 536, appdata⟩

theorem received_in_order_iff_arrived :
    Guarded step Delivers (initialLink openConn)
      [.recv 4 true, polled, arrived false [1, 2, 3, 4, 5, 6], .recv 4 true, .recv 4 true] :=
  (received_in_order_iff openConn rfl
    [.recv 4 true, polled, arrived false [1, 2, 3, 4, 5, 6], .recv 4 true, .recv 4 true]
    ⟨trivial, nofun, fun _ => by decide, trivial, trivial, trivial⟩).mpr
    ⟨fun _ _ => rfl, nofun, fun _ => by decide, fun _ _ => rfl, fun _ _ => rfl, trivial⟩

/-- The last data of a peer that closes is lost. -/
theorem last_data_lost :
    let acts := [.recv 4 true, polled, arrived true [104, 105], .recv 4 true]
    Guarded step Legal (initialLink openConn) acts ∧
      (run step (initialLink openConn) acts).delivered = [104, 105] ∧
      (run step (initialLink openConn) acts).read = [] ∧
      (run step (initialLink openConn) acts).conn.appstate.unread = [] ∧
      ¬ Guarded step Delivers (initialLink openConn) acts := by
  refine ⟨⟨trivial, nofun, fun _ => by decide, trivial, trivial⟩, by decide, by decide, by decide, ?_⟩
  rintro ⟨-, -, ⟨hintact, -⟩, -⟩
  revert hintact
  unfold Intact
  decide

end ErSdk.UipRecv
