import ErSdk.UipPort
import ErSdk.Runs

namespace ErSdk.UipSend

open UipPort Runs Error

inductive Action
  | send (buf : List UInt8) (active : Bool)
  | callback (cb : Callback)
  deriving DecidableEq

/-- A connection with what its peer and its application know: the bytes that uip_net_send
accepted, those that were acknowledged, and the last segment that was not. `dropped` tells
that an acknowledgement came in a callback that returns early. -/
structure Link where
  conn : Conn
  accepted : List UInt8
  acked : List UInt8
  outstanding : List UInt8
  dropped : Bool
  deriving DecidableEq

def sendStep (buf : List UInt8) (active : Bool) (l : Link) : Link :=
  let r := uipNetSend buf active l.conn.appstate
  { l with
    conn := { l.conn with appstate := r.2 }
    accepted := l.accepted ++ buf.take r.1.toNat }

/-- uip_acked() is about the whole last segment, and a segment that is passed to uip_send is
the last one from then on. -/
def callbackStep (cb : Callback) (l : Link) : Link :=
  let conn := uipAppcall cb l.conn
  { conn
    accepted := l.accepted
    acked := if cb.acked then l.acked ++ l.outstanding else l.acked
    outstanding :=
      if conn.segment = [] then if cb.acked then [] else l.outstanding else conn.segment
    dropped := l.dropped || (cb.acked && cb.early) }

def step (l : Link) : Action → Link
  | .send buf active => sendStep buf active l
  | .callback cb => callbackStep cb l

/-- A connection on which nothing has been sent. -/
def initialLink (conn : Conn) : Link := ⟨conn, [], [], [], false⟩

/-- uIP acknowledges only what was sent. -/
def Legal (l : Link) : Action → Prop
  | .send _ _ => True
  | .callback cb => cb.acked → l.outstanding ≠ []

/-- What is acknowledged is a prefix of what was accepted, and all of it when the buffer is
empty. -/
structure InOrder (l : Link) : Prop where
  isPrefix : l.acked <+: l.accepted
  all : l.conn.appstate.outbufLen = 0 → l.acked = l.accepted

/-- A callback that asks for a retransmission gets the segment that is not acknowledged. -/
def Resends (l : Link) : Action → Prop
  | .send _ _ => True
  | .callback cb => cb.rexmit → ¬ cb.acked → ¬ cb.early → l.outstanding ≠ [] →
      (uipAppcall cb l.conn).segment = l.outstanding

/-- When a segment is acknowledged or asked for again, the segment size of now gives its
length; and no acknowledgement was dropped before. -/
def Ok (l : Link) : Action → Prop
  | .send _ _ => True
  | .callback cb => ¬ cb.early → (cb.acked ∨ cb.rexmit ∨ cb.poll) →
      ¬ l.dropped ∧ (cb.acked ∨ cb.rexmit → l.outstanding ≠ [] →
        min l.conn.appstate.outbufLen cb.mss = l.outstanding.length)

/-- The buffer holds what was accepted and not acknowledged, the last segment first. An
acknowledgement that was dropped leaves its segment in the buffer. -/
structure Queue (l : Link) : Prop where
  whole : l.conn.appstate.unsent.length = l.conn.appstate.outbufLen
  books : ¬ l.dropped →
    l.acked ++ l.conn.appstate.unsent = l.accepted ∧ l.outstanding <+: l.conn.appstate.unsent
  ended : l.dropped →
    l.acked <+: l.accepted ∧ 0 < l.conn.appstate.outbufLen ∧ l.outstanding = []

theorem Queue.inOrder {l : Link} (h : Queue l) : InOrder l := by
  by_cases hdropped : l.dropped
  · obtain ⟨hfront, hfull, -⟩ := h.ended hdropped
    exact ⟨hfront, fun hzero => absurd hfull (by omega)⟩
  · obtain ⟨hbooks, -⟩ := h.books hdropped
    refine ⟨⟨_, hbooks⟩, fun hzero => ?_⟩
    have hempty : l.conn.appstate.unsent = [] :=
      List.eq_nil_of_length_eq_zero (h.whole.trans hzero)
    rw [← hbooks, hempty, List.append_nil]

theorem queue_initial (conn : Conn) (h : conn.appstate.outbufLen = 0) : Queue (initialLink conn) where
  whole := by simp [initialLink, UipState.unsent, h]
  books _ := ⟨by simp [initialLink, UipState.unsent, h], List.nil_prefix⟩
  ended hdropped := Bool.noConfusion hdropped

theorem netSend_cases (buf : List UInt8) (active : Bool) (s : UipState) :
    let r := uipNetSend buf active s
    (buf.take r.1.toNat = [] ∧ r.2.unsent = s.unsent ∧ r.2.outbufLen = s.outbufLen) ∨
      (s.outbufLen = 0 ∧ r.2.unsent = buf.take r.1.toNat ∧
        r.2.outbufLen = (buf.take r.1.toNat).length) := by
  unfold uipNetSend
  dsimp only
  split
  · exact .inl ⟨rfl, rfl, rfl⟩
  · split
    · split
      · rename_i hempty
        refine .inr ⟨hempty, ?_, ?_⟩
        · simp only [prepSocketState, UipState.unsent, Int.toNat_natCast, Option.getD_some,
            List.drop_zero, List.take_take, Nat.min_self]
        · simp only [prepSocketState, Int.toNat_natCast, List.length_take]
          split
          · omega
          · omega
      · exact .inl ⟨rfl, rfl, rfl⟩
    · exact .inl ⟨rfl, rfl, rfl⟩

theorem queue_send {l : Link} (h : Queue l) (buf : List UInt8) (active : Bool) :
    Queue (sendStep buf active l) := by
  obtain ⟨hnone, hunsent, hlen⟩ | ⟨hempty, hunsent, hlen⟩ :=
    netSend_cases buf active l.conn.appstate
  · refine ⟨?_, fun hdropped => ?_, fun hdropped => ?_⟩
    · exact (congrArg List.length hunsent).trans (h.whole.trans hlen.symm)
    · obtain ⟨hbooks, hfirst⟩ := h.books hdropped
      simp only [sendStep, hunsent, hnone, List.append_nil]
      exact ⟨hbooks, hfirst⟩
    · obtain ⟨hfront, hfull, hout⟩ := h.ended hdropped
      simp only [sendStep, hnone, List.append_nil, hlen]
      exact ⟨hfront, hfull, hout⟩
  · have hold : l.conn.appstate.unsent = [] :=
      List.eq_nil_of_length_eq_zero (h.whole.trans hempty)
    refine ⟨?_, fun hdropped => ?_, fun hdropped => ?_⟩
    · exact (congrArg List.length hunsent).trans hlen.symm
    · obtain ⟨hbooks, hfirst⟩ := h.books hdropped
      rw [hold, List.append_nil] at hbooks
      rw [hold, List.prefix_nil] at hfirst
      simp only [sendStep, hunsent, hbooks, hfirst]
      exact ⟨trivial, List.nil_prefix⟩
    · exact absurd (h.ended hdropped).2.1 (by omega)

theorem queue_early {l : Link} (h : Queue l) {cb : Callback} (hlegal : Legal l (.callback cb))
    (hearly : cb.early) : Queue (callbackStep cb l) := by
  obtain ⟨hsegment, hunsent, hlen, -⟩ := appcall_early cb l.conn hearly
  refine ⟨?_, fun hdropped => ?_, fun hdropped => ?_⟩
  · simp only [callbackStep, hunsent, hlen]
    exact h.whole
  · obtain ⟨hnot, hacked⟩ : l.dropped = false ∧ cb.acked = false := by
      simpa [callbackStep, hearly] using hdropped
    simp only [callbackStep, hunsent, hsegment, hacked, if_true]
    exact h.books (by simp [hnot])
  · simp only [callbackStep, hsegment, hlen, if_true]
    by_cases hnot : l.dropped
    · obtain ⟨hfront, hfull, hout⟩ := h.ended hnot
      simp [hout, hfront, hfull]
    · have hacked : cb.acked := by simpa [callbackStep, hearly, hnot] using hdropped
      obtain ⟨hbooks, hfirst⟩ := h.books hnot
      have hfull : 0 < l.conn.appstate.outbufLen := by
        rw [← h.whole]
        exact Nat.lt_of_lt_of_le (List.length_pos_iff.mpr (hlegal hacked)) hfirst.length_le
      rw [if_pos hacked, if_pos hacked, ← hbooks]
      exact ⟨List.prefix_append_right_inj _ |>.mpr hfirst, hfull, rfl⟩

theorem dropped_late (cb : Callback) (l : Link) (hlate : ¬ cb.early) :
    (callbackStep cb l).dropped = l.dropped := by
  simp [callbackStep, hlate]

/-- The length of the segment is computed as it was sent, so that the rest of the buffer is
what was accepted behind it. -/
theorem queue_acked {l : Link} (h : Queue l) {cb : Callback} (hlegal : Legal l (.callback cb))
    (hok : Ok l (.callback cb)) (hlate : ¬ cb.early) (hacked : cb.acked) :
    Queue (callbackStep cb l) := by
  obtain ⟨hunsent, hlen, hsegment⟩ := appcall_output cb l.conn hlate
  obtain ⟨hdropped, hsize⟩ := hok hlate (.inl hacked)
  have hsize := hsize (.inl hacked) (hlegal hacked)
  obtain ⟨hbooks, rest, hrest⟩ := h.books hdropped
  rw [if_pos hacked, hsize, ← hrest, List.drop_left] at hunsent
  rw [if_pos hacked, hsize, ← h.whole, ← hrest, List.length_append, Nat.add_sub_cancel_left] at hlen
  rw [if_pos (.inl hacked), hunsent] at hsegment
  refine ⟨?_, fun _ => ⟨?_, ?_⟩, fun hd => ?_⟩
  · exact (congrArg List.length hunsent).trans hlen.symm
  · simp only [callbackStep, hunsent, hacked, if_true]
    rw [← hbooks, ← hrest, List.append_assoc]
  · simp only [callbackStep, hunsent, hsegment, hacked, if_true]
    split
    · exact List.nil_prefix
    · exact List.take_prefix _ _
  · exact absurd ((dropped_late cb l hlate).symm.trans hd) hdropped

theorem queue_unacked {l : Link} (h : Queue l) {cb : Callback} (hok : Ok l (.callback cb))
    (hlate : ¬ cb.early) (hacked : ¬ cb.acked) : Queue (callbackStep cb l) := by
  obtain ⟨hunsent, hlen, hsegment⟩ := appcall_output cb l.conn hlate
  rw [if_neg hacked] at hunsent hlen
  have hfront : (uipAppcall cb l.conn).segment <+: l.conn.appstate.unsent := by
    rw [hsegment, hunsent]
    split
    · exact List.take_prefix _ _
    · exact List.nil_prefix
  refine ⟨?_, fun hd => ?_, fun hd => ?_⟩
  · exact (congrArg List.length hunsent).trans (h.whole.trans hlen.symm)
  · rw [dropped_late cb l hlate] at hd
    obtain ⟨hbooks, hfirst⟩ := h.books hd
    simp only [callbackStep, hunsent, hacked, Bool.false_eq_true, if_false]
    refine ⟨hbooks, ?_⟩
    split
    · exact hfirst
    · exact hfront
  · rw [dropped_late cb l hlate] at hd
    obtain ⟨hacknowledged, hfull, hout⟩ := h.ended hd
    have hsilent : ¬ (cb.acked ∨ cb.rexmit ∨ cb.poll) := fun hsend => (hok hlate hsend).1 hd
    rw [if_neg hsilent] at hsegment
    simp only [callbackStep, hlen, hsegment, hacked, Bool.false_eq_true, if_false, if_true]
    exact ⟨hacknowledged, hfull, hout⟩

theorem queue_step {l : Link} (h : Queue l) {a : Action} (hlegal : Legal l a) (hok : Ok l a) :
    Queue (step l a) := by
  cases a with
  | send buf active => exact queue_send h buf active
  | callback cb =>
      by_cases hearly : cb.early
      · exact queue_early h hlegal hearly
      · by_cases hacked : cb.acked
        · exact queue_acked h hlegal hok hearly hacked
        · exact queue_unacked h hok hearly hacked

theorem resends {l : Link} (h : Queue l) {a : Action} (hok : Ok l a) : Resends l a := by
  cases a with
  | send buf active => exact trivial
  | callback cb =>
      intro hrexmit hacked hlate hout
      obtain ⟨hunsent, -, hsegment⟩ := appcall_output cb l.conn hlate
      obtain ⟨hdropped, hsize⟩ := hok hlate (.inr (.inl hrexmit))
      have hsize := hsize (.inr hrexmit) hout
      obtain ⟨-, rest, hrest⟩ := h.books hdropped
      rw [if_neg hacked] at hunsent
      rw [if_pos (.inr (.inl hrexmit)), hunsent, List.take_eq_take_min, h.whole, Nat.min_comm, hsize,
        ← hrest, List.take_left] at hsegment
      exact hsegment

/-- In every run in which the segment size of each acknowledgement and each retransmission
gives the length of the segment that was sent, the acknowledged bytes are those that were
accepted, in their order, and a segment that is sent again is the same. -/
theorem acknowledged_in_order (conn : Conn) (hempty : conn.appstate.outbufLen = 0)
    (acts : List Action) (hlegal : Guarded step Legal (initialLink conn) acts)
    (hok : Guarded step Ok (initialLink conn) acts) :
    (∀ n, InOrder (run step (initialLink conn) (acts.take n))) ∧
      Guarded step Resends (initialLink conn) acts := by
  have hboth := hlegal.and hok
  have hstart := queue_initial conn hempty
  have hkeep : ∀ l a, Legal l a ∧ Ok l a → Queue l → Queue (step l a) :=
    fun _ _ ho h => queue_step h ho.1 ho.2
  refine ⟨fun n => Queue.inOrder (hboth.always hkeep hstart n), ?_⟩
  exact hboth.imp hkeep (fun _ _ h ho => resends h ho.2) hstart

def openConn : Conn := ⟨⟨.idle, errSuccess, true, [], 0, 0, [], none, 0, 8⟩, true, false, []⟩

def polled (mss : Nat) : Action :=
  .callback ⟨false, false, false, false, false, false, true, false, mss, []⟩

def acknowledged (mss : Nat) : Action :=
  .callback ⟨false, false, false, false, true, false, false, false, mss, []⟩

def asked (mss : Nat) : Action :=
  .callback ⟨false, false, false, false, false, true, false, false, mss, []⟩

theorem acknowledged_in_order_polled :
    InOrder (run step (initialLink openConn)
      [.send [1, 2, 3, 4, 5, 6] true, polled 4, asked 4, acknowledged 4, acknowledged 4]) :=
  (acknowledged_in_order openConn rfl
    [.send [1, 2, 3, 4, 5, 6] true, polled 4, asked 4, acknowledged 4, acknowledged 4]
    ⟨trivial, nofun, nofun, fun _ => by decide, fun _ => by decide, trivial⟩
    ⟨trivial, fun _ _ => ⟨by decide, by decide⟩, fun _ _ => ⟨by decide, by decide⟩,
      fun _ _ => ⟨by decide, by decide⟩, fun _ _ => ⟨by decide, by decide⟩, trivial⟩).1 5

/-- When the window grows before the acknowledgement, two bytes are never sent. -/
theorem grown_window_loses :
    let acts := [Action.send [1, 2, 3, 4, 5, 6, 7, 8] true, polled 4, acknowledged 6, acknowledged 6]
    Guarded step Legal (initialLink openConn) acts ∧
      (run step (initialLink openConn) acts).accepted = [1, 2, 3, 4, 5, 6, 7, 8] ∧
      (run step (initialLink openConn) acts).acked = [1, 2, 3, 4, 7, 8] ∧
      (run step (initialLink openConn) acts).conn.appstate.outbufLen = 0 ∧
      ¬ InOrder (run step (initialLink openConn) acts) := by
  refine ⟨⟨trivial, nofun, fun _ => by decide, fun _ => by decide, trivial⟩, by decide, by decide,
    by decide, fun h => ?_⟩
  exact absurd (h.all (by decide)) (by decide)

end ErSdk.UipSend
