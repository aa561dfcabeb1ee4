import ErSdk.ProtocolClientSm

namespace ErSdk.WorldSteps

open ProtocolClientSm Error

variable {R ι W : Type}

/-- A relation between worlds that holds along every operation of an environment. -/
structure Along (env : Env R W) (rel : W → W → Prop) : Prop where
  refl : ∀ w, rel w w
  trans : ∀ {w w' w''}, rel w w' → rel w' w'' → rel w w''
  systemGetTime : ∀ w, rel w (env.systemGetTime w).2
  memAlloc : ∀ w, rel w (env.memAlloc w).2
  queuePushTail : ∀ w, rel w (env.queuePushTail w).2
  lookup : ∀ w, rel w (env.lookup w).2
  createSocket : ∀ w, rel w (env.createSocket w).2
  connect : ∀ socket w, rel w (env.connect socket w).2
  close : ∀ socket w, rel w (env.close socket w)
  setSocket : ∀ socket w, rel w (env.setSocket socket w)
  clearSocket : ∀ w, rel w (env.clearSocket w)
  sendRequest : ∀ request w, rel w (env.sendRequest request w).2
  recvResponse : ∀ response w, rel w (env.recvResponse response w).2
  clientClose : ∀ w, rel w (env.clientClose w)
  clb : ∀ request response w, rel w (env.clb request response w).2

section

variable {env : Env R W} {rel : W → W → Prop} (h : Along env rel) (s : St R ι W)

include h

theorem stNewTransmit_along : rel s.world (stNewTransmit env s).world := by
  unfold stNewTransmit
  split
  · exact h.refl _
  · split
    · split
      · exact h.systemGetTime _
      · exact h.refl _
    · exact h.refl _

theorem createSocket_along : rel s.world (ProtocolClientSm.createSocket env s).2.world := by
  unfold ProtocolClientSm.createSocket
  dsimp only
  split
  · exact h.lookup _
  · split
    · exact h.trans (h.lookup _) (h.createSocket _)
    · exact h.trans (h.lookup _) (h.createSocket _)

theorem startConnecting_along : rel s.world (startConnecting env s).world := by
  unfold startConnecting
  split
  · exact h.systemGetTime _
  · exact h.refl _

theorem continueConnect_along : rel s.world (continueConnect env s).2.world := by
  have hconnect := h.trans (startConnecting_along h s)
    (h.connect (startConnecting env s).sm.socket (startConnecting env s).world)
  unfold continueConnect
  dsimp only
  split
  · exact h.trans hconnect (h.setSocket _ _)
  · split
    · split
      · split <;> exact h.trans hconnect (h.systemGetTime _)
      · exact h.trans hconnect (h.systemGetTime _)
    · exact hconnect

theorem connectSocket_along : rel s.world (connectSocket env s).2.world := by
  have hpost (error : Int) (t : St R ι W) :
      (if error ≠ errWouldBlock then connectPost t else t).world = t.world := by
    split <;> rfl
  unfold connectSocket
  rw [hpost]
  split
  · exact h.refl _
  · exact continueConnect_along h s

theorem stConnect_along [DecidableEq ι] (self : ι) : rel s.world (stConnect env self s).2.world := by
  have hwait : rel s.world (connectWait self s).2.world := by
    unfold connectWait
    split <;> exact h.refl _
  have hsocket : rel s.world (ensureSocket env (connectWait self s)).2.world := by
    unfold ensureSocket
    split
    · exact h.trans hwait (createSocket_along h _)
    · exact hwait
  unfold stConnect
  dsimp only
  split
  · exact hwait
  · split
    · exact hsocket
    · split
      · exact hsocket
      · exact h.trans hsocket (connectSocket_along h _)

theorem attempt_along [DecidableEq ι] (self : ι) : rel s.world (attempt env self s).2.world :=
  h.trans (stNewTransmit_along h s) (stConnect_along h _ self)

theorem stSendRequest_along : rel s.world (stSendRequest env s).2.world := by
  unfold stSendRequest
  split
  · exact h.refl _
  · rename_i r _
    have hsend := h.sendRequest r s.world
    dsimp only
    split
    · exact hsend
    · split
      · split <;> exact h.trans hsend (h.systemGetTime _)
      · exact hsend

theorem stRecvResponse_along : rel s.world (stRecvResponse env s).2.world := by
  have hreceive := h.recvResponse s.sm.response s.world
  unfold stRecvResponse
  dsimp only
  split
  · exact hreceive
  · split <;> exact hreceive

omit h in
theorem pairRequestToResponse_world : (pairRequestToResponse s).2.world = s.world := by
  unfold pairRequestToResponse
  split <;> rfl

theorem exchange_along : rel s.world (exchange env s).2.world := by
  have hsend := stSendRequest_along h s
  have hreceive := stRecvResponse_along h
    (countFailure (stSendRequest env s).1 (stSendRequest env s).2)
  unfold exchange
  dsimp only
  split
  · rw [pairRequestToResponse_world]
    exact h.trans hsend hreceive
  · exact h.trans hsend hreceive

theorem callBack_along (request : ProtocolClientRequest R) :
    rel s.world (callBack env request s).world :=
  h.trans (h.clb _ _ _) (h.clientClose _)

theorem completeIf_along (c : Bool × St R ι W) : rel c.2.world (completeIf env c).world := by
  unfold completeIf stTransmitComplete
  split
  · split
    · exact h.refl _
    · dsimp only
      split <;> exact callBack_along h _ _
  · exact h.refl _

theorem respond_along [DecidableEq ι] (self : ι) : rel s.world (respond env self s).2.world := by
  have hattempt := attempt_along h s self
  unfold respond
  dsimp only
  refine h.trans hattempt (h.trans ?_ (completeIf_along h _))
  split
  · exact exchange_along h _
  · exact h.refl _

theorem expiredSent_along (l : List (ProtocolClientRequest R)) :
    rel s.world (expiredSent env l s).2.world := by
  induction l generalizing s with
  | nil => exact h.refl _
  | cons r l ih =>
      have htime := h.systemGetTime s.world
      rw [expiredSent]
      split
      · exact ih s
      · dsimp only
        split
        · exact htime
        · exact h.trans htime (ih (systemGetDiffTime env r.startOfTransmit s).2)

theorem checkTimeout_along : rel s.world (checkTimeout env s).2.world := by
  have hexpired := expiredSent_along h s s.sm.sentRequestList
  unfold checkTimeout
  dsimp only
  split
  · exact hexpired
  · split <;> exact h.trans hexpired (h.systemGetTime _)
  · exact hexpired

omit h in
theorem abortTransfers_world : (abortTransfers s).2.world = s.world := by
  unfold abortTransfers
  split
  · rfl
  · split <;> rfl

theorem closeSocket_along : rel s.world (closeSocket env s).world := by
  unfold closeSocket
  split
  · exact h.trans (h.clearSocket _) (h.close _ _)
  · exact h.refl _

theorem finishTransmit_along (next : SmState) (completed : Bool) :
    rel s.world (finishTransmit env next completed s).2.world := by
  unfold finishTransmit
  dsimp only
  split
  · exact closeSocket_along h (s.mapSm _)
  · exact h.refl _

theorem stReset_along : rel s.world (stReset env s).2.world := by
  have htime := h.systemGetTime s.world
  unfold stReset
  dsimp only
  split
  · exact htime
  · dsimp only
    refine h.trans ?_ (closeSocket_along h _)
    exact h.trans htime (h.systemGetTime _)

/-- From the check of the timeouts to the end of st_transmit. -/
theorem stTransmit_along_rest [DecidableEq ι] (self : ι) :
    rel (checkTimeout env (respond env self s).2).2.world (stTransmit env self s).2.world := by
  unfold stTransmit
  dsimp only
  refine h.trans ?_ (finishTransmit_along h _ _ _)
  refine h.trans ?_ (completeIf_along h _)
  rw [abortTransfers_world]
  exact completeIf_along h _

theorem protocolClientSmTask_along [DecidableEq ι] (self : ι) :
    rel s.world (protocolClientSmTask env self s).world := by
  have hreset := stReset_along h s
  have htransmit := h.trans (respond_along h s self)
    (h.trans (checkTimeout_along h _) (stTransmit_along_rest h s self))
  unfold protocolClientSmTask
  generalize stReset env s = r at hreset ⊢
  generalize stTransmit env self s = t at htransmit ⊢
  cases s.sm.state with
  | reset => exact hreset
  | transmit => exact htransmit
  | connect | failure => exact h.refl _

theorem protocolClientSmTransmit_along (type : RequestType) (request : R) (messageId : Int) :
    rel s.world (protocolClientSmTransmit env type request messageId s).2.world := by
  have halloc := h.memAlloc s.world
  unfold protocolClientSmTransmit cqueuePushTail
  dsimp only
  split
  · exact halloc
  · split
    · split <;> exact h.trans halloc (h.queuePushTail _)
    · exact halloc

end

end ErSdk.WorldSteps
