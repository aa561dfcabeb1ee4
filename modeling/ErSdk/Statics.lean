import ErSdk.ProtocolClientSm

namespace ErSdk.Statics

open ProtocolClientSm Error

variable {R ι W : Type} (env : Env R W)

@[simp] theorem systemGetDiffTime_globals (t : SysTime) (s : St R ι W) :
    (systemGetDiffTime env t s).2.globals = s.globals := rfl

@[simp] theorem closeSocket_globals (s : St R ι W) : (closeSocket env s).globals = s.globals := by
  unfold closeSocket
  split <;> rfl

@[simp] theorem stReset_globals (s : St R ι W) : (stReset env s).2.globals = s.globals := by
  unfold stReset
  dsimp only
  split
  · rfl
  · rw [closeSocket_globals]
    rfl

@[simp] theorem createSocket_globals (s : St R ι W) :
    (ProtocolClientSm.createSocket env s).2.globals = s.globals := by
  unfold ProtocolClientSm.createSocket
  dsimp only
  split
  · rfl
  · split <;> rfl

@[simp] theorem ensureSocket_globals (w : Int × St R ι W) :
    (ensureSocket env w).2.globals = w.2.globals := by
  unfold ensureSocket
  split
  · exact createSocket_globals env w.2
  · rfl

@[simp] theorem stNewTransmit_globals (s : St R ι W) :
    (stNewTransmit env s).globals = s.globals := by
  unfold stNewTransmit
  split
  · rfl
  · split
    · split <;> rfl
    · rfl

@[simp] theorem stSendRequest_globals (s : St R ι W) :
    (stSendRequest env s).2.globals = s.globals := by
  unfold stSendRequest
  split
  · rfl
  · dsimp only
    split
    · rfl
    · split
      · split <;> rfl
      · rfl

@[simp] theorem stRecvResponse_globals (s : St R ι W) :
    (stRecvResponse env s).2.globals = s.globals := by
  unfold stRecvResponse
  dsimp only
  split
  · rfl
  · split <;> rfl

@[simp] theorem stTransmitComplete_globals (s : St R ι W) :
    (stTransmitComplete env s).globals = s.globals := by
  unfold stTransmitComplete
  split
  · rfl
  · dsimp only
    split <;> rfl

@[simp] theorem completeIf_globals (c : Bool × St R ι W) :
    (completeIf env c).globals = c.2.globals := by
  unfold completeIf
  split
  · exact stTransmitComplete_globals env c.2
  · rfl

@[simp] theorem pairRequestToResponse_globals (s : St R ι W) :
    (pairRequestToResponse s).2.globals = s.globals := by
  unfold pairRequestToResponse
  split <;> rfl

@[simp] theorem exchange_globals (s : St R ι W) : (exchange env s).2.globals = s.globals := by
  have hr (e : Int) (t : St R ι W) : (stRecvResponse env (countFailure e t)).2.globals = t.globals :=
    stRecvResponse_globals env _
  unfold exchange
  dsimp only
  split
  · rw [pairRequestToResponse_globals, hr, stSendRequest_globals]
  · exact (hr _ _).trans (stSendRequest_globals env s)

@[simp] theorem expiredSent_globals (l : List (ProtocolClientRequest R)) (s : St R ι W) :
    (expiredSent env l s).2.globals = s.globals := by
  induction l generalizing s with
  | nil => rfl
  | cons r l ih =>
      rw [expiredSent]
      split
      · exact ih s
      · dsimp only
        split
        · rfl
        · rw [ih]
          rfl

@[simp] theorem checkTimeout_globals (s : St R ι W) :
    (checkTimeout env s).2.globals = s.globals := by
  have he := expiredSent_globals env s.sm.sentRequestList s
  unfold checkTimeout
  dsimp only
  split
  · exact he
  · split <;> exact he
  · exact he

@[simp] theorem abortTransfers_globals (s : St R ι W) :
    (abortTransfers s).2.globals = s.globals := by
  unfold abortTransfers
  split
  · rfl
  · split <;> rfl

@[simp] theorem finishTransmit_globals (next : SmState) (completed : Bool) (s : St R ι W) :
    (finishTransmit env next completed s).2.globals = s.globals := by
  unfold finishTransmit
  dsimp only
  split
  · rw [closeSocket_globals]
    rfl
  · rfl

@[simp] theorem startConnecting_heap (s : St R ι W) :
    (startConnecting env s).globals.heap = s.globals.heap := by
  unfold startConnecting
  split <;> rfl

@[simp] theorem continueConnect_heap (s : St R ι W) :
    (continueConnect env s).2.globals.heap = s.globals.heap := by
  rw [← startConnecting_heap env s]
  unfold continueConnect
  dsimp only
  split
  · rfl
  · split
    · split
      · split <;> rfl
      · rfl
    · rfl

@[simp] theorem connectSocket_heap (s : St R ι W) :
    (connectSocket env s).2.globals.heap = s.globals.heap := by
  have hpost (p : Prop) [Decidable p] (t : St R ι W) :
      (if p then connectPost t else t).globals.heap = t.globals.heap := by
    split <;> rfl
  unfold connectSocket
  rw [hpost]
  split
  · rfl
  · exact continueConnect_heap env s

variable [DecidableEq ι] (self : ι)

theorem stTransmit_globals (s : St R ι W) :
    (stTransmit env self s).2.globals = (attempt env self s).2.globals := by
  unfold stTransmit respond
  dsimp only
  rw [finishTransmit_globals, completeIf_globals, abortTransfers_globals, completeIf_globals,
    checkTimeout_globals, completeIf_globals]
  split
  · exact exchange_globals env _
  · rfl

@[simp] theorem connectWait_heap (s : St R ι W) :
    (connectWait self s).2.globals.heap = s.globals.heap := by
  unfold connectWait
  split <;> rfl

@[simp] theorem stConnect_heap (s : St R ι W) :
    (stConnect env self s).2.globals.heap = s.globals.heap := by
  have hw := connectWait_heap self s
  have he : (ensureSocket env (connectWait self s)).2.globals.heap = s.globals.heap := by
    rw [ensureSocket_globals, hw]
  unfold stConnect
  dsimp only
  split
  · exact hw
  · split
    · exact he
    · split
      · exact he
      · rw [connectSocket_heap, he]

@[simp] theorem protocolClientSmTask_heap (s : St R ι W) :
    (protocolClientSmTask env self s).globals.heap = s.globals.heap := by
  unfold protocolClientSmTask
  dsimp only [St.mapSm_globals, St.mapGlobals_globals]
  split
  · rw [stReset_globals]
  · rw [stTransmit_globals, attempt, stConnect_heap, stNewTransmit_globals]
  · rfl
  · rfl

end ErSdk.Statics
