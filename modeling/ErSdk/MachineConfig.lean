import ErSdk.SmMoves

namespace ErSdk.MachineConfig

open ProtocolClientSm SmMoves Error

variable {R ι W : Type}

/-- The configuration of the state machine that runs. -/
def configOf (s : St R ι W) : TransmissionConfig := s.sm.transmissionConfig

/-- The configuration, and the failures to send and receive so far, which only the exchange over a
connection counts. -/
def settingsOf (s : St R ι W) : TransmissionConfig × Nat := (configOf s, s.sm.transmitFailures)

section

variable (env : Env R W) (s : St R ι W)

theorem stNewTransmit_settings : settingsOf (stNewTransmit env s) = settingsOf s := by
  unfold stNewTransmit
  split
  · rfl
  · split
    · split <;> rfl
    · rfl

theorem ensureSocket_settings (w : Int × St R ι W) :
    settingsOf (ensureSocket env w).2 = settingsOf w.2 := by
  unfold ensureSocket ProtocolClientSm.createSocket
  split
  · dsimp only
    split
    · rfl
    · split <;> rfl
  · rfl

theorem startConnecting_settings : settingsOf (startConnecting env s) = settingsOf s := by
  unfold startConnecting
  split <;> rfl

theorem continueConnect_settings : settingsOf (continueConnect env s).2 = settingsOf s := by
  rw [← startConnecting_settings env s]
  unfold continueConnect
  dsimp only
  split
  · rfl
  · split
    · split
      · split <;> rfl
      · rfl
    · rfl

theorem connectSocket_settings : settingsOf (connectSocket env s).2 = settingsOf s := by
  have hpost (error : Int) (t : St R ι W) :
      settingsOf (if error ≠ errWouldBlock then connectPost t else t) = settingsOf t := by
    split <;> rfl
  unfold connectSocket
  rw [hpost]
  split
  · rfl
  · exact continueConnect_settings env s

theorem attempt_settings [DecidableEq ι] (self : ι) :
    settingsOf (attempt env self s).2 = settingsOf s := by
  have hwait : settingsOf (connectWait self (stNewTransmit env s)).2 = settingsOf s := by
    rw [← stNewTransmit_settings env s]
    unfold connectWait
    split <;> rfl
  have hsocket := (ensureSocket_settings env (connectWait self (stNewTransmit env s))).trans hwait
  unfold attempt stConnect
  dsimp only
  split
  · exact hwait
  · split
    · exact hsocket
    · split
      · exact hsocket
      · exact (connectSocket_settings env _).trans hsocket

theorem stSendRequest_settings : settingsOf (stSendRequest env s).2 = settingsOf s := by
  unfold stSendRequest
  split
  · rfl
  · dsimp only
    split
    · rfl
    · split
      · split <;> rfl
      · rfl

theorem stRecvResponse_settings : settingsOf (stRecvResponse env s).2 = settingsOf s := by
  unfold stRecvResponse
  dsimp only
  split
  · rfl
  · split <;> rfl

theorem exchange_config : configOf (exchange env s).2 = configOf s := by
  have hpair (t : St R ι W) : configOf (pairRequestToResponse t).2 = configOf t := by
    unfold pairRequestToResponse
    split <;> rfl
  have hsent := congrArg Prod.fst (stSendRequest_settings env s)
  have hreceived := (congrArg Prod.fst (stRecvResponse_settings env
    (countFailure (stSendRequest env s).1 (stSendRequest env s).2))).trans hsent
  unfold exchange
  dsimp only
  split
  · exact (hpair _).trans hreceived
  · exact hreceived

theorem completeIf_settings (c : Bool × St R ι W) : settingsOf (completeIf env c) = settingsOf c.2 := by
  unfold completeIf stTransmitComplete
  split
  · split
    · rfl
    · dsimp only
      split <;> rfl
  · rfl

theorem checkTimeout_settings : settingsOf (checkTimeout env s).2 = settingsOf s := by
  have hexpired := congrArg (fun sm => (sm.transmissionConfig, sm.transmitFailures))
    (expiredSent_sm env s.sm.sentRequestList s)
  unfold checkTimeout
  dsimp only
  split
  · exact hexpired
  · split <;> exact hexpired
  · exact hexpired

theorem abortTransfers_settings : settingsOf (abortTransfers s).2 = settingsOf s := by
  unfold abortTransfers
  split
  · rfl
  · split <;> rfl

theorem closeSocket_settings : settingsOf (closeSocket env s) = settingsOf s := by
  unfold closeSocket
  split <;> rfl

theorem finishTransmit_settings (next : SmState) (completed : Bool) :
    settingsOf (finishTransmit env next completed s).2 = settingsOf s := by
  unfold finishTransmit
  dsimp only
  split
  · exact closeSocket_settings env _
  · rfl

theorem stReset_settings : settingsOf (stReset env s).2 = settingsOf s := by
  unfold stReset
  dsimp only
  split
  · rfl
  · exact closeSocket_settings env _

/-- st_transmit from the first completion of a request on. -/
theorem stTransmit_settings [DecidableEq ι] (self : ι) :
    settingsOf (stTransmit env self s).2 = settingsOf (respond env self s).2 := by
  unfold stTransmit
  dsimp only
  rw [finishTransmit_settings, completeIf_settings, abortTransfers_settings, completeIf_settings,
    checkTimeout_settings]

theorem respond_config [DecidableEq ι] (self : ι) : configOf (respond env self s).2 = configOf s := by
  have hattempt := congrArg Prod.fst (attempt_settings env s self)
  have hcomplete (c : Bool × St R ι W) : configOf (completeIf env c) = configOf c.2 :=
    congrArg Prod.fst (completeIf_settings env c)
  unfold respond
  dsimp only
  rw [hcomplete]
  split
  · exact (exchange_config env _).trans hattempt
  · exact hattempt

theorem protocolClientSmTask_config [DecidableEq ι] (self : ι) :
    configOf (protocolClientSmTask env self s) = configOf s := by
  have hreset : configOf (stReset env s).2 = configOf s := congrArg Prod.fst (stReset_settings env s)
  have htransmit : configOf (stTransmit env self s).2 = configOf s :=
    (congrArg Prod.fst (stTransmit_settings env s self)).trans (respond_config env s self)
  unfold protocolClientSmTask
  generalize stReset env s = r at hreset ⊢
  generalize stTransmit env self s = t at htransmit ⊢
  cases s.sm.state with
  | reset => exact hreset
  | transmit => exact htransmit
  | connect | failure => rfl

theorem protocolClientSmTransmit_config (type : RequestType) (request : R) (messageId : Int) :
    configOf (protocolClientSmTransmit env type request messageId s).2 = configOf s := by
  unfold protocolClientSmTransmit cqueuePushTail
  dsimp only
  split
  · rfl
  · split
    · split <;> rfl
    · rfl

end

end ErSdk.MachineConfig
