import ErSdk.Ledger

namespace ErSdk.SmMoves

open ProtocolClientSm Ledger Error

variable {R ι W X : Type}

def holdings (sm : ProtocolClientSmClass R) : Holdings R :=
  { type := sm.type
    limit := sm.paralellRequestLimit
    queue := sm.transferQueue
    active := sm.activeRequest
    sent := sm.sentRequestList
    num := sm.sentRequestNum
    aborting := sm.abortTransfersInProgress }

@[simp] theorem holdings_type (sm : ProtocolClientSmClass R) : (holdings sm).type = sm.type := rfl

@[simp] theorem holdings_limit (sm : ProtocolClientSmClass R) :
    (holdings sm).limit = sm.paralellRequestLimit := rfl

@[simp] theorem holdings_queue (sm : ProtocolClientSmClass R) :
    (holdings sm).queue = sm.transferQueue := rfl

@[simp] theorem holdings_active (sm : ProtocolClientSmClass R) :
    (holdings sm).active = sm.activeRequest := rfl

@[simp] theorem holdings_sent (sm : ProtocolClientSmClass R) :
    (holdings sm).sent = sm.sentRequestList := rfl

@[simp] theorem holdings_num (sm : ProtocolClientSmClass R) :
    (holdings sm).num = sm.sentRequestNum := rfl

@[simp] theorem holdings_aborting (sm : ProtocolClientSmClass R) :
    (holdings sm).aborting = sm.abortTransfersInProgress := rfl

/-- A view of the world that only the calls named in the hooks can change, whatever
the send of a request may do to it. -/
structure Watches (env : Env R W) (view : W → X) (k : Hooks R X) : Prop where
  systemGetTime : ∀ w, view (env.systemGetTime w).2 = view w
  memAlloc : ∀ w, view (env.memAlloc w).2 = view w
  queuePushTail : ∀ w, view (env.queuePushTail w).2 = view w
  lookup : ∀ w, view (env.lookup w).2 = view w
  createSocket : ∀ w, view (env.createSocket w).2 = view w
  connect : ∀ a w, view (env.connect a w).2 = view w
  setSocket : ∀ a w, view (env.setSocket a w) = view w
  clearSocket : ∀ w, view (env.clearSocket w) = view w
  clientClose : ∀ w, view (env.clientClose w) = view w
  close : ∀ a w, k.closes (view w) (view (env.close a w))
  recvResponse : ∀ p w,
    k.receives (env.recvResponse p w).1 (view w) (view (env.recvResponse p w).2)
  status : ∀ c w, k.status c (env.getResponseStatus c w)
  clb : ∀ r p w, k.calls r p (view w) (view (env.clb r p w).2)

structure Observes (env : Env R W) (view : W → X) (k : Hooks R X) : Prop
    extends Watches env view k where
  sendRequest : ∀ r w, k.sends r (env.sendRequest r w).1 (view w) (view (env.sendRequest r w).2)

/-- The send of the active request in the state `s`, if there is one, as the hooks see it. -/
def SeesSend (env : Env R W) (view : W → X) (k : Hooks R X) (s : St R ι W) : Prop :=
  ∀ r, s.sm.activeRequest = some r →
    k.sends r (env.sendRequest r s.world).1 (view s.world) (view (env.sendRequest r s.world).2)

def look (view : W → X) (s : St R ι W) : Holdings R × X := (holdings s.sm, view s.world)

/-- The response as st_transmit_complete passes it to the callback of `r`. -/
def reported (r : ProtocolClientRequest R) (s : St R ι W) : ProtocolClientResponse :=
  { s.sm.response with maxPayloadSize := maxPayloadSize, requestType := r.type }

def completionOf (why : Why) (place : Place) (h : Holdings R) (c : Bool × St R ι W) :
    Option (Completion R) :=
  if c.1 then c.2.sm.completedRequest.map (fun r => ⟨why, place, r, reported r c.2, h⟩) else none

def timeoutPlace (env : Env R W) (s : St R ι W) : Place :=
  if (expiredSent env s.sm.sentRequestList s).1.isSome then .sent else .active

def abortPlace (sm : ProtocolClientSmClass R) : Place :=
  match sm.transferQueue, sm.sentRequestList with
  | _ :: _, _ => .queue
  | [], _ :: _ => .sent
  | [], [] => .active

/-- The completions of one task call, in order: by a response, by a timeout and
by the abort. -/
def completions [DecidableEq ι] (env : Env R W) (self : ι) (s : St R ι W) :
    List (Completion R) :=
  if s.sm.state = .transmit then
    let c := attempt env self s
    let x := if c.1.next = .transmit then exchange env c.2 else (false, c.2)
    let s₁ := completeIf env x
    let t := checkTimeout env s₁
    let s₂ := completeIf env t
    (completionOf .response .sent (holdings x.2.sm) x).toList ++
      ((completionOf .timeout (timeoutPlace env s₁) (holdings s₁.sm) t).toList ++
        (completionOf .abort (abortPlace s₂.sm) (holdings s₂.sm) (abortTransfers s₂)).toList)
  else []

theorem expiredSent_sm (env : Env R W) (l : List (ProtocolClientRequest R)) (s : St R ι W) :
    (expiredSent env l s).2.sm = s.sm := by
  induction l generalizing s with
  | nil => rfl
  | cons r l ih =>
      rw [expiredSent]
      split
      · exact ih s
      · dsimp only
        split
        · rfl
        · rw [ih]; rfl

theorem expiredSent_mem {env : Env R W} {l : List (ProtocolClientRequest R)} {s : St R ι W}
    {r : ProtocolClientRequest R} (h : (expiredSent env l s).1 = some r) :
    r ∈ l ∧ ¬ (s.sm.type = .asynch ∧ r.type = .subscribeAsynch) := by
  induction l generalizing s with
  | nil => simp [expiredSent] at h
  | cons q l ih =>
      rw [expiredSent] at h
      split at h
      · obtain ⟨hm, hn⟩ := ih h
        exact ⟨List.mem_cons_of_mem _ hm, hn⟩
      · rename_i hq
        dsimp only at h
        split at h
        · cases h
          exact ⟨List.mem_cons_self, hq⟩
        · obtain ⟨hm, hn⟩ := ih h
          exact ⟨List.mem_cons_of_mem _ hm, hn⟩

section

variable {env : Env R W} {view : W → X} {k : Hooks R X} (ho : Watches env view k)

include ho

theorem look_time (s : St R ι W) : look view (s.call env.systemGetTime).2 = look view s := by
  simp [look, ho.systemGetTime]

theorem look_diffTime (t : SysTime) (s : St R ι W) :
    look view (systemGetDiffTime env t s).2 = look view s := look_time ho s

theorem look_expiredSent (l : List (ProtocolClientRequest R)) (s : St R ι W) :
    look view (expiredSent env l s).2 = look view s := by
  induction l generalizing s with
  | nil => rfl
  | cons r l ih =>
      rw [expiredSent]
      split
      · exact ih s
      · dsimp only
        split
        · exact look_diffTime ho r.startOfTransmit s
        · rw [ih, look_diffTime ho r.startOfTransmit]

variable {ok : Completion R → Prop}

theorem stNewTransmit_moves (s : St R ι W) :
    Moves k ok (look view s) (look view (stNewTransmit env s)) := by
  unfold stNewTransmit
  split
  · exact .refl
  · rename_i hb
    split
    · rename_i r rest ha hq
      split
      · rename_i hl
        have hw : view (env.systemGetTime s.world).2 = view s.world := ho.systemGetTime _
        have hm : Move k ok (look view s) _ := Move.take (h := holdings s.sm)
          (env.systemGetTime s.world).1 (by simpa using hb) ha hq
          (by simpa [underLimit] using hl)
        refine .single ?_
        simpa [look, holdings, hw] using hm
      · exact .refl
    · exact .refl

theorem look_createSocket (s : St R ι W) :
    look view (ProtocolClientSm.createSocket env s).2 = look view s := by
  unfold ProtocolClientSm.createSocket
  dsimp only
  split
  · simp [look, ho.lookup]
  · split <;> simp [look, holdings, ho.lookup, ho.createSocket]

theorem look_startConnecting (s : St R ι W) : look view (startConnecting env s) = look view s := by
  unfold startConnecting
  split
  · simp [look, holdings, ho.systemGetTime]
  · rfl

theorem look_continueConnect (s : St R ι W) :
    look view (continueConnect env s).2 = look view s := by
  rw [← look_startConnecting ho s]
  unfold continueConnect
  dsimp only
  split
  · simp [look, holdings, ho.connect, ho.setSocket]
  · split
    · split
      · split <;> simp [look, systemGetDiffTime, ho.connect, ho.systemGetTime]
      · simp [look, systemGetDiffTime, ho.connect, ho.systemGetTime]
    · simp [look, ho.connect]

theorem look_connectSocket (s : St R ι W) :
    look view (connectSocket env s).2 = look view s := by
  have hpost (p : Prop) [Decidable p] (t : St R ι W) :
      look view (if p then connectPost t else t) = look view t := by
    split <;> rfl
  unfold connectSocket
  rw [hpost]
  split
  · rfl
  · exact look_continueConnect ho s

theorem look_stConnect [DecidableEq ι] (self : ι) (s : St R ι W) :
    look view (stConnect env self s).2 = look view s := by
  have hwait : look view (connectWait self s).2 = look view s := by
    unfold connectWait
    split <;> rfl
  have hsocket : look view (ensureSocket env (connectWait self s)).2 = look view s := by
    unfold ensureSocket
    split
    · rw [look_createSocket ho, hwait]
    · exact hwait
  unfold stConnect
  dsimp only
  split
  · exact hwait
  · split
    · exact hsocket
    · split
      · exact hsocket
      · rw [look_connectSocket ho, hsocket]

theorem stSendRequest_moves (s : St R ι W) (hsend : SeesSend env view k s) :
    Moves k ok (look view s) (look view (stSendRequest env s).2) := by
  unfold stSendRequest
  split
  · exact .refl
  · rename_i r ha
    have hs := hsend r ha
    dsimp only
    split
    · rename_i he
      rw [St.call_fst] at he
      rw [he] at hs
      exact .single (Move.send ha hs)
    · rename_i he
      have hm : Move k ok (look view s) (look view (s.call (env.sendRequest r)).2) :=
        Move.refused ha he hs
      split
      · split
        · rw [look_diffTime ho r.startOfTransmit]; exact .single hm
        · rw [look_diffTime ho r.startOfTransmit]; exact .single hm
      · exact .single hm

theorem look_stTransmitComplete {s : St R ι W} {c : Completion R}
    (hc : s.sm.completedRequest = some c.request) (hr : c.response = reported c.request s)
    (ht : c.taken = holdings s.sm) (hty : c.before.type = s.sm.type)
    (hb : c.before.aborting = s.sm.abortTransfersInProgress) :
    k.calls c.request c.response (view s.world) (look view (stTransmitComplete env s)).2 ∧
      (look view (stTransmitComplete env s)).1 = c.after := by
  have hst : staysListed (callBack env c.request s).sm c.request = c.stays := by
    unfold Completion.stays
    rw [hty, hb, hr]
    rfl
  have hcall : k.calls c.request c.response (view s.world)
      (view (callBack env c.request s).world) := by
    have h := ho.clb c.request c.response s.world
    rw [← ho.clientClose (env.clb c.request c.response s.world).2] at h
    rw [hr] at h ⊢
    exact h
  have hh : holdings (callBack env c.request s).sm = c.taken := by rw [ht]; rfl
  unfold stTransmitComplete
  rw [hc]
  dsimp only
  rw [hst]
  unfold Completion.after
  split
  · exact ⟨hcall, hh⟩
  · rw [← hh]
    exact ⟨hcall, rfl⟩

/-- What recv_response leaves in the response, for each result. -/
theorem stRecvResponse_delivers (s : St R ι W) :
    ∃ rcv x, look view (stRecvResponse env s).2 = (holdings s.sm, x) ∧
      k.receives rcv (view s.world) x ∧ (stRecvResponse env s).1 = rcv.error ∧
      (rcv.error = errSuccess ∨ rcv.error = errOverflow →
        ∀ r, Delivers k rcv (reported r (stRecvResponse env s).2)) := by
  refine ⟨(env.recvResponse s.sm.response s.world).1,
    view (env.recvResponse s.sm.response s.world).2, ?_, ho.recvResponse _ _, ?_, ?_⟩
  · unfold stRecvResponse
    dsimp only
    split
    · rfl
    · split <;> rfl
  · unfold stRecvResponse
    dsimp only
    split
    · rfl
    · split <;> rfl
  · intro he r
    have hst := ho.status (env.recvResponse s.sm.response s.world).1.responseCode
      (env.recvResponse s.sm.response s.world).2
    unfold stRecvResponse
    dsimp only
    split
    · rename_i h
      exact ⟨rfl, rfl, fun _ => ⟨rfl, rfl, hst⟩, fun hn => absurd h hn⟩
    · rename_i h
      have hov := he.resolve_left h
      split
      · rename_i hw
        exact absurd (hov.symm.trans hw) (by decide)
      · exact ⟨rfl, rfl, fun hs => absurd hs h, fun _ => ⟨hov, hov⟩⟩

omit ho in
theorem pairRequestToResponse_cases (s : St R ι W) :
    (pairRequestToResponse s = (false, s)) ∨
      ∃ r ∈ s.sm.sentRequestList, r.messageId = s.sm.response.id ∧
        pairRequestToResponse s =
          (true, s.mapSm (fun sm => { sm with completedRequest := some r })) := by
  unfold pairRequestToResponse
  cases hf : s.sm.sentRequestList.find? (fun r => r.messageId = s.sm.response.id) with
  | none => exact .inl rfl
  | some r =>
      exact .inr ⟨r, List.mem_of_find?_eq_some hf, by simpa using List.find?_some hf, rfl⟩

theorem exchange_trace (s : St R ι W) (hsend : SeesSend env view k s) :
    Trace k (completionOf .response .sent (holdings (exchange env s).2.sm) (exchange env s)).toList
      (look view s) (look view (completeIf env (exchange env s))) := by
  obtain ⟨rcv, x, hl, hx, he, hd⟩ :=
    stRecvResponse_delivers ho (countFailure (stSendRequest env s).1 (stSendRequest env s).2)
  have hsent : Trace k [] (look view s)
      (look view (countFailure (stSendRequest env s).1 (stSendRequest env s).2)) :=
    .of_moves (stSendRequest_moves ho s hsend)
  unfold exchange
  dsimp only
  generalize countFailure (stSendRequest env s).1 (stSendRequest env s).2 = t at *
  have hrcv : Trace k [] (look view s) (look view (stRecvResponse env t).2) := by
    rw [hl]
    exact hsent.still (.received rcv hx)
  rw [he]
  generalize hu : (stRecvResponse env t).2 = u at *
  split
  · rename_i hs
    obtain hp | ⟨r, hr, hid, hp⟩ := pairRequestToResponse_cases u
    · rw [hp]
      exact hrcv
    · rw [hp]
      let c : Completion R := ⟨.response, .sent, r, reported r u, holdings u.sm⟩
      obtain ⟨hcall, hafter⟩ := look_stTransmitComplete ho (c := c)
        (s := u.mapSm (fun sm => { sm with completedRequest := some r })) rfl rfl rfl rfl rfl
      rw [show view (u.mapSm (fun sm => { sm with completedRequest := some r })).world = x from
        congrArg Prod.snd hl] at hcall
      have hm : Completes k c _ _ :=
        Completes.answer rcv rfl (.answered hr hid) hx (hd hs r) hcall rfl
      rw [← hafter, show c.before = holdings t.sm from congrArg Prod.fst hl] at hm
      exact hsent.trans hm.trace
  · exact hrcv

theorem exchange_moves (s : St R ι W) (hsend : SeesSend env view k s)
    (hok : ∀ c, completionOf .response .sent (holdings (exchange env s).2.sm) (exchange env s) = some c → ok c) :
    Moves k ok (look view s) (look view (completeIf env (exchange env s))) :=
  (exchange_trace ho s hsend).moves fun c hc => hok c (Option.mem_toList.mp hc)

/-- A completion that is not the answer to a request: the chosen request is in
`completedRequest` and the machine has let go of it as `taken` says. -/
theorem complete_trace {s t : St R ι W} (c : Completion R) (hw : c.why ≠ .response)
    (hsel : c.Selected) (hb : c.before = holdings s.sm)
    (hv : view t.world = view s.world) (hc : t.sm.completedRequest = some c.request)
    (hr : c.response = reported c.request t) (ht : c.taken = holdings t.sm)
    (hty : t.sm.type = s.sm.type)
    (hab : t.sm.abortTransfersInProgress = s.sm.abortTransfersInProgress) :
    Trace k [c] (look view s) (look view (stTransmitComplete env t)) := by
  obtain ⟨hcall, hafter⟩ := look_stTransmitComplete ho hc hr ht
    (by rw [hb, hty]; rfl) (by rw [hb, hab]; rfl)
  rw [hv] at hcall
  have hm : Completes k c _ _ := Completes.complete hw hsel hcall (by rw [hr]; rfl)
  rw [← hafter, hb] at hm
  exact hm.trace

/-- What check_timeout can do: nothing, or let a request expire, the sent ones
before the active one. -/
theorem checkTimeout_cases (s : St R ι W) :
    ∃ t : St R ι W, t.sm = s.sm ∧ view t.world = view s.world ∧
      (checkTimeout env s = (false, t) ∨
        ∃ r, checkTimeout env s = (true, t.mapSm (expire r)) ∧
          ((timeoutPlace env s = .sent ∧ r ∈ s.sm.sentRequestList ∧
              ¬ (s.sm.type = .asynch ∧ r.type = .subscribeAsynch)) ∨
            (timeoutPlace env s = .active ∧ s.sm.activeRequest = some r))) := by
  have hl := congrArg Prod.snd (look_expiredSent ho s.sm.sentRequestList s)
  have hsm := expiredSent_sm env s.sm.sentRequestList s
  have hmem (r) : (expiredSent env s.sm.sentRequestList s).1 = some r → _ := expiredSent_mem
  unfold timeoutPlace checkTimeout
  dsimp only
  generalize expiredSent env s.sm.sentRequestList s = e at *
  obtain ⟨found, t⟩ := e
  dsimp only at hl hsm hmem
  cases found with
  | some r => exact ⟨t, hsm, hl, .inr ⟨r, rfl, .inl ⟨rfl, hmem r rfl⟩⟩⟩
  | none =>
      cases ha : t.sm.activeRequest with
      | none => exact ⟨t, hsm, hl, .inl rfl⟩
      | some r =>
          have hd := congrArg Prod.snd (look_diffTime ho r.startOfTransmit t)
          refine ⟨(systemGetDiffTime env r.startOfTransmit t).2, hsm, hd.trans hl, ?_⟩
          dsimp only
          split
          · exact .inr ⟨r, rfl, .inr ⟨rfl, by rw [← hsm]; exact ha⟩⟩
          · exact .inl rfl

theorem timeout_trace (s : St R ι W) :
    Trace k (completionOf .timeout (timeoutPlace env s) (holdings s.sm) (checkTimeout env s)).toList
      (look view s) (look view (completeIf env (checkTimeout env s))) := by
  obtain ⟨t, hsm, hv, hc | ⟨r, hc, hplace⟩⟩ := checkTimeout_cases ho s
  · rw [hc, show look view (completeIf env (false, t)) = look view s by
      simp only [look, completeIf, Bool.false_eq_true, if_false, hsm, hv]]
    exact .refl
  · rw [hc]
    have htaken : { holdings s.sm with active := none } = holdings (t.mapSm (expire r)).sm := by
      rw [← hsm]; rfl
    have hty : (t.mapSm (expire r)).sm.type = s.sm.type := by rw [← hsm]; rfl
    have hab : (t.mapSm (expire r)).sm.abortTransfersInProgress = s.sm.abortTransfersInProgress := by
      rw [← hsm]; rfl
    obtain ⟨hp, hr, hn⟩ | ⟨hp, ha⟩ := hplace
    · rw [hp]
      exact complete_trace ho (t := t.mapSm (expire r))
        ⟨.timeout, .sent, r, reported r (t.mapSm (expire r)), holdings s.sm⟩ (by simp)
        (.sentTimeout hr rfl hn) rfl hv rfl rfl htaken hty hab
    · rw [hp]
      exact complete_trace ho (t := t.mapSm (expire r))
        ⟨.timeout, .active, r, reported r (t.mapSm (expire r)), holdings s.sm⟩ (by simp)
        (.activeTimeout ha rfl) rfl hv rfl rfl htaken hty hab

theorem timeout_moves (s : St R ι W)
    (hok : ∀ c, completionOf .timeout (timeoutPlace env s) (holdings s.sm) (checkTimeout env s) = some c → ok c) :
    Moves k ok (look view s) (look view (completeIf env (checkTimeout env s))) :=
  (timeout_trace ho s).moves fun c hc => hok c (Option.mem_toList.mp hc)

omit ho in
/-- What abort_transfers can do: nothing, take one request from the first place
that holds one, or finish the abort. -/
theorem abortTransfers_cases (s : St R ι W) :
    (s.sm.abortTransfersInProgress = false ∧ abortTransfers s = (false, s)) ∨
    (s.sm.abortTransfersInProgress = true ∧
      ((∃ r rest, s.sm.transferQueue = r :: rest ∧ abortPlace s.sm = .queue ∧
          abortTransfers s = (true, s.mapSm (fun sm =>
            { completeWith errRequestAborted r sm with transferQueue := rest }))) ∨
        (s.sm.transferQueue = [] ∧ ∃ r rest, s.sm.sentRequestList = r :: rest ∧
          abortPlace s.sm = .sent ∧
          abortTransfers s = (true, s.mapSm (completeWith errRequestAborted r))) ∨
        (s.sm.transferQueue = [] ∧ s.sm.sentRequestList = [] ∧ ∃ r, s.sm.activeRequest = some r ∧
          abortPlace s.sm = .active ∧
          abortTransfers s = (true, s.mapSm (completeWith errRequestAborted r))) ∨
        (s.sm.transferQueue = [] ∧ s.sm.sentRequestList = [] ∧ s.sm.activeRequest = none ∧
          abortTransfers s = (false, s.mapSm (fun sm =>
            { sm with abortTransfersInProgress := false, abortDone := true }))))) := by
  unfold abortTransfers abortPlace
  cases hb : s.sm.abortTransfersInProgress with
  | false => exact .inl ⟨rfl, rfl⟩
  | true =>
      refine .inr ⟨rfl, ?_⟩
      simp only [Bool.not_true, Bool.false_eq_true, if_false]
      cases hq : s.sm.transferQueue with
      | cons r rest => exact .inl ⟨r, rest, rfl, rfl, rfl⟩
      | nil =>
          cases hs : s.sm.sentRequestList with
          | cons r rest => exact .inr (.inl ⟨rfl, r, rest, rfl, rfl, rfl⟩)
          | nil =>
              cases ha : s.sm.activeRequest with
              | some r => exact .inr (.inr (.inl ⟨rfl, rfl, r, rfl, rfl, rfl⟩))
              | none => exact .inr (.inr (.inr ⟨rfl, rfl, rfl, rfl⟩))

theorem abort_trace (s : St R ι W) :
    Trace k (completionOf .abort (abortPlace s.sm) (holdings s.sm) (abortTransfers s)).toList
      (look view s) (look view (completeIf env (abortTransfers s))) := by
  obtain ⟨_, h⟩ | ⟨hb, ⟨r, rest, hq, hp, h⟩ | ⟨hq, r, rest, hs, hp, h⟩ | ⟨hq, hs, r, ha, hp, h⟩ |
    ⟨hq, hs, ha, h⟩⟩ := abortTransfers_cases s
  · rw [h]
    exact .refl
  · let t := s.mapSm (fun sm => { completeWith errRequestAborted r sm with transferQueue := rest })
    rw [h, hp]
    exact complete_trace ho (t := t) ⟨.abort, .queue, r, reported r t, holdings s.sm⟩ (by simp)
      (.queueAbort rest hb hq rfl) rfl rfl rfl rfl
      (by simp [Completion.taken, holdings, t, completeWith, hq]) rfl rfl
  · let t := s.mapSm (completeWith errRequestAborted r)
    rw [h, hp]
    exact complete_trace ho (t := t) ⟨.abort, .sent, r, reported r t, holdings s.sm⟩ (by simp)
      (.sentAbort rest hb hq hs rfl) rfl rfl rfl rfl rfl rfl rfl
  · let t := s.mapSm (completeWith errRequestAborted r)
    rw [h, hp]
    exact complete_trace ho (t := t) ⟨.abort, .active, r, reported r t, holdings s.sm⟩ (by simp)
      (.activeAbort hb hq hs ha rfl) rfl rfl rfl rfl rfl rfl rfl
  · rw [h]
    exact .of_moves (.single (Move.aborted hb hq hs ha))

theorem closeSocket_moves (s : St R ι W) :
    Moves k ok (look view s) (look view (closeSocket env s)) := by
  unfold closeSocket
  split
  · have hc := ho.close s.sm.socket (env.clearSocket s.world)
    rw [ho.clearSocket] at hc
    exact .single (Move.closed hc)
  · exact .refl

theorem finishTransmit_moves (next : SmState) (completed : Bool) (s : St R ι W) :
    Moves k ok (look view s) (look view (finishTransmit env next completed s).2) := by
  unfold finishTransmit
  dsimp only
  split
  · exact closeSocket_moves ho (s.mapSm (fun sm => { sm with
      timeouts := if tooManyTimeouts sm then 0 else sm.timeouts, abortDone := false }))
  · exact .refl

theorem stReset_moves (s : St R ι W) : Moves k ok (look view s) (look view (stReset env s).2) := by
  have hd := look_diffTime ho s.sm.lastReset s
  unfold stReset
  dsimp only
  split
  · rw [hd]
  · let t := (systemGetDiffTime env s.sm.lastReset s).2.call env.systemGetTime
    have ht : look view t.2 = look view s :=
      (look_time ho (systemGetDiffTime env s.sm.lastReset s).2).trans hd
    rw [← ht]
    exact closeSocket_moves ho (t.2.mapSm (fun sm => { sm with lastReset := t.1 }))

/-- st_transmit as far as the completion of a request by its response. -/
theorem respond_trace [DecidableEq ι] (self : ι) (s : St R ι W)
    (hsend : (attempt env self s).1.next = .transmit → SeesSend env view k (attempt env self s).2) :
    let x := if (attempt env self s).1.next = .transmit then exchange env (attempt env self s).2
      else (false, (attempt env self s).2)
    Trace k (completionOf .response .sent (holdings x.2.sm) x).toList (look view s)
      (look view (respond env self s).2) := by
  have hnew : Trace k [] (look view s) (look view (attempt env self s).2) := by
    unfold attempt
    rw [look_stConnect ho]
    exact .of_moves (stNewTransmit_moves ho s)
  unfold respond
  dsimp only
  split
  · rename_i hn
    exact hnew.trans (exchange_trace ho _ (hsend hn))
  · exact hnew

theorem respond_moves [DecidableEq ι] (self : ι) (s : St R ι W) (hs : s.sm.state = .transmit)
    (hsend : (attempt env self s).1.next = .transmit → SeesSend env view k (attempt env self s).2)
    (hok : ∀ c ∈ completions env self s, ok c) :
    Moves k ok (look view s) (look view (respond env self s).2) := by
  refine (respond_trace ho self s hsend).moves fun c hc => hok c ?_
  unfold completions
  rw [if_pos hs]
  exact List.mem_append_left _ hc

omit ho in
theorem timeout_mem_completions [DecidableEq ι] {self : ι} {s : St R ι W}
    (hs : s.sm.state = .transmit) {c : Completion R}
    (hc : completionOf .timeout (timeoutPlace env (respond env self s).2)
      (holdings (respond env self s).2.sm) (checkTimeout env (respond env self s).2) = some c) :
    c ∈ completions env self s := by
  unfold completions
  rw [if_pos hs]
  refine List.mem_append_right _ (List.mem_append_left _ ?_)
  rw [Option.mem_toList]
  exact hc

/-- st_transmit from the abort on. -/
theorem stTransmit_trace_rest [DecidableEq ι] (self : ι) (s : St R ι W) :
    let t := completeIf env (checkTimeout env (respond env self s).2)
    Trace k (completionOf .abort (abortPlace t.sm) (holdings t.sm) (abortTransfers t)).toList
      (look view t) (look view (stTransmit env self s).2) := by
  intro t
  have hfinish := (abort_trace ho t).trans (.of_moves (finishTransmit_moves ho
    (respond env self s).1.1 ((respond env self s).1.2 ||
      (checkTimeout env (respond env self s).2).1 || (abortTransfers t).1)
    (completeIf env (abortTransfers t))))
  rwa [List.append_nil] at hfinish

theorem stTransmit_moves_rest [DecidableEq ι] (self : ι) (s : St R ι W) (hs : s.sm.state = .transmit)
    (hok : ∀ c ∈ completions env self s, ok c) :
    Moves k ok (look view (completeIf env (checkTimeout env (respond env self s).2)))
      (look view (stTransmit env self s).2) := by
  refine (stTransmit_trace_rest ho self s).moves fun c hc => hok c ?_
  unfold completions
  rw [if_pos hs]
  exact List.mem_append_right _ (List.mem_append_right _ hc)

theorem task_trace [DecidableEq ι] (self : ι) (s : St R ι W)
    (hsend : s.sm.state = .transmit → (attempt env self s).1.next = .transmit →
      SeesSend env view k (attempt env self s).2) :
    Trace k (completions env self s) (look view s) (look view (protocolClientSmTask env self s)) := by
  have hnext (next : SmState) (t : St R ι W) :
      look view ((t.mapGlobals (fun g => { g with nextState := next })).mapSm
        (fun sm => { sm with state := next })) = look view t := rfl
  unfold protocolClientSmTask
  dsimp only
  rw [hnext]
  by_cases hs : s.sm.state = .transmit
  · unfold completions
    rw [if_pos hs, hs]
    exact (respond_trace ho self s (hsend hs)).trans
      ((timeout_trace ho _).trans (stTransmit_trace_rest ho self s))
  · unfold completions
    rw [if_neg hs]
    split
    · exact .of_moves (stReset_moves ho s)
    · exact absurd ‹_› hs
    · exact .refl
    · exact .refl

theorem task_moves_of_send [DecidableEq ι] (self : ι) (s : St R ι W)
    (hsend : s.sm.state = .transmit → (attempt env self s).1.next = .transmit →
      SeesSend env view k (attempt env self s).2)
    (hok : ∀ c ∈ completions env self s, ok c) :
    Moves k ok (look view s) (look view (protocolClientSmTask env self s)) :=
  (task_trace ho self s hsend).moves hok

/-- What protocol_client_sm_transmit does to the requests: nothing when it fails. -/
theorem transmit_cases (type : RequestType) (request : R) (messageId : Int) (s : St R ι W) :
    let c := protocolClientSmTransmit env type request messageId s
    (c.1 ≠ errSuccess ∧ look view c.2 = look view s ∧ s.globals.heap ≤ c.2.globals.heap) ∨
      (c.1 = errSuccess ∧ c.2.globals.heap = s.globals.heap + 1 ∧
        look view c.2 = ({ holdings s.sm with
          queue := s.sm.transferQueue ++ [newRequest type request messageId s] }, view s.world)) := by
  have hmem := ho.memAlloc s.world
  have hpush := ho.queuePushTail (env.memAlloc s.world).2
  unfold protocolClientSmTransmit cqueuePushTail
  dsimp only
  split
  · rename_i he
    exact .inl ⟨he, by simp [look, hmem], Nat.le_refl _⟩
  · split
    · split
      · rename_i he
        exact .inr ⟨he, rfl, by simp [look, holdings, hmem, hpush]⟩
      · rename_i he
        exact .inl ⟨he, by simp [look, hmem, hpush], Nat.le_succ _⟩
    · exact .inl ⟨show errFailure ≠ errSuccess by decide, by simp [look, hmem], Nat.le_succ _⟩

end

theorem protocolClientSmTask_moves [DecidableEq ι] {env : Env R W} {view : W → X} {k : Hooks R X}
    {ok : Completion R → Prop} (ho : Observes env view k) (self : ι) (s : St R ι W)
    (hok : ∀ c ∈ completions env self s, ok c) :
    Moves k ok (look view s) (look view (protocolClientSmTask env self s)) :=
  task_moves_of_send ho.toWatches self s (fun _ _ r _ => ho.sendRequest r _) hok

end ErSdk.SmMoves
