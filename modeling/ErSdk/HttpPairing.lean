import ErSdk.HttpClient
import ErSdk.Sessions

namespace ErSdk.HttpPairing

open ProtocolClientSm Ledger SmMoves Sessions HttpParser HttpClient Runs Error

variable {R ι W : Type}

/-- A call of a callback, with the request whose answer was received last. -/
structure Served where
  request : Nat
  responseCode : Int
  answers : Option Nat
  deriving DecidableEq, Repr

/-- The connection to the server. `unanswered` holds the requests sent over it whose
answers can still arrive, the oldest first. -/
structure Connection where
  unanswered : List Nat
  answers : Option Nat
  log : List Served
  deriving DecidableEq, Repr

/-- The result of the recv operation of the network. With success it delivers an
answer of the server, behind `skipped` answers that never come. -/
structure NetRecv where
  error : Int
  chunk : List UInt8
  alloc : Allocations
  skipped : Nat
  deriving DecidableEq, Repr

/-- The server answers in the order of the requests, and each at most once. -/
def deliver (n : NetRecv) (x : Connection) : (Int × List UInt8) × Connection :=
  if n.error ≠ errSuccess then ((n.error, []), x)
  else match x.unanswered.drop n.skipped with
    | [] => ((errWouldBlock, []), x)
    | a :: rest =>
        ((errSuccess, n.chunk.take recvBufferSize), { x with unanswered := rest, answers := some a })

def receivedOf (response : ProtocolClientResponse) : Except Pmatch.Fault Recv → Received
  | .ok r => ⟨r.error, r.responseCode.getD 0, r.token.getD response.id, r.payload, r.payloadSize.getD 0⟩
  | .error _ => ⟨errFailure, 0, response.id, response.payload, 0⟩

/-- The HTTP client over a connection to such a server. All else is as `env` has it. -/
def served (env : Env R W) (net : W → NetRecv × W) : Env R (W × Connection) where
  systemGetTime := quietly env.systemGetTime
  memAlloc := quietly env.memAlloc
  queuePushTail := quietly env.queuePushTail
  lookup := quietly env.lookup
  createSocket := quietly env.createSocket
  connect socket := quietly (env.connect socket)
  close socket w := (env.close socket w.1, { w.2 with unanswered := [] })
  setSocket socket w := (env.setSocket socket w.1, w.2)
  clearSocket w := (env.clearSocket w.1, w.2)
  sendRequest request w :=
    let c := env.sendRequest request w.1
    (c.1, (c.2, if c.1 = errSuccess then
      { w.2 with unanswered := w.2.unanswered ++ [request.addr] } else w.2))
  recvResponse response w :=
    let n := net w.1
    let d := deliver n.1 w.2
    (receivedOf response (httpRecv d.1 n.1.alloc response.payload maxPayloadSize), (n.2, d.2))
  clientClose w := (env.clientClose w.1, w.2)
  getResponseStatus code _ := httpGetResponseStatus code
  clb request response w :=
    let c := env.clb request response w.1
    (c.1, (c.2, { w.2 with
      log := w.2.log ++ [⟨request.addr, response.responseCode, w.2.answers⟩] }))

/-- The codes that a callback gets without a response of the server. -/
def OwnCode (code : Int) : Prop :=
  code = errTimeout ∨ code = errRequestAborted ∨ code = errOverflow

/-- Every response of the server goes to the callback of the request it answers. -/
def WellPaired (x : Connection) : Prop :=
  ∀ e ∈ x.log, ¬ OwnCode e.responseCode → e.answers = some e.request

/-- The connection as the state machine sees it, when it sends only over a connection
on which nothing is unanswered. -/
def serverHooks : Hooks R Connection where
  sends r e x x' :=
    (e = errSuccess → x.unanswered = [] ∧ x' = { x with unanswered := [r.addr] }) ∧
      (e ≠ errSuccess → x' = x)
  receives rcv x x' :=
    (rcv.error ≠ errSuccess ∧ x' = x) ∨
      ∃ a rest, a ∈ x.unanswered ∧ rest ⊆ x.unanswered ∧
        x' = { x with unanswered := rest, answers := some a }
  closes x x' := x' = { x with unanswered := [] }
  status _ _ := True
  calls r response x x' :=
    x' = { x with log := x.log ++ [⟨r.addr, response.responseCode, x.answers⟩] }

theorem deliver_receives (n : NetRecv) (x : Connection) (response : ProtocolClientResponse) :
    (serverHooks (R := R)).receives
      (receivedOf response (httpRecv (deliver n x).1 n.alloc response.payload maxPayloadSize)) x
      (deliver n x).2 := by
  have hfail (e : Int) (he : e ≠ errSuccess) :
      (receivedOf response (httpRecv (e, []) n.alloc response.payload maxPayloadSize)).error ≠
        errSuccess := by
    unfold httpRecv
    rw [if_pos he]
    exact he
  unfold deliver
  split
  · rename_i he
    exact .inl ⟨hfail _ he, rfl⟩
  · split
    · exact .inl ⟨hfail _ (by decide), rfl⟩
    · rename_i a rest hdrop
      have hsub : a :: rest ⊆ x.unanswered := hdrop ▸ List.drop_subset _ _
      exact .inr ⟨a, rest, hsub List.mem_cons_self, fun b hb => hsub (List.mem_cons_of_mem _ hb), rfl⟩

theorem watches_served (env : Env R W) (net : W → NetRecv × W) :
    Watches (logged (served env net)) (fun w => w.1.2) serverHooks where
  systemGetTime _ := rfl
  memAlloc _ := rfl
  queuePushTail _ := rfl
  lookup _ := rfl
  createSocket _ := rfl
  connect _ _ := rfl
  setSocket _ _ := rfl
  clearSocket _ := rfl
  clientClose _ := rfl
  close _ _ := rfl
  recvResponse response w := deliver_receives (net w.1.1).1 w.1.2 response
  status _ _ := trivial
  clb _ _ _ := rfl

/-- A synchronous state machine under a limit of one, with its connection: at most one
request is active or sent, and only its answer can still arrive. -/
structure OneAtATime (p : Holdings R × Connection) : Prop where
  type : p.1.type = .synch
  limit : p.1.limit = 1
  active : p.1.active ≠ none → p.1.sent = []
  short : p.1.sent.length ≤ 1
  num : p.1.num ≤ p.1.sent.length
  count : p.1.aborting = false → p.1.num = p.1.sent.length
  pending : ∀ r ∈ p.1.sent, ∀ a ∈ p.2.unanswered, a = r.addr
  paired : WellPaired p.2

theorem stays_synch {c : Completion R} (h : c.before.type = .synch) : c.stays = false := by
  simp [Completion.stays, h]

theorem wellPaired_append {x : Connection} {e : Served} (h : WellPaired x)
    (he : ¬ OwnCode e.responseCode → e.answers = some e.request) :
    WellPaired { x with log := x.log ++ [e] } := by
  intro f hf
  obtain hf | hf := List.mem_append.mp hf
  · exact h f hf
  · exact List.mem_singleton.mp hf ▸ he

theorem OneAtATime.complete {c : Completion R} {x x' : Connection} (hs : c.Selected)
    (h : OneAtATime (c.before, x)) (hpending : x'.unanswered ⊆ x.unanswered)
    (hpaired : WellPaired x') : OneAtATime (c.after, x') := by
  have hshort := (listDel_sublist c.request c.before.sent).length_le
  have hlen := le_length_listDel c.request c.before.sent
  have hafter : c.after = { c.taken with
      sent := listDel c.request c.taken.sent, num := c.taken.num - 1 } := by
    rw [Completion.after, stays_synch h.type]
    rfl
  have hactive : c.before.active ≠ none → c.before.sent = [] := h.active
  have hnum : c.before.num ≤ c.before.sent.length := h.num
  have hone : c.before.sent.length ≤ 1 := h.short
  rw [hafter]
  refine ⟨?_, ?_, ?_, ?_, ?_, ?_, ?_, hpaired⟩ <;> dsimp only <;>
    simp only [Completion.taken_type, Completion.taken_limit, Completion.taken_sent,
      Completion.taken_num, Completion.taken_aborting]
  · exact h.type
  · exact h.limit
  · intro ha
    have hsome : c.before.active ≠ none := by
      obtain hn | he := c.taken_active
      · exact absurd hn ha
      · rwa [he] at ha
    rw [hactive hsome]
    rfl
  · omega
  · omega
  · intro hb
    have hcount : c.before.num = c.before.sent.length := h.count hb
    cases hs with
    | answered hr | sentTimeout hr => rw [length_listDel hr, hcount]
    | @activeTimeout r resp g ha =>
        have hempty : g.sent = [] := hactive (show g.active ≠ none by rw [ha]; exact Option.some_ne_none r)
        rw [hcount, hempty]
        rfl
    | queueAbort _ hab | sentAbort _ hab | activeAbort hab => exact absurd (hab.symm.trans hb) (by decide)
  · exact fun r hr a ha => h.pending r ((listDel_sublist _ _).subset hr) a (hpending ha)

theorem own_code {c : Completion R} (hs : c.Selected) (hw : c.why ≠ .response) :
    OwnCode c.response.responseCode := by
  cases hs with
  | answered => exact absurd rfl hw
  | sentTimeout _ hc | activeTimeout _ hc => exact .inl hc
  | queueAbort _ _ _ hc | sentAbort _ _ _ _ hc | activeAbort _ _ _ _ hc => exact .inr (.inl hc)

theorem OneAtATime.move {p q : Holdings R × Connection}
    (hm : Move serverHooks (fun _ => True) p q) (h : OneAtATime p) : OneAtATime q := by
  cases hm with
  | @take g x r rest t hb ha hq hl =>
      have hnum : g.num < 1 := by
        have hlimit : g.limit = 1 := h.limit
        rw [hlimit] at hl
        exact hl.resolve_left (by decide)
      have hsent : g.sent = [] := by
        have hcount : g.num = g.sent.length := h.count hb
        exact List.eq_nil_of_length_eq_zero (by omega)
      exact ⟨h.type, h.limit, fun _ => hsent, h.short, h.num, h.count, h.pending, h.paired⟩
  | @send g x x' r ha hx =>
      obtain ⟨hempty, rfl⟩ := hx.1 rfl
      have hsent : g.sent = [] := h.active (by rw [ha]; exact nofun)
      have hnum : g.num = 0 := by
        have hle : g.num ≤ g.sent.length := h.num
        rw [hsent] at hle
        exact Nat.le_zero.mp hle
      refine ⟨h.type, h.limit, nofun, ?_, ?_, fun _ => ?_, ?_, h.paired⟩
      · simp [hsent]
      · simp [hsent, hnum]
      · simp [hsent, hnum]
      · simp [hsent]
  | refused ha he hx =>
      obtain rfl := hx.2 he
      exact h
  | received rcv hx =>
      obtain ⟨-, rfl⟩ | ⟨a, rest, ha, hsub, rfl⟩ := hx
      · exact h
      · exact ⟨h.type, h.limit, h.active, h.short, h.num, h.count,
          fun r hr b hb => h.pending r hr b (hsub hb), h.paired⟩
  | @answer x x₁ x' c rcv hw hs hok hr hd hx =>
      obtain rfl := hx
      have hmem : c.request ∈ c.before.sent := by
        cases hs with
        | answered hr => exact hr
        | _ => cases hw
      obtain ⟨he, rfl⟩ | ⟨a, rest, ha, hsub, rfl⟩ := hr
      · refine h.complete hs (List.Subset.refl _) (wellPaired_append h.paired (fun hn => ?_))
        exact absurd (.inr (.inr (hd.overflow he).2)) hn
      · refine h.complete hs hsub (wellPaired_append (x := { x with unanswered := rest, answers := some a })
          h.paired (fun _ => ?_))
        exact congrArg some (h.pending c.request hmem a ha)
  | @complete x x' c hw hs hok hx =>
      obtain rfl := hx
      exact h.complete hs (List.Subset.refl _)
        (wellPaired_append h.paired (fun hn => absurd (own_code hs hw) hn))
  | @aborted g x hb hq hs ha =>
      have hle : g.num ≤ g.sent.length := h.num
      refine ⟨h.type, h.limit, h.active, h.short, h.num, fun _ => ?_, h.pending, h.paired⟩
      simp only [hs, List.length_nil] at hle ⊢
      omega
  | closed hx =>
      obtain rfl := hx
      exact ⟨h.type, h.limit, h.active, h.short, h.num, h.count, nofun, h.paired⟩

def PairsResponses (s : Session R ι (W × Connection)) : Prop := WellPaired s.st.world.1.2

section

variable [DecidableEq ι] (env : Env R W) (net : W → NetRecv × W) (self : ι)

/-- A request is sent over a connection on which an earlier one is still unanswered. -/
def sendsOver (s : Session R ι (W × Connection)) : Bool :=
  let c := attempt (logged (served env net)) self s.st
  s.st.sm.state = .transmit && c.1.next = .transmit &&
    match c.2.sm.activeRequest with
    | none => false
    | some r => (env.sendRequest r c.2.world.1.1).1 = errSuccess && !c.2.world.1.2.unanswered.isEmpty

def WaitsForAnswers (s : Session R ι (W × Connection)) : Action R ι → Prop
  | .task => sendsOver env net self s = false
  | _ => True

instance (s : Session R ι (W × Connection)) (a : Action R ι) :
    Decidable (WaitsForAnswers env net self s a) :=
  match a with
  | .task => inferInstanceAs (Decidable (sendsOver env net self s = false))
  | .transmit _ _ _ | .clear | .interfere _ _ _ => .isTrue trivial

def connectionView (s : Session R ι (W × Connection)) : Holdings R × Connection :=
  look (fun w => w.1.2) s.st

theorem sees_send {s : Session R ι (W × Connection)} (hok : WaitsForAnswers env net self s .task)
    (hs : s.st.sm.state = .transmit)
    (hn : (attempt (logged (served env net)) self s.st).1.next = .transmit) :
    SeesSend (logged (served env net)) (fun w => w.1.2) serverHooks
      (attempt (logged (served env net)) self s.st).2 := by
  intro r hr
  have hwait : (env.sendRequest r
      (attempt (logged (served env net)) self s.st).2.world.1.1).1 = errSuccess →
      (attempt (logged (served env net)) self s.st).2.world.1.2.unanswered = [] := by
    intro he
    have hover : sendsOver env net self s = false := hok
    simp only [sendsOver, hs, hn, hr, he, decide_true, Bool.true_and, Bool.not_eq_false',
      List.isEmpty_iff] at hover
    exact hover
  generalize (attempt (logged (served env net)) self s.st).2.world = w at hwait ⊢
  constructor
  · intro he
    change (env.sendRequest r w.1.1).1 = errSuccess at he
    have hempty := hwait he
    refine ⟨hempty, ?_⟩
    show (if _ then _ else _) = _
    rw [if_pos he, hempty]
    rfl
  · intro he
    change (env.sendRequest r w.1.1).1 ≠ errSuccess at he
    exact if_neg he

theorem OneAtATime.step {s : Session R ι (W × Connection)} (a : Action R ι)
    (hok : WaitsForAnswers env net self s a) (h : OneAtATime (connectionView s)) :
    OneAtATime (connectionView (Session.step (served env net) self s a)) := by
  cases a with
  | transmit type request messageId =>
      obtain ⟨-, hlook, -⟩ | ⟨-, -, hlook⟩ :=
        SmMoves.transmit_cases (watches_served env net) type request messageId s.st
      · exact (congrArg OneAtATime hlook).mpr h
      · exact (congrArg OneAtATime hlook).mpr
          ⟨h.type, h.limit, h.active, h.short, h.num, h.count, h.pending, h.paired⟩
  | clear =>
      exact ⟨h.type, h.limit, h.active, h.short, h.num, nofun, h.pending, h.paired⟩
  | task =>
      exact (task_moves_of_send (watches_served env net) self s.st
        (sees_send env net self hok) (fun _ _ => trivial)).invariant (fun _ _ hm h => h.move hm) h
  | interfere connectingSm startTime nextState => exact h

/-- As long as no request is sent while an earlier one is unanswered on the same
connection, every response of the server reaches the callback of its own request. -/
theorem responses_well_paired (config : TransmissionConfig) (response : ProtocolClientResponse)
    (completed : Option (ProtocolClientRequest R)) (globals : Globals ι) (w : W)
    (acts : List (Action R ι))
    (h : Guarded (Session.step (served env net) self) (WaitsForAnswers env net self)
      (Session.start (protocolClientSmNew config 1 .synch response completed) globals
        (w, ⟨[], none, []⟩)) acts) :
    PairsResponses (run (Session.step (served env net) self)
      (Session.start (protocolClientSmNew config 1 .synch response completed) globals
        (w, ⟨[], none, []⟩)) acts) :=
  (h.invariant (P := fun s => OneAtATime (connectionView s))
    (fun _ a hok hs => hs.step env net self a hok)
    ⟨rfl, rfl, fun _ => rfl, Nat.zero_le _, Nat.le_refl _, fun _ => rfl, nofun, nofun⟩).paired

end

/-- The network of a script: a result with success delivers its payload. -/
def scriptNet (w : Script) : NetRecv × Script :=
  let r := w.receives.headD Script.noData
  (⟨r.error, r.payload, ⟨true, true⟩, r.payloadSize⟩, { w with receives := w.receives.tail })

def answer : Received :=
  ⟨errSuccess, 0, 0, bytes "HTTP/1.1 200 OK\r\nContent-Length: 3\r\n\r\na=1", 0⟩

/-- An HTTP state machine in a world that plays a script. -/
abbrev session (w : Script) : Session Nat Unit (Script × Connection) :=
  Session.start (protocolClientSmNew Script.config 1 .synch Script.noResponse none)
    ⟨none, 0, .reset, 0⟩ (w, ⟨[], none, []⟩)

def turns : List (Sessions.Action Nat Unit) :=
  [.transmit .normal 1 1, .task, .task, .transmit .normal 2 1, .task, .task]

/-- Two requests, the second sent when the first is answered. -/
theorem responses_well_paired_in_turn :
    PairsResponses (run (Session.step (served Script.env scriptNet) ())
      (session ⟨[], [], [], [Script.noData, answer, answer]⟩) turns) := by
  have h : Guarded (Session.step (served Script.env scriptNet) ())
      (WaitsForAnswers Script.env scriptNet ())
      (session ⟨[], [], [], [Script.noData, answer, answer]⟩) turns := by
    decide +kernel
  exact responses_well_paired Script.env scriptNet () Script.config Script.noResponse none
    ⟨none, 0, .reset, 0⟩ ⟨[], [], [], [Script.noData, answer, answer]⟩ turns h

/-- The first request times out on a connection that stays open, and its answer, late,
goes to the second request. -/
theorem late_answer_mispaired :
    ¬ PairsResponses (run (Session.step (served Script.env scriptNet) ())
      (session ⟨[1000, 1000, 1000, 1000, 1000, 5000], [], [], [Script.noData, Script.noData, answer]⟩)
      [.transmit .normal 1 1, .task, .task, .task, .transmit .normal 2 1, .task]) := by
  intro h
  have hlog := h ⟨1, 200, some 0⟩ (by decide +kernel) (by unfold OwnCode; decide)
  exact absurd hlog (by decide)

end ErSdk.HttpPairing
