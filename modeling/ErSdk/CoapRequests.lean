import ErSdk.CoapLibraries
import ErSdk.StringObjects

namespace ErSdk.CoapRequests

open BoundedBuilder CoapLibraries RequestArgs CStrings StringObjects Error

/-- A string of the request that the call reads; a NULL pointer has no length. -/
def given : Option (List UInt8) → Except Fault (List UInt8)
  | none => .error .undefined
  | some text => .ok text

/-- The methods that a CoAP request can be made for. -/
def Supported (method : Method) : Prop :=
  method = .read ∨ method = .write ∨ method = .activate ∨ method = .subscribe ∨ method = .timestamp

instance (method : Method) : Decidable (Supported method) := inferInstanceAs (Decidable (_ ∨ _))

def Supplied (args : ExoRequestArgs) : Prop :=
  (args.method = .read ∨ args.method = .write ∨ args.method = .subscribe → args.aliasName.isSome) ∧
    (args.method = .write → args.value.isSome) ∧
    (args.method = .activate → args.vendor.isSome ∧ args.model.isSome ∧ args.sn.isSome)

def uriOptions (args : ExoRequestArgs) : List CoapOption :=
  match args.method with
  | .read | .write | .subscribe =>
      [(uriPath, bytes "1a"), (uriPath, args.aliasName.getD []), (uriQuery, cString args.cik.toList)]
  | .activate =>
      [(uriPath, bytes "provision"), (uriPath, bytes "activate"), (uriPath, args.vendor.getD []),
        (uriPath, args.model.getD []), (uriPath, args.sn.getD [])]
  | .timestamp => [(uriPath, bytes "ts")]
  | _ => []

def observeOptions (value : List UInt8) (args : ExoRequestArgs) : List CoapOption :=
  if args.method = .subscribe then [(observe, value)] else []

def requestOptions (value : List UInt8) (args : ExoRequestArgs) : List CoapOption :=
  observeOptions value args ++ uriOptions args

/-- The whole request. The two servers have an observe option of their own. -/
def complete (value payload : List UInt8) (args : ExoRequestArgs) : Body :=
  ⟨some args.messageId, requestOptions value args, payload⟩

/-- The PDU has the token, the path and the query with their full text, and the value of a write. -/
def Says (b : Body) (args : ExoRequestArgs) : Prop :=
  b.token = some args.messageId ∧ b.options.filter (fun o => o.1 ≠ observe) = uriOptions args ∧
    (args.method = .write → b.payload = args.value.getD [])

/-- Success says that the PDU has all that it should, and is never returned for a request that does
not fit. -/
def Honest {tokenFirst : Bool} {P Pdu : Type} (lib : CoapLibrary tokenFirst P) (holds : Pdu → P → Prop)
    (request : Body) (args : ExoRequestArgs) (r : Except Fault (Int × Option Pdu)) : Prop :=
  ∃ code pdu, r = .ok (code, pdu) ∧
    (code = errSuccess → ∃ o p, pdu = some o ∧ holds o p ∧ Says (lib.read p) args) ∧
    (lib.capacity < lib.size request → code ≠ errSuccess)

theorem number_uriOptions (args : ExoRequestArgs) : ∀ o ∈ uriOptions args, uriPath ≤ o.1 := by
  unfold uriOptions
  cases args.method <;> simp [uriPath, uriQuery]

theorem filter_uriOptions (args : ExoRequestArgs) :
    (uriOptions args).filter (fun o => o.1 ≠ observe) = uriOptions args :=
  List.filter_eq_self.mpr (fun o ho =>
    decide_eq_true (Nat.ne_of_gt (Nat.lt_of_lt_of_le (by decide) (number_uriOptions args o ho))))

theorem filter_observeOptions (value : List UInt8) (args : ExoRequestArgs) :
    (observeOptions value args).filter (fun o => o.1 ≠ observe) = [] := by
  unfold observeOptions
  split <;> rfl

theorem says_complete {value payload : List UInt8} {args : ExoRequestArgs}
    (hpayload : args.method = .write → payload = args.value.getD []) :
    Says (complete value payload args) args := by
  refine ⟨rfl, ?_, hpayload⟩
  unfold complete requestOptions
  rw [List.filter_append, filter_observeOptions, filter_uriOptions]
  rfl

theorem sorted_requestOptions (value : List UInt8) (args : ExoRequestArgs) :
    (requestOptions value args).Pairwise (fun o o' => o.1 ≤ o'.1) := by
  unfold requestOptions observeOptions uriOptions
  cases args.method <;> simp [observe, uriPath, uriQuery]

theorem supported_cases {args : ExoRequestArgs} (hsupported : Supported args.method)
    (hsupplied : Supplied args) :
    (args.method = .read ∧ ∃ text, args.aliasName = some text) ∨
    (args.method = .write ∧ ∃ text value, args.aliasName = some text ∧ args.value = some value) ∨
    (args.method = .activate ∧ ∃ vendor model sn, args.vendor = some vendor ∧ args.model = some model ∧
      args.sn = some sn) ∨
    (args.method = .subscribe ∧ ∃ text, args.aliasName = some text) ∨ args.method = .timestamp := by
  obtain ⟨halias, hvalue, hactivate⟩ := hsupplied
  rcases hsupported with h | h | h | h | h
  · exact .inl ⟨h, Option.isSome_iff_exists.mp (halias (.inl h))⟩
  · obtain ⟨text, htext⟩ := Option.isSome_iff_exists.mp (halias (.inr (.inl h)))
    obtain ⟨value, hvalue⟩ := Option.isSome_iff_exists.mp (hvalue h)
    exact .inr (.inl ⟨h, text, value, htext, hvalue⟩)
  · obtain ⟨hvendor, hmodel, hsn⟩ := hactivate h
    obtain ⟨vendor, hvendor⟩ := Option.isSome_iff_exists.mp hvendor
    obtain ⟨model, hmodel⟩ := Option.isSome_iff_exists.mp hmodel
    obtain ⟨sn, hsn⟩ := Option.isSome_iff_exists.mp hsn
    exact .inr (.inr (.inl ⟨h, vendor, model, sn, hvendor, hmodel, hsn⟩))
  · exact .inr (.inr (.inr (.inl ⟨h, Option.isSome_iff_exists.mp (halias (.inr (.inr h)))⟩)))
  · exact .inr (.inr (.inr (.inr h)))

namespace Pico

variable {P : Type} (lib : Picocoap P)

def coapSetType (p : P) (type : MessageType) : P := lib.setHeader p { lib.header p with type }

def coapSetCode (p : P) (code : MethodCode) : P := lib.setHeader p { lib.header p with code }

def coapSetMid (p : P) (mid : Nat) : P := lib.setHeader p { lib.header p with mid }

/-- The static variable, which nothing changes. -/
def messageId : Nat := 1

/-- The results of the three functions are ignored by the caller. -/
def coapAddOption (p : P) (number : Nat) (value : List UInt8) : P :=
  (lib.add p (.option (number, value))).2

def coapSetPayload (p : P) (payload : List UInt8) : P := (lib.add p (.payload payload)).2

def coapSetToken (p : P) (token : Int) : P := (lib.add p (.token token)).2

/-- What follows the switch. -/
def finish (request : StringClass) (args : ExoRequestArgs) (supply : Supply) (p : P) :
    Except Fault (Int × StringClass) :=
  let p := coapSetMid lib p messageId
  let p := coapSetToken lib p args.messageId
  match stringCatcn request (lib.buf p) supply with
  | .error (f, _) => .error f
  | .ok (_, request, _) => .ok (errSuccess, request)

def coapCreateRequest (request : StringClass) (args : ExoRequestArgs)
    (supply : Supply) : Except Fault (Int × StringClass) :=
  let p := coapSetType lib lib.init .non
  match args.method with
  | .read => do
      let p := coapSetCode lib p .get
      let p := coapAddOption lib p uriPath (bytes "1a")
      let p := coapAddOption lib p uriPath (← given args.aliasName)
      let p := coapAddOption lib p uriQuery (cString args.cik.toList)
      finish lib request args supply p
  | .write => do
      let p := coapSetCode lib p .post
      let p := coapAddOption lib p uriPath (bytes "1a")
      let p := coapAddOption lib p uriPath (← given args.aliasName)
      let p := coapAddOption lib p uriQuery (cString args.cik.toList)
      let p := coapSetPayload lib p (← given args.value)
      finish lib request args supply p
  | .activate => do
      let p := coapSetCode lib p .post
      let p := coapAddOption lib p uriPath (bytes "provision")
      let p := coapAddOption lib p uriPath (bytes "activate")
      let p := coapAddOption lib p uriPath (← given args.vendor)
      let p := coapAddOption lib p uriPath (← given args.model)
      let p := coapAddOption lib p uriPath (← given args.sn)
      finish lib request args supply p
  | .subscribe => do
      let p := coapSetType lib p .con
      let p := coapSetCode lib p .get
      let p := coapAddOption lib p observe [0]
      let p := coapAddOption lib p uriPath (bytes "1a")
      let p := coapAddOption lib p uriPath (← given args.aliasName)
      let p := coapAddOption lib p uriQuery (cString args.cik.toList)
      finish lib request args supply p
  | .timestamp =>
      let p := coapSetCode lib p .get
      let p := coapAddOption lib p uriPath (bytes "ts")
      finish lib request args supply p
  | _ => .ok (errFailure, request)

/-- The PDU is a string; its two allocations come before the one that string_catcn may need. -/
def coapRequestNew (args : ExoRequestArgs) (supply : Supply) :
    Except Fault (Int × Option StringClass) :=
  match stringNew (some ⟨[], by decide⟩) supply with
  | .error e => .ok (e, none)
  | .ok request => do
      let (error, request) ← coapCreateRequest lib request args (fun i => supply (i + 2))
      if error ≠ errSuccess then .ok (error, none) else .ok (errSuccess, some request)

def payloadParts (args : ExoRequestArgs) : List Part :=
  if args.method = .write then [.payload (args.value.getD [])] else []

def payload (args : ExoRequestArgs) : List UInt8 :=
  if args.method = .write then args.value.getD [] else []

theorem create_parts {args : ExoRequestArgs} (hsupported : Supported args.method)
    (hsupplied : Supplied args) (request : StringClass) (supply : Supply) :
    ∃ p, lib.read p = .empty ∧ coapCreateRequest lib request args supply =
      finish lib request args supply
        (lib.addAll p ((requestOptions [0] args).map .option ++ payloadParts args)) := by
  have hread (p : P) (code : MethodCode) : lib.read (coapSetCode lib p code) = lib.read p :=
    lib.read_setHeader _ _
  have hstart (type : MessageType) : lib.read (coapSetType lib lib.init type) = .empty :=
    (lib.read_setHeader _ _).trans lib.read_init
  unfold coapCreateRequest requestOptions observeOptions uriOptions payloadParts
  rcases supported_cases hsupported hsupplied with ⟨h, text, htext⟩ | ⟨h, text, value, htext, hvalue⟩ |
    ⟨h, vendor, model, sn, hvendor, hmodel, hsn⟩ | ⟨h, text, htext⟩ | h
  · rw [h, htext]
    exact ⟨_, (hread _ _).trans (hstart _), rfl⟩
  · rw [h, htext, hvalue]
    exact ⟨_, (hread _ _).trans (hstart _), rfl⟩
  · rw [h, hvendor, hmodel, hsn]
    exact ⟨_, (hread _ _).trans (hstart _), rfl⟩
  · rw [h, htext]
    refine ⟨_, (hread _ _).trans ?_, rfl⟩
    exact (lib.read_setHeader _ _).trans (hstart _)
  · rw [h]
    exact ⟨_, (hread _ _).trans (hstart _), rfl⟩

theorem catcn_roomy {newChunk : List UInt8} (hlen : newChunk.length ≤ 256) (granted : Bool) :
    Strings.stringCatcn ⟨[], 257, false⟩ newChunk granted = (errSuccess, ⟨newChunk, 257, false⟩) := by
  unfold Strings.stringCatcn
  split
  · rename_i hnil
    rw [List.eq_nil_of_length_eq_zero hnil]
  · rw [if_neg Bool.false_ne_true, if_neg]
    · rfl
    · unfold Strings.grows Strings.StringClass.size
      exact Nat.not_lt.mpr hlen

theorem finish_bytes {request : StringClass} (hrequest : Valid request []) (hsize : request.bufsize = 257)
    (hfixed : request.fixedSize = false) (args : ExoRequestArgs) (supply : Supply)
    (p : P) : ∃ str, finish lib request args supply p = .ok (errSuccess, str) ∧
      Valid str (lib.buf (coapSetToken lib (coapSetMid lib p messageId) args.messageId)) := by
  unfold finish
  dsimp only
  generalize coapSetToken lib (coapSetMid lib p messageId) args.messageId = p
  obtain ⟨code, str, asked, content, hrun, hvalid, habstract⟩ :=
    stringCatcn_refines hrequest (lib.buf p) supply
  rw [hsize, hfixed, catcn_roomy (Nat.le_trans (lib.length_buf p) (by decide))] at habstract
  have hcontent : lib.buf p = content := congrArg Strings.StringClass.buffer (Prod.mk.inj habstract).2
  rw [hrun]
  exact ⟨str, rfl, hcontent ▸ hvalid⟩

theorem stringNew_empty (supply : Supply) :
    (stringNew (some ⟨[], by decide⟩) supply = .error errNoMemory ∧
      (supply 0 = none ∨ supply 1 = none)) ∨
    ∃ str, stringNew (some ⟨[], by decide⟩) supply = .ok str ∧ Valid str [] ∧ str.bufsize = 257 ∧
      str.fixedSize = false ∧ ¬ (supply 0 = none ∨ supply 1 = none) := by
  unfold stringNew
  cases h0 : supply 0 with
  | none => exact .inl ⟨rfl, .inl rfl⟩
  | some f0 =>
      cases h1 : supply 1 with
      | none => exact .inl ⟨rfl, .inr rfl⟩
      | some f1 =>
          refine .inr ⟨_, rfl, ?_, rfl, rfl, ?_⟩
          · exact valid_filled (length_newBlock 257 f1) (by decide) false
          · rintro (h | h) <;> cases h

theorem read_finished {args : ExoRequestArgs} (hfits : lib.size (complete [0] (payload args) args) ≤
    lib.capacity) {p : P} (hp : lib.read p = .empty) :
    lib.read (coapSetToken lib (coapSetMid lib (lib.addAll p ((requestOptions [0] args).map .option ++
      payloadParts args)) messageId) args.messageId) = complete [0] (payload args) args := by
  have hparts : InOrder Body.extend (Body.Takes false) (lib.read p)
      ((requestOptions [0] args).map .option ++ payloadParts args) := by
    rw [hp]
    refine inOrder_options rfl (sorted_requestOptions [0] args) (fun o ho => absurd ho List.not_mem_nil) ?_
    unfold payloadParts
    split
    · exact ⟨rfl, trivial⟩
    · trivial
  have hbody : ((requestOptions [0] args).map Part.option ++ payloadParts args).foldl Body.extend
      (lib.read p) = ⟨none, requestOptions [0] args, payload args⟩ := by
    rw [hp, extend_options]
    unfold payloadParts payload
    split <;> rfl
  have htoken : Body.Takes false ⟨none, requestOptions [0] args, payload args⟩
      (.token args.messageId) := ⟨rfl, nofun⟩
  have hread := lib.read_addAll hparts (by
    rw [hbody]
    exact Nat.le_trans (lib.grows htoken) hfits)
  rw [hbody, ← lib.read_setHeader _ ⟨_, _, messageId⟩] at hread
  exact (lib.added (lib.room (hread ▸ htoken) (hread ▸ hfits))).trans (congrArg (Body.extend · _) hread)

theorem honest_iff {args : ExoRequestArgs} (hsupplied : Supplied args)
    (supply : Supply) : Honest lib.toCoapLibrary (fun str p => Valid str (lib.buf p))
      (complete [0] (payload args) args) args (coapRequestNew lib args supply) ↔
      supply 0 = none ∨ supply 1 = none ∨ ¬ Supported args.method ∨
        lib.size (complete [0] (payload args) args) ≤ lib.capacity := by
  unfold coapRequestNew
  rcases stringNew_empty supply with ⟨hnew, hnone⟩ | ⟨request, hnew, hvalid, hsize, hfixed, hgranted⟩
  · rw [hnew, ← or_assoc]
    exact iff_of_true ⟨_, _, rfl, fun h => absurd h (by decide), fun _ => by decide⟩ (.inl hnone)
  · rw [hnew, ← or_assoc, or_iff_right hgranted]
    by_cases hsupported : Supported args.method
    · rw [or_iff_right (not_not_intro hsupported)]
      obtain ⟨p, hp, hcreate⟩ := create_parts lib hsupported hsupplied request
        (fun i => supply (i + 2))
      obtain ⟨str, hfinish, hbytes⟩ := finish_bytes lib hvalid hsize hfixed args
        (fun i => supply (i + 2)) (lib.addAll p ((requestOptions [0] args).map .option ++ payloadParts args))
      have hrun := hcreate.trans hfinish
      dsimp only
      rw [hrun]
      constructor
      · rintro ⟨code, pdu, hr, -, hlarge⟩
        obtain ⟨rfl, -⟩ := Prod.mk.inj (Except.ok.inj hr)
        exact Nat.not_lt.mp (fun h => hlarge h rfl)
      · intro hfits
        have hsays : Says (complete [0] (payload args) args) args := says_complete (fun h => if_pos h)
        rw [← read_finished lib hfits hp] at hsays
        exact ⟨_, _, rfl, fun _ => ⟨str, _, rfl, hbytes, hsays⟩,
          fun h => absurd hfits (Nat.not_le.mpr h)⟩
    · refine iff_of_true ⟨errFailure, none, ?_, fun h => absurd h (by decide), fun _ => by decide⟩
        (.inl hsupported)
      have hdefault : coapCreateRequest lib request args (fun i => supply (i + 2)) =
          .ok (errFailure, request) := by
        unfold coapCreateRequest
        unfold Supported at hsupported
        cases hmethod : args.method <;> simp_all
      dsimp only
      rw [hdefault]
      rfl

end Pico

namespace Lib

variable {P : Type} (lib : Libcoap P)

/-- Neither of the two is NULL here. -/
def orderOpts (a b : CoapOption) : Int :=
  if a.1 < b.1 then -1 else if a.1 = b.1 then 1 else 0

structure Memory where
  pdu : Bool
  option : Nat → Bool
  listnode : Nat → Bool

def Memory.Grants (mem : Memory) (i : Nat) : Prop := mem.option i = true ∧ mem.listnode i = true

instance (mem : Memory) (i : Nat) : Decidable (mem.Grants i) := inferInstanceAs (Decidable (_ ∧ _))

def newOptionNode (mem : Memory) (i key : Nat) (data : List UInt8) : Option CoapOption :=
  if mem.Grants i then some (key, data) else none

/-- The static variable has 16 bits. -/
def coapFillRequest (pdu : P) (m : MethodCode) (options : List CoapOption) (payload : List UInt8)
    (messageId : Nat) (token : Int) : P :=
  let pdu := lib.setHeader pdu ⟨.non, m, (messageId + 1) % 2 ^ 16⟩
  let pdu := (lib.add pdu (.token token)).2
  let pdu := options.foldl (fun pdu o => (lib.add pdu (.option o)).2) pdu
  if payload.length ≠ 0 then (lib.add pdu (.payload payload)).2 else pdu

def insertNode (mem : Memory) (optlist : List CoapOption) (i key : Nat) (data : List UInt8) :
    List CoapOption :=
  lib.coapInsert orderOpts optlist (newOptionNode mem i key data)

def coapCreateRequest (pdu : P) (args : ExoRequestArgs) (messageId : Nat) (mem : Memory) :
    Except Fault (Int × P) :=
  let send (methodCode : MethodCode) (optlist : List CoapOption) : Int × P :=
    (errSuccess,
      coapFillRequest lib pdu methodCode optlist (args.value.getD []) messageId args.messageId)
  match args.method with
  | .read | .write => do
      let methodCode := if args.method = .read then .get else .post
      let optlist := insertNode lib mem [] 0 uriPath (bytes "1a")
      let optlist := insertNode lib mem optlist 1 uriPath (← given args.aliasName)
      let optlist := insertNode lib mem optlist 2 uriQuery (cString args.cik.toList)
      .ok (send methodCode optlist)
  | .activate => do
      let optlist := insertNode lib mem [] 0 uriPath (bytes "provision")
      let optlist := insertNode lib mem optlist 1 uriPath (bytes "activate")
      let optlist := insertNode lib mem optlist 2 uriPath (← given args.vendor)
      let optlist := insertNode lib mem optlist 3 uriPath (← given args.model)
      let optlist := insertNode lib mem optlist 4 uriPath (← given args.sn)
      .ok (send .post optlist)
  | .subscribe => do
      let optlist := insertNode lib mem [] 0 uriPath (bytes "1a")
      let optlist := insertNode lib mem optlist 1 uriPath (← given args.aliasName)
      let optlist := insertNode lib mem optlist 2 uriQuery (cString args.cik.toList)
      let optlist := insertNode lib mem optlist 3 observe []
      .ok (send .get optlist)
  | .timestamp => .ok (send .get (insertNode lib mem [] 0 uriPath (bytes "ts")))
  | _ => .ok (errFailure, pdu)

def coapRequestNew (args : ExoRequestArgs) (messageId : Nat) (mem : Memory) :
    Except Fault (Int × Option P) :=
  if mem.pdu then do
    let (error, pdu) ← coapCreateRequest lib lib.init args messageId mem
    if error ≠ errSuccess then .ok (error, none) else .ok (errSuccess, some pdu)
  else .ok (errFailure, none)

def granted (mem : Memory) : Nat → List CoapOption → List CoapOption
  | _, [] => []
  | i, o :: options => if mem.Grants i then o :: granted mem (i + 1) options
      else granted mem (i + 1) options

def insertAll (optlist options : List CoapOption) : List CoapOption :=
  options.foldl (fun l o => lib.coapInsert orderOpts l (some o)) optlist

def inserted (mem : Memory) (args : ExoRequestArgs) : List CoapOption :=
  insertAll lib [] (granted mem 0 (uriOptions args ++ observeOptions [] args))

theorem insertNode_granted (mem : Memory) (optlist options : List CoapOption) (o : CoapOption) (i : Nat) :
    insertAll lib optlist (granted mem i (o :: options)) =
      insertAll lib (insertNode lib mem optlist i o.1 o.2) (granted mem (i + 1) options) := by
  rw [granted, insertNode, newOptionNode]
  split
  · rfl
  · rw [lib.insert_none]

theorem orderOpts_nonneg (a b : CoapOption) : 0 ≤ orderOpts a b ↔ b.1 ≤ a.1 := by
  unfold orderOpts
  split
  · omega
  · split <;> omega

theorem insert_perm (l : List CoapOption) (o : CoapOption) :
    (lib.coapInsert orderOpts l (some o)).Perm (o :: l) := by
  rw [lib.insert_some]
  refine List.perm_middle.trans ?_
  rw [List.takeWhile_append_dropWhile]

theorem insertAll_perm (optlist options : List CoapOption) :
    (insertAll lib optlist options).Perm (optlist ++ options) := by
  induction options generalizing optlist with
  | nil => rw [List.append_nil]; rfl
  | cons o options ih =>
      refine (ih _).trans (((insert_perm lib optlist o).append_right options).trans ?_)
      exact List.perm_middle.symm

theorem insertAll_sorted {optlist options : List CoapOption}
    (h : (optlist ++ options).Pairwise (fun o o' => o.1 ≤ o'.1)) :
    insertAll lib optlist options = optlist ++ options := by
  induction options generalizing optlist with
  | nil => exact (List.append_nil _).symm
  | cons o options ih =>
      have hall : ∀ o' ∈ optlist, decide (0 ≤ orderOpts o o') = true := fun o' ho' =>
        decide_eq_true ((orderOpts_nonneg o o').mpr
          ((List.pairwise_append.mp h).2.2 o' ho' o List.mem_cons_self))
      have hstep : lib.coapInsert orderOpts optlist (some o) = optlist ++ [o] := by
        rw [lib.insert_some, List.takeWhile_eq_self_iff.mpr hall, List.dropWhile_eq_nil_iff.mpr hall]
      rw [List.append_cons] at h ⊢
      exact (congrArg (insertAll lib · options) hstep).trans (ih h)

theorem granted_append (mem : Memory) (i : Nat) (options options' : List CoapOption) :
    granted mem i (options ++ options') =
      granted mem i options ++ granted mem (i + options.length) options' := by
  induction options generalizing i with
  | nil => rfl
  | cons o options ih =>
      rw [List.cons_append, granted, granted, ih, List.length_cons, Nat.add_right_comm, Nat.add_assoc]
      split <;> rfl

theorem granted_sublist (mem : Memory) (i : Nat) (options : List CoapOption) :
    (granted mem i options).Sublist options := by
  induction options generalizing i with
  | nil => exact List.Sublist.slnil
  | cons o options ih =>
      unfold granted
      split
      · exact (ih (i + 1)).cons_cons o
      · exact (ih (i + 1)).cons o

theorem granted_eq_iff (mem : Memory) (i : Nat) (options : List CoapOption) :
    granted mem i options = options ↔ ∀ j < options.length, mem.Grants (i + j) := by
  induction options generalizing i with
  | nil => exact iff_of_true rfl nofun
  | cons o options ih =>
      unfold granted
      rw [List.length_cons]
      have hshift (j : Nat) : i + 1 + j = i + (j + 1) := by omega
      by_cases hi : mem.Grants i
      · rw [if_pos hi, List.cons_inj_right, ih]
        constructor
        · rintro h (_ | j) hj
          · exact hi
          · exact hshift j ▸ h j (Nat.lt_of_succ_lt_succ hj)
        · intro h j hj
          exact (hshift j).symm ▸ h (j + 1) (Nat.succ_lt_succ hj)
      · rw [if_neg hi]
        refine iff_of_false (fun h => ?_) (fun h => hi (h 0 (Nat.succ_pos _)))
        have hlen := congrArg List.length h
        have hle := (granted_sublist mem (i + 1) options).length_le
        rw [List.length_cons] at hlen
        omega

theorem granted_observe (mem : Memory) (i : Nat) (args : ExoRequestArgs) :
    (granted mem i (observeOptions [] args)).filter (fun o => o.1 ≠ observe) = [] := by
  have hsub := (granted_sublist mem i (observeOptions [] args)).filter (fun o => o.1 ≠ observe)
  rw [filter_observeOptions] at hsub
  exact List.sublist_nil.mp hsub

theorem length_inserted (mem : Memory) (args : ExoRequestArgs) :
    ((inserted lib mem args).filter (fun o => o.1 ≠ observe)).length =
      (granted mem 0 (uriOptions args)).length := by
  have huri : (granted mem 0 (uriOptions args)).filter (fun o => o.1 ≠ observe) =
      granted mem 0 (uriOptions args) := by
    refine List.filter_eq_self.mpr (fun o ho => decide_eq_true ?_)
    have hnumber := number_uriOptions args o ((granted_sublist mem 0 _).subset ho)
    exact Nat.ne_of_gt (Nat.lt_of_lt_of_le (by decide) hnumber)
  have hperm := (insertAll_perm lib [] (granted mem 0 (uriOptions args ++ observeOptions [] args))).filter
    (fun o => o.1 ≠ observe)
  rw [List.nil_append, granted_append, List.filter_append, huri, granted_observe, List.append_nil] at hperm
  rw [inserted, granted_append]
  exact hperm.length_eq

theorem insert_observe (args : ExoRequestArgs) :
    lib.coapInsert orderOpts (uriOptions args) (some (observe, [])) = (observe, []) :: uriOptions args := by
  have hafter : ∀ o ∈ uriOptions args, ¬ 0 ≤ orderOpts (observe, []) o := fun o ho h =>
    absurd (Nat.le_trans (number_uriOptions args o ho) ((orderOpts_nonneg _ _).mp h)) (by decide)
  rw [lib.insert_some]
  cases huri : uriOptions args with
  | nil => rfl
  | cons o options =>
      rw [huri] at hafter
      have hfirst := hafter o List.mem_cons_self
      rw [List.takeWhile_cons_of_neg (by simpa using hfirst),
        List.dropWhile_cons_of_neg (by simpa using hfirst)]
      rfl

theorem inserted_complete {mem : Memory} {args : ExoRequestArgs}
    (h : granted mem 0 (uriOptions args) = uriOptions args) :
    ∃ options, options.Sublist (observeOptions [] args) ∧
      inserted lib mem args = options ++ uriOptions args := by
  have hsorted : insertAll lib [] (uriOptions args) = uriOptions args :=
    insertAll_sorted lib (List.pairwise_append.mp (sorted_requestOptions [] args)).2.1
  refine ⟨_, granted_sublist mem (0 + (uriOptions args).length) (observeOptions [] args), ?_⟩
  have hrest (options : List CoapOption) : insertAll lib [] (uriOptions args ++ options) =
      insertAll lib (uriOptions args) options :=
    List.foldl_append.trans (congrArg (insertAll lib · options) hsorted)
  rw [inserted, granted_append, h, hrest]
  unfold observeOptions
  split
  · unfold granted
    split
    · exact insert_observe lib args
    · rfl
  · rfl

theorem create_inserted {args : ExoRequestArgs} (hsupported : Supported args.method)
    (hsupplied : Supplied args) (pdu : P) (messageId : Nat) (mem : Memory) :
    ∃ m, coapCreateRequest lib pdu args messageId mem = .ok (errSuccess, coapFillRequest lib pdu m
      (inserted lib mem args) (args.value.getD []) messageId args.messageId) := by
  unfold coapCreateRequest inserted uriOptions observeOptions
  rcases supported_cases hsupported hsupplied with ⟨h, text, htext⟩ | ⟨h, text, value, htext, -⟩ |
    ⟨h, vendor, model, sn, hvendor, hmodel, hsn⟩ | ⟨h, text, htext⟩ | h
  · rw [h, htext]
    simp only [List.cons_append, insertNode_granted]
    exact ⟨_, rfl⟩
  · rw [h, htext]
    simp only [List.cons_append, insertNode_granted]
    exact ⟨_, rfl⟩
  · rw [h, hvendor, hmodel, hsn]
    simp only [List.cons_append, insertNode_granted]
    exact ⟨_, rfl⟩
  · rw [h, htext, if_pos rfl]
    simp only [List.cons_append, List.nil_append, insertNode_granted]
    exact ⟨_, rfl⟩
  · rw [h]
    simp only [List.cons_append, insertNode_granted]
    exact ⟨_, rfl⟩

/-- All that the call adds to the PDU. -/
def parts (options : List CoapOption) (payload : List UInt8) (token : Int) : List Part :=
  .token token :: (options.map .option ++ if payload.length ≠ 0 then [.payload payload] else [])

theorem fill_parts (pdu : P) (m : MethodCode) (options : List CoapOption) (payload : List UInt8)
    (messageId : Nat) (token : Int) : ∃ p, lib.read p = lib.read pdu ∧
      coapFillRequest lib pdu m options payload messageId token =
        lib.addAll p (parts options payload token) := by
  refine ⟨lib.setHeader pdu ⟨.non, m, (messageId + 1) % 2 ^ 16⟩, lib.read_setHeader _ _, ?_⟩
  unfold coapFillRequest parts Builder.addAll
  rw [List.foldl_cons, List.foldl_append, List.foldl_map]
  split <;> rfl

theorem extend_parts (options : List CoapOption) (payload : List UInt8) (token : Int) :
    (parts options payload token).foldl Body.extend .empty = ⟨some token, options, payload⟩ := by
  unfold parts
  rw [List.foldl_cons, extend_options]
  split
  · rfl
  · rename_i hlen
    rw [List.eq_nil_of_length_eq_zero (not_not.mp hlen)]
    rfl

theorem inOrder_parts {options : List CoapOption} (hsorted : options.Pairwise (fun o o' => o.1 ≤ o'.1))
    (payload : List UInt8) (token : Int) :
    InOrder Body.extend (Body.Takes true) .empty (parts options payload token) := by
  refine ⟨⟨rfl, fun _ => ⟨rfl, rfl⟩⟩, ?_⟩
  refine inOrder_options rfl hsorted (fun o ho => absurd ho List.not_mem_nil) ?_
  split
  · exact ⟨rfl, trivial⟩
  · trivial

theorem filter_parts_le {p : P} (hp : lib.read p = .empty) (options : List CoapOption)
    (payload : List UInt8) (token : Int) :
    ((lib.read (lib.addAll p (parts options payload token))).options.filter
      (fun o => o.1 ≠ observe)).length ≤ (options.filter (fun o => o.1 ≠ observe)).length := by
  have h := lib.measure_addAll (fun m => (m.options.filter (fun o => o.1 ≠ observe)).length) ?_ ?_
    (m := .empty) (p := p) (hp ▸ Nat.le_refl _) (parts options payload token)
  · rw [extend_parts] at h
    exact h
  · intro m part
    cases part with
    | option o =>
        unfold Body.extend
        dsimp only
        rw [List.filter_append, List.length_append]
        exact Nat.le_add_right _ _
    | token t => exact Nat.le_refl _
    | payload p => exact Nat.le_refl _
  · intro m m' part hle
    cases part with
    | option o =>
        unfold Body.extend
        dsimp only at hle ⊢
        rw [List.filter_append, List.length_append, List.filter_append, List.length_append]
        exact Nat.add_le_add_right hle _
    | token t => exact hle
    | payload p => exact hle

theorem says_filled {args : ExoRequestArgs} {mem : Memory}
    (hgranted : granted mem 0 (uriOptions args) = uriOptions args)
    (hfits : lib.size (complete [] (args.value.getD []) args) ≤ lib.capacity) {p : P}
    (hp : lib.read p = .empty) :
    Says (lib.read (lib.addAll p (parts (inserted lib mem args) (args.value.getD []) args.messageId)))
      args := by
  obtain ⟨options, hsub, hinserted⟩ := inserted_complete lib hgranted
  have hrequest : (inserted lib mem args).Sublist (requestOptions [] args) :=
    hinserted ▸ hsub.append_right _
  have hparts := inOrder_parts (List.Pairwise.sublist hrequest (sorted_requestOptions [] args))
    (args.value.getD []) args.messageId
  rw [lib.read_addAll (hp ▸ hparts)
    (by rw [hp, extend_parts]; exact Nat.le_trans (lib.fewer hrequest) hfits), hp, extend_parts]
  refine ⟨rfl, ?_, fun _ => rfl⟩
  have hobserve := hsub.filter (fun o => o.1 ≠ observe)
  rw [filter_observeOptions] at hobserve
  dsimp only
  rw [hinserted, List.filter_append, List.sublist_nil.mp hobserve, filter_uriOptions]
  rfl

theorem honest_iff {args : ExoRequestArgs} (hsupplied : Supplied args) (messageId : Nat)
    (mem : Memory) : Honest lib.toCoapLibrary Eq (complete [] (args.value.getD []) args) args
        (coapRequestNew lib args messageId mem) ↔
      mem.pdu = false ∨ ¬ Supported args.method ∨ ((∀ i < (uriOptions args).length, mem.Grants i) ∧
        lib.size (complete [] (args.value.getD []) args) ≤ lib.capacity) := by
  unfold coapRequestNew
  by_cases hpdu : mem.pdu = true
  · rw [if_pos hpdu, or_iff_right (by rw [hpdu]; exact Bool.false_ne_true.symm)]
    by_cases hsupported : Supported args.method
    · rw [or_iff_right (not_not_intro hsupported)]
      obtain ⟨m, hcreate⟩ := create_inserted lib hsupported hsupplied lib.init messageId mem
      obtain ⟨p, hp, hfill⟩ := fill_parts lib lib.init m (inserted lib mem args)
        (args.value.getD []) messageId args.messageId
      rw [lib.read_init] at hp
      rw [hcreate, hfill]
      constructor
      · rintro ⟨code, pdu, hr, hsays, hlarge⟩
        obtain ⟨rfl, rfl⟩ := Prod.mk.inj (Except.ok.inj hr)
        refine ⟨?_, Nat.not_lt.mp (fun h => hlarge h rfl)⟩
        obtain ⟨o, p', ho, rfl, -, huri, -⟩ := hsays rfl
        obtain rfl := Option.some.inj ho
        have hle := filter_parts_le lib hp (inserted lib mem args) (args.value.getD []) args.messageId
        rw [huri, length_inserted] at hle
        have hall := (granted_eq_iff mem 0 (uriOptions args)).mp
          ((granted_sublist mem 0 (uriOptions args)).eq_of_length_le hle)
        exact fun i hi => Nat.zero_add i ▸ hall i hi
      · rintro ⟨hall, hfits⟩
        have hgranted := (granted_eq_iff mem 0 (uriOptions args)).mpr
          (fun i hi => (Nat.zero_add i).symm ▸ hall i hi)
        exact ⟨_, _, rfl, fun _ => ⟨_, _, rfl, rfl, says_filled lib hgranted hfits hp⟩,
          fun h => absurd hfits (Nat.not_le.mpr h)⟩
    · have hdefault : coapCreateRequest lib lib.init args messageId mem = .ok (errFailure, lib.init) := by
        unfold coapCreateRequest
        unfold Supported at hsupported
        cases hmethod : args.method <;> simp_all
      rw [hdefault]
      exact iff_of_true ⟨errFailure, none, rfl, fun h => absurd h (by decide), fun _ => by decide⟩
        (.inl hsupported)
  · rw [if_neg hpdu]
    exact iff_of_true ⟨errFailure, none, rfl, fun h => absurd h (by decide), fun _ => by decide⟩
      (.inl (Bool.not_eq_true _ ▸ hpdu))

end Lib

/-- Both servers are honest about a request if no memory is left for its object, or if nothing of it
is refused by the library. -/
theorem honest_requests_iff {args : ExoRequestArgs} (hsupplied : Supplied args) :
    (∀ {P : Type} (lib : Picocoap P) (supply : Supply),
      Honest lib.toCoapLibrary (fun str p => Valid str (lib.buf p))
          (complete [0] (Pico.payload args) args) args (Pico.coapRequestNew lib args supply) ↔
        supply 0 = none ∨ supply 1 = none ∨ ¬ Supported args.method ∨
          lib.size (complete [0] (Pico.payload args) args) ≤ lib.capacity) ∧
    ∀ {P : Type} (lib : Libcoap P) (messageId : Nat) (mem : Lib.Memory),
      Honest lib.toCoapLibrary Eq (complete [] (args.value.getD []) args) args
          (Lib.coapRequestNew lib args messageId mem) ↔
        mem.pdu = false ∨ ¬ Supported args.method ∨
          ((∀ i < (uriOptions args).length, mem.Grants i) ∧
            lib.size (complete [] (args.value.getD []) args) ≤ lib.capacity) :=
  ⟨fun lib => Pico.honest_iff lib hsupplied, fun lib => Lib.honest_iff lib hsupplied⟩

def writeRequest (value : List UInt8) : ExoRequestArgs :=
  { ExoRequestArgs.zero .write with aliasName := some [97], value := some value }

theorem supplied_writeRequest (value : List UInt8) : Supplied (writeRequest value) :=
  ⟨fun _ => rfl, fun _ => rfl, nofun⟩

theorem honest_requests_iff_short :
    (Honest picocoap.toCoapLibrary (fun str p => Valid str (picocoap.buf p))
        (complete [0] [49] (writeRequest [49])) (writeRequest [49])
        (Pico.coapRequestNew picocoap (writeRequest [49]) (fun _ => some (fun _ => 0)))) ∧
      Honest (libcoap 1396).toCoapLibrary Eq (complete [] [49] (writeRequest [49])) (writeRequest [49])
        (Lib.coapRequestNew (libcoap 1396) (writeRequest [49]) 1
          ⟨true, fun _ => true, fun _ => true⟩) :=
  ⟨((honest_requests_iff (supplied_writeRequest [49])).1 picocoap _).mpr
      (.inr (.inr (.inr (by decide +kernel)))),
    ((honest_requests_iff (supplied_writeRequest [49])).2 (libcoap 1396) 1 _).mpr
      (.inr (.inr ⟨fun _ _ => ⟨rfl, rfl⟩, by decide +kernel⟩))⟩

theorem size_complete (v payload : List UInt8) (args : ExoRequestArgs) :
    payload.length < (complete v payload args).size := by
  unfold complete Body.size
  split
  · rename_i hnil
    obtain rfl : payload = [] := hnil
    rw [List.length_nil]
    omega
  · dsimp only
    omega

theorem pico_leaves_out {value : List UInt8} (hlen : 128 ≤ value.length) :
    ¬ Honest picocoap.toCoapLibrary (fun str p => Valid str (picocoap.buf p))
      (complete [0] value (writeRequest value)) (writeRequest value)
      (Pico.coapRequestNew picocoap (writeRequest value) (fun _ => some (fun _ => 0))) := by
  intro hhonest
  rcases (Pico.honest_iff picocoap (supplied_writeRequest value) _).mp hhonest with h | h | h | h
  · cases h
  · cases h
  · exact h (.inr (.inl rfl))
  · exact absurd h (Nat.not_le.mpr (Nat.lt_of_le_of_lt hlen (size_complete [0] value _)))

theorem lib_leaves_out {room : Nat} {value : List UInt8} (hlen : 4 + room ≤ value.length) :
    ¬ Honest (libcoap room).toCoapLibrary Eq (complete [] value (writeRequest value)) (writeRequest value)
      (Lib.coapRequestNew (libcoap room) (writeRequest value) 1
        ⟨true, fun _ => true, fun _ => true⟩) := by
  intro hhonest
  rcases (Lib.honest_iff (libcoap room) (supplied_writeRequest value) 1 _).mp hhonest with h | h | ⟨-, h⟩
  · cases h
  · exact h (.inr (.inl rfl))
  · exact absurd h (Nat.not_le.mpr (Nat.lt_of_le_of_lt hlen (size_complete [] value _)))

/-- A value that does not fit is left out, and the request is a success. -/
theorem value_left_out :
    (¬ Honest picocoap.toCoapLibrary (fun str p => Valid str (picocoap.buf p))
        (complete [0] (List.replicate 128 49) (writeRequest (List.replicate 128 49)))
        (writeRequest (List.replicate 128 49))
        (Pico.coapRequestNew picocoap (writeRequest (List.replicate 128 49)) (fun _ => some (fun _ => 0)))) ∧
      ¬ Honest (libcoap 1396).toCoapLibrary Eq
        (complete [] (List.replicate 1400 49) (writeRequest (List.replicate 1400 49)))
        (writeRequest (List.replicate 1400 49))
        (Lib.coapRequestNew (libcoap 1396) (writeRequest (List.replicate 1400 49)) 1
          ⟨true, fun _ => true, fun _ => true⟩) :=
  ⟨pico_leaves_out (Nat.le_of_eq List.length_replicate.symm),
    lib_leaves_out (Nat.le_of_eq List.length_replicate.symm)⟩

end ErSdk.CoapRequests
