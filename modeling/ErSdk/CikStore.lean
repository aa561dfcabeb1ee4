import ErSdk.CikSafety
import ErSdk.CStrings
import ErSdk.WorldSteps

namespace ErSdk.CikStore

open ProtocolClientSm Ledger RequestArgs ExositeApi ExositeCalls ExositeBooks ExositeSteps ExositeRuns
open ExositePhases Runs Error

variable {X : Type}

/-- The file cik.store, if there is one, and the rest of the system. -/
structure Disk (X : Type) where
  file : Option (List UInt8)
  rest : X
  deriving DecidableEq, Repr

/-- Whether fopen succeeds, and how many bytes of a text get to the file. -/
structure FileSystem (X : Type) where
  opens : X → Bool × X
  writes : X → Nat × X

namespace Disk

def lift {α : Type} (f : X → α × X) (e : Disk X) : α × Disk X :=
  ((f e.rest).1, { e with rest := (f e.rest).2 })

def apply (f : X → X) (e : Disk X) : Disk X := { e with rest := f e.rest }

end Disk

/-- At most `n` characters of a line, with its newline. -/
def fgetsLine : Nat → List UInt8 → List UInt8
  | 0, _ => []
  | _, [] => []
  | n + 1, c :: rest => if c = 10 then [c] else c :: fgetsLine n rest

/-- At the end of the file the buffer stays as it is. -/
def fgets (content : List UInt8) (cik : CikBuffer) : CikBuffer :=
  match fgetsLine cikLength content with
  | [] => cik
  | c :: line => strcpy (c :: line) cik

theorem last_fits : 40 < 41 := by decide

section

variable (fs : FileSystem X)

/-- The length of the buffer is that of a CIK at all calls. -/
def systemGetCik (cik : CikBuffer) (e : Disk X) : (Int × CikBuffer) × Disk X :=
  let c := e.lift fs.opens
  match e.file with
  | none => ((errFailure, cik), c.2)
  | some content =>
      if c.1 then ((errSuccess, (fgets content cik).set 40 0 last_fits), c.2) else ((errFailure, cik), c.2)

/-- What fputs says is not looked at. -/
def systemSetCik (cik : CikBuffer) (e : Disk X) : Int × Disk X :=
  let c := e.lift fs.opens
  if c.1 then
    let w := c.2.lift fs.writes
    (errSuccess, { w.2 with file := some ((cString cik.toList).take w.1) })
  else (errFailure, c.2)

def platformOnDisk (p : Platform Request X) : Platform Request (Disk X) where
  systemGetTime := Disk.lift p.systemGetTime
  memAlloc := Disk.lift p.memAlloc
  queuePushTail := Disk.lift p.queuePushTail
  lookup := Disk.lift p.lookup
  createSocket := Disk.lift p.createSocket
  connect socket := Disk.lift (p.connect socket)
  close socket := Disk.apply (p.close socket)
  setSocket socket := Disk.apply (p.setSocket socket)
  clearSocket := Disk.apply p.clearSocket
  sendRequest request := Disk.lift (p.sendRequest request)
  recvResponse response := Disk.lift (p.recvResponse response)
  clientClose := Disk.apply p.clientClose
  getResponseStatus code e := p.getResponseStatus code e.rest

/-- The calls of a module whose CIK is kept in the file. -/
def onDisk (api : Api X) : Api (Disk X) where
  config := api.config
  platform i := platformOnDisk (api.platform i)
  sendDeletes i request e := api.sendDeletes i request e.rest
  systemGetTime := Disk.lift api.systemGetTime
  memAlloc := Disk.lift api.memAlloc
  systemGetCik := systemGetCik fs
  systemSetCik := systemSetCik fs
  rtcSet time := Disk.apply (api.rtcSet time)
  netDevGet type := Disk.lift (api.netDevGet type)
  selectServerData type := Disk.lift (api.selectServerData type)
  protocolClientSmNew := Disk.lift api.protocolClientSmNew
  requestNew args := Disk.lift (api.requestNew args)
  responseCallback := api.responseCallback
  application f status aliasName value := Disk.lift (api.application f status aliasName value)

end

/-- The life of a device through its restarts: what happened up to the last one, and the object. -/
structure Life (X : Type) where
  past : List Event
  device : Device (Disk X)

def Life.record (l : Life X) : List Event := l.past ++ l.device.world.log

/-- The steps of an object, and a loss of power that leaves this file. -/
inductive Action (X : Type)
  | act (a : ExositeApi.Action X)
  | restart (file : Option (List UInt8)) (rest : X) (globals : Globals Nat) (messageId : Int)
      (objects : Nat)

/-- Other exosite objects do not use the file. -/
def actionOnDisk : ExositeApi.Action X → ExositeApi.Action (Disk X)
  | .activateSm => .activateSm
  | .task i => .task i
  | .user c => .user c
  | .interfere connectingSm startTime nextState allocated messageId f =>
      .interfere connectingSm startTime nextState allocated messageId (Disk.apply f)

/-- What every start of the device is made with. -/
structure Maker where
  protocolType : AppType
  vendor : List UInt8
  model : List UInt8
  sn : List UInt8

section

variable (api : Api X) (fs : FileSystem X) (maker : Maker)

def start (file : Option (List UInt8)) (rest : X) (globals : Globals Nat) (messageId : Int)
    (objects : Nat) : Device (Disk X) :=
  exositeNew (onDisk fs api) maker.protocolType maker.vendor maker.model maker.sn globals messageId
    objects ⟨file, rest⟩

def step (l : Life X) : Action X → Life X
  | .act a => { l with device := ExositeApi.step (onDisk fs api) l.device (actionOnDisk a) }
  | .restart file rest globals messageId objects =>
      ⟨l.record, start api fs maker file rest globals messageId objects⟩

end

/-- The texts that a CIK may come from: the one that is built in, the file that the device came
with, and what the server has sent. -/
def Source (builtIn : List UInt8) (first : Option (List UInt8)) (record : List Event)
    (text : List UInt8) : Prop :=
  text = builtIn ∨ first = some text ∨ ∃ cik, .setCik cik ∈ record ∧ text = cString cik.toList

/-- Whatever was lost, the file is the beginning of a text that was written to it. -/
def Torn (first : Option (List UInt8)) (record : List Event) (file : Option (List UInt8)) : Prop :=
  ∀ content, file = some content → ∃ text, content <+: text ∧
    (first = some text ∨ ∃ cik, .setCik cik ∈ record ∧ text = cString cik.toList)

def Known (builtIn : List UInt8) (first : Option (List UInt8)) (record : List Event) (cik : CikBuffer) :
    Prop :=
  ∃ s text, s.length = cikLength ∧ cik.toList = s ++ [0] ∧ s <+: text ∧
    Source builtIn first record text

section

variable {builtIn : List UInt8} {first : Option (List UInt8)} {record more : List Event}

theorem Source.mono {text : List UInt8} (h : Source builtIn first record text) :
    Source builtIn first (record ++ more) text := by
  obtain h | h | ⟨cik, hm, ht⟩ := h
  · exact .inl h
  · exact .inr (.inl h)
  · exact .inr (.inr ⟨cik, List.mem_append_left _ hm, ht⟩)

theorem Known.mono {cik : CikBuffer} (h : Known builtIn first record cik) :
    Known builtIn first (record ++ more) cik := by
  obtain ⟨s, text, hlen, hs, hp, hsource⟩ := h
  exact ⟨s, text, hlen, hs, hp, hsource.mono⟩

theorem Torn.mono {file : Option (List UInt8)} (h : Torn first record file) :
    Torn first (record ++ more) file := by
  intro content hfile
  obtain ⟨text, hp, hsource⟩ := h content hfile
  refine ⟨text, hp, hsource.imp_right fun ⟨cik, hm, ht⟩ => ⟨cik, List.mem_append_left _ hm, ht⟩⟩

theorem Known.copy {cik : CikBuffer} (h : Known builtIn first record cik) :
    Known builtIn first record (copyCik cik.toList) := by
  obtain ⟨s, text, hlen, hs, hp, hsource⟩ := h
  refine ⟨s, text, hlen, ?_, hp, hsource⟩
  rw [hs, toList_copyCik (by rw [List.length_append]; omega), ← hlen, List.take_left]

theorem cString_valid {cik : CikBuffer} {s : List UInt8} (hs : ∀ c ∈ s, isAlnum c = true)
    (hcik : cik.toList = s ++ [0]) : cString cik.toList = s := by
  rw [hcik]
  refine CStrings.cString_append (fun hm => ?_) []
  exact absurd (hs 0 hm) (by decide)

theorem known_setCik {cik : CikBuffer} (hv : ValidCik cik) (hm : .setCik cik ∈ record) :
    Known builtIn first record cik := by
  obtain ⟨s, hlen, hs, hcik⟩ := hv
  exact ⟨s, s, hlen, hcik, List.prefix_rfl, .inr (.inr ⟨cik, hm, (cString_valid hs hcik).symm⟩)⟩

end

theorem fgetsLine_prefix (n : Nat) (content : List UInt8) : fgetsLine n content <+: content := by
  induction n generalizing content with
  | zero => exact List.nil_prefix
  | succ n ih =>
      cases content with
      | nil => exact List.nil_prefix
      | cons c rest =>
          unfold fgetsLine
          split
          · exact List.cons_prefix_cons.mpr ⟨rfl, List.nil_prefix⟩
          · exact List.cons_prefix_cons.mpr ⟨rfl, ih rest⟩

theorem fgetsLine_length (n : Nat) (content : List UInt8) : (fgetsLine n content).length ≤ n := by
  induction n generalizing content with
  | zero => exact Nat.le_refl 0
  | succ n ih =>
      cases content with
      | nil => exact Nat.zero_le _
      | cons c rest =>
          unfold fgetsLine
          split
          · exact Nat.succ_le_succ (Nat.zero_le n)
          · exact Nat.succ_le_succ (ih rest)

theorem fgetsLine_of_not_mem {content : List UInt8} (h : 10 ∉ content) (n : Nat) :
    fgetsLine n content = content.take n := by
  induction n generalizing content with
  | zero => rfl
  | succ n ih =>
      cases content with
      | nil => rfl
      | cons c rest =>
          rw [List.mem_cons, not_or] at h
          obtain ⟨hc, hrest⟩ := h
          unfold fgetsLine
          rw [if_neg (Ne.symm hc), ih hrest, List.take_succ_cons]

theorem toList_fill {l : List UInt8} (h : l.length = 41) : (fill l).toList = l := by
  unfold fill
  rw [Vector.toList_ofFn]
  refine List.ext_getElem (by rw [List.length_ofFn, h]) (fun i h₁ h₂ => ?_)
  rw [List.getElem_ofFn, List.getD_eq_getElem?_getD, List.getElem?_eq_getElem h₂]
  rfl

theorem toList_line {line : List UInt8} (h : line.length ≤ cikLength) (cik : CikBuffer) :
    ((strcpy line cik).set 40 0 last_fits).toList =
      (line ++ 0 :: cik.toList.drop (line.length + 1)).take cikLength ++ [0] := by
  have hlen : (line ++ 0 :: cik.toList.drop (line.length + 1)).length = 41 := by
    rw [List.length_append, List.length_cons, List.length_drop, cik.length_toList]
    unfold cikLength at h
    omega
  unfold strcpy
  rw [Vector.toList_set, toList_fill hlen, List.set_eq_take_append_cons_drop,
    if_pos (by rw [hlen]; decide), List.drop_of_length_le (Nat.le_of_eq hlen)]
  rfl

theorem line_valid {line : List UInt8} (h : line.length ≤ cikLength) {cik : CikBuffer}
    (hv : ValidCik ((strcpy line cik).set 40 0 last_fits)) :
    line.length = cikLength ∧ ((strcpy line cik).set 40 0 last_fits).toList = line ++ [0] := by
  obtain ⟨s, hlen, hs, he⟩ := hv
  have hzero : 0 ∉ s := fun hm => absurd (hs 0 hm) (by decide)
  have htake := List.append_cancel_right ((toList_line h cik).symm.trans he)
  have hfull : line.length = cikLength := by
    by_contra hne
    refine hzero (htake ▸ ?_)
    rw [List.take_append, List.take_of_length_le h]
    refine List.mem_append_right _ ?_
    obtain ⟨n, hn⟩ := Nat.exists_eq_succ_of_ne_zero (Nat.sub_ne_zero_of_lt (Nat.lt_of_le_of_ne h hne))
    rw [hn, List.take_succ_cons]
    exact List.mem_cons_self
  refine ⟨hfull, ?_⟩
  rw [toList_line h, ← hfull, List.take_left]

theorem set_of_valid {cik : CikBuffer} (hv : ValidCik cik) : cik.set 40 0 last_fits = cik := by
  obtain ⟨s, hlen, -, he⟩ := hv
  have hfits : s.length ≤ 40 := Nat.le_of_eq hlen
  apply Vector.toList_inj.mp
  rw [Vector.toList_set, he, List.set_append_right 40 0 hfits, hlen]
  rfl

theorem not_valid_of_head {cik : CikBuffer} (h : cik.toList.head? = some 0) : ¬ ValidCik cik := by
  rintro ⟨s, hlen, hs, he⟩
  rw [he] at h
  cases s with
  | nil => exact absurd hlen (by decide)
  | cons c s =>
      obtain rfl := Option.some.inj h
      exact absurd (hs 0 List.mem_cons_self) (by decide)

theorem fgets_valid {content : List UInt8} {cik : CikBuffer} (hcik : cik.toList.head? = some 0)
    (hv : ValidCik ((fgets content cik).set 40 0 last_fits)) : ∃ s, s.length = cikLength ∧
      ((fgets content cik).set 40 0 last_fits).toList = s ++ [0] ∧ s <+: content := by
  have hprefix := fgetsLine_prefix cikLength content
  have hshort := fgetsLine_length cikLength content
  unfold fgets at hv ⊢
  generalize fgetsLine cikLength content = line at hv hprefix hshort
  cases line with
  | nil =>
      -- nothing was read, and the buffer started with a NUL
      refine absurd hv (not_valid_of_head ?_)
      rw [Vector.toList_set]
      cases hl : cik.toList with
      | nil => rw [hl] at hcik; cases hcik
      | cons c rest =>
          rw [hl] at hcik
          exact hcik
  | cons c line =>
      obtain ⟨hlen, he⟩ := line_valid hshort hv
      exact ⟨c :: line, hlen, he, hprefix⟩

theorem fgets_cString {cik : CikBuffer} (hv : ValidCik cik) (buffer : CikBuffer) :
    (fgets (cString cik.toList) buffer).set 40 0 last_fits = cik := by
  obtain ⟨s, hlen, hs, he⟩ := hv
  have hline : fgetsLine cikLength s = s := by
    rw [fgetsLine_of_not_mem (fun hm => absurd (hs 10 hm) (by decide)), List.take_of_length_le
      (Nat.le_of_eq hlen)]
  rw [cString_valid hs he]
  apply Vector.toList_inj.mp
  rw [he]
  unfold fgets
  rw [hline]
  cases s with
  | nil => exact absurd hlen (by decide)
  | cons c s =>
      dsimp only
      rw [toList_line (Nat.le_of_eq hlen), ← hlen, List.take_left]

/-- The record goes on, and only a CIK from the server gets to the file. -/
structure Goes (w v : World (Disk X)) : Prop where
  log : w.log <+: v.log
  file : v.ext.file = w.ext.file ∨
    ∃ cik n, .setCik cik ∈ v.log ∧ v.ext.file = some ((cString cik.toList).take n)

theorem Goes.refl (w : World (Disk X)) : Goes w w := ⟨List.prefix_rfl, .inl rfl⟩

theorem Goes.trans {w v u : World (Disk X)} (h : Goes w v) (h' : Goes v u) : Goes w u := by
  refine ⟨h.log.trans h'.log, ?_⟩
  obtain hf | hwritten := h'.file
  · rw [hf]
    exact h.file.imp_right fun ⟨cik, n, hm, hf⟩ => ⟨cik, n, h'.log.subset hm, hf⟩
  · exact .inr hwritten

theorem Goes.still {w v : World (Disk X)} (hlog : v.log = w.log) (hfile : v.ext.file = w.ext.file) :
    Goes w v :=
  ⟨hlog ▸ List.prefix_rfl, .inl hfile⟩

theorem Goes.record (w : World (Disk X)) (e : Event) : Goes w (w.record e) :=
  ⟨List.prefix_append _ _, .inl rfl⟩

theorem Goes.lift {α : Type} (f : X → α × X) (w : World (Disk X)) : Goes w (w.call (Disk.lift f)).2 :=
  .still rfl rfl

section

variable (api : Api X) (fs : FileSystem X)

theorem exoRequestArgsNew_goes (args : ExoRequestArgs) (w : World (Disk X)) :
    Goes w (exoRequestArgsNew (onDisk fs api) args w).2 := by
  unfold exoRequestArgsNew
  dsimp only
  split
  · exact .still rfl rfl
  · split
    · exact .still rfl rfl
    · exact .still rfl rfl

theorem requestQueuePush_goes (args : ExoRequestArgs) (w : World (Disk X)) :
    Goes w (requestQueuePush (onDisk fs api) args w).2 := by
  have hnew := exoRequestArgsNew_goes api fs { args with appType := w.exo.protocolType } w
  unfold requestQueuePush
  generalize exoRequestArgsNew _ _ w = c at hnew
  obtain ⟨_ | copied, v⟩ := c
  · exact hnew
  · dsimp only
    split
    · split
      · exact hnew.trans (.still rfl rfl)
      · exact hnew.trans ⟨List.prefix_append v.log [.accepted copied], .inl rfl⟩
    · exact hnew

theorem exoSubscribeItemNew_goes (args : ExoRequestArgs) (w : World (Disk X)) :
    Goes w (exoSubscribeItemNew (onDisk fs api) args w).2 := by
  have halloc : Goes w (w.call (onDisk fs api).memAlloc).2 := .lift api.memAlloc w
  unfold exoSubscribeItemNew
  dsimp only
  split
  · exact halloc
  · have hnew := halloc.trans (exoRequestArgsNew_goes api fs args _)
    generalize exoRequestArgsNew _ _ _ = c at hnew
    obtain ⟨_ | copied, v⟩ := c
    · exact hnew
    · exact hnew

theorem dictionaryAdd_goes (key : List UInt8) (item : SubscribeItem) (w : World (Disk X)) :
    Goes w (dictionaryAdd (onDisk fs api) key item w).2 := by
  unfold dictionaryAdd
  split
  · exact .refl w
  · dsimp only
    split
    · exact .still rfl rfl
    · split
      · exact .still rfl rfl
      · exact .still rfl rfl

theorem addToSubscribeMap_goes (key : List UInt8) (args : ExoRequestArgs) (w : World (Disk X)) :
    Goes w (addToSubscribeMap (onDisk fs api) key args w).2 := by
  have hnew := exoSubscribeItemNew_goes api fs { args with appType := w.exo.protocolType } w
  unfold addToSubscribeMap
  generalize exoSubscribeItemNew _ _ w = c at hnew
  obtain ⟨_ | item, v⟩ := c
  · exact hnew
  · exact hnew.trans (dictionaryAdd_goes api fs key item v)

theorem exositeSubscribe_goes (aliasName : List UInt8) (onChange : Option Nat) (w : World (Disk X)) :
    Goes w (exositeSubscribe (onDisk fs api) aliasName onChange w).2 := by
  unfold exositeSubscribe
  split
  · exact .refl w
  · exact addToSubscribeMap_goes api fs aliasName _ w

theorem userCall_goes (w : World (Disk X)) (c : UserCall) : Goes w (userCall (onDisk fs api) w c) := by
  cases c with
  | read aliasName onRead => exact requestQueuePush_goes api fs _ w
  | write aliasName value onWrite => exact requestQueuePush_goes api fs _ w
  | subscribe aliasName since onChange => exact exositeSubscribe_goes api fs aliasName onChange w

theorem tell_goes (f : Nat) (status : Int) (aliasName value : Option (List UInt8)) (w : World (Disk X)) :
    Goes w (tell (onDisk fs api) f status aliasName value w) := by
  have hcalls (calls : List UserCall) (w : World (Disk X)) :
      Goes w (calls.foldl (userCall (onDisk fs api)) w) := by
    induction calls generalizing w with
    | nil => exact .refl w
    | cons c calls ih => exact (userCall_goes api fs w c).trans (ih _)
  refine (Goes.record w (.told f status aliasName value)).trans ?_
  exact (Goes.lift (api.application f status aliasName value) _).trans (hcalls _ _)

theorem onActivate_goes (status : Int) (cik : List UInt8) (w : World (Disk X)) :
    Goes w (onActivate (onDisk fs api) status cik w) := by
  unfold onActivate
  split
  · generalize copyCik cik = cik
    dsimp only
    split
    · refine ⟨List.prefix_append _ _, ?_⟩
      show (systemSetCik fs cik w.ext).2.file = _ ∨ ∃ cik' n, _ ∧ (systemSetCik fs cik w.ext).2.file = _
      unfold systemSetCik
      dsimp only
      split
      · refine .inr ⟨cik, _, ?_, rfl⟩
        exact List.mem_append_right _ (List.mem_singleton.mpr rfl)
      · exact .inl rfl
    · exact .still rfl rfl
  · exact .still rfl rfl

theorem onTimestamp_goes (status : Int) (timestr : List UInt8) (w : World (Disk X)) :
    Goes w (onTimestamp (onDisk fs api) status timestr w) := by
  unfold onTimestamp
  split
  · split
    · exact .still rfl rfl
    · exact .still rfl rfl
  · exact .still rfl rfl

theorem onSubscribe_goes (status : Int) (args : ExoRequestArgs) (value : List UInt8) (w : World (Disk X)) :
    Goes w (onSubscribe (onDisk fs api) status args value w) := by
  have htell : Goes w (tellSubscriber (onDisk fs api) status args value w) := by
    unfold tellSubscriber
    split
    · split
      · exact tell_goes api fs _ status args.aliasName (some value) w
      · exact .refl w
    · exact .refl w
  unfold onSubscribe
  dsimp only
  split
  · exact htell
  · exact htell.trans (.still rfl rfl)

theorem dispatch_goes (args : ExoRequestArgs) (status : Int) (payload : List UInt8) (w : World (Disk X)) :
    Goes w (dispatch (onDisk fs api) args status payload w) := by
  unfold dispatch
  split
  · exact tell_goes api fs _ status args.aliasName none w
  · exact tell_goes api fs _ status args.aliasName (some (cString payload)) w
  · exact onSubscribe_goes api fs status args (cString payload) w
  · exact onActivate_goes api fs status payload w
  · exact onTimestamp_goes api fs status payload w
  · exact .refl w

theorem exositeApiCallback_goes (request : ProtocolClientRequest Request)
    (response : ProtocolClientResponse) (w : World (Disk X)) :
    Goes w (exositeApiCallback (onDisk fs api) request response w).2 := by
  have hnote (status : Int) : Goes w (noteInvalidCik status (w.record (.called request))) := by
    unfold noteInvalidCik
    split
    · exact (Goes.record w _).trans (.still rfl rfl)
    · exact .record w _
  have hdelete (v : World (Disk X)) : Goes v (requestDelete request.request response.requestType v) := by
    unfold requestDelete
    split
    · exact .refl v
    · exact .record v _
  exact (hnote _).trans ((dispatch_goes api fs _ _ _ _).trans (hdelete _))

theorem machineEnv_along (i : Nat) : WorldSteps.Along (machineEnv (onDisk fs api) i) Goes where
  refl := .refl
  trans := .trans
  systemGetTime := .lift (api.platform i).systemGetTime
  memAlloc := .lift (api.platform i).memAlloc
  queuePushTail := .lift (api.platform i).queuePushTail
  lookup := .lift (api.platform i).lookup
  createSocket := .lift (api.platform i).createSocket
  connect socket := .lift ((api.platform i).connect socket)
  close _ _ := .still rfl rfl
  setSocket _ _ := .still rfl rfl
  clearSocket _ := .still rfl rfl
  sendRequest request w := by
    have hsent := Goes.record w (.sent request.request.object)
    change Goes w (World.call (Disk.lift ((api.platform i).sendRequest request))
      (if api.sendDeletes i request w.ext.rest then _ else _)).2
    split
    · exact hsent.trans ((Goes.record _ (.released request.request.object)).trans (.lift _ _))
    · exact hsent.trans (.lift _ _)
  recvResponse response := .lift ((api.platform i).recvResponse response)
  clientClose _ := .still rfl rfl
  clb request response w := exositeApiCallback_goes api fs request response w

theorem untilError_file {l : List (Disk X → Int × Disk X)} (h : ∀ f ∈ l, ∀ e, (f e).2.file = e.file)
    (e : Disk X) : (untilError l e).2.file = e.file := by
  induction l generalizing e with
  | nil => rfl
  | cons f l ih =>
      unfold untilError
      split
      · exact h f List.mem_cons_self e
      · exact (ih (fun g hg => h g (List.mem_cons_of_mem f hg)) _).trans (h f List.mem_cons_self e)

theorem smNeeds_file (name : Option (List UInt8)) (type : SmType) (e : Disk X) :
    (untilError (smNeeds (onDisk fs api) name type) e).2.file = e.file := by
  refine untilError_file (fun f hf e => ?_) e
  obtain hf | hf := List.mem_append.mp hf
  · obtain rfl | hf := List.mem_cons.mp hf
    · rfl
    · obtain rfl | hf := List.mem_cons.mp hf
      · rfl
      · exact List.mem_singleton.mp hf ▸ rfl
  · cases name with
    | none => exact absurd hf List.not_mem_nil
    | some name => exact List.mem_singleton.mp hf ▸ rfl

theorem createNewSm_goes (name : Option (List UInt8)) (type : SmType) (d : Device (Disk X)) :
    Goes d.world (createNewSm (onDisk fs api) name type d).2.world := by
  unfold createNewSm
  split
  · exact .refl _
  · split
    · exact .refl _
    · have hneeds : Goes d.world (d.call (untilError (smNeeds (onDisk fs api) name type))).2.world :=
        .still rfl (smNeeds_file api fs name type d.world.ext)
      generalize d.call (untilError (smNeeds (onDisk fs api) name type)) = c at hneeds
      dsimp only
      split
      · exact hneeds
      · split
        · exact hneeds.trans (.still rfl rfl)
        · exact hneeds.trans (.still rfl rfl)

theorem obtainSm_goes {r : Route} {args : ExoRequestArgs} {c : Int × Option Nat} {d d' : Device (Disk X)}
    (h : obtainSm (onDisk fs api) r args d = some (c, d')) : Goes d.world d'.world := by
  unfold obtainSm at h
  obtain ⟨place, -, h⟩ := Option.bind_eq_some_iff.mp h
  cases place with
  | some i =>
      cases h
      exact .refl _
  | none =>
      have hnew := createNewSm_goes api fs (newName r.sm args) r.sm d
      dsimp only at h
      split at h
      · cases h
        exact hnew
      · obtain ⟨i, -, h⟩ := Option.bind_eq_some_iff.mp h
        cases h
        exact hnew

theorem transmitTo_goes {i : Nat} {item : SmListItem} {type : RequestType} {args : ExoRequestArgs}
    {error : Int} {d d' : Device (Disk X)}
    (h : transmitTo (onDisk fs api) i item type args d = (error, d')) : Goes d.world d'.world := by
  have hmade : Goes d.world (Device.mapWorld (fun w : World (Disk X) =>
      { w.record (.created w.objects) with objects := w.objects + 1 })
      (d.call ((onDisk fs api).requestNew args)).2).world :=
    ⟨List.prefix_append d.world.log [.created d.world.objects], .inl rfl⟩
  unfold transmitTo at h
  dsimp only at h
  split at h
  · cases h
    split
    · exact hmade.trans (.record _ _)
    · exact .still rfl rfl
  · generalize Device.mapWorld _ _ = made at hmade h
    have hsent := hmade.trans (WorldSteps.protocolClientSmTransmit_along (machineEnv_along api fs i)
      (made.view item) type ⟨d.world.objects, args⟩ args.messageId)
    generalize protocolClientSmTransmit _ type _ args.messageId (made.view item) = t at hsent h
    split at h
    · cases h
      exact hsent.trans (.record _ _)
    · cases h
      exact hsent.trans (.record _ _)

theorem pushNoCopy_goes {args : ExoRequestArgs} {error : Int} {d d' : Device (Disk X)}
    (h : pcsmTransmitQueuePushNoCopy (onDisk fs api) args d = some (error, d')) :
    Goes d.world d'.world := by
  unfold pcsmTransmitQueuePushNoCopy at h
  obtain ⟨⟨⟨e, found⟩, d₁⟩, hobtained, h⟩ := Option.bind_eq_some_iff.mp h
  have hd₁ := obtainSm_goes api fs hobtained
  dsimp only at h
  split at h
  · cases h
    exact hd₁
  · split at h
    · cases h
      exact hd₁
    · exact hd₁.trans (transmitTo_goes api fs (Option.some.inj h))

theorem push_goes {args : ExoRequestArgs} {error : Int} {d d' : Device (Disk X)}
    (h : pcsmTransmitQueuePush (onDisk fs api) args d = some (error, d')) : Goes d.world d'.world := by
  have hnew := exoRequestArgsNew_goes api fs args d.world
  unfold pcsmTransmitQueuePush at h
  generalize exoRequestArgsNew _ args d.world = c at hnew h
  obtain ⟨_ | copied, v⟩ := c
  · cases h
    exact hnew
  · exact hnew.trans (pushNoCopy_goes api fs h)

theorem asked_goes {args : ExoRequestArgs} {next : ActivateState} {d d' : Device (Disk X)}
    (h : (pcsmTransmitQueuePush (onDisk fs api) args d).bind (fun c =>
      some (if c.1 = errSuccess then c.2.mapExo (ExositeClass.moveTo next) else c.2)) = some d') :
    Goes d.world d'.world := by
  obtain ⟨⟨error, d₁⟩, hpush, h⟩ := Option.bind_eq_some_iff.mp h
  have hd₁ := push_goes api fs hpush
  cases h
  split
  · exact hd₁.trans (.still rfl rfl)
  · exact hd₁

theorem sendSubscribes_goes {rest : Dictionary SubscribeItem} {d d' : Device (Disk X)}
    (h : sendSubscribes (onDisk fs api) rest d = some d') : Goes d.world d'.world := by
  induction rest generalizing d with
  | nil =>
      cases h
      exact .refl _
  | cons entry rest ih =>
      unfold sendSubscribes at h
      dsimp only at h
      split at h
      · exact ih h
      · obtain ⟨⟨error, d₁⟩, hpush, h⟩ := Option.bind_eq_some_iff.mp h
        refine (pushNoCopy_goes api fs hpush).trans (Goes.trans ?_ (ih h))
        split
        · exact .still rfl rfl
        · exact .refl _

theorem sendQueued_goes {d d' : Device (Disk X)} (h : sendQueued (onDisk fs api) d = some d') :
    Goes d.world d'.world := by
  unfold sendQueued at h
  split at h
  · cases h
    exact .refl _
  · obtain ⟨⟨error, d₁⟩, hpush, h⟩ := Option.bind_eq_some_iff.mp h
    have hd₁ := pushNoCopy_goes api fs hpush
    cases h
    split
    · exact hd₁.trans (.still rfl rfl)
    · exact hd₁

theorem apiGetCik_goes (w : World (Disk X)) : Goes w (apiGetCik (onDisk fs api) w).2 := by
  have hread : (systemGetCik fs w.exo.cik w.ext).2.file = w.ext.file := by
    unfold systemGetCik
    dsimp only
    split
    · rfl
    · split
      · rfl
      · rfl
  unfold apiGetCik
  dsimp only
  split
  · exact .still rfl hread
  · split
    · exact .still rfl hread
    · exact .still rfl hread

theorem shouldDelayActivate_goes (w : World (Disk X)) :
    Goes w (shouldDelayActivate (onDisk fs api) w).2 := by
  unfold shouldDelayActivate
  split
  · dsimp only
    split
    · exact .still rfl rfl
    · exact .still rfl rfl
  · split
    · dsimp only
      split
      · exact .still rfl rfl
      · exact .still rfl rfl
    · exact .refl w

theorem activateSm_goes {d d' : Device (Disk X)} (h : activateSm (onDisk fs api) d = some d') :
    Goes d.world d'.world := by
  unfold activateSm at h
  have hentered : Goes d.world
      (d.mapExo (fun exo => { exo with activateState := some d.world.exo.nextState })).world :=
    .still rfl rfl
  dsimp only at h
  generalize d.mapExo _ = e at h hentered
  refine hentered.trans ?_
  cases hs : d.world.exo.nextState with
  | sendGetTimestamp =>
      rw [hs] at h
      exact asked_goes api fs h
  | waitTimestamp | waitActivate =>
      rw [hs] at h
      cases h
      exact .refl _
  | init =>
      rw [hs] at h
      generalize loadDeviceCik _ = load at h
      cases h
      exact .still rfl rfl
  | start =>
      rw [hs] at h
      cases h
      exact (apiGetCik_goes api fs e.world).trans (.still rfl rfl)
  | prepareActivate =>
      rw [hs] at h
      cases h
      have hdelay := shouldDelayActivate_goes api fs e.world
      split
      · exact hdelay
      · exact hdelay.trans (.still rfl rfl)
  | sendActivate =>
      rw [hs] at h
      dsimp only at h
      split at h
      · cases h
        exact .refl _
      · exact asked_goes api fs h
  | activated =>
      rw [hs] at h
      dsimp only at h
      split at h
      · cases h
        exact .still rfl rfl
      · obtain ⟨e', hsubscribe, h⟩ := Option.bind_eq_some_iff.mp h
        exact (sendSubscribes_goes api fs hsubscribe).trans (sendQueued_goes api fs h)

theorem step_goes (d : Device (Disk X)) (a : ExositeApi.Action X) :
    Goes d.world (ExositeApi.step (onDisk fs api) d (actionOnDisk a)).world := by
  cases a with
  | activateSm =>
      unfold actionOnDisk ExositeApi.step
      cases hd : activateSm (onDisk fs api) d with
      | none => exact .refl _
      | some d' => exact activateSm_goes api fs hd
  | task i =>
      unfold actionOnDisk
      cases hi : d.machines[i]? with
      | none =>
          rw [step_no_task hi]
          exact .refl _
      | some item =>
          rw [step_task hi]
          exact WorldSteps.protocolClientSmTask_along (machineEnv_along api fs i) (d.view item) i
  | user c => exact userCall_goes api fs d.world c
  | interfere connectingSm startTime nextState allocated messageId f => exact .still rfl rfl

end

theorem apiGetCik_cik (api : Api X) (w : World X) :
    (apiGetCik api w).2.exo.cik = (api.systemGetCik w.exo.cik w.ext).1.2 := by
  unfold apiGetCik
  dsimp only
  split
  · rfl
  · split
    · rfl
    · rfl

theorem apiGetCik_success_iff (api : Api X) (w : World X) : (apiGetCik api w).1 = errSuccess ↔
    (api.systemGetCik w.exo.cik w.ext).1.1 = errSuccess ∧
      ValidCik (api.systemGetCik w.exo.cik w.ext).1.2 := by
  rw [← systemIsCikFormatValid_iff]
  unfold apiGetCik
  dsimp only
  split
  · rename_i hfailed
    exact ⟨fun h => absurd h hfailed, fun h => absurd h.1 hfailed⟩
  · rename_i hok
    split
    · rename_i hnot
      refine ⟨fun h => absurd (show errCikNotValid = errSuccess from h) (by decide), fun h => ?_⟩
      exact absurd h.2 (ne_true_of_eq_false ((Bool.not_eq_true' _).mp hnot))
    · rename_i hvalid
      exact ⟨fun _ => ⟨not_not.mp hok, eq_true_of_ne_false (mt (Bool.not_eq_true' _).mpr hvalid)⟩,
        fun _ => rfl⟩

/-- All that was ever handed on with a CIK, and the CIK of an activated object. -/
structure Kept (builtIn : List UInt8) (first : Option (List UInt8)) (past : List Event) (b : Books) :
    Prop where
  next : b.exo.nextState = .activated → Known builtIn first (past ++ b.log) b.exo.cik
  start : b.exo.nextState = .start → b.exo.cik.toList.head? = some 0
  handed : ∀ sm r, .handed sm r ∈ past ++ b.log → IsData r →
    Known builtIn first (past ++ b.log) r.request.args.cik

/-- The object is activated with its CIK, or gets activated by the server. -/
structure Turns (exo exo' : ExositeClass) (events : List Event) : Prop where
  activated : exo'.nextState = .activated → (exo.nextState = .activated ∧ exo'.cik = exo.cik) ∨
    (ValidCik exo'.cik ∧ .setCik exo'.cik ∈ events)
  start : exo'.nextState = .start → exo.nextState = .start ∧ exo'.cik = exo.cik

theorem Turns.same {exo exo' : ExositeClass}
    (h : exo'.nextState = exo.nextState ∧ exo'.cik = exo.cik) (events : List Event) :
    Turns exo exo' events :=
  ⟨fun ha => .inl ⟨h.1 ▸ ha, h.2⟩, fun hs => ⟨h.1 ▸ hs, h.2⟩⟩

theorem Turns.other {exo exo' : ExositeClass}
    (h : exo'.nextState ≠ .activated ∧ exo'.nextState ≠ .start) (events : List Event) :
    Turns exo exo' events :=
  ⟨fun ha => absurd ha h.1, fun hs => absurd hs h.2⟩

def Handed : Event → Prop
  | .handed .. => True
  | _ => False

theorem users_quiet {limit : Nat} {x y : Account} (h : UserChanges limit x y) :
    ∃ events, y.log = x.log ++ events ∧ ∀ e ∈ events, ¬ Handed e := by
  induction h with
  | refl => exact ⟨[], (List.append_nil _).symm, List.forall_mem_nil _⟩
  | tail _ hc ih =>
      obtain ⟨events, hlog, hquiet⟩ := ih
      cases hc with
      | told f status aliasName value =>
          refine ⟨events ++ [.told f status aliasName value], ?_,
            List.forall_mem_append.mpr ⟨hquiet, List.forall_mem_singleton.mpr id⟩⟩
          rw [Account.record, hlog, List.append_assoc]
      | queued args hm hl =>
          refine ⟨events ++ [.accepted args], ?_,
            List.forall_mem_append.mpr ⟨hquiet, List.forall_mem_singleton.mpr id⟩⟩
          change _ ++ [Event.accepted args] = _
          rw [show (Account.mapExo _ _).log = _ from hlog, List.append_assoc]
      | subscribed => exact ⟨events, hlog, hquiet⟩

theorem answered_turns {limit : Nat} {args : ExoRequestArgs} {status : Int} {x y : Account}
    (h : Answered limit args status x y) :
    ∃ events, y.log = x.log ++ events ∧ (∀ e ∈ events, ¬ Handed e) ∧ Turns x.exo y.exo events := by
  cases h with
  | data hm hu =>
      obtain ⟨events, hlog, hquiet⟩ := users_quiet hu
      have hsame := (users_frame hu).1
      exact ⟨events, hlog, hquiet, .same ⟨hsame.next, hsame.cik⟩ events⟩
  | subscribe hm hk hu =>
      obtain ⟨events, hlog, hquiet⟩ := users_quiet hu
      have hsame := (users_frame hu).1
      refine ⟨events, hlog, hquiet, .same ?_ events⟩
      exact ⟨hsame.next, hsame.cik⟩
  | @accepted cik hm hv =>
      refine ⟨[.setCik cik], rfl, List.forall_mem_singleton.mpr id, ?_⟩
      exact ⟨fun _ => .inr ⟨hv, List.mem_singleton.mpr rfl⟩, nofun⟩
  | malformed | refused =>
      refine ⟨[], (List.append_nil _).symm, List.forall_mem_nil _, .other ?_ []⟩
      exact ⟨nofun, nofun⟩
  | @timestamp next hm hn =>
      refine ⟨[], (List.append_nil _).symm, List.forall_mem_nil _, .other ?_ []⟩
      obtain rfl | rfl := hn
      · exact ⟨nofun, nofun⟩
      · exact ⟨nofun, nofun⟩

section

variable {builtIn : List UInt8} {first : Option (List UInt8)} {past : List Event} {b b' : Books}

theorem Kept.grow (h : Kept builtIn first past b) {events : List Event}
    (hlog : b'.log = b.log ++ events) (hturns : Turns b.exo b'.exo events)
    (hhanded : ∀ sm r, .handed sm r ∈ events → IsData r →
      b.exo.nextState = .activated ∧ r.request.args.cik = copyCik b.exo.cik.toList) :
    Kept builtIn first past b' := by
  have hrecord : past ++ b'.log = past ++ b.log ++ events := by rw [hlog, List.append_assoc]
  refine ⟨fun ha => ?_, fun hs => ?_, fun sm r hm hdata => ?_⟩
  · rw [hrecord]
    obtain ⟨hn, hc⟩ | ⟨hv, hm⟩ := hturns.activated ha
    · rw [hc]
      exact (h.next hn).mono
    · exact known_setCik hv (List.mem_append_right _ hm)
  · obtain ⟨hn, hc⟩ := hturns.start hs
    rw [hc]
    exact h.start hn
  · rw [hrecord] at hm ⊢
    obtain hm | hm := List.mem_append.mp hm
    · exact (h.handed sm r hm hdata).mono
    · obtain ⟨hn, hc⟩ := hhanded sm r hm hdata
      rw [hc]
      exact (h.next hn).copy.mono

theorem Kept.quiet (h : Kept builtIn first past b) {events : List Event}
    (hlog : b'.log = b.log ++ events) (hquiet : ∀ e ∈ events, ¬ Handed e)
    (hturns : Turns b.exo b'.exo events) : Kept builtIn first past b' :=
  h.grow hlog hturns fun _ _ hm => absurd trivial (hquiet _ hm)

theorem Kept.frame (h : Kept builtIn first past b) (hlog : b'.log = b.log)
    (hsame : b'.exo.nextState = b.exo.nextState ∧ b'.exo.cik = b.exo.cik) : Kept builtIn first past b' :=
  h.quiet (hlog.trans (List.append_nil _).symm) (List.forall_mem_nil _) (.same hsame [])

theorem Kept.other (h : Kept builtIn first past b) (hlog : b'.log = b.log)
    (hother : b'.exo.nextState ≠ .activated ∧ b'.exo.nextState ≠ .start) : Kept builtIn first past b' :=
  h.quiet (hlog.trans (List.append_nil _).symm) (List.forall_mem_nil _) (.other hother [])

theorem quiet_releases (request : Request) (type : RequestType) :
    ∀ e ∈ releases request type, ¬ Handed e := by
  unfold releases
  split
  · exact List.forall_mem_nil _
  · exact List.forall_mem_singleton.mpr id

theorem Kept.works {api : Api X} {deletes : Prop} {ok : Completion Request → Prop} (hs : Sound b)
    (h : Kept builtIn first past b) (hw : Works api deletes ok b b') : Kept builtIn first past b' := by
  obtain ⟨-, hout⟩ := hw.outcome hs.nodup
  have hrecord {events : List Event} (hquiet : ∀ e ∈ events, ¬ Handed e)
      (hx : b'.account = b.account.record events) : Kept builtIn first past b' := by
    refine h.quiet (congrArg Account.log hx) hquiet (.same ?_ events)
    rw [show b'.exo = b.exo from (congrArg Account.exo hx).trans rfl]
    exact ⟨rfl, rfl⟩
  cases hout with
  | quiet hp hx =>
      refine h.frame (congrArg Account.log hx) ?_
      rw [show b'.exo = b.exo from congrArg Account.exo hx]
      exact ⟨rfl, rfl⟩
  | @sent r hr hp hx =>
      obtain hx | ⟨-, hx⟩ := hx
      · exact hrecord (List.forall_mem_singleton.mpr id) hx
      · exact hrecord (List.forall_mem_cons.mpr ⟨id, List.forall_mem_singleton.mpr id⟩) hx
  | @completed c y hsel hok hr hp ha hx =>
      have hflag := flagged_sameState (statusOf api c.request c.response) b.exo
      obtain ⟨events, hlog, hquiet, hactivated, hstart⟩ := answered_turns ha
      have hexo : b'.exo = y.exo := (congrArg Account.exo hx).trans rfl
      have hbehind : b'.log =
          b.log ++ ([.called c.request] ++ events ++ releases c.request.request c.request.type) := by
        have hy : y.log = b.log ++ [.called c.request] ++ events := hlog
        rw [show b'.log = y.log ++ _ from congrArg Account.log hx, hy]
        simp only [List.append_assoc]
      refine h.quiet hbehind ?_ ⟨fun hact => ?_, fun hs => ?_⟩
      · exact List.forall_mem_append.mpr ⟨List.forall_mem_append.mpr
          ⟨List.forall_mem_singleton.mpr id, hquiet⟩, quiet_releases _ _⟩
      · rw [hexo] at hact ⊢
        obtain ⟨hn, hc⟩ | ⟨hv, hm⟩ := hactivated hact
        · exact .inl ⟨hflag.next ▸ hn, hc.trans hflag.cik⟩
        · exact .inr ⟨hv, List.mem_append_left _ (List.mem_append_right _ hm)⟩
      · rw [hexo] at hs ⊢
        obtain ⟨hn, hc⟩ := hstart hs
        exact ⟨hflag.next ▸ hn, hc.trans hflag.cik⟩

theorem Kept.pushed {args : ExoRequestArgs} {error : Int} (h : Kept builtIn first past b)
    (hv : args.method = .activate ∨ args.method = .timestamp ∨ b.exo.nextState = .activated)
    (hp : Pushed args b error b') : Kept builtIn first past b' := by
  have hsame : b'.exo.nextState = b.exo.nextState ∧ b'.exo.cik = b.exo.cik := by
    rw [Pushed.exo hp]
    exact ⟨rfl, rfl⟩
  have hunheard {n : Nat} {e : Event} (he : ¬ Handed e)
      (hlog : b'.log = b.log ++ [.created n] ++ [e]) : Kept builtIn first past b' := by
    have hquiet : ∀ x ∈ [.created n] ++ [e], ¬ Handed x :=
      List.forall_mem_append.mpr ⟨List.forall_mem_singleton.mpr id, List.forall_mem_singleton.mpr he⟩
    exact h.quiet (hlog.trans (List.append_assoc ..)) hquiet (.same hsame _)
  cases hp with
  | kept he => exact h
  | unfinished he => exact hunheard (e := .unfinished b.account.objects) id rfl
  | refused n he => exact hunheard (e := .released b.account.objects) id rfl
  | handed hm =>
      refine h.grow (List.append_assoc ..) (.same hsame _) fun sm r hr hdata => ?_
      obtain hr | hr := List.mem_append.mp hr
      · cases List.mem_singleton.mp hr
      · obtain ⟨-, rfl⟩ := Event.handed.inj (List.mem_singleton.mp hr)
        refine ⟨?_, CikSafety.cik_requestFor b args⟩
        unfold IsData at hdata
        rw [method_requestFor] at hdata
        obtain hv | hv | hv := hv
        · rw [hv] at hdata
          obtain hdata | hdata | hdata := hdata <;> cases hdata
        · rw [hv] at hdata
          obtain hdata | hdata | hdata := hdata <;> cases hdata
        · exact hv

theorem Kept.obtained (h : Kept builtIn first past b) (ho : Obtained b b') :
    Kept builtIn first past b' := by
  obtain ⟨n, hexo⟩ := Obtained.exo ho
  refine h.frame (Obtained.held ho).2.2 ?_
  rw [hexo]
  exact ⟨rfl, rfl⟩

theorem Kept.send (h : Kept builtIn first past b) (hnext : b.exo.nextState = .activated)
    (hsend : Send b b') : Kept builtIn first past b' ∧ b'.exo.nextState = .activated := by
  have hpushed {args : ExoRequestArgs} {b₁ b₂ : Books} {error : Int} (ho : Obtained b b₁)
      (hp : Pushed args b₁ error b₂) :
      Kept builtIn first past b₂ ∧ b₂.exo.nextState = .activated := by
    obtain ⟨n, hexo⟩ := Obtained.exo ho
    have hn : b₁.exo.nextState = .activated := by
      rw [hexo]
      exact hnext
    exact ⟨(h.obtained ho).pushed (.inr (.inr hn)) hp, by rw [Pushed.exo hp]; exact hn⟩
  cases hsend with
  | subscribe hi hs ho hp =>
      obtain ⟨hk, hn⟩ := hpushed ho hp
      split
      · exact ⟨hk.frame rfl ⟨rfl, rfl⟩, hn⟩
      · exact ⟨hk, hn⟩
  | queued hq ho hp =>
      obtain ⟨hk, hn⟩ := hpushed ho hp
      split
      · exact ⟨hk.frame rfl ⟨rfl, rfl⟩, hn⟩
      · exact ⟨hk, hn⟩

theorem Kept.activates (h : Kept builtIn first past b) (hinit : b.exo.nextState ≠ .init)
    (hstart : b.exo.nextState ≠ .start) (ha : Activates b b') : Kept builtIn first past b' := by
  have he : Kept builtIn first past b.enter := h.frame rfl ⟨rfl, rfl⟩
  cases ha with
  | waits hw => exact he
  | @asks b₁ b₂ args next error hask ho hp =>
      have hm : args.method = .activate ∨ args.method = .timestamp ∨ b₁.exo.nextState = .activated := by
        cases hask with
        | timestamp _ hm _ => exact .inr (.inl hm)
        | activate _ _ hm _ => exact .inl hm
      have hpushed := (he.obtained ho).pushed hm hp
      split
      · refine hpushed.other rfl ⟨?_, ?_⟩
        · cases hask <;> exact nofun
        · cases hask <;> exact nofun
      · exact hpushed
  | loads cik hw hn =>
      obtain hw | hw := hw
      · exact absurd hw hinit
      · exact absurd hw hstart
  | delays time requests attempts hw => exact he.frame rfl ⟨rfl, rfl⟩
  | clears time requests attempts hw => exact he.other rfl ⟨nofun, nofun⟩
  | reactivates hw => exact he.other rfl ⟨nofun, nofun⟩
  | sends hw hsends =>
      have hall {c c' : Books} (hc : Sends c c') (hk : Kept builtIn first past c)
          (hn : c.exo.nextState = .activated) :
          Kept builtIn first past c' ∧ c'.exo.nextState = .activated := by
        induction hc with
        | refl => exact ⟨hk, hn⟩
        | tail _ hsend ih => exact ih.1.send ih.2 hsend
      exact (hall hsends he hw).1

end

section

variable {first : Option (List UInt8)} {past : List Event} (api : Api X) (fs : FileSystem X)

theorem Torn.goes {w v : World (Disk X)} (h : Torn first (past ++ w.log) w.ext.file) (hgoes : Goes w v) :
    Torn first (past ++ v.log) v.ext.file := by
  obtain ⟨more, hlog⟩ := hgoes.log
  obtain hfile | ⟨cik, n, hm, hfile⟩ := hgoes.file
  · rw [hfile, ← hlog, ← List.append_assoc]
    exact h.mono
  · rintro content hcontent
    obtain rfl := Option.some.inj (hfile.symm.trans hcontent)
    exact ⟨_, List.take_prefix n _, .inr ⟨cik, List.mem_append_right past hm, rfl⟩⟩

theorem loadDeviceCik_known (first : Option (List UInt8)) (record : List Event) (exo : ExositeClass) :
    ((loadDeviceCik api exo).nextState = .activated →
      Known api.config.deviceCik first record (loadDeviceCik api exo).cik) ∧
    ((loadDeviceCik api exo).nextState = .start →
      (loadDeviceCik api exo).cik.toList.head? = some 0) := by
  unfold loadDeviceCik
  dsimp only
  split
  · rename_i hvalid
    refine ⟨fun _ => ?_, nofun⟩
    have hv := systemIsCikFormatValid_iff.mp hvalid
    have hset := set_of_valid hv
    obtain ⟨hlen, he⟩ := line_valid api.config.deviceCik_fits (hset.symm ▸ hv)
    exact ⟨_, _, hlen, hset ▸ he, List.prefix_rfl, .inl rfl⟩
  · refine ⟨nofun, fun _ => ?_⟩
    generalize strcpy _ exo.cik = cik
    have hlen : (0 :: cik.toList.drop 1).length = 41 := by
      rw [List.length_cons, List.length_drop, cik.length_toList]
    change (fill (0 :: cik.toList.drop 1)).toList.head? = some 0
    rw [toList_fill hlen]
    rfl

theorem systemGetCik_known {cik : CikBuffer} (hcik : cik.toList.head? = some 0) {e : Disk X}
    {record : List Event} (htorn : Torn first record e.file) (builtIn : List UInt8)
    (hok : (systemGetCik fs cik e).1.1 = errSuccess) (hv : ValidCik (systemGetCik fs cik e).1.2) :
    Known builtIn first record (systemGetCik fs cik e).1.2 := by
  unfold systemGetCik at hok hv ⊢
  dsimp only at hok hv ⊢
  cases hfile : e.file with
  | none =>
      rw [hfile] at hok
      exact absurd hok (show errFailure ≠ errSuccess by decide)
  | some content =>
      obtain ⟨text, htext, hsource⟩ := htorn content hfile
      rw [hfile] at hok hv
      dsimp only at hok hv ⊢
      split at hok
      · rename_i hopen
        rw [if_pos hopen] at hv ⊢
        obtain ⟨s, hlen, he, hs⟩ := fgets_valid hcik hv
        exact ⟨s, text, hlen, he, hs.trans htext, .inr hsource⟩
      · exact absurd hok (show errFailure ≠ errSuccess by decide)

theorem systemGetCik_whole {cik : CikBuffer} (hv : ValidCik cik) (buffer : CikBuffer) {e : Disk X}
    (hfile : e.file = some (cString cik.toList)) (hopen : (fs.opens e.rest).1 = true) :
    (systemGetCik fs buffer e).1 = (errSuccess, cik) := by
  have hlift : (e.lift fs.opens).1 = true := hopen
  unfold systemGetCik
  dsimp only
  rw [hfile]
  dsimp only
  rw [if_pos hlift, fgets_cString hv]

end

structure Stored (builtIn : List UInt8) (first : Option (List UInt8)) (l : Life X) : Prop where
  sound : Sound (books l.device)
  torn : Torn first l.record l.device.world.ext.file
  kept : Kept builtIn first l.past (books l.device)

/-- A loss of power leaves the beginning of something that was written. -/
def Lost (first : Option (List UInt8)) (l : Life X) : Action X → Prop
  | .act _ => True
  | .restart file .. => Torn first l.record file

section

variable {api : Api X} {fs : FileSystem X} {maker : Maker} {first : Option (List UInt8)} {l : Life X}

theorem Kept.init {past : List Event} {d d' : Device (Disk X)}
    (h : Kept api.config.deviceCik first past (books d)) (hinit : d.world.exo.nextState = .init)
    (hd : activateSm (onDisk fs api) d = some d') :
    Kept api.config.deviceCik first past (books d') := by
  have hload := loadDeviceCik_known (onDisk fs api) first (past ++ d.world.log)
    { d.world.exo with activateState := some .init }
  unfold activateSm at hd
  rw [hinit] at hd
  dsimp only at hd
  generalize loadDeviceCik (onDisk fs api) = load at hload hd
  cases hd
  exact ⟨hload.1, hload.2, h.handed⟩

theorem Kept.reads {builtIn : List UInt8} {past : List Event} {d d' : Device (Disk X)}
    (h : Kept builtIn first past (books d)) (htorn : Torn first (past ++ d.world.log) d.world.ext.file)
    (hstart : d.world.exo.nextState = .start) (hd : activateSm (onDisk fs api) d = some d') :
    Kept builtIn first past (books d') := by
  have hcik := h.start hstart
  unfold activateSm at hd
  rw [hstart] at hd
  dsimp only at hd
  generalize he : d.mapExo (fun exo => { exo with activateState := some .start }) = e at hd
  obtain ⟨hexo, hext, hlog⟩ : e.world.exo.cik = d.world.exo.cik ∧ e.world.ext = d.world.ext ∧
      e.world.log = d.world.log := he ▸ ⟨rfl, rfl, rfl⟩
  have hread := systemGetCik_known fs (hexo.symm ▸ hcik) (hext.symm ▸ htorn) builtIn
  have hsuccess := apiGetCik_success_iff (onDisk fs api) e.world
  have hbuffer := apiGetCik_cik (onDisk fs api) e.world
  obtain ⟨cik, haccount, -⟩ := apiGetCik_cases (onDisk fs api) e.world
  have hrecord : (apiGetCik (onDisk fs api) e.world).2.log = d.world.log :=
    (congrArg Account.log haccount).trans hlog
  generalize apiGetCik (onDisk fs api) e.world = c at hd hsuccess hbuffer hrecord
  cases hd
  have hhanded (next : ActivateState) : ∀ sm r, .handed sm r ∈
      past ++ (books (Device.mapExo (ExositeClass.moveTo next) { e with world := c.2 })).log →
        IsData r → Known builtIn first (past ++ c.2.log) r.request.args.cik := by
    intro sm r hm
    change .handed sm r ∈ past ++ c.2.log at hm
    rw [hrecord] at hm ⊢
    exact h.handed sm r hm
  by_cases hok : c.1 = errSuccess
  · rw [if_pos hok]
    obtain ⟨hsystem, hvalid⟩ := hsuccess.mp hok
    refine ⟨fun _ => ?_, nofun, hhanded _⟩
    show Known builtIn first (past ++ c.2.log) c.2.exo.cik
    rw [hrecord, hbuffer]
    exact hlog ▸ hread hsystem hvalid
  · rw [if_neg hok]
    exact ⟨nofun, nofun, hhanded _⟩

theorem activateSm_whole {cik : CikBuffer} (hv : ValidCik cik) {d : Device (Disk X)}
    (hfile : d.world.ext.file = some (cString cik.toList))
    (hopen : (fs.opens d.world.ext.rest).1 = true) (hstart : d.world.exo.nextState = .start) :
    (ExositeApi.step (onDisk fs api) d .activateSm).world.exo.nextState = .activated ∧
      (ExositeApi.step (onDisk fs api) d .activateSm).world.exo.cik = cik := by
  unfold ExositeApi.step activateSm
  rw [hstart]
  dsimp only
  generalize he : d.mapExo (fun exo => { exo with activateState := some .start }) = e
  have hext : e.world.ext = d.world.ext := he ▸ rfl
  have hread := systemGetCik_whole fs hv e.world.exo.cik (hext.symm ▸ hfile) (hext.symm ▸ hopen)
  have hsuccess := apiGetCik_success_iff (onDisk fs api) e.world
  have hbuffer := apiGetCik_cik (onDisk fs api) e.world
  rw [show (onDisk fs api).systemGetCik = systemGetCik fs from rfl, hread] at hsuccess hbuffer
  generalize apiGetCik (onDisk fs api) e.world = c at hsuccess hbuffer
  rw [if_pos (hsuccess.mpr ⟨rfl, hv⟩)]
  exact ⟨rfl, hbuffer⟩

theorem Stored.act {l : Life X} (h : Stored api.config.deviceCik first l) (a : ExositeApi.Action X) :
    Stored api.config.deviceCik first
      { l with device := ExositeApi.step (onDisk fs api) l.device (actionOnDisk a) } := by
  obtain ⟨hsound, htorn, hkept⟩ := h
  refine ⟨sound_step (onDisk fs api) hsound, htorn.goes (step_goes api fs l.device a), ?_⟩
  have hworks : ∀ {b b'}, Sound b → Kept api.config.deviceCik first l.past b →
      Works (onDisk fs api) True (fun _ => True) b b' → Kept api.config.deviceCik first l.past b' :=
    fun hs hk hw => hk.works hs hw
  cases a with
  | activateSm =>
      unfold actionOnDisk ExositeApi.step
      cases hd : activateSm (onDisk fs api) l.device with
      | none => exact hkept
      | some d' =>
          by_cases hinit : l.device.world.exo.nextState = .init
          · exact hkept.init hinit hd
          by_cases hstart : l.device.world.exo.nextState = .start
          · exact hkept.reads htorn hstart hd
          · exact hkept.activates hinit hstart (activateSm_activates _ hsound.tidy.keys hd)
  | task i =>
      unfold actionOnDisk
      cases hi : l.device.machines[i]? with
      | none =>
          rw [step_no_task hi]
          exact hkept
      | some item =>
          exact (task_invariant hworks hi (fun _ _ => trivial) (.inl trivial) ⟨hsound, hkept⟩).2
  | user c =>
      have hchanges := userCall_changes (onDisk fs api) l.device.world c
      obtain ⟨events, hlog, hquiet⟩ := users_quiet hchanges
      have hsame := (users_frame hchanges).1
      exact hkept.quiet hlog hquiet (.same ⟨hsame.next, hsame.cik⟩ events)
  | interfere connectingSm startTime nextState allocated messageId f =>
      exact hkept.frame rfl ⟨rfl, rfl⟩

theorem stored_start (past : List Event) {file : Option (List UInt8)} (rest : X) (globals : Globals Nat)
    (messageId : Int) (objects : Nat) (htorn : Torn first past file)
    (hhanded : ∀ sm r, .handed sm r ∈ past → IsData r →
      Known api.config.deviceCik first past r.request.args.cik) :
    Stored api.config.deviceCik first
      ⟨past, start api fs maker file rest globals messageId objects⟩ := by
  have hrecord : past ++ [] = past := List.append_nil past
  refine ⟨sound_exositeNew _ _ _ _ _ _ _ _, ?_, nofun, nofun, ?_⟩
  · show Torn first (past ++ []) file
    rw [hrecord]
    exact htorn
  · show ∀ sm r, .handed sm r ∈ past ++ [] → IsData r →
      Known api.config.deviceCik first (past ++ []) r.request.args.cik
    rw [hrecord]
    exact hhanded

theorem Stored.step {l : Life X} {a : Action X} (h : Stored api.config.deviceCik first l)
    (hlost : Lost first l a) : Stored api.config.deviceCik first (step api fs maker l a) := by
  cases a with
  | act a => exact h.act a
  | restart file rest globals messageId objects =>
      exact stored_start l.record rest globals messageId objects hlost h.kept.handed

/-- Through all restarts every CIK that a device uses has the length of one and is the beginning
of the one that is built in, of the file that it came with, or of one that the server sent: a
write that is cut off makes none. And what was written whole is used again. -/
theorem cik_from_source (api : Api X) (fs : FileSystem X) (maker : Maker)
    (first : Option (List UInt8)) (rest : X) (globals : Globals Nat) (messageId : Int) (objects : Nat)
    (acts : List (Action X)) (h : Guarded (step api fs maker) (Lost first)
      ⟨[], start api fs maker first rest globals messageId objects⟩ acts) :
    let l := run (step api fs maker) ⟨[], start api fs maker first rest globals messageId objects⟩ acts
    (l.device.world.exo.nextState = .activated →
        Known api.config.deviceCik first l.record l.device.world.exo.cik) ∧
      (∀ sm r, .handed sm r ∈ l.record → IsData r →
        Known api.config.deviceCik first l.record r.request.args.cik) ∧
      ∀ cik, ValidCik cik → l.device.world.ext.file = some (cString cik.toList) →
        (fs.opens l.device.world.ext.rest).1 = true → l.device.world.exo.nextState = .start →
          let d := ExositeApi.step (onDisk fs api) l.device .activateSm
          d.world.exo.nextState = .activated ∧ d.world.exo.cik = cik := by
  intro l
  have hfirst : Torn first [] first := fun content hc => ⟨content, List.prefix_rfl, .inl hc⟩
  have hstored : Stored api.config.deviceCik first l :=
    h.invariant (P := Stored api.config.deviceCik first) (fun l a hlost hl => hl.step hlost)
      (stored_start [] rest globals messageId objects hfirst (fun _ _ hm => absurd hm List.not_mem_nil))
  refine ⟨hstored.kept.next, hstored.kept.handed, fun cik hv hfile hopen hstart => ?_⟩
  exact activateSm_whole hv hfile hopen hstart

/-- A file system that opens every file, and writes 30 bytes. -/
def shortDisk : FileSystem Sessions.Script := ⟨fun x => (true, x), fun x => (30, x)⟩

def storedText : List UInt8 := List.replicate cikLength 97

/-- The device starts, and again with the half of its file. -/
def twoLives : List (Action Sessions.Script) :=
  [.act .activateSm, .act (.task 0),
    .restart (some (storedText.take 20)) ⟨[], [], [], []⟩ ⟨none, 0, .reset, 0⟩ 6 0, .act .activateSm]

theorem cik_from_source_two :
    let api : Api Sessions.Script := scriptApi (fun _ payload _ _ _ => (errSuccess, payload)) (fun _ => false)
    let l := run (step api shortDisk ⟨.http, [], [], []⟩)
      ⟨[], start api shortDisk ⟨.http, [], [], []⟩ (some storedText) ⟨[], [], [], []⟩
        ⟨none, 0, .reset, 0⟩ 6 0⟩ twoLives
    (l.device.world.exo.nextState = .activated →
        Known api.config.deviceCik (some storedText) l.record l.device.world.exo.cik) ∧
      (∀ sm r, .handed sm r ∈ l.record → IsData r →
        Known api.config.deviceCik (some storedText) l.record r.request.args.cik) ∧
      ∀ cik, ValidCik cik → l.device.world.ext.file = some (cString cik.toList) →
        (shortDisk.opens l.device.world.ext.rest).1 = true → l.device.world.exo.nextState = .start →
          let d := ExositeApi.step (onDisk shortDisk api) l.device .activateSm
          d.world.exo.nextState = .activated ∧ d.world.exo.cik = cik := by
  intro api
  have h := cik_from_source api shortDisk ⟨.http, [], [], []⟩ (some storedText) ⟨[], [], [], []⟩
    ⟨none, 0, .reset, 0⟩ 6 0 twoLives
  apply h
  have htorn (l : Life Sessions.Script) : Torn (some storedText) l.record (some (storedText.take 20)) := by
    rintro content hc
    obtain rfl := Option.some.inj hc
    exact ⟨storedText, List.take_prefix 20 _, .inl rfl⟩
  exact ⟨trivial, trivial, htorn _, trivial, trivial⟩

end

end ErSdk.CikStore
