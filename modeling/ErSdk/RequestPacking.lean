import Mathlib.Data.List.Forall2
import ErSdk.CStrings
import ErSdk.Regions
import ErSdk.ExositeApi

namespace ErSdk.RequestPacking

open CStrings Regions
open RequestArgs (AppType Method Callback CikBuffer strncpy)

abbrev Memory := List UInt8

/-- `struct exo_request_args`, with the addresses that its pointers hold. -/
structure ExoRequestArgs where
  appType : AppType
  serverApi : Option Nat
  callback : Callback
  subscribeUsrCallback : Option Nat
  method : Method
  messageId : Int
  clbParams : Option Nat
  exo : Option Nat
  cik : CikBuffer
  aliasName : Option Nat
  value : Option Nat
  content : Option Nat
  timeout : Option Nat
  timestamp : Option Nat
  vendor : Option Nat
  model : Option Nat
  sn : Option Nat
  id : Option Nat
  deriving DecidableEq, Repr

def ExoRequestArgs.strings (args : ExoRequestArgs) : List (Option Nat) :=
  [args.aliasName, args.value, args.content, args.timeout, args.timestamp, args.vendor, args.model,
    args.sn, args.id]

def argSize (mem : Memory) : Option Nat → Option Nat
  | none => some 0
  | some arg => (cStringAt mem arg).map (fun text => text.length + 1)

def requestBuffSize (structSize : Nat) (mem : Memory) (args : ExoRequestArgs) : Option Nat := do
  let size := structSize
  let size := size + (← argSize mem args.aliasName)
  let size := size + (← argSize mem args.value)
  let size := size + (← argSize mem args.content)
  let size := size + (← argSize mem args.timeout)
  let size := size + (← argSize mem args.timestamp)
  let size := size + (← argSize mem args.vendor)
  let size := size + (← argSize mem args.model)
  let size := size + (← argSize mem args.sn)
  let size := size + (← argSize mem args.id)
  return size

/-- ARG_CPY of a string that is there, and the pointer to the copy. -/
def argCpy (mem : Memory) (argBuffer : Nat) : Option Nat → Option (Option Nat × Memory)
  | none => some (none, mem)
  | some arg => do
      let text ← cStringAt mem arg
      let mem ← writeAt mem argBuffer (text ++ [0])
      return (some argBuffer, mem)

def advance (mem : Memory) (argBuffer : Nat) : Option Nat → Option Nat
  | none => some argBuffer
  | some copy => (cStringAt mem copy).map (fun text => argBuffer + (text.length + 1))

def packArg (mem : Memory) (argBuffer : Nat) (arg : Option Nat) :
    Option (Option Nat × Nat × Memory) := do
  let (copy, mem) ← argCpy mem argBuffer arg
  let argBuffer ← advance mem argBuffer copy
  return (copy, argBuffer, mem)

/-- The copy of a request, the memory, and the next message id; `none` for an access outside of the
memory. The allocator gives an error code or the address of the block. -/
def exoRequestArgsNew (structSize : Nat) (alloc : Nat → Except Int Nat) (args : ExoRequestArgs)
    (mem : Memory) (gmessageId : Int) : Option (Except Int ExoRequestArgs × Memory × Int) := do
  let size ← requestBuffSize structSize mem args
  match alloc size with
  | .error e => return (.error e, mem, gmessageId)
  | .ok newRequest =>
      let mem ← writeAt mem newRequest (List.replicate size 0)
      let argBuffer := newRequest + structSize
      let (messageId, gmessageId) :=
        match args.appType with
        | .http => (1, gmessageId)
        | _ => (gmessageId, gmessageId + 1)
      let (aliasName, argBuffer, mem) ← packArg mem argBuffer args.aliasName
      let (value, argBuffer, mem) ← packArg mem argBuffer args.value
      let (content, argBuffer, mem) ← packArg mem argBuffer args.content
      let (timeout, argBuffer, mem) ← packArg mem argBuffer args.timeout
      let (timestamp, argBuffer, mem) ← packArg mem argBuffer args.timestamp
      let (vendor, argBuffer, mem) ← packArg mem argBuffer args.vendor
      let (model, argBuffer, mem) ← packArg mem argBuffer args.model
      let (sn, argBuffer, mem) ← packArg mem argBuffer args.sn
      let (id, mem) ← argCpy mem argBuffer args.id
      return (.ok { appType := args.appType
                    serverApi := none
                    callback := args.callback
                    subscribeUsrCallback := args.subscribeUsrCallback
                    method := args.method
                    messageId
                    clbParams := args.clbParams
                    exo := args.exo
                    cik := strncpy args.cik
                    aliasName, value, content, timeout, timestamp, vendor, model, sn, id },
        mem, gmessageId)

/-- NULL for a string that is absent, or the address of the text. -/
abbrev Reads (mem : Memory) : Option Nat → Option (List UInt8) → Prop :=
  Option.Rel (fun place text => cStringAt mem place = some text)

def textSize (text : Option (List UInt8)) : Nat := text.elim 0 (fun text => text.length + 1)

def totalSize (texts : List (Option (List UInt8))) : Nat := (texts.map textSize).sum

theorem totalSize_cons (text : Option (List UInt8)) (texts : List (Option (List UInt8))) :
    totalSize (text :: texts) = textSize text + totalSize texts := List.sum_cons

def area (mem : Memory) (arg : Option Nat) : Option Region :=
  arg.bind (fun place => (cStringAt mem place).map (fun text => ⟨place, text.length + 1⟩))

def areas (mem : Memory) (args : List (Option Nat)) : List Region := args.filterMap (area mem)

theorem argSize_reads {mem : Memory} {arg : Option Nat} {text : Option (List UInt8)}
    (h : Reads mem arg text) : argSize mem arg = some (textSize text) := by
  cases h with
  | none => rfl
  | some h =>
      unfold argSize
      dsimp only
      rw [h]
      rfl

def copiesAt : Nat → List (Option (List UInt8)) → List (Option Nat)
  | _, [] => []
  | argBuffer, text :: texts =>
      text.map (fun _ => argBuffer) :: copiesAt (argBuffer + textSize text) texts

def SameOutside (mem mem' : Memory) (r : Region) : Prop :=
  mem'.length = mem.length ∧ ∀ i, i < r.start ∨ r.stop ≤ i → mem'[i]? = mem[i]?

theorem writeAt_sameOutside {mem mem' : Memory} {place : Nat} {src : List UInt8}
    (h : writeAt mem place src = some mem') : SameOutside mem mem' ⟨place, src.length⟩ := by
  refine ⟨(length_writeAt h).2, fun i hi => ?_⟩
  unfold Region.stop at hi
  dsimp only at hi
  rw [getElem?_writeAt h, if_neg (by omega)]

theorem SameOutside.trans {mem mem₁ mem' : Memory} {r s outer : Region}
    (h : SameOutside mem mem₁ r) (h' : SameOutside mem₁ mem' s) (hr : r.Inside outer)
    (hs : s.Inside outer) : SameOutside mem mem' outer := by
  refine ⟨h'.1.trans h.1, fun i hi => ?_⟩
  rw [h'.2 i (hi.imp (fun hlt => hlt.trans_le hs.1) hs.2.trans),
    h.2 i (hi.imp (fun hlt => hlt.trans_le hr.1) hr.2.trans)]

theorem SameOutside.reads {mem mem' : Memory} {r : Region} (h : SameOutside mem mem' r)
    {arg : Option Nat} {text : Option (List UInt8)} (hreads : Reads mem arg text)
    (hapart : ∀ a ∈ area mem arg, a.Apart r) : Reads mem' arg text := by
  cases hreads with
  | none => exact .none
  | @some place text hread =>
      have hregion := hapart ⟨place, text.length + 1⟩ (by simp [area, hread])
      unfold Region.Apart Region.stop at hregion
      dsimp only at hregion
      refine .some (cStringAt_congr (fun i hstart hstop => h.2 i ?_) hread)
      unfold Region.stop
      omega

theorem packArg_spec {mem : Memory} {argBuffer : Nat} {arg : Option Nat}
    {text : Option (List UInt8)} (hreads : Reads mem arg text)
    (hroom : argBuffer + textSize text ≤ mem.length) : ∃ mem',
      packArg mem argBuffer arg =
        some (text.map (fun _ => argBuffer), argBuffer + textSize text, mem') ∧
      Reads mem' (text.map (fun _ => argBuffer)) text ∧
      SameOutside mem mem' ⟨argBuffer, textSize text⟩ := by
  cases hreads with
  | none => exact ⟨mem, rfl, .none, rfl, fun _ _ => rfl⟩
  | @some place text hread =>
      have hlen : (text ++ [0]).length = text.length + 1 := by simp
      have hfits : argBuffer + (text ++ [0]).length ≤ mem.length := by
        rw [hlen]
        exact hroom
      obtain ⟨mem', hwrite⟩ := writeAt_fits hfits
      have hcopy : cStringAt mem' argBuffer = some text :=
        cStringAt_writeAt (cStringAt_iff.mp hread).1 hwrite
      have hsame := writeAt_sameOutside hwrite
      rw [hlen] at hsame
      refine ⟨mem', ?_, .some hcopy, hsame⟩
      unfold packArg argCpy advance
      simp only [Option.bind_eq_bind, hread, hwrite, hcopy, Option.bind_some, Option.pure_def,
        Option.map_some]
      rfl

def packAll : Memory → Nat → List (Option Nat) → Option (List (Option Nat) × Nat × Memory)
  | mem, argBuffer, [] => some ([], argBuffer, mem)
  | mem, argBuffer, arg :: args => do
      let (copy, argBuffer, mem) ← packArg mem argBuffer arg
      let (copies, argBuffer, mem) ← packAll mem argBuffer args
      return (copy :: copies, argBuffer, mem)

theorem packAll_cons {mem mem' : Memory} {argBuffer stop : Nat} {arg : Option Nat}
    {args copies : List (Option Nat)}
    (h : packAll mem argBuffer (arg :: args) = some (copies, stop, mem')) : ∃ copy next mem₁ rest,
      packArg mem argBuffer arg = some (copy, next, mem₁) ∧
      packAll mem₁ next args = some (rest, stop, mem') ∧ copies = copy :: rest := by
  unfold packAll at h
  obtain ⟨⟨copy, next, mem₁⟩, hfirst, h⟩ := Option.bind_eq_some_iff.mp h
  obtain ⟨⟨rest, stop', mem₂⟩, hrest, h⟩ := Option.bind_eq_some_iff.mp h
  obtain ⟨rfl, hstop⟩ := Prod.mk.inj (Option.some.inj h)
  obtain ⟨rfl, rfl⟩ := Prod.mk.inj hstop
  exact ⟨copy, next, mem₁, rest, hfirst, hrest, rfl⟩

/-- The string of an argument, which lies outside of a region. -/
def Outside (mem : Memory) (r : Region) (arg : Option Nat) (text : Option (List UInt8)) : Prop :=
  Reads mem arg text ∧ ∀ a ∈ area mem arg, a.Apart r

theorem area_reads {mem mem' : Memory} {arg : Option Nat} {text : Option (List UInt8)}
    (h : Reads mem arg text) (h' : Reads mem' arg text) : area mem' arg = area mem arg := by
  cases h with
  | none => rfl
  | some h =>
      cases h' with
      | some h' => simp [area, h, h']

theorem area_copy {mem : Memory} {argBuffer : Nat} {text : Option (List UInt8)}
    (h : Reads mem (text.map (fun _ => argBuffer)) text) :
    area mem (text.map (fun _ => argBuffer)) =
      text.map (fun text => ⟨argBuffer, text.length + 1⟩) := by
  cases text with
  | none => rfl
  | some text =>
      cases h with
      | some h => simp [area, h]

theorem SameOutside.outside {mem mem' : Memory} {r s : Region} (h : SameOutside mem mem' r)
    {arg : Option Nat} {text : Option (List UInt8)} (hout : Outside mem r arg text)
    (hs : ∀ a ∈ area mem arg, a.Apart s) : Outside mem' s arg text := by
  have hreads := h.reads hout.1 hout.2
  refine ⟨hreads, ?_⟩
  rw [area_reads hout.1 hreads]
  exact hs

theorem packAll_spec {mem : Memory} {argBuffer : Nat} {args : List (Option Nat)}
    {texts : List (Option (List UInt8))}
    (h : List.Forall₂ (Outside mem ⟨argBuffer, totalSize texts⟩) args texts)
    (hroom : argBuffer + totalSize texts ≤ mem.length) : ∃ mem',
      packAll mem argBuffer args =
        some (copiesAt argBuffer texts, argBuffer + totalSize texts, mem') ∧
      List.Forall₂ (Reads mem') (copiesAt argBuffer texts) texts ∧
      SameOutside mem mem' ⟨argBuffer, totalSize texts⟩ := by
  induction texts generalizing mem argBuffer args with
  | nil =>
      cases h
      exact ⟨mem, rfl, .nil, rfl, fun _ _ => rfl⟩
  | cons text texts ih =>
      obtain ⟨arg, args, hfirst, hrest, rfl⟩ := List.forall₂_cons_right_iff.mp h
      have hinside : (Region.mk argBuffer (textSize text)).Inside ⟨argBuffer, totalSize (text :: texts)⟩ := by
        rw [totalSize_cons]
        exact ⟨Nat.le_refl _, by unfold Region.stop; dsimp only; omega⟩
      have hinside' : (Region.mk (argBuffer + textSize text) (totalSize texts)).Inside
          ⟨argBuffer, totalSize (text :: texts)⟩ := by
        rw [totalSize_cons]
        exact ⟨Nat.le_add_right _ _, by unfold Region.stop; dsimp only; omega⟩
      have htotal := totalSize_cons text texts
      obtain ⟨mem₁, hpack, hcopy, hsame₁⟩ :=
        packArg_spec hfirst.1 (show argBuffer + textSize text ≤ mem.length by omega)
      have hrest₁ := hrest.imp (fun arg text hout => hsame₁.outside
        ⟨hout.1, fun a ha => (hout.2 a ha).of_inside hinside⟩
        (fun a ha => (hout.2 a ha).of_inside hinside'))
      obtain ⟨mem', hpackAll, hcopies, hsame⟩ := ih hrest₁ (by rw [hsame₁.1]; omega)
      refine ⟨mem', ?_, .cons (hsame.reads hcopy ?_) hcopies, hsame₁.trans hsame hinside hinside'⟩
      · unfold packAll copiesAt
        simp only [Option.bind_eq_bind, hpack, hpackAll, Option.bind_some, Option.pure_def]
        rw [htotal, Nat.add_assoc]
      · rw [area_copy hcopy]
        cases text with
        | none => exact nofun
        | some text =>
            intro a ha
            obtain rfl := Option.some.inj ha
            exact .inl (Nat.le_refl _)

def sizes (texts : List (Option (List UInt8))) : List Nat :=
  texts.filterMap (Option.map (fun text => text.length + 1))

theorem sum_sizes (texts : List (Option (List UInt8))) : (sizes texts).sum = totalSize texts := by
  induction texts with
  | nil => rfl
  | cons text texts ih =>
      rw [totalSize_cons, ← ih]
      cases text with
      | none => exact (Nat.zero_add _).symm
      | some text => rfl

theorem areas_copiesAt {mem : Memory} {argBuffer : Nat} {texts : List (Option (List UInt8))}
    (h : List.Forall₂ (Reads mem) (copiesAt argBuffer texts) texts) :
    areas mem (copiesAt argBuffer texts) = consecutive argBuffer (sizes texts) := by
  induction texts generalizing argBuffer with
  | nil => rfl
  | cons text texts ih =>
      obtain ⟨hcopy, hrest⟩ := List.forall₂_cons.mp h
      have hareas := ih hrest
      have hfirst := area_copy hcopy
      cases text with
      | none => exact hareas
      | some text =>
          unfold areas copiesAt
          rw [List.filterMap_cons_some hfirst]
          exact congrArg (_ :: ·) hareas

theorem packArg_copy {mem mem' : Memory} {argBuffer next : Nat} {arg copy : Option Nat}
    (h : packArg mem argBuffer arg = some (copy, next, mem')) :
    argCpy mem argBuffer arg = some (copy, mem') := by
  unfold packArg at h
  obtain ⟨⟨copy', mem₁⟩, hcopy, h⟩ := Option.bind_eq_some_iff.mp h
  obtain ⟨next', -, h⟩ := Option.bind_eq_some_iff.mp h
  obtain ⟨rfl, hnext⟩ := Prod.mk.inj (Option.some.inj h)
  obtain ⟨-, rfl⟩ := Prod.mk.inj hnext
  exact hcopy

theorem outside_of_reads {mem : Memory} {r : Region} {args : List (Option Nat)}
    {texts : List (Option (List UInt8))} (h : List.Forall₂ (Reads mem) args texts)
    (hapart : ∀ a ∈ areas mem args, a.Apart r) : List.Forall₂ (Outside mem r) args texts := by
  induction h with
  | nil => exact .nil
  | @cons arg text args texts hfirst _ ih =>
      refine .cons ⟨hfirst, fun a ha => hapart a ?_⟩ (ih (fun a ha => hapart a ?_))
      · exact List.mem_filterMap.mpr ⟨arg, List.mem_cons_self, ha⟩
      · obtain ⟨arg', harg', ha⟩ := List.mem_filterMap.mp ha
        exact List.mem_filterMap.mpr ⟨arg', List.mem_cons_of_mem _ harg', ha⟩

theorem texts_of_strings {mem : Memory} {args : List (Option Nat)}
    (h : ∀ arg ∈ args, ∃ text, Reads mem arg text) :
    ∃ texts, List.Forall₂ (Reads mem) args texts := by
  induction args with
  | nil => exact ⟨[], .nil⟩
  | cons arg args ih =>
      obtain ⟨text, hfirst⟩ := h arg List.mem_cons_self
      obtain ⟨texts, hrest⟩ := ih (fun arg harg => h arg (List.mem_cons_of_mem _ harg))
      exact ⟨text :: texts, .cons hfirst hrest⟩

theorem requestBuffSize_spec (structSize : Nat) {mem : Memory} {args : ExoRequestArgs}
    {texts : List (Option (List UInt8))} (h : List.Forall₂ (Reads mem) args.strings texts) :
    requestBuffSize structSize mem args = some (structSize + totalSize texts) := by
  obtain ⟨t₁, _, h₁, r₁, rfl⟩ := List.forall₂_cons_left_iff.mp h
  obtain ⟨t₂, _, h₂, r₂, rfl⟩ := List.forall₂_cons_left_iff.mp r₁
  obtain ⟨t₃, _, h₃, r₃, rfl⟩ := List.forall₂_cons_left_iff.mp r₂
  obtain ⟨t₄, _, h₄, r₄, rfl⟩ := List.forall₂_cons_left_iff.mp r₃
  obtain ⟨t₅, _, h₅, r₅, rfl⟩ := List.forall₂_cons_left_iff.mp r₄
  obtain ⟨t₆, _, h₆, r₆, rfl⟩ := List.forall₂_cons_left_iff.mp r₅
  obtain ⟨t₇, _, h₇, r₇, rfl⟩ := List.forall₂_cons_left_iff.mp r₆
  obtain ⟨t₈, _, h₈, r₈, rfl⟩ := List.forall₂_cons_left_iff.mp r₇
  obtain ⟨t₉, _, h₉, r₉, rfl⟩ := List.forall₂_cons_left_iff.mp r₈
  obtain rfl := List.forall₂_nil_left_iff.mp r₉
  unfold requestBuffSize
  simp only [argSize_reads h₁, argSize_reads h₂, argSize_reads h₃, argSize_reads h₄,
    argSize_reads h₅, argSize_reads h₆, argSize_reads h₇, argSize_reads h₈, argSize_reads h₉,
    Option.bind_eq_bind, Option.bind_some, Option.pure_def, totalSize, List.map_cons, List.sum_cons,
    List.map_nil, List.sum_nil, Nat.add_zero, Nat.add_assoc]

structure SameFields (args copy : ExoRequestArgs) : Prop where
  appType : copy.appType = args.appType
  callback : copy.callback = args.callback
  subscribeUsrCallback : copy.subscribeUsrCallback = args.subscribeUsrCallback
  method : copy.method = args.method
  clbParams : copy.clbParams = args.clbParams
  exo : copy.exo = args.exo

theorem exoRequestArgsNew_eq {structSize base argBuffer stop : Nat}
    {alloc : Nat → Except Int Nat} {args : ExoRequestArgs} {mem mem₀ mem' : Memory} {size : Nat}
    {copies : List (Option Nat)} (gmessageId : Int)
    (hsize : requestBuffSize structSize mem args = some size) (halloc : alloc size = .ok base)
    (hzero : writeAt mem base (List.replicate size 0) = some mem₀) (hstart : argBuffer = base + structSize)
    (hpack : packAll mem₀ argBuffer args.strings = some (copies, stop, mem')) : ∃ copy next,
      exoRequestArgsNew structSize alloc args mem gmessageId = some (.ok copy, mem', next) ∧
      copy.strings = copies ∧ SameFields args copy ∧ copy.cik = strncpy args.cik := by
  subst hstart
  obtain ⟨c₁, b₁, m₁, q₁, p₁, r₁, e₁⟩ := packAll_cons hpack
  obtain ⟨c₂, b₂, m₂, q₂, p₂, r₂, e₂⟩ := packAll_cons r₁
  obtain ⟨c₃, b₃, m₃, q₃, p₃, r₃, e₃⟩ := packAll_cons r₂
  obtain ⟨c₄, b₄, m₄, q₄, p₄, r₄, e₄⟩ := packAll_cons r₃
  obtain ⟨c₅, b₅, m₅, q₅, p₅, r₅, e₅⟩ := packAll_cons r₄
  obtain ⟨c₆, b₆, m₆, q₆, p₆, r₆, e₆⟩ := packAll_cons r₅
  obtain ⟨c₇, b₇, m₇, q₇, p₇, r₇, e₇⟩ := packAll_cons r₆
  obtain ⟨c₈, b₈, m₈, q₈, p₈, r₈, e₈⟩ := packAll_cons r₇
  obtain ⟨c₉, b₉, m₉, q₉, p₉, r₉, e₉⟩ := packAll_cons r₈
  obtain ⟨rfl, hlast⟩ := Prod.mk.inj (Option.some.inj r₉)
  obtain ⟨-, rfl⟩ := Prod.mk.inj hlast
  unfold exoRequestArgsNew
  rw [hsize]
  simp only [Option.bind_eq_bind, Option.bind_some, halloc, hzero, p₁, p₂, p₃, p₄, p₅, p₆, p₇, p₈,
    packArg_copy p₉, Option.pure_def]
  refine ⟨_, _, rfl, ?_, ⟨rfl, rfl, rfl, rfl, rfl, rfl⟩, rfl⟩
  rw [e₁, e₂, e₃, e₄, e₅, e₆, e₇, e₈, e₉]
  rfl

/-- The allocator gives memory that nothing of the original lies in. -/
def Fresh (mem : Memory) (args : ExoRequestArgs) (r : Region) : Prop :=
  r.stop ≤ mem.length ∧ ∀ a ∈ areas mem args.strings, a.Apart r

theorem exoRequestArgsNew_spec {structSize base : Nat} {alloc : Nat → Except Int Nat}
    {args : ExoRequestArgs} {mem : Memory} {texts : List (Option (List UInt8))} (gmessageId : Int)
    (hreads : List.Forall₂ (Reads mem) args.strings texts)
    (halloc : alloc (structSize + totalSize texts) = .ok base)
    (hfresh : Fresh mem args ⟨base, structSize + totalSize texts⟩) : ∃ copy mem' next,
      exoRequestArgsNew structSize alloc args mem gmessageId = some (.ok copy, mem', next) ∧
      copy.strings = copiesAt (base + structSize) texts ∧
      List.Forall₂ (Reads mem') copy.strings texts ∧
      SameOutside mem mem' ⟨base, structSize + totalSize texts⟩ ∧
      SameFields args copy ∧ copy.cik = strncpy args.cik := by
  obtain ⟨hroom, hapart⟩ := hfresh
  unfold Region.stop at hroom
  dsimp only at hroom
  have hsize := requestBuffSize_spec structSize hreads
  have hfits : base + (List.replicate (structSize + totalSize texts) (0 : UInt8)).length ≤
      mem.length := by
    rw [List.length_replicate]
    exact hroom
  obtain ⟨mem₀, hzero⟩ := writeAt_fits hfits
  have hsame₀ := writeAt_sameOutside hzero
  rw [List.length_replicate] at hsame₀
  have hinside : (Region.mk (base + structSize) (totalSize texts)).Inside
      ⟨base, structSize + totalSize texts⟩ :=
    ⟨Nat.le_add_right _ _, by unfold Region.stop; dsimp only; omega⟩
  have hwhole : (Region.mk base (structSize + totalSize texts)).Inside
      ⟨base, structSize + totalSize texts⟩ := ⟨Nat.le_refl _, Nat.le_refl _⟩
  have houtside := (outside_of_reads hreads hapart).imp (fun arg text hout =>
    hsame₀.outside hout (fun a ha => (hout.2 a ha).of_inside hinside))
  obtain ⟨mem', hpack, hcopies, hsame⟩ := packAll_spec houtside (by rw [hsame₀.1]; omega)
  obtain ⟨copy, next, hnew, hstrings, hfields, hcik⟩ :=
    exoRequestArgsNew_eq gmessageId hsize halloc hzero rfl hpack
  exact ⟨copy, mem', next, hnew, hstrings, hstrings ▸ hcopies,
    hsame₀.trans hsame hwhole hinside, hfields, hcik⟩

structure Copied (structSize : Nat) (block : Region) (args copy : ExoRequestArgs)
    (mem mem' : Memory) : Prop where
  fields : SameFields args copy
  /-- The strings of the copy are those of the original, which has not changed. -/
  strings : ∃ texts, List.Forall₂ (Reads mem) args.strings texts ∧
    List.Forall₂ (Reads mem') args.strings texts ∧ List.Forall₂ (Reads mem') copy.strings texts
  inside : ∀ a ∈ ⟨block.start, structSize⟩ :: areas mem' copy.strings, a.Inside block
  apart : (⟨block.start, structSize⟩ :: areas mem' copy.strings).Pairwise Region.Apart
  used : ∀ place, block.start ≤ place → place < block.stop →
    ∃ a ∈ ⟨block.start, structSize⟩ :: areas mem' copy.strings, a.start ≤ place ∧ place < a.stop
  unshared : ∀ a ∈ areas mem' copy.strings, ∀ b ∈ areas mem args.strings, b.Apart a

/-- The request that exo_request_args_new returns is a copy that fills its block. -/
theorem request_copied {structSize : Nat} {alloc : Nat → Except Int Nat} {args : ExoRequestArgs}
    {mem : Memory} (gmessageId : Int) (hstrings : ∀ arg ∈ args.strings, ∃ text, Reads mem arg text)
    (hgranted : ∀ size, requestBuffSize structSize mem args = some size →
      ∃ base, alloc size = .ok base ∧ Fresh mem args ⟨base, size⟩) : ∃ size base copy mem' next,
      requestBuffSize structSize mem args = some size ∧ alloc size = .ok base ∧
      exoRequestArgsNew structSize alloc args mem gmessageId = some (.ok copy, mem', next) ∧
      Copied structSize ⟨base, size⟩ args copy mem mem' := by
  obtain ⟨texts, hreads⟩ := texts_of_strings hstrings
  have hsize := requestBuffSize_spec structSize hreads
  obtain ⟨base, halloc, hfresh⟩ := hgranted _ hsize
  obtain ⟨copy, mem', next, hnew, hcopies, hreads', hsame, hfields, -⟩ :=
    exoRequestArgsNew_spec gmessageId hreads halloc hfresh
  have hareas : ⟨base, structSize⟩ :: areas mem' copy.strings =
      consecutive base (structSize :: sizes texts) := by
    rw [hcopies] at hreads' ⊢
    exact congrArg (_ :: ·) (areas_copiesAt hreads')
  have hsum : (structSize :: sizes texts).sum = structSize + totalSize texts := by
    rw [List.sum_cons, sum_sizes]
  refine ⟨_, base, copy, mem', next, hsize, halloc, hnew,
    ⟨hfields, ⟨texts, hreads, ?_, hreads'⟩, ?_, ?_, ?_, ?_⟩⟩
  · exact (outside_of_reads hreads hfresh.2).imp (fun arg text hout => hsame.reads hout.1 hout.2)
  · rw [hareas, ← hsum]
    exact consecutive_inside
  · rw [hareas]
    exact consecutive_apart _ _
  · rw [hareas, ← hsum]
    exact fun place => consecutive_covers
  · intro a ha b hb
    have hin : a.Inside ⟨base, structSize + totalSize texts⟩ := by
      have hmem := List.mem_cons_of_mem ⟨base, structSize⟩ ha
      rw [hareas] at hmem
      exact hsum ▸ consecutive_inside a hmem
    exact (hfresh.2 b hb).of_inside hin

/-- An alias, and the last character of it as an id; the other strings are absent. -/
def aliasAndId : ExoRequestArgs :=
  ⟨.http, none, .user 1, none, .read, 0, some 5, some 6, RequestArgs.fill [], some 0, none, none, none,
    none, none, none, none, some 1⟩

theorem request_copied_alias : ∃ size base copy mem' next,
    requestBuffSize 8 ([97, 98, 0] ++ List.replicate 37 0) aliasAndId = some size ∧
    (fun _ => .ok 10 : Nat → Except Int Nat) size = .ok base ∧
    exoRequestArgsNew 8 (fun _ => .ok 10) aliasAndId ([97, 98, 0] ++ List.replicate 37 0) 6 =
      some (.ok copy, mem', next) ∧
    Copied 8 ⟨base, size⟩ aliasAndId copy ([97, 98, 0] ++ List.replicate 37 0) mem' := by
  refine request_copied 6 (fun arg harg => ?_) (fun size hsize => ?_)
  · cases arg with
    | none => exact ⟨none, .none⟩
    | some place =>
        rcases (show place = 0 ∨ place = 1 by simpa [aliasAndId, ExoRequestArgs.strings] using harg)
          with rfl | rfl
        · exact ⟨some [97, 98], .some (by decide)⟩
        · exact ⟨some [98], .some (by decide)⟩
  · obtain rfl : 13 = size := Option.some.inj ((by decide : requestBuffSize 8 _ aliasAndId = some 13).symm.trans hsize)
    exact ⟨10, rfl, by decide, by decide⟩

/-- The arguments as the machines see them: the strings instead of their addresses. -/
def view (mem : Memory) (args : ExoRequestArgs) : RequestArgs.ExoRequestArgs :=
  { appType := args.appType
    callback := args.callback
    subscribeUsrCallback := args.subscribeUsrCallback
    method := args.method
    messageId := args.messageId
    cik := args.cik
    aliasName := args.aliasName.bind (cStringAt mem)
    value := args.value.bind (cStringAt mem)
    timeout := args.timeout.bind (cStringAt mem)
    vendor := args.vendor.bind (cStringAt mem)
    model := args.model.bind (cStringAt mem)
    sn := args.sn.bind (cStringAt mem) }

theorem texts_reads {mem : Memory} {args : List (Option Nat)} {texts : List (Option (List UInt8))}
    (h : List.Forall₂ (Reads mem) args texts) :
    args.map (fun arg => arg.bind (cStringAt mem)) = texts := by
  induction h with
  | nil => rfl
  | @cons arg text _ _ hfirst _ ih =>
      have hread : arg.bind (cStringAt mem) = text := by
        cases hfirst with
        | none => rfl
        | some h => exact h
      rw [List.map_cons, hread, ih]

theorem view_copy {structSize base : Nat} {alloc : Nat → Except Int Nat} {args : ExoRequestArgs}
    {mem : Memory} {texts : List (Option (List UInt8))} (gmessageId : Int)
    (hreads : List.Forall₂ (Reads mem) args.strings texts)
    (halloc : alloc (structSize + totalSize texts) = .ok base)
    (hfresh : Fresh mem args ⟨base, structSize + totalSize texts⟩) : ∃ copy mem' next,
      exoRequestArgsNew structSize alloc args mem gmessageId = some (.ok copy, mem', next) ∧
      view mem' copy = ExositeApi.copyArgs (view mem args) copy.messageId := by
  obtain ⟨copy, mem', next, hnew, -, hcopies, -, hfields, hcik⟩ :=
    exoRequestArgsNew_spec gmessageId hreads halloc hfresh
  refine ⟨copy, mem', next, hnew, ?_⟩
  have hstrings := (texts_reads hcopies).trans (texts_reads hreads).symm
  simp only [ExoRequestArgs.strings, List.map_cons, List.cons.injEq] at hstrings
  obtain ⟨halias, hvalue, -, htimeout, -, hvendor, hmodel, hsn, -⟩ := hstrings
  unfold view ExositeApi.copyArgs
  rw [halias, hvalue, htimeout, hvendor, hmodel, hsn, hfields.appType, hfields.callback,
    hfields.subscribeUsrCallback, hfields.method, hcik]

end ErSdk.RequestPacking
