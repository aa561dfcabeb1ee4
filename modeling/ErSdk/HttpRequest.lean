import ErSdk.Strings
import ErSdk.RequestArgs

namespace ErSdk.HttpRequest

open Strings RequestArgs Error

/-- A request under construction ends with an error, or it reads an argument that is NULL. -/
inductive Stop
  | error (n : Int)
  | nullPointer
  deriving DecidableEq, Repr

/-- The outcomes of the allocations still to come. -/
abbrev Supply := Nat → Bool

abbrev Build := StateT Supply (Except Stop)

def allocation : Build Bool := fun supply => .ok (supply 0, fun n => supply (n + 1))

def newString (initString : List UInt8) : Build StringClass := do
  let allocated ← allocation
  let bufferAllocated ← allocation
  match stringNew initString allocated bufferAllocated with
  | some str => pure str
  | none => throw (.error errNoMemory)

def stringCatc (str : StringClass) (str2 : List UInt8) : Build StringClass := do
  let reallocated ← allocation
  let (status, str) := stringCatcn str str2 reallocated
  if status = errSuccess then pure str else throw (.error status)

/-- string_catc of an argument, which may be NULL. -/
def catArg (str : StringClass) (arg : Option (List UInt8)) : Build StringClass :=
  match arg with
  | some str2 => stringCatc str str2
  | none => throw .nullPointer

def dataProceduresUrl : List UInt8 := bytes "/onep:v1/stack/alias"

def activateProcedureUrl : List UInt8 := bytes "/provision/activate"

def crlfStr : List UInt8 := bytes "\r\n"

inductive HttpType
  | post
  | get
  deriving DecidableEq, Repr

def appendHttpHeaderCommon (req : StringClass) : Build StringClass := do
  let req ← stringCatc req (bytes " HTTP/1.1\r\n")
  stringCatc req (bytes "Host: m2.exosite.com\r\n")

/-- PP_ACTIVATE is the only provisioning procedure. -/
def appendHttpProvisioningHeader (req : StringClass) : Build StringClass := do
  let req ← stringCatc req (bytes "POST ")
  let req ← stringCatc req activateProcedureUrl
  appendHttpHeaderCommon req

def appendHttpDataProcHeader (req : StringClass) (type : HttpType)
    (aliasName : Option (List UInt8)) : Build StringClass := do
  let req ← match type with
    | .post => stringCatc req (bytes "POST ")
    | .get => stringCatc req (bytes "GET ")
  let req ← stringCatc req dataProceduresUrl
  let req ← match type with
    | .post => pure req
    | .get => do
        -- its error is overwritten by the next call
        let reallocated ← allocation
        pure (stringCatcn req (bytes "?") reallocated).2
  let req ← catArg req aliasName
  appendHttpHeaderCommon req

def appendHttpUtilityHeader (req : StringClass) (type : HttpType) (url : List UInt8) :
    Build StringClass := do
  -- the error of the first call is overwritten by the second
  let reallocated ← allocation
  let (_, req) := stringCatcn req
    (match type with | .post => bytes "POST " | .get => bytes "GET ") reallocated
  let req ← stringCatc req url
  appendHttpHeaderCommon req

def appendCikStr (req : StringClass) (cik : List UInt8) : Build StringClass := do
  let req ← stringCatc req (bytes "X-Exosite-CIK: ")
  let req ← stringCatc req cik
  stringCatc req crlfStr

def appendAcceptStr (req : StringClass) : Build StringClass :=
  stringCatc req (bytes "Accept: application/x-www-form-urlencoded; charset=utf-8\r\n")

/-- `%lu` printed into a buffer of 16 bytes. -/
def lengthStr (n : Nat) : List UInt8 :=
  ((Nat.toDigits 10 n).map (fun c => c.toNat.toUInt8)).take 15

def appendContentStr (req content : StringClass) : Build StringClass := do
  let req ← stringCatc req
    (bytes "Content-Type: application/x-www-form-urlencoded; charset=utf-8\r\n")
  let req ← stringCatc req (bytes "Content-Length: ")
  let req ← stringCatc req (lengthStr content.size)
  let req ← stringCatc req crlfStr
  let req ← stringCatc req crlfStr
  stringCatc req content.buffer

def httpCreateWriteRequest (req : StringClass) (cik : List UInt8)
    (aliasName value : Option (List UInt8)) : Build StringClass := do
  let req ← appendHttpDataProcHeader req .post (some [])
  let req ← appendCikStr req cik
  let content ← newString []
  let content ← catArg content aliasName
  let content ← stringCatc content (bytes "=")
  let content ← catArg content value
  appendContentStr req content

def httpCreateReadRequest (req : StringClass) (cik : List UInt8) (aliasName : Option (List UInt8)) :
    Build StringClass := do
  let req ← appendHttpDataProcHeader req .get aliasName
  let req ← appendCikStr req cik
  let req ← appendAcceptStr req
  stringCatc req crlfStr

def httpCreateLongPollingRequest (req : StringClass) (cik : List UInt8)
    (aliasName timeout : Option (List UInt8)) : Build StringClass := do
  let req ← appendHttpDataProcHeader req .get aliasName
  let req ← appendCikStr req cik
  let req ← appendAcceptStr req
  let req ← stringCatc req (bytes "Request-Timeout: ")
  let req ← catArg req timeout
  let req ← stringCatc req crlfStr
  stringCatc req crlfStr

def httpCreateProvisioningRequest (req : StringClass) (vendor model sn : Option (List UInt8)) :
    Build StringClass := do
  let req ← appendHttpProvisioningHeader req
  let content ← newString (bytes "vendor=")
  let content ← catArg content vendor
  let content ← stringCatc content (bytes "&model=")
  let content ← catArg content model
  let content ← stringCatc content (bytes "&sn=")
  let content ← catArg content sn
  appendContentStr req content

def httpCreateTimestampRequest (req : StringClass) : Build StringClass := do
  let req ← appendHttpUtilityHeader req .get (bytes "/timestamp")
  let req ← appendAcceptStr req
  stringCatc req crlfStr

def httpCreateRequest (req : StringClass) (args : ExoRequestArgs) : Build StringClass :=
  let cik := cString args.cik.toList
  match args.method with
  | .write => httpCreateWriteRequest req cik args.aliasName args.value
  | .read => httpCreateReadRequest req cik args.aliasName
  | .subscribe => httpCreateLongPollingRequest req cik args.aliasName args.timeout
  | .activate => httpCreateProvisioningRequest req args.vendor args.model args.sn
  | .timestamp => httpCreateTimestampRequest req
  | .readWrite | .listContent | .downloadContent | .ip => throw (.error errNotImplemented)

def httpRequestNew (args : ExoRequestArgs) : Build StringClass := do
  let request ← newString []
  httpCreateRequest request args

section

variable {α β : Type}

/-- Whatever is allocated: if the construction ends well, its result has the property. -/
def Returns (x : Build α) (P : α → Prop) : Prop :=
  ∀ supply a supply', x supply = .ok (a, supply') → P a

theorem Returns.bind {x : Build α} {f : α → Build β} {P : α → Prop} {Q : β → Prop}
    (hx : Returns x P) (hf : ∀ a, P a → Returns (f a) Q) : Returns (x >>= f) Q := by
  intro supply b supply' h
  have hbind : (x >>= f) supply = (x supply >>= fun p => f p.1 p.2) := rfl
  rw [hbind] at h
  cases hres : x supply with
  | error e =>
      rw [hres] at h
      cases h
  | ok p =>
      obtain ⟨a, rest⟩ := p
      rw [hres] at h
      exact hf a (hx supply a rest hres) rest b supply' h

theorem Returns.mono {x : Build α} {P Q : α → Prop} (hx : Returns x P) (h : ∀ a, P a → Q a) :
    Returns x Q := fun supply a supply' heq => h a (hx supply a supply' heq)

theorem Returns.pure {P : α → Prop} {a : α} (h : P a) : Returns (Pure.pure a) P := by
  intro supply b supply' heq
  cases heq
  exact h

theorem Returns.stop {P : α → Prop} {e : Stop} : Returns (throw e) P := by
  intro supply b supply' heq
  cases heq

theorem returns_allocation : Returns allocation (fun _ => True) := fun _ _ _ _ => trivial

end

section

variable {str req : StringClass}

theorem returns_stringNew (initString : List UInt8) : Returns (newString initString)
    (fun str => str = ⟨initString, initString.length + 1 + 256, false⟩) := by
  refine .bind returns_allocation (fun allocated _ => .bind returns_allocation (fun buffer _ => ?_))
  unfold stringNew
  split
  · rename_i hnew
    rw [Option.ite_none_right_eq_some] at hnew
    obtain ⟨-, hnew⟩ := hnew
    obtain rfl := Option.some.inj hnew
    exact .pure rfl
  · exact .stop

theorem returns_newString (initString : List UInt8) :
    Returns (newString initString) (fun str => str.buffer = initString) :=
  (returns_stringNew initString).mono (fun _ h => congrArg StringClass.buffer h)

theorem returns_stringCatc (str2 : List UInt8) :
    Returns (stringCatc str str2) (fun r => r.buffer = str.buffer ++ str2) := by
  refine .bind returns_allocation (fun reallocated _ => ?_)
  cases hcat : stringCatcn str str2 reallocated with
  | mk status r =>
      by_cases hs : status = errSuccess
      · subst hs
        exact .pure (stringCatcn_success hcat)
      · dsimp only
        rw [if_neg hs]
        exact .stop

theorem returns_catArg (arg : Option (List UInt8)) :
    Returns (catArg str arg) (fun r => ∃ s, arg = some s ∧ r.buffer = str.buffer ++ s) := by
  cases arg with
  | none => exact .stop
  | some s => exact (returns_stringCatc s).mono (fun r hr => ⟨s, rfl, hr⟩)

/-- There is room for as many bytes as that without a larger buffer. -/
def Roomy (n : Nat) (str : StringClass) : Prop := str.fixedSize = false ∧ str.size + n < str.bufsize

theorem returns_newRequest : Returns (newString []) (fun str => str.buffer = [] ∧ Roomy 256 str) := by
  refine (returns_stringNew []).mono (fun str h => ?_)
  subst h
  exact ⟨rfl, rfl, by decide⟩

theorem stringCatcn_roomy {n : Nat} (h : Roomy n str) {str2 : List UInt8} (hn : str2.length ≤ n)
    (reallocated : Bool) : stringCatcn str str2 reallocated =
      (errSuccess, { str with buffer := str.buffer ++ str2 }) := by
  obtain ⟨hfixed, hroom⟩ := h
  have hgrows : ¬ grows str str2 := by
    unfold grows
    omega
  unfold stringCatcn
  split
  · rename_i hnil
    rw [List.eq_nil_of_length_eq_zero hnil, List.append_nil]
  · have hopen : ¬ str.fixedSize = true := by
      rw [hfixed]
      decide
    exact if_neg hopen

theorem returns_stringCatc_roomy {n : Nat} (h : Roomy n str) {str2 : List UInt8}
    (hn : str2.length ≤ n) : Returns (stringCatc str str2)
      (fun r => r.buffer = str.buffer ++ str2 ∧ Roomy (n - str2.length) r) := by
  refine .bind returns_allocation (fun reallocated _ => ?_)
  rw [stringCatcn_roomy h hn]
  obtain ⟨hfixed, hroom⟩ := h
  refine .pure ⟨rfl, hfixed, ?_⟩
  unfold StringClass.size at hroom ⊢
  rw [List.length_append]
  show _ < str.bufsize
  omega

def headerCommon : List UInt8 := bytes " HTTP/1.1\r\n" ++ bytes "Host: m2.exosite.com\r\n"

theorem returns_appendHttpHeaderCommon : Returns (appendHttpHeaderCommon req)
    (fun r => r.buffer = req.buffer ++ headerCommon) := by
  refine .bind (returns_stringCatc _) (fun r1 h1 => ?_)
  refine (returns_stringCatc _).mono (fun r2 h2 => ?_)
  rw [h2, h1, headerCommon, List.append_assoc]

theorem returns_appendHttpProvisioningHeader : Returns (appendHttpProvisioningHeader req)
    (fun r => r.buffer = req.buffer ++ (bytes "POST " ++ (activateProcedureUrl ++ headerCommon))) := by
  refine .bind (returns_stringCatc _) (fun r1 h1 => ?_)
  refine .bind (returns_stringCatc _) (fun r2 h2 => ?_)
  refine returns_appendHttpHeaderCommon.mono (fun r3 h3 => ?_)
  simp only [h3, h2, h1, List.append_assoc]

theorem returns_postHeader : Returns (appendHttpDataProcHeader req .post (some []))
    (fun r => r.buffer = req.buffer ++ (bytes "POST " ++ (dataProceduresUrl ++ headerCommon))) := by
  refine .bind (returns_stringCatc _) (fun r1 h1 => ?_)
  refine .bind (returns_stringCatc _) (fun r2 h2 => ?_)
  refine .bind (.pure (P := fun r => r = r2) rfl) (fun r3 h3 => ?_)
  refine .bind (returns_catArg _) (fun r4 h4 => ?_)
  obtain ⟨a, ha, h4⟩ := h4
  obtain rfl := Option.some.inj ha
  refine returns_appendHttpHeaderCommon.mono (fun r5 h5 => ?_)
  simp only [h5, h4, h3, h2, h1, List.append_assoc, List.nil_append]

theorem returns_getHeader (hreq : Roomy 256 req) (aliasName : Option (List UInt8)) :
    Returns (appendHttpDataProcHeader req .get aliasName) (fun r => ∃ a, aliasName = some a ∧
      r.buffer = req.buffer ++
        (bytes "GET " ++ (dataProceduresUrl ++ (bytes "?" ++ (a ++ headerCommon))))) := by
  refine .bind (returns_stringCatc_roomy hreq (by decide)) (fun r1 h1 => ?_)
  obtain ⟨h1, hroom1⟩ := h1
  refine .bind (returns_stringCatc_roomy hroom1 (by decide)) (fun r2 h2 => ?_)
  obtain ⟨h2, hroom2⟩ := h2
  refine .bind returns_allocation (fun reallocated _ => ?_)
  rw [stringCatcn_roomy hroom2 (by decide)]
  refine .bind (.pure (P := fun r => r.buffer = r2.buffer ++ bytes "?") rfl) (fun r3 h3 => ?_)
  refine .bind (returns_catArg _) (fun r4 h4 => ?_)
  obtain ⟨a, ha, h4⟩ := h4
  refine returns_appendHttpHeaderCommon.mono (fun r5 h5 => ⟨a, ha, ?_⟩)
  simp only [h5, h4, h3, h2, h1, List.append_assoc]

theorem returns_appendCikStr (cik : List UInt8) : Returns (appendCikStr req cik)
    (fun r => r.buffer = req.buffer ++ (bytes "X-Exosite-CIK: " ++ (cik ++ crlfStr))) := by
  refine .bind (returns_stringCatc _) (fun r1 h1 => ?_)
  refine .bind (returns_stringCatc _) (fun r2 h2 => ?_)
  refine (returns_stringCatc _).mono (fun r3 h3 => ?_)
  simp only [h3, h2, h1, List.append_assoc]

def acceptText : List UInt8 :=
  bytes "Accept: application/x-www-form-urlencoded; charset=utf-8\r\n"

theorem returns_appendAcceptStr :
    Returns (appendAcceptStr req) (fun r => r.buffer = req.buffer ++ acceptText) :=
  returns_stringCatc _

def contentText (content : List UInt8) : List UInt8 :=
  bytes "Content-Type: application/x-www-form-urlencoded; charset=utf-8\r\n" ++
    (bytes "Content-Length: " ++ (lengthStr content.length ++ (crlfStr ++ (crlfStr ++ content))))

theorem returns_appendContentStr {content : StringClass} : Returns (appendContentStr req content)
    (fun r => r.buffer = req.buffer ++ contentText content.buffer) := by
  refine .bind (returns_stringCatc _) (fun r1 h1 => ?_)
  refine .bind (returns_stringCatc _) (fun r2 h2 => ?_)
  refine .bind (returns_stringCatc _) (fun r3 h3 => ?_)
  refine .bind (returns_stringCatc _) (fun r4 h4 => ?_)
  refine .bind (returns_stringCatc _) (fun r5 h5 => ?_)
  refine (returns_stringCatc _).mono (fun r6 h6 => ?_)
  simp only [h6, h5, h4, h3, h2, h1, contentText, StringClass.size, List.append_assoc]

theorem returns_httpCreateWriteRequest (cik : List UInt8) (aliasName value : Option (List UInt8)) :
    Returns (httpCreateWriteRequest req cik aliasName value) (fun r => ∃ a v,
      aliasName = some a ∧ value = some v ∧ r.buffer = req.buffer ++
        (bytes "POST " ++ (dataProceduresUrl ++ (headerCommon ++
          (bytes "X-Exosite-CIK: " ++ (cik ++ (crlfStr ++ contentText (a ++ 61 :: v)))))))) := by
  refine .bind returns_postHeader (fun r1 h1 => ?_)
  refine .bind (returns_appendCikStr cik) (fun r2 h2 => ?_)
  refine .bind (returns_newString _) (fun c0 hc0 => ?_)
  refine .bind (returns_catArg _) (fun c1 hc1 => ?_)
  refine .bind (returns_stringCatc _) (fun c2 hc2 => ?_)
  refine .bind (returns_catArg _) (fun c3 hc3 => ?_)
  obtain ⟨a, ha, hc1⟩ := hc1
  obtain ⟨v, hv, hc3⟩ := hc3
  have hcontent : c3.buffer = a ++ 61 :: v := by
    have heq : bytes "=" = [61] := by decide
    simp [hc3, hc2, hc1, hc0, heq]
  refine returns_appendContentStr.mono (fun r3 h3 => ⟨a, v, ha, hv, ?_⟩)
  simp only [h3, h2, h1, hcontent, List.append_assoc]

theorem returns_httpCreateReadRequest (hreq : Roomy 256 req) (cik : List UInt8)
    (aliasName : Option (List UInt8)) :
    Returns (httpCreateReadRequest req cik aliasName) (fun r => ∃ a, aliasName = some a ∧
      r.buffer = req.buffer ++ (bytes "GET " ++ (dataProceduresUrl ++ (bytes "?" ++ (a ++
        (headerCommon ++ (bytes "X-Exosite-CIK: " ++ (cik ++ (crlfStr ++
          (acceptText ++ crlfStr)))))))))) := by
  refine .bind (returns_getHeader hreq aliasName) (fun r1 h1 => ?_)
  obtain ⟨a, ha, h1⟩ := h1
  refine .bind (returns_appendCikStr cik) (fun r2 h2 => ?_)
  refine .bind returns_appendAcceptStr (fun r3 h3 => ?_)
  refine (returns_stringCatc _).mono (fun r4 h4 => ⟨a, ha, ?_⟩)
  simp only [h4, h3, h2, h1, List.append_assoc]

theorem returns_httpCreateLongPollingRequest (hreq : Roomy 256 req) (cik : List UInt8)
    (aliasName timeout : Option (List UInt8)) :
    Returns (httpCreateLongPollingRequest req cik aliasName timeout) (fun r => ∃ a t,
      aliasName = some a ∧ timeout = some t ∧
      r.buffer = req.buffer ++ (bytes "GET " ++ (dataProceduresUrl ++ (bytes "?" ++ (a ++
        (headerCommon ++ (bytes "X-Exosite-CIK: " ++ (cik ++ (crlfStr ++
          (acceptText ++ (bytes "Request-Timeout: " ++ (t ++ (crlfStr ++ crlfStr)))))))))))) ) := by
  refine .bind (returns_getHeader hreq aliasName) (fun r1 h1 => ?_)
  obtain ⟨a, ha, h1⟩ := h1
  refine .bind (returns_appendCikStr cik) (fun r2 h2 => ?_)
  refine .bind returns_appendAcceptStr (fun r3 h3 => ?_)
  refine .bind (returns_stringCatc _) (fun r4 h4 => ?_)
  refine .bind (returns_catArg _) (fun r5 h5 => ?_)
  obtain ⟨t, ht, h5⟩ := h5
  refine .bind (returns_stringCatc _) (fun r6 h6 => ?_)
  refine (returns_stringCatc _).mono (fun r7 h7 => ⟨a, t, ha, ht, ?_⟩)
  simp only [h7, h6, h5, h4, h3, h2, h1, List.append_assoc]

theorem returns_httpCreateProvisioningRequest (vendor model sn : Option (List UInt8)) :
    Returns (httpCreateProvisioningRequest req vendor model sn) (fun r => ∃ v m s,
      vendor = some v ∧ model = some m ∧ sn = some s ∧ r.buffer = req.buffer ++
        (bytes "POST " ++ (activateProcedureUrl ++ (headerCommon ++ contentText
          (bytes "vendor=" ++ (v ++ (bytes "&model=" ++ (m ++ (bytes "&sn=" ++ s))))))))) := by
  refine .bind returns_appendHttpProvisioningHeader (fun r1 h1 => ?_)
  refine .bind (returns_newString _) (fun c0 hc0 => ?_)
  refine .bind (returns_catArg _) (fun c1 hc1 => ?_)
  refine .bind (returns_stringCatc _) (fun c2 hc2 => ?_)
  refine .bind (returns_catArg _) (fun c3 hc3 => ?_)
  refine .bind (returns_stringCatc _) (fun c4 hc4 => ?_)
  refine .bind (returns_catArg _) (fun c5 hc5 => ?_)
  obtain ⟨v, hv, hc1⟩ := hc1
  obtain ⟨m, hm, hc3⟩ := hc3
  obtain ⟨s, hs, hc5⟩ := hc5
  refine returns_appendContentStr.mono (fun r2 h2 => ⟨v, m, s, hv, hm, hs, ?_⟩)
  simp only [h2, h1, hc5, hc4, hc3, hc2, hc1, hc0, List.append_assoc]

end

end ErSdk.HttpRequest
