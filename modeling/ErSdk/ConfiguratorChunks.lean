import ErSdk.ConfiguratorPairs
import ErSdk.Runs
import Mathlib.Data.List.ReduceOption

namespace ErSdk.ConfiguratorChunks

open ConfiguratorServer ConfiguratorFields ConfiguratorPairs Strings Runs Error

variable {P A : Type}

/-- What a client's request meets: the application with a state of type `A`, the parser, what
the network answers to a send, and the text found behind a serial number that is not there. -/
structure Site (P A : Type) where
  onSet : Except Undefined WifiSettings → A → Int × A
  httpParserInit : P
  httpParserExecute : P → List UInt8 → (List Event × Nat) × P
  sendResult : Int × Nat
  stale : List UInt8

structure World (A : Type) where
  arrival : Option (List UInt8)
  app : A
  calls : List (Except Undefined WifiSettings)
  pages : List (List UInt8)

/-- The environment of the server in which every allocation succeeds. -/
def Site.env (site : Site P A) : Env P (World A) where
  serverSocket w := ((errFailure, 0), w)
  accept _ w := ((errFailure, 0), w)
  close _ w := w
  recv _ w := (match w.arrival with
    | none => (errWouldBlock, [])
    | some chunk => (errSuccess, chunk), w)
  send _ response _ w := (site.sendResult, { w with pages := w.pages ++ [response] })
  malloc w := (true, w)
  staleText w := (site.stale, w)
  onSet wifi w :=
    let r := site.onSet wifi w.app
    (r.1, { w with app := r.2, calls := w.calls ++ [wifi] })
  httpParserInit := site.httpParserInit
  httpParserExecute := site.httpParserExecute

/-- A client whose request is being received, with what is collected of a header. -/
structure Follows (client : ClientSocket P) (b : Collected) : Prop where
  status : client.status = .opened ∨ client.status = .recvInProgress
  response : client.response = none
  field : client.headerField.map StringClass.buffer = b.1
  value : client.headerValue.map StringClass.buffer = b.2
  fieldGrows : ∀ str, client.headerField = some str → str.fixedSize = false
  valueGrows : ∀ str, client.headerValue = some str → str.fixedSize = false

section

variable (site : Site P A)

theorem stringCatcn_site (str : StringClass) (h : str.fixedSize = false) (text : List UInt8)
    (w : World A) :
    ∃ str', stringCatcn site.env str text w = ((errSuccess, str'), w) ∧
      str'.buffer = str.buffer ++ text ∧ str'.fixedSize = false := by
  unfold ConfiguratorServer.stringCatcn
  have hcat : ∃ str', Strings.stringCatcn str text true = (errSuccess, str') ∧
      str'.buffer = str.buffer ++ text ∧ str'.fixedSize = false := by
    unfold Strings.stringCatcn
    rw [h]
    split
    · rename_i hlen
      rw [List.eq_nil_of_length_eq_zero hlen, List.append_nil]
      exact ⟨str, rfl, rfl, h⟩
    · rw [if_neg (by simp)]
      split
      · exact ⟨_, rfl, rfl, rfl⟩
      · exact ⟨_, rfl, rfl, rfl⟩
  obtain ⟨str', hs, hbuffer, hfixed⟩ := hcat
  refine ⟨str', ?_, hbuffer, hfixed⟩
  split
  · show (Strings.stringCatcn str text true, w) = _
    rw [hs]
  · rw [hs]

theorem appendText_site {str : Option StringClass} (h : ∀ s, str = some s → s.fixedSize = false)
    (text : List UInt8) (w : World A) :
    ∃ str', appendText site.env str text w = ((true, some str'), w) ∧
      str'.buffer = (str.map StringClass.buffer).getD [] ++ text ∧ str'.fixedSize = false := by
  cases str with
  | none =>
      obtain ⟨str', hs, hbuffer, hfixed⟩ := stringCatcn_site site ⟨[], 0 + 1 + 256, false⟩ rfl text w
      refine ⟨str', ?_, hbuffer, hfixed⟩
      have hnew : stringNew site.env [] w = (some ⟨[], 0 + 1 + 256, false⟩, w) := rfl
      unfold appendText
      simp only [hnew, hs]
      rfl
  | some str =>
      obtain ⟨str', hs, hbuffer, hfixed⟩ := stringCatcn_site site str (h str rfl) text w
      refine ⟨str', ?_, hbuffer, hfixed⟩
      unfold appendText
      simp only [hs]
      rfl

theorem stringCatAll_site (l : List (List UInt8)) (str : StringClass) (h : str.fixedSize = false)
    (w : World A) :
    ∃ str', stringCatAll site.env l str w = (some str', w) ∧ str'.buffer = str.buffer ++ l.flatten := by
  induction l generalizing str with
  | nil => exact ⟨str, rfl, by simp⟩
  | cons text l ih =>
      obtain ⟨next, hs, hbuffer, hfixed⟩ := stringCatcn_site site str h text w
      obtain ⟨str', ht, htext⟩ := ih next hfixed
      refine ⟨str', ?_, ?_⟩
      · unfold stringCatAll
        simp only [hs, if_true]
        exact ht
      · rw [htext, hbuffer, List.flatten_cons, List.append_assoc]

def serialText (sn : Block) : List UInt8 :=
  match sn with
  | .live text => text
  | _ => site.stale

def pagePayload (sn : Block) (page : PageType) : List UInt8 :=
  htmlOpener ++ (serialText site sn ++ (pageParts page).flatten)

def pageText (sn : Block) (page : PageType) : List UInt8 :=
  responseHeader (pagePayload site sn page).length ++ pagePayload site sn page

theorem setResponse_site (sn : Block) (page : PageType) (w : World A) :
    ∃ response, setResponse site.env sn page w = (some response, w) ∧
      response.buffer = pageText site sn page := by
  have hread : readBlock site.env sn w = (serialText site sn, w) := by
    cases sn with
    | null => rfl
    | live text => rfl
    | freed => rfl
  have hpayload : ∃ str, responsePayload site.env sn page w = (some str, w) ∧
      str.buffer = pagePayload site sn page := by
    obtain ⟨opened, ho, hopened⟩ := stringCatcn_site site ⟨[], 0 + 1 + 256, false⟩ rfl htmlOpener w
    have hopen : stringCatAll site.env [htmlOpener] ⟨[], 0 + 1 + 256, false⟩ w = (some opened, w) := by
      unfold stringCatAll
      simp only [ho, if_true]
      rfl
    obtain ⟨str, hs, htext⟩ := stringCatAll_site site (serialText site sn :: pageParts page)
      opened hopened.2 w
    refine ⟨str, ?_, ?_⟩
    · have hnew : stringNew site.env [] w = (some ⟨[], 0 + 1 + 256, false⟩, w) := rfl
      unfold responsePayload
      simp only [hnew, hopen, hread]
      exact hs
    · rw [htext, hopened.1, List.flatten_cons]
      rfl
  obtain ⟨str, hs, hbuffer⟩ := hpayload
  have hnew : stringNew site.env (responseHeader str.size) w =
      (some ⟨responseHeader str.size, (responseHeader str.size).length + 1 + 256, false⟩, w) := rfl
  obtain ⟨response, hr, hresponse⟩ := stringCatAll_site site [str.buffer]
    ⟨responseHeader str.size, (responseHeader str.size).length + 1 + 256, false⟩ rfl w
  refine ⟨response, ?_, ?_⟩
  · unfold setResponse
    simp only [hs, hnew]
    exact hr
  · rw [hresponse]
    unfold pageText StringClass.size
    rw [hbuffer]
    simp

theorem Follows.not_error {client : ClientSocket P} {b : Collected} (h : Follows client b) :
    client.status ≠ .httpError := by
  intro he
  obtain hs | hs := h.status
  · cases he.symm.trans hs
  · cases he.symm.trans hs

theorem Follows.pair {client : ClientSocket P} {b : Collected} (h : Follows client b) :
    clientPair client = pairOf b := by
  have hb : b = (client.headerField.map StringClass.buffer, client.headerValue.map StringClass.buffer) :=
    Prod.ext h.field.symm h.value.symm
  rw [hb]
  unfold clientPair
  cases client.headerField with
  | none => rfl
  | some field =>
      cases client.headerValue with
      | none => rfl
      | some value => rfl

theorem Follows.cleared {client : ClientSocket P} {b : Collected} (h : Follows client b) :
    Follows { client with headerField := none, headerValue := none } (none, none) :=
  ⟨h.status, h.response, rfl, rfl, nofun, nofun⟩

theorem onEvent_site {c : Ctx P (World A)} {b : Collected} (h : Follows c.client b) {e : Event}
    (he : e ≠ .messageComplete) :
    Follows (onEvent site.env c e).client (collect b e).1 ∧
      eventPairs site.env c e = (collect b e).2 ∧ (onEvent site.env c e).world = c.world ∧
      (onEvent site.env c e).client.parser = c.client.parser := by
  have hstatus := h.not_error
  cases e with
  | messageComplete => exact absurd rfl he
  | messageBegin => exact ⟨⟨.inr rfl, rfl, rfl, rfl, nofun, nofun⟩, rfl, rfl, rfl⟩
  | body text => exact ⟨h, rfl, rfl, rfl⟩
  | url text =>
      have hurl : onUrl site.env text c = { c with
          settings := processHeaderField (bytes "URL") (cString text) c.settings } := by
        unfold onUrl
        rw [if_neg hstatus]
        rfl
      refine ⟨?_, ?_, ?_, ?_⟩
      · show Follows (onUrl site.env text c).client b
        rw [hurl]
        exact h
      · exact if_neg hstatus
      · show (onUrl site.env text c).world = c.world
        rw [hurl]
      · show (onUrl site.env text c).client.parser = c.client.parser
        rw [hurl]
  | headersComplete =>
      show Follows (onHeadersComplete c).client (none, none) ∧ _ ∧
        (onHeadersComplete c).world = c.world ∧ (onHeadersComplete c).client.parser = c.client.parser
      unfold onHeadersComplete eventPairs
      rw [if_neg hstatus, if_neg hstatus]
      split
      · exact ⟨h.cleared, h.pair, rfl, rfl⟩
      · rename_i hnone
        have hempty : c.client.headerField = none ∧ c.client.headerValue = none := by
          simpa [not_or] using hnone
        have hb : b = (none, none) :=
          Prod.ext (by rw [← h.field, hempty.1]; rfl) (by rw [← h.value, hempty.2]; rfl)
        rw [hb] at h ⊢
        exact ⟨h, rfl, rfl, rfl⟩
  | headerField text =>
      let d := if c.client.headerValue.isSome then processPair c else c
      let b' : Collected := if b.2.isSome then (none, none) else (b.1, none)
      have hsome : b.2.isSome = c.client.headerValue.isSome := by
        rw [← h.value, Option.isSome_map]
      have hd : Follows d.client b' ∧ d.world = c.world ∧ d.client.parser = c.client.parser := by
        unfold d b'
        rw [hsome]
        split
        · exact ⟨h.cleared, rfl, rfl⟩
        · rename_i hnone
          have hv : b.2 = none := by
            rw [← hsome] at hnone
            simpa using hnone
          rw [← hv]
          exact ⟨h, rfl, rfl⟩
      obtain ⟨hf, hworld, hparser⟩ := hd
      obtain ⟨str, hs, hbuffer, hfixed⟩ := appendText_site site hf.fieldGrows text d.world
      have hfield : onHeaderField site.env text c = d.mapClient (fun client => { client with
          headerField := some str }) := by
        have hcall : d.call (appendText site.env d.client.headerField text) = ((true, some str), d) := by
          unfold Ctx.call
          rw [hs]
        have happend (r : (Bool × Option StringClass) × Ctx P (World A)) (hr : r = ((true, some str), d)) :
            r.2.mapClient (fun client => { client with
              headerField := r.1.2
              status := if r.1.1 then client.status else .httpError }) =
            d.mapClient (fun client => { client with headerField := some str }) := by
          rw [hr]
          rfl
        unfold onHeaderField
        rw [if_neg hstatus]
        exact happend _ hcall
      refine ⟨?_, ?_, ?_, ?_⟩
      · show Follows (onHeaderField site.env text c).client _
        have hcollect : (collect b (.headerField text)).1 = (some (b'.1.getD [] ++ text), none) := by
          unfold collect b'
          dsimp only
          split
          · rfl
          · rfl
        have hvalue : b'.2 = none := by
          unfold b'
          split
          · rfl
          · rfl
        rw [hfield, hcollect]
        refine ⟨hf.status, hf.response, ?_, hf.value.trans hvalue, fun s hs => ?_, hf.valueGrows⟩
        · show some str.buffer = some (b'.1.getD [] ++ text)
          rw [hbuffer, hf.field]
        · obtain rfl := Option.some.inj hs
          exact hfixed
      · refine (if_neg hstatus).trans ?_
        unfold collect
        dsimp only
        rw [hsome]
        split
        · exact h.pair
        · rfl
      · show (onHeaderField site.env text c).world = c.world
        rw [hfield]
        exact hworld
      · show (onHeaderField site.env text c).client.parser = c.client.parser
        rw [hfield]
        exact hparser
  | headerValue text =>
      obtain ⟨str, hs, hbuffer, hfixed⟩ := appendText_site site h.valueGrows text c.world
      have hvalue : onHeaderValue site.env text c = c.mapClient (fun client => { client with
          headerValue := some str }) := by
        unfold onHeaderValue
        rw [if_neg hstatus]
        simp only [Ctx.call, hs, if_true]
      refine ⟨?_, rfl, ?_, ?_⟩
      · show Follows (onHeaderValue site.env text c).client _
        rw [hvalue]
        refine ⟨h.status, h.response, h.field, ?_, h.fieldGrows, fun s hs => ?_⟩
        · show some str.buffer = some (b.2.getD [] ++ text)
          rw [hbuffer, h.value]
        · obtain rfl := Option.some.inj hs
          exact hfixed
      · show (onHeaderValue site.env text c).world = c.world
        rw [hvalue]
        rfl
      · show (onHeaderValue site.env text c).client.parser = c.client.parser
        rw [hvalue]
        rfl

theorem events_site {l : List Event} {c : Ctx P (World A)} {b : Collected} (h : Follows c.client b)
    (hl : Event.messageComplete ∉ l) :
    Follows (l.foldl (onEvent site.env) c).client (collectAll b l).1 ∧
      eventsPairs site.env c l = (collectAll b l).2 ∧
      (l.foldl (onEvent site.env) c).world = c.world ∧
      (l.foldl (onEvent site.env) c).client.parser = c.client.parser := by
  induction l generalizing c b with
  | nil => exact ⟨h, rfl, rfl, rfl⟩
  | cons e l ih =>
      obtain ⟨he, hl⟩ := not_or.mp (mt List.mem_cons.mpr hl)
      obtain ⟨hfollows, hpairs, hworld, hparser⟩ := onEvent_site site h (Ne.symm he)
      obtain ⟨hfollows', hpairs', hworld', hparser'⟩ := ih hfollows hl
      refine ⟨hfollows', ?_, hworld'.trans hworld, hparser'.trans hparser⟩
      unfold eventsPairs collectAll
      rw [hpairs, hpairs']

end

/-- The callback of the application, on the settings and the world alone. -/
def notify (site : Site P A) (clbSet : Bool) (s : Settings) (w : World A) :
    PageType × Settings × World A :=
  if s.cfgChanged ∧ clbSet then
    let r := site.env.onSet s.wifi w
    (if r.1 = errSuccess then .success else .error, { s with cfgChanged := false }, r.2)
  else (.main, s, w)

theorem applySettings_site (site : Site P A) (clbSet : Bool) (c : Ctx P (World A)) :
    applySettings site.env clbSet c = ((notify site clbSet c.settings c.world).1,
      ⟨c.client, (notify site clbSet c.settings c.world).2.1, (notify site clbSet c.settings c.world).2.2⟩) := by
  unfold applySettings notify
  split
  · rfl
  · rfl

def round (site : Site P A) (sn : Block) (clbSet : Bool) (c : Ctx P (World A))
    (arrival : Option (List UInt8)) : Ctx P (World A) :=
  clientTask site.env sn clbSet { c with world := { c.world with arrival } }

/-- The events that the parser reports for what arrives, and its next state. -/
def parse (site : Site P A) (parser : P) : Option (List UInt8) → List Event × P
  | none => ([], parser)
  | some chunk => ((site.httpParserExecute parser chunk).1.1, (site.httpParserExecute parser chunk).2)

def Consumed (site : Site P A) (parser : P) : Option (List UInt8) → Prop
  | none => True
  | some chunk => chunk ≠ [] ∧ (site.httpParserExecute parser chunk).1.2 = chunk.length

/-- The round before the callbacks of the parser run. -/
def heard (site : Site P A) (c : Ctx P (World A)) (arrival : Option (List UInt8)) :
    Ctx P (World A) where
  client := { c.client with parser := (parse site c.client.parser arrival).2 }
  settings := c.settings
  world := { c.world with arrival }

def roundPairs (site : Site P A) (c : Ctx P (World A)) (arrival : Option (List UInt8)) : List Pair :=
  if (c.client.status = .opened ∨ c.client.status = .recvInProgress) ∧ arrival ≠ some [] then
    eventsPairs site.env (heard site c arrival) (parse site c.client.parser arrival).1
  else []

section

variable (site : Site P A) (sn : Block) (clbSet : Bool) {c : Ctx P (World A)} {b : Collected}
  {arrival : Option (List UInt8)}

theorem receive_site (hconsumed : Consumed site c.client.parser arrival) {d : Ctx P (World A)}
    (hd : (parse site c.client.parser arrival).1.foldl (onEvent site.env) (heard site c arrival) = d)
    (hstatus : d.client.status ≠ .httpError) :
    receiveTask site.env { c with world := { c.world with arrival } } = d := by
  cases arrival with
  | none =>
      rw [← hd]
      rfl
  | some chunk =>
      obtain ⟨hne, hlength⟩ := hconsumed
      have hrecv : receiveTask site.env { c with world := { c.world with arrival := some chunk } } =
          parseChunk site.env chunk { c with world := { c.world with arrival := some chunk } } := by
        unfold receiveTask
        show (if (errSuccess : Int) = errWouldBlock then _ else if (errSuccess : Int) ≠ errSuccess then _
          else if chunk = [] then _ else _) = _
        rw [if_neg (by decide), if_neg (by decide), if_neg hne]
        rfl
      rw [hrecv]
      subst hd
      exact if_neg (not_or.mpr ⟨hstatus, not_not.mpr hlength⟩)

theorem round_goes_on (h : Follows c.client b) (hconsumed : Consumed site c.client.parser arrival)
    (hl : Event.messageComplete ∉ (parse site c.client.parser arrival).1) :
    let events := collectAll b (parse site c.client.parser arrival).1
    let n := notify site clbSet (applyPairs events.2 c.settings) { c.world with arrival }
    roundPairs site c arrival = events.2 ∧
      Follows (round site sn clbSet c arrival).client events.1 ∧
      (round site sn clbSet c arrival).client.parser = (parse site c.client.parser arrival).2 ∧
      (round site sn clbSet c arrival).settings = n.2.1 ∧
      (round site sn clbSet c arrival).world = n.2.2 := by
  intro events n
  have hheard : Follows (heard site c arrival).client b :=
    ⟨h.status, h.response, h.field, h.value, h.fieldGrows, h.valueGrows⟩
  obtain ⟨hfollows, hpairs, hworld, hparser⟩ := events_site site hheard hl
  have hsettings := events_settings site.env (heard site c arrival) (parse site c.client.parser arrival).1
  rw [hpairs] at hsettings
  generalize hd : (parse site c.client.parser arrival).1.foldl (onEvent site.env)
    (heard site c arrival) = d at hfollows hworld hparser hsettings
  have hreceive := receive_site site hconsumed hd hfollows.not_error
  have hne : arrival ≠ some [] := by
    rintro rfl
    exact hconsumed.1 rfl
  refine ⟨?_, ?_⟩
  · unfold roundPairs
    rw [if_pos ⟨h.status, hne⟩]
    exact hpairs
  · have happly : applySettings site.env clbSet d = (n.1, ⟨d.client, n.2.1, n.2.2⟩) := by
      rw [applySettings_site, hsettings, hworld]
      rfl
    have hround : round site sn clbSet c arrival = ⟨d.client, n.2.1, n.2.2⟩ := by
      unfold round clientTask
      dsimp only
      rw [if_pos h.status, hreceive, happly]
      unfold respondTask
      have hopen : d.client.status ≠ .messageRecvd ∧ d.client.status ≠ .sendInProgress := by
        obtain hs | hs := hfollows.status
        · rw [hs]
          exact ⟨by decide, by decide⟩
        · rw [hs]
          exact ⟨by decide, by decide⟩
      dsimp only
      rw [if_neg hopen.1]
      split
      · unfold sendTask
        simp only [hfollows.response]
        rw [if_neg hopen.2]
      · rfl
    rw [hround]
    exact ⟨hfollows, hparser, rfl, rfl⟩

theorem send_site {d : Ctx P (World A)} {response : StringClass}
    (h : d.client.response = some response) :
    (sendTask site.env d).settings = d.settings ∧
      (sendTask site.env d).world = { d.world with pages := d.world.pages ++ [response.buffer] } := by
  unfold sendTask
  rw [h]
  dsimp only
  split
  · exact ⟨rfl, rfl⟩
  · split
    · exact ⟨rfl, rfl⟩
    · exact ⟨rfl, rfl⟩

theorem round_completes (h : Follows c.client b)
    (hconsumed : Consumed site c.client.parser arrival) {l : List Event}
    (hparse : (parse site c.client.parser arrival).1 = l ++ [.messageComplete])
    (hl : Event.messageComplete ∉ l) :
    let events := collectAll b (parse site c.client.parser arrival).1
    let n := notify site clbSet (applyPairs events.2 c.settings) { c.world with arrival }
    roundPairs site c arrival = events.2 ∧
      (round site sn clbSet c arrival).settings = n.2.1 ∧
      (round site sn clbSet c arrival).world =
        { n.2.2 with pages := n.2.2.pages ++ [pageText site sn n.1] } := by
  intro events n
  have hheard : Follows (heard site c arrival).client b :=
    ⟨h.status, h.response, h.field, h.value, h.fieldGrows, h.valueGrows⟩
  obtain ⟨hfollows, hpairs, hworld, hparser⟩ := events_site site hheard hl
  have hevents : events.2 = (collectAll b l).2 := by
    unfold events
    rw [hparse, collectAll_append]
    exact List.append_nil _
  have hround : eventsPairs site.env (heard site c arrival) (l ++ [.messageComplete]) = events.2 := by
    rw [hevents, ← hpairs]
    clear hparse hpairs hevents hworld hparser hfollows hl hheard
    generalize heard site c arrival = d
    induction l generalizing d with
    | nil => rfl
    | cons e l ih =>
        rw [List.cons_append]
        unfold eventsPairs
        rw [ih]
  have hsettings := events_settings site.env (heard site c arrival) (l ++ [.messageComplete])
  rw [hround] at hsettings
  have hworld' : ((l ++ [Event.messageComplete]).foldl (onEvent site.env) (heard site c arrival)).world =
      { c.world with arrival } := by
    rw [List.foldl_append]
    exact hworld
  have hstatus : ((l ++ [Event.messageComplete]).foldl (onEvent site.env) (heard site c arrival)).client.status =
      .messageRecvd := by
    rw [List.foldl_append]
    rfl
  rw [← hparse] at hsettings hworld' hstatus hround
  generalize hd : (parse site c.client.parser arrival).1.foldl (onEvent site.env)
    (heard site c arrival) = d at hsettings hworld' hstatus
  have hreceive := receive_site site hconsumed hd (by rw [hstatus]; decide)
  have hne : arrival ≠ some [] := by
    rintro rfl
    exact hconsumed.1 rfl
  have happly : applySettings site.env clbSet d = (n.1, ⟨d.client, n.2.1, n.2.2⟩) := by
    rw [applySettings_site, hsettings, hworld']
    rfl
  obtain ⟨response, hset, hbuffer⟩ := setResponse_site site sn n.1 n.2.2
  have hrespond : respondTask site.env sn n.1 ⟨d.client, n.2.1, n.2.2⟩ =
      ⟨{ d.client with response := some response, sent := 0, status := .sendInProgress }, n.2.1, n.2.2⟩ := by
    unfold respondTask
    rw [if_pos hstatus]
    unfold Ctx.call
    simp only [hset]
    rfl
  have htask : round site sn clbSet c arrival = sendTask site.env
      ⟨{ d.client with response := some response, sent := 0, status := .sendInProgress }, n.2.1, n.2.2⟩ := by
    unfold round clientTask
    dsimp only
    rw [if_pos h.status, hreceive, happly]
    dsimp only
    rw [hrespond]
    exact if_pos (.inr rfl)
  obtain ⟨hs, hw⟩ := send_site site (d := ⟨{ d.client with
      response := some response, sent := 0, status := .sendInProgress }, n.2.1, n.2.2⟩) rfl
  refine ⟨?_, ?_, ?_⟩
  · unfold roundPairs
    rw [if_pos ⟨h.status, hne⟩]
    exact hround
  · rw [htask, hs]
  · rw [htask, hw, hbuffer]

end

def Hits (p : Pair) (filter : HeaderFieldFilter) : Prop :=
  p.1 = filter.headerField ∧ ∃ find, Pmatch.strFind p.2 filter.pattern false 0 10 = .ok find ∧
    find.captures.getD [] ≠ []

def Touches (p : Pair) : Prop := ∃ filter ∈ fieldsOfInterest, Hits p filter

theorem applyFilter_changed (p : Pair) (s : Settings) {filter : HeaderFieldFilter}
    (h : filter ∈ fieldsOfInterest) :
    (applyFilter p.1 p.2 s filter).cfgChanged = true ↔ s.cfgChanged = true ∨ Hits p filter := by
  have hclb (captures : List Pmatch.StringCapture) : (filter.clb p.2 captures s).cfgChanged = true ↔
      s.cfgChanged = true ∨ captures ≠ [] := by
    simp only [fieldsOfInterest, List.mem_cons, List.not_mem_nil, or_false] at h
    cases captures with
    | nil =>
        rcases h with rfl | rfl | rfl
        · exact (or_iff_left (not_not.mpr rfl)).symm
        · exact (or_iff_left (not_not.mpr rfl)).symm
        · exact (or_iff_left (not_not.mpr rfl)).symm
    | cons cap captures =>
        have hne : cap :: captures ≠ [] := List.cons_ne_nil _ _
        rcases h with rfl | rfl | rfl
        · exact iff_of_true rfl (.inr hne)
        · exact iff_of_true rfl (.inr hne)
        · exact iff_of_true rfl (.inr hne)
  unfold applyFilter Hits
  split
  · rename_i hfield
    split
    · rename_i find hfind
      rw [hclb, hfind]
      exact or_congr Iff.rfl ⟨fun hne => ⟨hfield, find, rfl, hne⟩, fun ⟨_, _, he, hne⟩ => by cases he; exact hne⟩
    · rename_i fault hfind
      rw [hfind]
      exact (or_iff_left (fun ⟨_, _, he, _⟩ => nomatch he)).symm
  · rename_i hfield
    exact (or_iff_left (fun hh => hfield hh.1)).symm

theorem applyPairs_changed (l : List Pair) (s : Settings) :
    (applyPairs l s).cfgChanged = true ↔ s.cfgChanged = true ∨ ∃ p ∈ l, Touches p := by
  have hfilters (p : Pair) (filters : List HeaderFieldFilter) (hin : ∀ f ∈ filters, f ∈ fieldsOfInterest)
      (s : Settings) : (filters.foldl (applyFilter p.1 p.2) s).cfgChanged = true ↔
        s.cfgChanged = true ∨ ∃ f ∈ filters, Hits p f := by
    induction filters generalizing s with
    | nil => simp
    | cons f filters ih =>
        rw [List.foldl_cons, ih (fun g hg => hin g (List.mem_cons_of_mem _ hg)),
          applyFilter_changed p s (hin f List.mem_cons_self)]
        simp [or_assoc]
  induction l generalizing s with
  | nil => simp [applyPairs]
  | cons p l ih =>
      have hp := hfilters p fieldsOfInterest (fun _ h => h) s
      refine (ih (processHeaderField p.1 p.2 s)).trans ?_
      rw [show (processHeaderField p.1 p.2 s).cfgChanged = true ↔ _ from hp]
      simp [Touches, or_assoc]

section

variable (site : Site P A) (clbSet : Bool) {s : Settings} {w : World A}

theorem notify_quiet (h : ¬ (s.cfgChanged = true ∧ clbSet = true)) :
    notify site clbSet s w = (.main, s, w) := if_neg h

theorem notify_calls (h : s.cfgChanged = true ∧ clbSet = true) :
    ((notify site clbSet s w).1 = .success ∨ (notify site clbSet s w).1 = .error) ∧
      (notify site clbSet s w).2.1 = { s with cfgChanged := false } ∧
      (notify site clbSet s w).2.2.calls = w.calls ++ [s.wifi] ∧
      (notify site clbSet s w).2.2.pages = w.pages := by
  have hn : notify site clbSet s w = (if (site.env.onSet s.wifi w).1 = errSuccess then .success else .error,
      { s with cfgChanged := false }, (site.env.onSet s.wifi w).2) := if_pos h
  rw [hn]
  refine ⟨?_, rfl, rfl, rfl⟩
  dsimp only
  split
  · exact .inl rfl
  · exact .inr rfl

theorem notify_arrival (arrival : Option (List UInt8)) :
    (notify site clbSet s { w with arrival }).1 = (notify site clbSet s w).1 ∧
      (notify site clbSet s { w with arrival }).2.1 = (notify site clbSet s w).2.1 ∧
      (notify site clbSet s { w with arrival }).2.2.calls = (notify site clbSet s w).2.2.calls ∧
      (notify site clbSet s { w with arrival }).2.2.pages = (notify site clbSet s w).2.2.pages := by
  unfold notify
  split
  · exact ⟨rfl, rfl, rfl, rfl⟩
  · exact ⟨rfl, rfl, rfl, rfl⟩

end

def parts (site : Site P A) : P → List (Option (List UInt8)) → List (List Event)
  | _, [] => []
  | p, arrival :: l => (parse site p arrival).1 :: parts site (parse site p arrival).2 l

def ConsumedAll (site : Site P A) : P → List (Option (List UInt8)) → Prop
  | _, [] => True
  | p, arrival :: l => Consumed site p arrival ∧ ConsumedAll site (parse site p arrival).2 l

def runPairs (site : Site P A) (sn : Block) (clbSet : Bool) :
    Ctx P (World A) → List (Option (List UInt8)) → List Pair
  | _, [] => []
  | c, arrival :: l =>
      roundPairs site c arrival ++ runPairs site sn clbSet (round site sn clbSet c arrival) l

/-- What a request comes to: the pairs passed to process_header_field, the settings, the calls
of the application's callback, and the pages given to the network. -/
structure Served where
  pairs : List Pair
  wifi : Except Undefined WifiSettings
  calls : List (Except Undefined WifiSettings)
  pages : List (List UInt8)

def served (site : Site P A) (sn : Block) (clbSet : Bool) (c : Ctx P (World A))
    (arrivals : List (Option (List UInt8))) : Served :=
  let t := run (round site sn clbSet) c arrivals
  ⟨runPairs site sn clbSet c arrivals, t.settings.wifi, t.world.calls, t.world.pages⟩

/-- A client that was just accepted. Changes that no callback took stay marked. -/
def start (site : Site P A) (socket : Nat) (clbSet : Bool) (wifi : Except Undefined WifiSettings)
    (changed : Bool) (app : A) : Ctx P (World A) where
  client := ⟨some socket, .opened, site.httpParserInit, none, none, none, 0⟩
  settings := ⟨wifi, changed && !clbSet⟩
  world := ⟨none, app, [], []⟩

/-- A request that arrives in chunks. The parser consumes it, in one chunk and in these, and
cuts its events only where two chunks meet; its end is reported last. -/
structure Delivery (site : Site P A) (request : List UInt8) (arrivals : List (Option (List UInt8)))
    (events : List Event) : Prop where
  joined : arrivals.reduceOption.flatten = request
  whole : (site.httpParserExecute site.httpParserInit request).1 = (events, request.length)
  consumed : ConsumedAll site site.httpParserInit arrivals
  splits : Splits events (parts site site.httpParserInit arrivals)
  completed : ∃ l, events = l ++ [.messageComplete] ∧ Event.messageComplete ∉ l

def earlyPairs (site : Site P A) (arrivals : List (Option (List UInt8))) : List Pair :=
  (collectAll (none, none) (parts site site.httpParserInit arrivals).dropLast.flatten).2

section

variable (site : Site P A) (sn : Block) (clbSet : Bool)

def parserAfter (p : P) (l : List (Option (List UInt8))) : P :=
  l.foldl (fun p arrival => (parse site p arrival).2) p

theorem parts_append (p : P) (l : List (Option (List UInt8))) (arrival : Option (List UInt8)) :
    parts site p (l ++ [arrival]) = parts site p l ++ [(parse site (parserAfter site p l) arrival).1] := by
  induction l generalizing p with
  | nil => rfl
  | cons a l ih =>
      rw [List.cons_append]
      unfold parts
      rw [ih]
      rfl

theorem consumed_append (p : P) (l : List (Option (List UInt8))) (arrival : Option (List UInt8))
    (h : ConsumedAll site p (l ++ [arrival])) :
    ConsumedAll site p l ∧ Consumed site (parserAfter site p l) arrival := by
  induction l generalizing p with
  | nil => exact ⟨trivial, h.1⟩
  | cons a l ih =>
      obtain ⟨h₁, h₂⟩ := ih _ h.2
      exact ⟨⟨h.1, h₁⟩, h₂⟩

theorem early_collects {c : Ctx P (World A)} {b : Collected} {l : List (Option (List UInt8))}
    (h : Follows c.client b) (hconsumed : ConsumedAll site c.client.parser l)
    (hnot : Event.messageComplete ∉ (parts site c.client.parser l).flatten) :
    runPairs site sn clbSet c l = (collectAll b (parts site c.client.parser l).flatten).2 ∧
      Follows (run (round site sn clbSet) c l).client
        (collectAll b (parts site c.client.parser l).flatten).1 ∧
      (run (round site sn clbSet) c l).client.parser = parserAfter site c.client.parser l := by
  induction l generalizing c b with
  | nil => exact ⟨rfl, h, rfl⟩
  | cons a l ih =>
      have hmem : Event.messageComplete ∉ (parse site c.client.parser a).1 ∧
          Event.messageComplete ∉ (parts site (parse site c.client.parser a).2 l).flatten := by
        unfold parts at hnot
        rwa [List.flatten_cons, List.mem_append, not_or] at hnot
      obtain ⟨hpairs, hfollows, hparser, -⟩ := round_goes_on site sn clbSet h hconsumed.1 hmem.1
      obtain ⟨hpairs', hfollows', hparser'⟩ := ih hfollows (hparser ▸ hconsumed.2) (by rw [hparser]; exact hmem.2)
      rw [hparser] at hpairs' hfollows' hparser'
      unfold parts
      rw [List.flatten_cons, collectAll_append]
      refine ⟨?_, hfollows', hparser'⟩
      unfold runPairs
      rw [hpairs, hpairs']

theorem early_quiet {c : Ctx P (World A)} {b : Collected} {l : List (Option (List UInt8))}
    (h : Follows c.client b) (hconsumed : ConsumedAll site c.client.parser l)
    (hnot : Event.messageComplete ∉ (parts site c.client.parser l).flatten)
    (hmark : clbSet = true → c.settings.cfgChanged = false)
    (hquiet : clbSet = true → ∀ p ∈ (collectAll b (parts site c.client.parser l).flatten).2, ¬ Touches p) :
    (run (round site sn clbSet) c l).settings =
        applyPairs (collectAll b (parts site c.client.parser l).flatten).2 c.settings ∧
      ∃ arrival, (run (round site sn clbSet) c l).world = { c.world with arrival } := by
  induction l generalizing c b with
  | nil => exact ⟨rfl, c.world.arrival, rfl⟩
  | cons a l ih =>
      have hmem : Event.messageComplete ∉ (parse site c.client.parser a).1 ∧
          Event.messageComplete ∉ (parts site (parse site c.client.parser a).2 l).flatten := by
        unfold parts at hnot
        rwa [List.flatten_cons, List.mem_append, not_or] at hnot
      unfold parts at hquiet ⊢
      rw [List.flatten_cons, collectAll_append] at hquiet ⊢
      obtain ⟨-, hfollows, hparser, hsettings, hworld⟩ := round_goes_on site sn clbSet h hconsumed.1 hmem.1
      have hstill : ¬ ((applyPairs (collectAll b (parse site c.client.parser a).1).2 c.settings).cfgChanged = true ∧
          clbSet = true) := by
        rintro ⟨hchanged, hset⟩
        obtain hc | ⟨p, hp, ht⟩ := (applyPairs_changed _ _).mp hchanged
        · rw [hmark hset] at hc
          cases hc
        · exact hquiet hset p (List.mem_append_left _ hp) ht
      rw [notify_quiet site clbSet hstill] at hsettings hworld
      dsimp only at hsettings hworld
      obtain ⟨hs, arrival, hw⟩ := ih hfollows (hparser ▸ hconsumed.2) (by rw [hparser]; exact hmem.2)
        (fun hset => by
          rw [hsettings, Bool.eq_false_iff]
          exact fun hc => hstill ⟨hc, hset⟩)
        (fun hset p hp => hquiet hset p (List.mem_append_right _ (by rwa [hparser] at hp)))
      refine ⟨?_, arrival, ?_⟩
      · show (run (round site sn clbSet) (round site sn clbSet c a) l).settings = _
        rw [hs, hsettings, hparser, applyPairs_append]
      · show (run (round site sn clbSet) (round site sn clbSet c a) l).world = _
        rw [hw, hworld]

theorem early_calls {c : Ctx P (World A)} {b : Collected} {l : List (Option (List UInt8))}
    (hset : clbSet = true) (h : Follows c.client b) (hconsumed : ConsumedAll site c.client.parser l)
    (hnot : Event.messageComplete ∉ (parts site c.client.parser l).flatten)
    (hmark : c.settings.cfgChanged = false) :
    (run (round site sn clbSet) c l).settings.cfgChanged = false ∧
      (run (round site sn clbSet) c l).world.pages = c.world.pages ∧
      c.world.calls.length ≤ (run (round site sn clbSet) c l).world.calls.length ∧
      ((∃ p ∈ (collectAll b (parts site c.client.parser l).flatten).2, Touches p) →
        c.world.calls.length < (run (round site sn clbSet) c l).world.calls.length) := by
  induction l generalizing c b with
  | nil => exact ⟨hmark, rfl, Nat.le_refl _, fun ⟨_, hp, _⟩ => nomatch hp⟩
  | cons a l ih =>
      have hmem : Event.messageComplete ∉ (parse site c.client.parser a).1 ∧
          Event.messageComplete ∉ (parts site (parse site c.client.parser a).2 l).flatten := by
        unfold parts at hnot
        rwa [List.flatten_cons, List.mem_append, not_or] at hnot
      obtain ⟨-, hfollows, hparser, hsettings, hworld⟩ := round_goes_on site sn clbSet h hconsumed.1 hmem.1
      have hround : (round site sn clbSet c a).settings.cfgChanged = false ∧
          (round site sn clbSet c a).world.pages = c.world.pages ∧
          c.world.calls.length ≤ (round site sn clbSet c a).world.calls.length ∧
          ((∃ p ∈ (collectAll b (parse site c.client.parser a).1).2, Touches p) →
            c.world.calls.length < (round site sn clbSet c a).world.calls.length) := by
        rw [hsettings, hworld]
        by_cases hc : (applyPairs (collectAll b (parse site c.client.parser a).1).2 c.settings).cfgChanged = true ∧
            clbSet = true
        · obtain ⟨-, hs, hcalls, hpages⟩ := notify_calls site clbSet (w := { c.world with arrival := a }) hc
          rw [hs, hcalls, hpages]
          refine ⟨rfl, rfl, ?_, fun _ => ?_⟩
          · simp
          · simp
        · rw [notify_quiet site clbSet hc]
          refine ⟨?_, rfl, Nat.le_refl _, fun ht => absurd ⟨(applyPairs_changed _ _).mpr (.inr ht), hset⟩ hc⟩
          rw [Bool.eq_false_iff]
          exact fun hh => hc ⟨hh, hset⟩
      obtain ⟨hchanged, hpages, hle, hlt⟩ := hround
      obtain ⟨hchanged', hpages', hle', hlt'⟩ := ih hfollows (hparser ▸ hconsumed.2)
        (by rw [hparser]; exact hmem.2) hchanged
      rw [hparser] at hlt'
      refine ⟨hchanged', hpages'.trans hpages, Nat.le_trans hle hle', ?_⟩
      unfold parts
      rw [List.flatten_cons, collectAll_append]
      rintro ⟨p, hp, ht⟩
      obtain hp | hp := List.mem_append.mp hp
      · exact Nat.lt_of_lt_of_le (hlt ⟨p, hp, ht⟩) hle'
      · exact Nat.lt_of_le_of_lt hle (hlt' ⟨p, hp, ht⟩)

end

theorem splits_nonempty {l : List Event} {ps : List (List Event)} (h : Splits l ps) : l ≠ [] := by
  induction h with
  | last hl => exact hl
  | between l h ih => exact fun he => ih (List.append_eq_nil_iff.mp he).2
  | within l hcut h ih => exact fun he => nomatch (List.append_eq_nil_iff.mp he).2

theorem splits_end {l : List Event} {ps : List (List Event)} (h : Splits l ps) {l' : List Event}
    (hl : l = l' ++ [.messageComplete]) (hnot : Event.messageComplete ∉ l') :
    ∃ early last, ps = early ++ [last ++ [.messageComplete]] ∧ Event.messageComplete ∉ early.flatten ∧
      Event.messageComplete ∉ last := by
  induction h generalizing l' with
  | last h => exact ⟨[], l', by rw [hl]; rfl, nofun, hnot⟩
  | between pre h ih =>
      rename_i rest parts
      obtain ⟨r, e, hrest⟩ := List.eq_nil_or_concat rest |>.resolve_left (splits_nonempty h)
      rw [hrest, List.concat_eq_append, ← List.append_assoc] at hl
      obtain ⟨hl', he⟩ := List.append_inj' hl rfl
      obtain rfl := List.singleton_inj.mp he
      rw [← hl', List.mem_append, not_or] at hnot
      obtain ⟨early, last, hparts, hearly, hlast⟩ := ih (hrest.trans (List.concat_eq_append ..)) hnot.2
      refine ⟨pre :: early, last, by rw [hparts]; rfl, ?_, hlast⟩
      rw [List.flatten_cons, List.mem_append, not_or]
      exact ⟨hnot.1, hearly⟩
  | within pre hcut h ih =>
      rename_i e x y rest parts
      have hx : x ≠ .messageComplete ∧ y ≠ .messageComplete ∧ e ≠ .messageComplete := by
        cases hcut with
        | url x y => exact ⟨nofun, nofun, nofun⟩
        | headerField x y => exact ⟨nofun, nofun, nofun⟩
        | headerValue x y => exact ⟨nofun, nofun, nofun⟩
        | body x y => exact ⟨nofun, nofun, nofun⟩
      obtain rfl | ⟨r, z, hrest⟩ := List.eq_nil_or_concat rest
      · obtain ⟨-, he⟩ := List.append_inj' hl rfl
        exact absurd (List.singleton_inj.mp he) hx.2.2
      · rw [hrest, List.concat_eq_append, ← List.cons_append, ← List.append_assoc] at hl
        obtain ⟨hl', hz⟩ := List.append_inj' hl rfl
        obtain rfl := List.singleton_inj.mp hz
        rw [← hl', List.mem_append, List.mem_cons, not_or, not_or] at hnot
        obtain ⟨early, last, hparts, hearly, hlast⟩ := @ih (y :: r)
          (by rw [hrest, List.concat_eq_append]; rfl) (by
            rw [List.mem_cons, not_or]
            exact ⟨Ne.symm hx.2.1, hnot.2.2⟩)
        refine ⟨(pre ++ [x]) :: early, last, by rw [hparts]; rfl, ?_, hlast⟩
        rw [List.flatten_cons, List.mem_append, List.mem_append, List.mem_singleton, not_or, not_or]
        exact ⟨⟨hnot.1, Ne.symm hx.1⟩, hearly⟩

theorem append_ne {x y : List UInt8} (n : Nat) (hx : n ≤ x.length) (hy : n ≤ y.length)
    (h : x.reverse.take n ≠ y.reverse.take n) (a b : List UInt8) : a ++ x ≠ b ++ y := by
  intro he
  have htake : (a ++ x).reverse.take n = (b ++ y).reverse.take n := by rw [he]
  rw [List.reverse_append, List.reverse_append, List.take_append_of_le_length (by rwa [List.length_reverse]),
    List.take_append_of_le_length (by rwa [List.length_reverse])] at htake
  exact h htake

theorem wifiSettingForm_end : ∃ front, wifiSettingForm =
    front ++ bytes "<input type=\"submit\" value=\"Submit\"></form><hr>" := ⟨_, rfl⟩

theorem pageText_main (site : Site P A) (sn : Block) {page : PageType}
    (h : page = .success ∨ page = .error) : pageText site sn page ≠ pageText site sn .main := by
  obtain ⟨front, hform⟩ := wifiSettingForm_end
  have hmain : (pageParts .main).flatten = front ++
      (bytes "<input type=\"submit\" value=\"Submit\"></form><hr>" ++ htmlCloser) := by
    simp [pageParts, hform]
  have hsuccess : (pageParts .success).flatten = wifiSettingForm ++ (successNotification ++ htmlCloser) := by
    simp [pageParts]
  have herror : (pageParts .error).flatten = wifiSettingForm ++ (errorNotification ++ htmlCloser) := by
    simp [pageParts]
  unfold pageText pagePayload
  rcases h with rfl | rfl
  · rw [hmain, hsuccess]
    simp only [← List.append_assoc]
    rw [List.append_assoc _ successNotification, List.append_assoc _ (bytes _) htmlCloser]
    exact append_ne 16 (by decide) (by decide) (by decide) _ _
  · rw [hmain, herror]
    simp only [← List.append_assoc]
    rw [List.append_assoc _ errorNotification, List.append_assoc _ (bytes _) htmlCloser]
    exact append_ne 16 (by decide) (by decide) (by decide) _ _

section

variable (site : Site P A) (sn : Block) (clbSet : Bool)

theorem runPairs_append (c : Ctx P (World A)) (l : List (Option (List UInt8)))
    (arrival : Option (List UInt8)) :
    runPairs site sn clbSet c (l ++ [arrival]) = runPairs site sn clbSet c l ++
      roundPairs site (run (round site sn clbSet) c l) arrival := by
  induction l generalizing c with
  | nil => exact List.append_nil _
  | cons a l ih =>
      rw [List.cons_append]
      unfold runPairs
      rw [ih, List.append_assoc]
      rfl

theorem start_follows (socket : Nat) (wifi : Except Undefined WifiSettings) (changed : Bool) (app : A) :
    Follows (start site socket clbSet wifi changed app).client (none, none) :=
  ⟨.inl rfl, rfl, rfl, rfl, nofun, nofun⟩

theorem start_unmarked (socket : Nat) (wifi : Except Undefined WifiSettings) (changed : Bool) (app : A)
    (hset : clbSet = true) : (start site socket clbSet wifi changed app).settings.cfgChanged = false := by
  unfold start
  rw [hset]
  exact Bool.and_false _

theorem served_append {c : Ctx P (World A)} {b : Collected} {l : List (Option (List UInt8))}
    {arrival : Option (List UInt8)} {last : List Event}
    (h : Follows (run (round site sn clbSet) c l).client b)
    (hconsumed : Consumed site (run (round site sn clbSet) c l).client.parser arrival)
    (hparse : (parse site (run (round site sn clbSet) c l).client.parser arrival).1 =
      last ++ [.messageComplete]) (hlast : Event.messageComplete ∉ last) :
    let t := run (round site sn clbSet) c l
    let pairs := (collectAll b (last ++ [.messageComplete])).2
    let n := notify site clbSet (applyPairs pairs t.settings) t.world
    served site sn clbSet c (l ++ [arrival]) =
      ⟨runPairs site sn clbSet c l ++ pairs, n.2.1.wifi, n.2.2.calls,
        n.2.2.pages ++ [pageText site sn n.1]⟩ := by
  intro t pairs n
  obtain ⟨hpairs, hsettings, hworld⟩ := round_completes site sn clbSet h hconsumed hparse hlast
  rw [hparse] at hpairs hsettings hworld
  obtain ⟨hpage, hs, hcalls, hpages⟩ := notify_arrival site clbSet (s := applyPairs pairs t.settings)
    (w := t.world) arrival
  have hrun : run (round site sn clbSet) c (l ++ [arrival]) = round site sn clbSet t arrival := by
    rw [run_append]
    rfl
  unfold served
  rw [runPairs_append, hrun, hpairs]
  refine (Served.mk.injEq ..).mpr ⟨rfl, ?_, ?_, ?_⟩
  · rw [hsettings]
    exact congrArg Settings.wifi hs
  · rw [hworld]
    exact hcalls
  · rw [hworld]
    exact congrArg₂ (fun l page => l ++ [pageText site sn page]) hpages hpage

end

/-- A request that arrives in chunks is served as in one chunk if and only if its URL is
reported in one piece and, where the application has a callback, no pair that changes the
settings is complete before the last chunk. -/
theorem same_as_whole_iff (site : Site P A) (sn : Block) (clbSet : Bool) (socket : Nat)
    (wifi : Except Undefined WifiSettings) (changed : Bool) (app : A) {request : List UInt8}
    {arrivals : List (Option (List UInt8))} {events : List Event}
    (h : Delivery site request arrivals events) :
    served site sn clbSet (start site socket clbSet wifi changed app) arrivals =
        served site sn clbSet (start site socket clbSet wifi changed app) [some request] ↔
      urls (parts site site.httpParserInit arrivals).flatten = urls events ∧
        (clbSet = true → ∀ p ∈ earlyPairs site arrivals, ¬ Touches p) := by
  obtain ⟨l, hl, hnot⟩ := h.completed
  obtain ⟨early, last, hparts, hearly, hlast⟩ := splits_end h.splits hl hnot
  have harrivals : ∃ pre arrival, arrivals = pre ++ [arrival] := by
    obtain rfl | ⟨pre, arrival, he⟩ := List.eq_nil_or_concat arrivals
    · exact absurd hparts (by simp [parts])
    · exact ⟨pre, arrival, he.trans (List.concat_eq_append ..)⟩
  obtain ⟨pre, arrival, rfl⟩ := harrivals
  have hparts' := hparts
  rw [parts_append] at hparts'
  obtain ⟨hpre, hend⟩ := List.append_inj' hparts' rfl
  have hend := List.singleton_inj.mp hend
  obtain ⟨hconsumed, hlastConsumed⟩ := consumed_append site _ pre arrival h.consumed
  have hfollows := start_follows site clbSet socket wifi changed app
  have hmark := start_unmarked site clbSet socket wifi changed app
  generalize hc : start site socket clbSet wifi changed app = c at hfollows hmark ⊢
  have hparser : c.client.parser = site.httpParserInit := by
    rw [← hc]
    rfl
  rw [← hparser] at hpre hconsumed
  rw [← hpre] at hearly
  obtain ⟨hpairs, hf, hp⟩ := early_collects site sn clbSet hfollows hconsumed hearly
  have hrequest : request ≠ [] := by
    rintro rfl
    cases arrival with
    | none => exact absurd hend (by simp [parse])
    | some chunk =>
        have hjoined := h.joined
        rw [List.reduceOption_append, List.flatten_append] at hjoined
        have hchunk := (List.append_eq_nil_iff.mp hjoined).2
        exact hlastConsumed.1 (by simpa [List.reduceOption] using hchunk)
  have hwhole := served_append site sn clbSet (l := []) (c := c) hfollows (by
      show Consumed site c.client.parser (some request)
      rw [hparser]
      exact ⟨hrequest, congrArg Prod.snd h.whole⟩)
    (by
      show (parse site c.client.parser (some request)).1 = _
      rw [hparser]
      exact (congrArg Prod.fst h.whole).trans hl) hnot
  have hsplit := served_append site sn clbSet hf (by rw [hp, hparser]; exact hlastConsumed)
    (by rw [hp, hparser]; exact hend) hlast
  have hearlyPairs : earlyPairs site (pre ++ [arrival]) =
      (collectAll (none, none) (parts site c.client.parser pre).flatten).2 := by
    unfold earlyPairs
    rw [hparts, List.dropLast_concat, hpre]
  have hflatten : (parts site site.httpParserInit (pre ++ [arrival])).flatten =
      (parts site c.client.parser pre).flatten ++ (last ++ [Event.messageComplete]) := by
    rw [hparts, List.flatten_append, hpre]
    simp
  rw [hsplit, show [some request] = [] ++ [some request] from rfl, hwhole, hearlyPairs]
  obtain ⟨-, hlength⟩ := splits_collect h.splits (none, none)
  have hsame := fun hurls => splits_pairs h.splits hurls (none, none)
  rw [hflatten, collectAll_append, hl] at hlength hsame
  rw [hflatten, hl]
  generalize hE : (collectAll (none, none) (parts site c.client.parser pre).flatten) = E at *
  generalize hL : collectAll E.1 (last ++ [Event.messageComplete]) = L at *
  generalize hW : collectAll (none, none) (l ++ [Event.messageComplete]) = W at *
  rw [hpairs]
  have hworld : c.world.calls = [] ∧ c.world.pages = [] := by
    rw [← hc]
    exact ⟨rfl, rfl⟩
  constructor
  · intro hserved
    obtain ⟨hpairs, -, hcalls, hpages⟩ := (Served.mk.injEq ..).mp hserved
    have hpairs : E.2 ++ L.2 = W.2 := hpairs
    refine ⟨?_, fun hset p hp ht => ?_⟩
    · dsimp only at hlength
      rw [hpairs] at hlength
      omega
    · obtain ⟨hunmarked, hnopages, -, hcalled⟩ := early_calls site sn clbSet hset hfollows hconsumed
        hearly (hmark hset)
      have hcalled := hcalled ⟨p, by rw [hE]; exact hp, ht⟩
      have hwholeCall : (applyPairs W.2 c.settings).cfgChanged = true ∧ clbSet = true :=
        ⟨(applyPairs_changed _ _).mpr (.inr ⟨p, hpairs ▸ List.mem_append_left _ hp, ht⟩), hset⟩
      obtain ⟨hpage, -, hone, hnone⟩ := notify_calls site clbSet (w := c.world) hwholeCall
      have hcalls : _ = (notify site clbSet (applyPairs W.2 c.settings) c.world).2.2.calls := hcalls
      have hpages : _ = (notify site clbSet (applyPairs W.2 c.settings) c.world).2.2.pages ++
        [pageText site sn (notify site clbSet (applyPairs W.2 c.settings) c.world).1] := hpages
      rw [hone, hworld.1] at hcalls
      rw [hnone, hworld.2] at hpages
      generalize run (round site sn clbSet) c pre = t at *
      by_cases hlate : (applyPairs L.2 t.settings).cfgChanged = true ∧ clbSet = true
      · obtain ⟨-, -, hmore, -⟩ := notify_calls site clbSet (w := t.world) hlate
        rw [hmore] at hcalls
        have hlen := congrArg List.length hcalls
        simp only [List.length_append, List.length_singleton, List.length_nil] at hlen
        omega
      · rw [notify_quiet site clbSet hlate, hnopages, hworld.2] at hpages
        have hmain := List.singleton_inj.mp hpages
        exact pageText_main site sn hpage hmain.symm
  · rintro ⟨hurls, hquiet⟩
    have hpairs : W = (L.1, E.2 ++ L.2) := (hsame hurls).symm
    obtain ⟨hs, arrival', hw⟩ := early_quiet site sn clbSet hfollows hconsumed hearly hmark
      (fun hset => by rw [hE]; exact hquiet hset)
    have happly : applyPairs L.2 (run (round site sn clbSet) c pre).settings = applyPairs W.2 c.settings := by
      rw [hs, hE, hpairs, applyPairs_append]
    obtain ⟨hpage, hset, hcalls, hpages⟩ := notify_arrival site clbSet (s := applyPairs W.2 c.settings)
      (w := c.world) arrival'
    refine (Served.mk.injEq ..).mpr ⟨?_, ?_, ?_, ?_⟩
    · rw [hpairs]
      rfl
    · rw [happly, hw]
      exact congrArg Settings.wifi hset
    · rw [happly, hw]
      exact hcalls
    · rw [happly, hw]
      exact congrArg₂ (fun l page => l ++ [pageText site sn page]) hpages hpage

/-- A parser that reports what a table says of a chunk and the number of chunks before it. -/
def scripted (table : List ((Nat × List UInt8) × List Event)) : Site Nat Unit where
  onSet _ app := (errSuccess, app)
  httpParserInit := 0
  httpParserExecute p chunk :=
    match table.lookup (p, chunk) with
    | some events => ((events, chunk.length), p + 1)
    | none => (([], 0), p)
  sendResult := (errWouldBlock, 0)
  stale := []

/-- The main page, and a page whose URL sets the SSID. -/
def twoRequests : Site Nat Unit :=
  scripted [((0, bytes "GET / HTTP/1.0\r\n\r\n"),
      [.messageBegin, .url (bytes "/"), .headersComplete, .messageComplete]),
    ((0, bytes "GE"), [.messageBegin]),
    ((1, bytes "T / HTTP/1.0\r\n\r\n"), [.url (bytes "/"), .headersComplete, .messageComplete]),
    ((0, bytes "GET /network_settings?ssid=home HTTP/1.0\r\n\r\n"),
      [.messageBegin, .url (bytes "/network_settings?ssid=home"), .headersComplete, .messageComplete]),
    ((0, bytes "GET /network_settings?ssid=ho"), [.messageBegin, .url (bytes "/network_settings?ssid=ho")]),
    ((1, bytes "me HTTP/1.0\r\n\r\n"), [.url (bytes "me"), .headersComplete, .messageComplete])]

theorem main_delivery : Delivery twoRequests (bytes "GET / HTTP/1.0\r\n\r\n")
    [some (bytes "GE"), none, some (bytes "T / HTTP/1.0\r\n\r\n")]
    [.messageBegin, .url (bytes "/"), .headersComplete, .messageComplete] where
  joined := by decide
  whole := by decide
  consumed := ⟨⟨by decide, by decide⟩, trivial, ⟨by decide, by decide⟩, trivial⟩
  splits := .between [.messageBegin] (.between [] (.last (List.cons_ne_nil _ _)))
  completed := ⟨[.messageBegin, .url (bytes "/"), .headersComplete], rfl, by decide⟩

theorem same_as_whole_iff_main :
    served twoRequests (.live (bytes "1")) true
        (start twoRequests 0 true (.ok ⟨.unsecured, [], []⟩) false ())
        [some (bytes "GE"), none, some (bytes "T / HTTP/1.0\r\n\r\n")] =
      served twoRequests (.live (bytes "1")) true
        (start twoRequests 0 true (.ok ⟨.unsecured, [], []⟩) false ())
        [some (bytes "GET / HTTP/1.0\r\n\r\n")] := by
  have hearly : earlyPairs twoRequests [some (bytes "GE"), none, some (bytes "T / HTTP/1.0\r\n\r\n")] = [] := by
    decide
  refine (same_as_whole_iff twoRequests (.live (bytes "1")) true 0 (.ok ⟨.unsecured, [], []⟩) false ()
    main_delivery).mpr ⟨by decide, fun _ p hp => ?_⟩
  rw [hearly] at hp
  exact absurd hp List.not_mem_nil

/-- A URL in two chunks is passed on as two URLs. -/
theorem cut_url_passed_twice :
    Delivery twoRequests (bytes "GET /network_settings?ssid=home HTTP/1.0\r\n\r\n")
      [some (bytes "GET /network_settings?ssid=ho"), some (bytes "me HTTP/1.0\r\n\r\n")]
      [.messageBegin, .url (bytes "/network_settings?ssid=home"), .headersComplete, .messageComplete] ∧
    served twoRequests (.live (bytes "1")) true
        (start twoRequests 0 true (.ok ⟨.unsecured, [], []⟩) false ())
        [some (bytes "GET /network_settings?ssid=ho"), some (bytes "me HTTP/1.0\r\n\r\n")] ≠
      served twoRequests (.live (bytes "1")) true
        (start twoRequests 0 true (.ok ⟨.unsecured, [], []⟩) false ())
        [some (bytes "GET /network_settings?ssid=home HTTP/1.0\r\n\r\n")] := by
  refine ⟨⟨by decide, by decide, ?_, ?_, ?_⟩, fun he => ?_⟩
  · exact ⟨⟨by decide, by decide⟩, ⟨by decide, by decide⟩, trivial⟩
  · exact .within [.messageBegin] (.url (bytes "/network_settings?ssid=ho") (bytes "me"))
      (.last (List.cons_ne_nil _ _))
  · exact ⟨[.messageBegin, .url (bytes "/network_settings?ssid=home"), .headersComplete], rfl, by decide⟩
  · have hlength := congrArg (fun x : Served => x.pairs.length) he
    revert hlength
    decide +kernel

end ErSdk.ConfiguratorChunks
