import ErSdk.Basic

namespace ErSdk.Pmatch

def luaMaxcaptures : Nat := 20

def capUnfinished : Int := -1

def capPosition : Int := -2

def lEsc : UInt8 := 37

def specials : List UInt8 := bytes "^$*+?.([%-"

/-- What ends a match abnormally: a read of the pattern past its terminator, a read of
the subject outside its bytes, an access of `capture` outside its bounds, or the call
of abort() in matchbalance. -/
inductive Fault
  | pattern
  | subject
  | capture
  | aborted
  deriving DecidableEq, Repr

/-- The position `init` is an offset into the subject. -/
structure Capture where
  init : Nat
  len : Int
  deriving DecidableEq, Repr

/-- The captures below `level`, in order. The entries of the array from `level` on are
written before they are read. -/
structure MatchState where
  capture : List Capture
  deriving DecidableEq, Repr

/-- A match returns the end of the match, or nothing, and the captures it has made. -/
abbrev Result := Except Fault (Option Nat × MatchState)

theorem bind_eq_ok {ε α β : Type} {x : Except ε α} {f : α → Except ε β} {b : β}
    (h : (x >>= f) = .ok b) : ∃ a, x = .ok a ∧ f a = .ok b := by
  cases x with
  | error e => cases h
  | ok a => exact ⟨a, rfl, h⟩

def MatchState.level (ms : MatchState) : Nat := ms.capture.length

def sizeT (n : Int) : Nat := (n % 2 ^ 64).toNat

def posrelat (pos : Int) (len : Nat) : Int :=
  let pos := if pos < 0 then pos + (len + 1) else pos
  if pos ≥ 0 then pos else 0

def checkCapture (ms : MatchState) (l : UInt8) : Option Nat :=
  let i : Int := (l.toNat : Int) - 49
  if i < 0 then none
  else match ms.capture[i.toNat]? with
    | some c => if c.len = capUnfinished then none else some i.toNat
    | none => none

def captureToClose (ms : MatchState) : Option Nat :=
  (List.range ms.level).reverse.find? (fun i =>
    match ms.capture[i]? with
    | some c => c.len = capUnfinished
    | none => false)

/-- The search for the end of a set. A pattern is the list of the bytes before its
terminator, and a position in it is what remains of that list. -/
def setEnd : List UInt8 → Except Fault (List UInt8)
  | [] => .error .pattern
  | [c] => if c = lEsc then .error .pattern else setEnd []
  | c :: x :: p =>
      if c = lEsc then
        if p.headD 0 = 93 then .ok p.tail else setEnd p
      else if x = 93 then .ok p else setEnd (x :: p)

def classend : List UInt8 → Except Fault (List UInt8)
  | [] => .error .pattern
  | c :: p =>
      if c = lEsc then
        match p with
        | [] => .error .pattern
        | _ :: p => .ok p
      else if c = 91 then
        match p with
        | [] => .error .pattern
        | x :: q => setEnd (if x = 94 then q else x :: q)
      else .ok p

def toLower (c : UInt8) : UInt8 := if isUpper c then c + 32 else c

def isCntrl (c : UInt8) : Bool := c < 32 || c = 127

def isSpace (c : UInt8) : Bool := c = 32 || (9 ≤ c && c ≤ 13)

def isPunct (c : UInt8) : Bool := 33 ≤ c && c ≤ 126 && !isAlnum c

def isXdigit (c : UInt8) : Bool :=
  isDigit c || (65 ≤ c && c ≤ 70) || (97 ≤ c && c ≤ 102)

def classOf (cl : UInt8) : Option (UInt8 → Bool) :=
  if cl = 97 then some isAlpha
  else if cl = 99 then some isCntrl
  else if cl = 100 then some isDigit
  else if cl = 108 then some isLower
  else if cl = 112 then some isPunct
  else if cl = 115 then some isSpace
  else if cl = 117 then some isUpper
  else if cl = 119 then some isAlnum
  else if cl = 120 then some isXdigit
  else if cl = 122 then some (fun c => c = 0)
  else none

def matchClass (c cl : UInt8) : Bool :=
  match classOf (toLower cl) with
  | some p => if isLower cl then p c else !p c
  | none => cl = c

/-- The loop of matchbracketclass over the bytes of a set. An escape at its end
escapes the closing bracket. -/
def inSet (c : UInt8) : List UInt8 → Bool
  | [] => false
  | [a] => if a = lEsc then matchClass c 93 else a = c
  | [a, x] =>
      if a = lEsc then matchClass c x
      else a = c || inSet c [x]
  | a :: x :: b :: p =>
      if a = lEsc then matchClass c x || inSet c (b :: p)
      else if x = 45 then (a ≤ c && c ≤ b) || inSet c p
      else a = c || inSet c (x :: b :: p)

/-- `p` starts at the opening bracket and `ep` behind the closing one. -/
def matchBracketClass (c : UInt8) (p ep : List UInt8) : Bool :=
  let set := p.tail.take (p.length - ep.length - 2)
  if p.tail.headD 0 = 94 then !inSet c set.tail else inSet c set

def singleMatch (c : UInt8) (p ep : List UInt8) : Bool :=
  match p with
  | [] => false
  | x :: q =>
      if x = 46 then true
      else if x = lEsc then matchClass c (q.headD 0)
      else if x = 91 then matchBracketClass c p ep
      else x = c

section

variable (src : List UInt8)

def readSubject (s : Nat) : Except Fault UInt8 :=
  match src[s]? with
  | some c => .ok c
  | none => .error .subject

/-- The loop of matchbalance behind the opening byte. -/
def balanced (b e : UInt8) : (cont : Nat) → (s : Nat) → List UInt8 → Option Nat
  | _, _, [] => none
  | cont, s, c :: rest =>
      if c = e then
        if cont - 1 = 0 then some (s + 1) else balanced b e (cont - 1) (s + 1) rest
      else if c = b then balanced b e (cont + 1) (s + 1) rest
      else balanced b e cont (s + 1) rest

def matchBalance (s : Nat) (p : List UInt8) : Except Fault (Option Nat) :=
  match p with
  | b :: e :: _ => do
      let c ← readSubject src s
      if c ≠ b then .ok none else .ok (balanced b e 1 (s + 1) (src.drop (s + 1)))
  | _ => .error .aborted

/-- `k` is the match of the rest of the pattern. -/
def maxExpand (k : MatchState → Nat → Result) (ms : MatchState) (s : Nat) : Nat → Result
  | 0 => k ms s
  | i + 1 => do
      let r ← k ms (s + (i + 1))
      if r.1.isSome then .ok r else maxExpand k r.2 s i

def minExpand (k : MatchState → Nat → Result) (item : UInt8 → Bool) :
    MatchState → Nat → List UInt8 → Result
  | ms, s, [] => k ms s
  | ms, s, c :: rest => do
      let r ← k ms s
      if r.1.isSome then .ok r
      else if item c then minExpand k item r.2 (s + 1) rest
      else .ok (none, r.2)

def startCapture (k : MatchState → Nat → Result) (ms : MatchState) (s : Nat) (what : Int) :
    Result :=
  if ms.level ≥ luaMaxcaptures then .error .capture
  else do
    let r ← k ⟨ms.capture ++ [⟨s, what⟩]⟩ s
    if r.1.isSome then .ok r else .ok (none, ⟨r.2.capture.dropLast⟩)

def MatchState.setLen (ms : MatchState) (l : Nat) (len : Int) : MatchState :=
  ⟨ms.capture.modify l (fun c => { c with len })⟩

def endCapture (k : MatchState → Nat → Result) (ms : MatchState) (s : Nat) : Result :=
  match captureToClose ms with
  | none => .error .capture
  | some l =>
      match ms.capture[l]? with
      | none => .error .capture
      | some c => do
          let r ← k (ms.setLen l ((s : Int) - c.init)) s
          if r.1.isSome then .ok r else .ok (none, r.2.setLen l capUnfinished)

/-- The subject is compared with a captured part of itself, by memcmp. -/
def matchCapture (ms : MatchState) (s : Nat) (l : UInt8) : Except Fault (Option Nat) :=
  match checkCapture ms l with
  | none => .error .capture
  | some i =>
      match ms.capture[i]? with
      | none => .error .capture
      | some c =>
          let len := sizeT c.len
          if sizeT ((src.length : Int) - s) ≥ len then
            if len = 0 then .ok (some s)
            else if s + len ≤ src.length ∧ c.init + len ≤ src.length then
              if (src.drop c.init).take len = (src.drop s).take len then .ok (some (s + len))
              else .ok none
            else .error .subject
          else .ok none

/-- The item of the pattern from `p` up to `ep`, with the repetition that may follow it.
`k` is the match of what remains of the pattern. -/
def matchRepeated (k : List UInt8 → MatchState → Nat → Result) (ms : MatchState) (s : Nat)
    (p ep : List UInt8) : Result :=
  let item := fun c => singleMatch c p ep
  let m : Bool := (src[s]?).any item
  let q := ep.tail
  if ep.headD 0 = 63 then do
    let r ← k q ms (s + 1)
    if m && r.1.isSome then .ok r else k q r.2 s
  else if ep.headD 0 = 42 then
    maxExpand (k q) ms s ((src.drop s).takeWhile item).length
  else if ep.headD 0 = 43 then
    if m then maxExpand (k q) ms (s + 1) ((src.drop (s + 1)).takeWhile item).length
    else .ok (none, ms)
  else if ep.headD 0 = 45 then minExpand (k q) item ms s (src.drop s)
  else if m then k ep ms (s + 1)
  else .ok (none, ms)

def matchItem (k : List UInt8 → MatchState → Nat → Result) (ms : MatchState) (s : Nat)
    (p : List UInt8) : Result := do
  let ep ← classend p
  matchRepeated src k ms s p ep

/-- The previous byte and the byte at `s` on the two sides of a frontier. -/
def atFrontier (s : Nat) (p ep : List UInt8) : Except Fault Bool := do
  let previous ← if s = 0 then .ok 0 else readSubject src (s - 1)
  if matchBracketClass previous p ep then .ok false
  else do
    let c ← readSubject src s
    .ok (matchBracketClass c p ep)

/-- The items that start with an escape, `q` being the pattern behind it. -/
def matchEscape (k : List UInt8 → MatchState → Nat → Result) (ms : MatchState) (s : Nat)
    (q : List UInt8) : Result :=
  let y := q.headD 0
  if y = 98 then do
    match ← matchBalance src s q.tail with
    | none => .ok (none, ms)
    | some s => k (q.drop 3) ms s
  else if y = 102 then do
    -- for a sole escape classend points behind the terminator, and nothing is read there
    let ep ← if q.tail = [lEsc] then .ok [] else classend q.tail
    if ← atFrontier src s q.tail ep then k ep ms s else .ok (none, ms)
  else if isDigit y then do
    match ← matchCapture src ms s y with
    | none => .ok (none, ms)
    | some s => k q.tail ms s
  else matchItem src k ms s (lEsc :: q)

/-- The function match. Each of its calls works on a shorter rest of the pattern, so
that fuel above the length of the pattern is never used up. -/
def matchPattern : Nat → List UInt8 → MatchState → Nat → Result
  | 0, _, _, _ => .error .pattern
  | _ + 1, [], ms, s => .ok (some s, ms)
  | fuel + 1, x :: q, ms, s =>
      if x = 40 then
        if q.headD 0 = 41 then startCapture (matchPattern fuel q.tail) ms s capPosition
        else startCapture (matchPattern fuel q) ms s capUnfinished
      else if x = 41 then endCapture (matchPattern fuel q) ms s
      else if x = lEsc then matchEscape src (matchPattern fuel) ms s q
      else if x = 36 ∧ q = [] then
        if s = src.length then .ok (some s, ms) else .ok (none, ms)
      else matchItem src (matchPattern fuel) ms s (x :: q)

/-- `capture[i].len` is a size_t. -/
structure StringCapture where
  init : Nat
  len : Nat
  deriving DecidableEq, Repr

def pushStringCaptures (ms : MatchState) (len : Nat) : List StringCapture :=
  (ms.capture.take len).map (fun c => ⟨c.init, sizeT c.len⟩)

/-- The result of str_find: whether there is a match, and the captures of one found by
pattern matching; `captures` is `none` where the out parameters are not written. -/
structure Find where
  found : Bool
  captures : Option (List StringCapture)
  deriving DecidableEq, Repr

def report (r : Option MatchState) (len : Nat) : Find :=
  ⟨r.isSome, r.map (fun ms => pushStringCaptures ms len)⟩

/-- memcmp at each place where memchr finds the first byte of the pattern. -/
def lmemfind (p : List UInt8) : Nat → List UInt8 → Option Nat
  | s, [] => if p = [] then some s else none
  | s, c :: rest => if p.isPrefixOf (c :: rest) then some s else lmemfind p (s + 1) rest

/-- The starts of a match, tried one after the other up to the end of the subject. -/
def matchFrom (p : List UInt8) (anchor : Bool) : (starts : Nat) → (s : Nat) →
    Except Fault (Option MatchState)
  | 0, _ => .ok none
  | n + 1, s => do
      let r ← matchPattern src (p.length + 1) p ⟨[]⟩ s
      if r.1.isSome then .ok (some r.2)
      else if anchor then .ok none
      else matchFrom p anchor n (s + 1)

def clampInit (initPos : Int) (l1 : Nat) : Nat :=
  let init := posrelat initPos l1 - 1
  if init < 0 then 0 else if init.toNat > l1 then l1 else init.toNat

def strFind (p : List UInt8) (explicit : Bool) (initPos : Int) (len : Nat) :
    Except Fault Find :=
  let init := clampInit initPos src.length
  if explicit || !p.any (fun c => c ∈ specials) then
    .ok ⟨(lmemfind p init (src.drop init)).isSome, none⟩
  else
    let anchor := p.headD 0 = 94
    let p := if anchor then p.tail else p
    do
      let r ← matchFrom src p anchor (src.length + 1 - init) init
      .ok (report r len)

end

end ErSdk.Pmatch
