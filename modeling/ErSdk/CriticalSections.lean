import ErSdk.Cbuffer

namespace ErSdk.CriticalSections

open Cbuffer Runs

variable {H D : Type} {n : Nat}

/-- The global interrupt flag, in a hardware of any kind. -/
structure Platform (H : Type) where
  interrupts : H → Bool
  platformSetGlobalInterrupts : Bool → H → Bool × H
  /-- The value that is returned is the previous state. -/
  previous : ∀ status hw, (platformSetGlobalInterrupts status hw).1 = interrupts hw
  required : ∀ status hw, interrupts (platformSetGlobalInterrupts status hw).2 = status

/-- The two statics of system.c, the hardware, and the data that the sections work on. -/
structure System (H D : Type) where
  hw : H
  csIntStatus : Bool
  isCriticalSection : Bool
  data : D

/-- A call of one of the two functions, or what the code between them does to the data. -/
inductive Op (D : Type)
  | enter
  | leave
  | work (f : D → D)

section

variable (p : Platform H)

def systemEnterCriticalSection (s : System H D) : System H D :=
  let s :=
    if s.isCriticalSection = false then
      let r := p.platformSetGlobalInterrupts false s.hw
      { s with csIntStatus := r.1, hw := r.2 }
    else s
  { s with isCriticalSection := true }

def systemLeaveCriticalSection (s : System H D) : System H D :=
  if s.isCriticalSection = true then
    let s := { s with isCriticalSection := false }
    { s with hw := (p.platformSetGlobalInterrupts s.csIntStatus s.hw).2 }
  else s

def exec (s : System H D) : Op D → System H D
  | .enter => systemEnterCriticalSection p s
  | .leave => systemLeaveCriticalSection p s
  | .work f => { s with data := f s.data }

end

/-- The number of the open sections behind one more operation. -/
def deeper : Nat → Op D → Nat
  | d, .enter => d + 1
  | d, .leave => d - 1
  | d, .work _ => d

def depth (ops : List (Op D)) : Nat := run deeper 0 ops

/-- With `d` sections open, every leave has its enter, and in the end all sections are left. -/
def WellNested : Nat → List (Op D) → Prop
  | d, [] => d = 0
  | d, .enter :: ops => WellNested (d + 1) ops
  | 0, .leave :: _ => False
  | d + 1, .leave :: ops => WellNested d ops
  | d, .work _ :: ops => WellNested d ops

def tsCbufferPush (ch : UInt8) : List (Op (CbufferClass n)) :=
  [.enter, .work (cbufferPush · ch), .leave]

/-- tcp_buffer_push, which nests a section for every byte. -/
def tcpBufferPush (buf : List UInt8) : List (Op (CbufferClass n)) :=
  .enter :: (buf.flatMap tsCbufferPush ++ [.leave])

/-- Interrupts are disabled while a section is open, and else as they were before. -/
def Held (p : Platform H) (before : Bool) (d : Nat) (s : System H D) : Prop :=
  p.interrupts s.hw = if d = 0 then before else false

/-- A sequence in all of whose states interrupts are as they should be. -/
def Protects (p : Platform H) (s : System H D) (ops : List (Op D)) : Prop :=
  ∀ k, Held p (p.interrupts s.hw) (depth (ops.take k)) (run (exec p) s (ops.take k))

def Outer : Nat → Op D → Prop
  | d, .leave => d ≤ 1
  | _, _ => True

theorem not_wellNested {ops : List (Op D)} {d : Nat} (hd : 2 ≤ d) (h : WellNested d ops) :
    ¬ Guarded deeper Outer d ops := by
  induction ops generalizing d with
  | nil =>
      have hzero : d = 0 := h
      omega
  | cons a ops ih =>
      rintro ⟨hout, hrest⟩
      cases a with
      | enter => exact ih (Nat.le_succ_of_le hd) h hrest
      | leave => exact absurd hd (Nat.not_le_of_lt (Nat.lt_succ_of_le hout))
      | work f =>
          rw [WellNested] at h
          exact ih hd h hrest

theorem outer_iff {ops : List (Op D)} {d : Nat} (h : WellNested d ops) :
    Guarded deeper Outer d ops ↔ ∀ k, run deeper d (ops.take k) ≤ 1 := by
  induction ops generalizing d with
  | nil =>
      have hzero : d = 0 := h
      refine iff_of_true trivial (fun k => ?_)
      rw [List.take_nil, hzero]
      exact Nat.zero_le 1
  | cons a ops ih =>
      have hnext : WellNested (deeper d a) ops := by
        cases a with
        | enter => exact h
        | leave =>
            cases d with
            | zero => exact h.elim
            | succ d => exact h
        | work f =>
            rw [WellNested] at h
            exact h
      constructor
      · intro hg k
        cases k with
        | zero =>
            by_contra hlt
            exact not_wellNested (Nat.lt_of_not_le hlt) h hg
        | succ k => exact (ih hnext).mp hg.2 k
      · intro hle
        refine ⟨?_, (ih hnext).mpr (fun k => hle (k + 1))⟩
        cases a with
        | enter | work => exact trivial
        | leave => exact hle 0

/-- The statics and the interrupts in a sequence in which no two sections are open. -/
structure Flat (p : Platform H) (before : Bool) (x : Nat × System H D) : Prop where
  interrupts : p.interrupts x.2.hw = if x.2.isCriticalSection then false else before
  saved : x.2.isCriticalSection = true → x.2.csIntStatus = before
  opened : x.2.isCriticalSection = true ↔ x.1 ≠ 0

/-- The operations with the number of the sections that are open. -/
def tracked (p : Platform H) (x : Nat × System H D) (a : Op D) : Nat × System H D :=
  (deeper x.1 a, exec p x.2 a)

theorem run_tracked (p : Platform H) (ops : List (Op D)) (d : Nat) (s : System H D) :
    run (tracked p) (d, s) ops = (run deeper d ops, run (exec p) s ops) := by
  induction ops generalizing d s with
  | nil => rfl
  | cons a ops ih => exact ih (deeper d a) (exec p s a)

theorem guarded_tracked (p : Platform H) (ops : List (Op D)) (d : Nat) (s : System H D) :
    Guarded (tracked p) (fun x a => Outer x.1 a) (d, s) ops ↔ Guarded deeper Outer d ops := by
  induction ops generalizing d s with
  | nil => exact Iff.rfl
  | cons a ops ih => exact and_congr_right (fun _ => ih (deeper d a) (exec p s a))

section

variable {p : Platform H} {before : Bool} {x : Nat × System H D}

theorem Flat.held (h : Flat p before x) : Held p before x.1 x.2 := by
  unfold Held
  rw [h.interrupts]
  by_cases hd : x.1 = 0
  · rw [if_pos hd, if_neg (fun hflag => h.opened.mp hflag hd)]
  · rw [if_neg hd, if_pos (h.opened.mpr hd)]

theorem Flat.tracked (h : Flat p before x) {a : Op D} (hout : Outer x.1 a) :
    Flat p before (tracked p x a) := by
  obtain ⟨d, s⟩ := x
  obtain ⟨hint, hsaved, hopened⟩ := h
  dsimp only at hint hsaved hopened hout
  cases a with
  | work f => exact ⟨hint, hsaved, hopened⟩
  | enter =>
      unfold CriticalSections.tracked exec systemEnterCriticalSection
      dsimp only
      cases hflag : s.isCriticalSection with
      | true =>
          rw [if_neg (by decide)]
          rw [hflag] at hint
          exact ⟨hint, fun _ => hsaved hflag, iff_of_true rfl (Nat.succ_ne_zero d)⟩
      | false =>
          rw [hflag] at hint
          rw [if_pos rfl]
          exact ⟨p.required false s.hw, fun _ => (p.previous false s.hw).trans hint,
            iff_of_true rfl (Nat.succ_ne_zero d)⟩
  | leave =>
      have hlast : d - 1 = 0 := Nat.sub_eq_zero_of_le hout
      unfold CriticalSections.tracked exec systemLeaveCriticalSection
      dsimp only
      cases hflag : s.isCriticalSection with
      | true =>
          rw [if_pos rfl]
          refine ⟨(p.required _ _).trans (hsaved hflag), nofun, ?_⟩
          exact iff_of_false nofun (not_not.mpr hlast)
      | false =>
          rw [if_neg (by decide)]
          refine ⟨hint, hsaved, ?_⟩
          exact iff_of_false (by rw [hflag]; decide) (not_not.mpr hlast)

theorem Flat.outer (h : Flat p true x) {a : Op D}
    (hheld : Held p true (CriticalSections.tracked p x a).1 (CriticalSections.tracked p x a).2) :
    Outer x.1 a := by
  cases a with
  | enter | work => exact trivial
  | leave =>
      by_contra hdeep
      have hinner : x.1 - 1 ≠ 0 := fun hzero => hdeep (Nat.sub_eq_zero_iff_le.mp hzero)
      have hflag : x.2.isCriticalSection = true :=
        h.opened.mpr (fun hzero => hdeep (hzero ▸ Nat.zero_le 1))
      have hrestored : p.interrupts (exec p x.2 .leave).hw = true := by
        unfold exec systemLeaveCriticalSection
        rw [if_pos hflag]
        exact (p.required _ _).trans (h.saved hflag)
      have hdisabled : p.interrupts (exec p x.2 .leave).hw = false :=
        hheld.trans (if_neg hinner)
      exact absurd (hrestored.symm.trans hdisabled) (by decide)

end

theorem disabled_run (p : Platform H) {s : System H D} (h : p.interrupts s.hw = false)
    (hflag : s.isCriticalSection = false) (ops : List (Op D)) :
    p.interrupts (run (exec p) s ops).hw = false := by
  have hkeep : ∀ (s : System H D) (a : Op D),
      (p.interrupts s.hw = false ∧ (s.isCriticalSection = true → s.csIntStatus = false)) →
      (p.interrupts (exec p s a).hw = false ∧
        ((exec p s a).isCriticalSection = true → (exec p s a).csIntStatus = false)) := by
    rintro s a ⟨hint, hsaved⟩
    cases a with
    | work f => exact ⟨hint, hsaved⟩
    | enter =>
        unfold exec systemEnterCriticalSection
        dsimp only
        split
        · exact ⟨p.required false s.hw, fun _ => (p.previous false s.hw).trans hint⟩
        · rename_i hopen
          exact ⟨hint, fun _ => hsaved (Bool.not_eq_false _ ▸ hopen)⟩
    | leave =>
        unfold exec systemLeaveCriticalSection
        dsimp only
        split
        · rename_i hopen
          exact ⟨(p.required _ _).trans (hsaved hopen), nofun⟩
        · exact ⟨hint, hsaved⟩
  exact (Runs.invariant hkeep ops ⟨h, fun ht => absurd (hflag.symm.trans ht) (by decide)⟩).1

theorem protects_iff (p : Platform H) {s : System H D} (hflag : s.isCriticalSection = false)
    {ops : List (Op D)} (hn : WellNested 0 ops) :
    Protects p s ops ↔ p.interrupts s.hw = false ∨ ∀ k, depth (ops.take k) ≤ 1 := by
  cases hbefore : p.interrupts s.hw with
  | false =>
      refine iff_of_true (fun k => ?_) (.inl rfl)
      unfold Held
      rw [disabled_run p hbefore hflag, hbefore, ite_self]
  | true =>
      have hflat : Flat p true ((0, s) : Nat × System H D) :=
        ⟨by rw [hflag]; exact hbefore, fun ht => absurd (hflag.symm.trans ht) (by decide),
          iff_of_false (by rw [hflag]; decide) (not_not.mpr rfl)⟩
      have hall : Guarded (tracked p) (fun x a => Outer x.1 a) (0, s) ops ↔
          ∀ k, Held p true (run (tracked p) (0, s) (ops.take k)).1
            (run (tracked p) (0, s) (ops.take k)).2 :=
        guarded_iff_of_invariant (P := Flat p true) (Q := fun x => Held p true x.1 x.2)
          (fun _ h => h.held) (fun _ _ hout h => h.tracked hout) (fun _ _ h hheld => h.outer hheld) hflat
      rw [guarded_tracked, outer_iff hn] at hall
      simp only [run_tracked] at hall
      unfold Protects
      rw [hbefore, or_iff_right (by decide)]
      exact hall.symm

theorem wellNested_append {ops more : List (Op D)} {d e : Nat} (h : WellNested d ops)
    (hmore : WellNested e more) : WellNested (d + e) (ops ++ more) := by
  induction ops generalizing d with
  | nil =>
      have hzero : d = 0 := h
      rw [hzero, Nat.zero_add]
      exact hmore
  | cons a ops ih =>
      cases a with
      | enter =>
          have hrest := ih h
          rw [Nat.add_right_comm] at hrest
          exact hrest
      | leave =>
          cases d with
          | zero => exact h.elim
          | succ d =>
              rw [Nat.add_right_comm]
              exact ih h
      | work f =>
          rw [WellNested] at h
          rw [List.cons_append, WellNested]
          exact ih h

theorem wellNested_bytes (buf : List UInt8) :
    WellNested 0 (buf.flatMap (tsCbufferPush (n := n))) := by
  induction buf with
  | nil => rfl
  | cons ch buf ih =>
      have hbyte : WellNested 0 (tsCbufferPush (n := n) ch) := rfl
      have hboth := wellNested_append hbyte ih
      exact hboth

theorem wellNested_tcpBufferPush (buf : List UInt8) : WellNested 0 (tcpBufferPush (n := n) buf) := by
  have hlast : WellNested 1 ([.leave] : List (Op (CbufferClass n))) := rfl
  exact wellNested_append (wellNested_bytes buf) hlast

theorem tcpBufferPush_data (p : Platform H) (s : System H (CbufferClass n)) (buf : List UInt8) :
    (run (exec p) s (tcpBufferPush buf)).data = Cbuffer.tcpBufferPush s.data buf := by
  have henter (t : System H (CbufferClass n)) : (exec p t .enter).data = t.data := by
    unfold exec systemEnterCriticalSection
    dsimp only
    split <;> rfl
  have hleave (t : System H (CbufferClass n)) : (exec p t .leave).data = t.data := by
    unfold exec systemLeaveCriticalSection
    dsimp only
    split <;> rfl
  have hbyte (t : System H (CbufferClass n)) (ch : UInt8) :
      (run (exec p) t (tsCbufferPush ch)).data = cbufferPush t.data ch := by
    rw [← henter t]
    exact hleave (exec p (exec p t .enter) (.work (cbufferPush · ch)))
  have hbytes (t : System H (CbufferClass n)) : (run (exec p) t (buf.flatMap tsCbufferPush)).data =
      Cbuffer.tcpBufferPush t.data buf := by
    induction buf generalizing t with
    | nil => rfl
    | cons ch buf ih =>
        rw [List.flatMap_cons, run_append, ih, hbyte]
        rfl
  unfold tcpBufferPush
  rw [← henter s, ← hbytes]
  have hsplit : run (exec p) s (.enter :: (buf.flatMap tsCbufferPush ++ [.leave])) =
      exec p (run (exec p) (exec p s .enter) (buf.flatMap tsCbufferPush)) .leave :=
    run_append (exec p) (exec p s .enter) (buf.flatMap tsCbufferPush) [.leave]
  rw [hsplit, hleave]

/-- The sections protect what they should, whatever their depth, exactly if interrupts were disabled
before or no two sections are open at a time; the push of a buffer opens a second one for its first
byte. -/
theorem sections_protect_iff (p : Platform H) (hw : H) (status : Bool) :
    (∀ (data : D) (ops : List (Op D)), WellNested 0 ops →
      (Protects p ⟨hw, status, false, data⟩ ops ↔
        p.interrupts hw = false ∨ ∀ k, depth (ops.take k) ≤ 1)) ∧
      ∀ (n : Nat) (cb : CbufferClass n) (buf : List UInt8),
        Protects p ⟨hw, status, false, cb⟩ (tcpBufferPush buf) ↔
          p.interrupts hw = false ∨ buf = [] := by
  refine ⟨fun data ops hn => protects_iff p rfl hn, fun n cb buf => ?_⟩
  rw [protects_iff p rfl (wellNested_tcpBufferPush buf)]
  refine or_congr_right ⟨fun h => ?_, fun h => ?_⟩
  · cases buf with
    | nil => rfl
    | cons ch buf => exact absurd (h 2) (by simp [tcpBufferPush, tsCbufferPush, depth, run, deeper])
  · rw [h]
    exact (outer_iff (wellNested_tcpBufferPush (n := n) [])).mp ⟨trivial, Nat.le_refl 1, trivial⟩

def flag : Platform Bool where
  interrupts hw := hw
  platformSetGlobalInterrupts status hw := (hw, status)
  previous _ _ := rfl
  required _ _ := rfl

theorem sections_protect_iff_byte : Protects flag ⟨true, false, false, 7⟩
    [.enter, .work (· + 1), .leave, .enter, .leave] := by
  have hn : WellNested 0 ([.enter, .work (· + 1), .leave, .enter, .leave] : List (Op Nat)) := rfl
  refine ((sections_protect_iff flag true false).1 7 _ hn).mpr (.inr ?_)
  exact (outer_iff hn).mp ⟨trivial, trivial, Nat.le_refl 1, trivial, Nat.le_refl 1, trivial⟩

/-- Behind the first byte, and with its section still open, interrupts are enabled. -/
theorem push_enables_interrupts :
    depth ((tcpBufferPush (n := 4) [65, 66]).take 4) = 1 ∧
      (run (exec flag) ⟨true, false, false, ⟨#v[0, 0, 0, 0], 0, 0⟩⟩
        ((tcpBufferPush [65, 66]).take 4)).hw = true ∧
      ¬ Protects flag ⟨true, false, false, (⟨#v[0, 0, 0, 0], 0, 0⟩ : CbufferClass 4)⟩
        (tcpBufferPush [65, 66]) :=
  ⟨rfl, rfl, fun h => absurd (show true = false from h 4) (by decide)⟩

end ErSdk.CriticalSections
