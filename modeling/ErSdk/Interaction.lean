import Mathlib.Logic.Basic

namespace ErSdk.Interaction

/-- A program that asks questions of an interface and goes on with the answers. -/
inductive Prog (Q : Type) (A : Q → Type) (α : Type) : Type
  | done (a : α)
  | ask (q : Q) (next : A q → Prog Q A α)

variable {Q Q' Q'' : Type} {A : Q → Type} {A' : Q' → Type} {A'' : Q'' → Type}
variable {σ τ υ S T W α β : Type}

namespace Prog

def bind : Prog Q A α → (α → Prog Q A β) → Prog Q A β
  | .done a, f => f a
  | .ask q next, f => .ask q (fun x => (next x).bind f)

instance : Monad (Prog Q A) where
  pure := .done
  bind := .bind

def call (q : Q) : Prog Q A (A q) := .ask q .done

end Prog

/-- What answers the questions of an interface, in a world of its own. -/
abbrev Handler (Q : Type) (A : Q → Type) (W : Type) := (q : Q) → W → A q × W

def run (handler : Handler Q A W) : Prog Q A α → W → α × W
  | .done a, w => (a, w)
  | .ask q next, w => run handler (next (handler q w).1) (handler q w).2

/-- What answers the questions of one interface by programs over another. -/
abbrev Layer (Q : Type) (A : Q → Type) (Q' : Type) (A' : Q' → Type) (S : Type) :=
  (q : Q) → S → Prog Q' A' (A q × S)

def through (layer : Layer Q A Q' A' S) : Prog Q A α → S → Prog Q' A' (α × S)
  | .done a, s => .done (a, s)
  | .ask q next, s => (layer q s).bind (fun r => through layer (next r.1) r.2)

def Layer.over (layer : Layer Q A Q' A' S) (lower : Layer Q' A' Q'' A'' T) :
    Layer Q A Q'' A'' (S × T) :=
  fun q s => (through lower (layer q s.1) s.2).bind (fun r => .done (r.1.1, (r.1.2, r.2)))

/-- What the two sides of an interface promise each other: which questions may be asked and which
answers may be given in a state of the conversation, and the state behind an answer. -/
structure Contract (Q : Type) (A : Q → Type) (σ : Type) where
  allowed : σ → Q → Prop
  sound : σ → (q : Q) → A q → Prop
  next : σ → (q : Q) → A q → σ

/-- As long as the answers are sound a program asks what it may ask only, and the postcondition
holds of its result and of the state of the conversation then. -/
def Keeps (c : Contract Q A σ) (post : α → σ → Prop) : Prog Q A α → σ → Prop
  | .done a, s => post a s
  | .ask q next, s => c.allowed s q ∧ ∀ a, c.sound s q a → Keeps c post (next a) (c.next s q a)

section

variable {c : Contract Q A σ} {post : α → σ → Prop}

theorem keeps_pure {a : α} {s : σ} (h : post a s) : Keeps c post (pure a : Prog Q A α) s := h

theorem Keeps.mono {post' : α → σ → Prop} {p : Prog Q A α} {s : σ} (h : Keeps c post p s)
    (hpost : ∀ a s, post a s → post' a s) : Keeps c post' p s := by
  induction p generalizing s with
  | done a => exact hpost a s h
  | ask q next ih => exact ⟨h.1, fun a ha => ih a (h.2 a ha)⟩

theorem Keeps.bind {p : Prog Q A β} {f : β → Prog Q A α} {s : σ}
    (h : Keeps c (fun b s => Keeps c post (f b) s) p s) : Keeps c post (p.bind f) s := by
  induction p generalizing s with
  | done b => exact h
  | ask q next ih => exact ⟨h.1, fun a ha => ih a (h.2 a ha)⟩

theorem Keeps.andThen {mid : β → σ → Prop} {p : Prog Q A β} {f : β → Prog Q A α} {s : σ}
    (h : Keeps c mid p s) (hf : ∀ b s, mid b s → Keeps c post (f b) s) :
    Keeps c post (p >>= f) s :=
  Keeps.bind (h.mono hf)

theorem keeps_call {q : Q} {f : A q → Prog Q A α} {s : σ} (hq : c.allowed s q)
    (hf : ∀ a, c.sound s q a → Keeps c post (f a) (c.next s q a)) :
    Keeps c post (Prog.call q >>= f) s := ⟨hq, hf⟩

end

/-- Whatever the upper interface allows, the layer answers soundly, by programs that keep the
contract below it. -/
def Serves (upper : Contract Q A σ) (lower : Contract Q' A' τ) (rel : σ → S → τ → Prop)
    (layer : Layer Q A Q' A' S) : Prop :=
  ∀ q u s l, rel u s l → upper.allowed u q →
    Keeps lower (fun r l => upper.sound u q r.1 ∧ rel (upper.next u q r.1) r.2 l) (layer q s) l

section

variable {upper : Contract Q A σ} {lower : Contract Q' A' τ} {bottom : Contract Q'' A'' υ}
variable {rel : σ → S → τ → Prop} {layer : Layer Q A Q' A' S}

theorem Serves.through (h : Serves upper lower rel layer) {post : α → σ → Prop} {p : Prog Q A α}
    {u : σ} {s : S} {l : τ} (hrel : rel u s l) (hp : Keeps upper post p u) :
    Keeps lower (fun r l => ∃ u, post r.1 u ∧ rel u r.2 l) (through layer p s) l := by
  induction p generalizing u s l with
  | done a => exact ⟨u, hp, hrel⟩
  | ask q next ih =>
      refine Keeps.bind ((h q u s l hrel hp.1).mono fun r l hr => ?_)
      exact ih r.1 hr.2 (hp.2 r.1 hr.1)

theorem Serves.over {rel' : τ → T → υ → Prop} {below : Layer Q' A' Q'' A'' T}
    (h : Serves upper lower rel layer) (h' : Serves lower bottom rel' below) :
    Serves upper bottom (fun u s b => ∃ l, rel u s.1 l ∧ rel' l s.2 b) (layer.over below) := by
  rintro q u s b ⟨l, hrel, hrel'⟩ hq
  refine Keeps.bind ((h'.through hrel' (h q u s.1 l hrel hq)).mono fun r b hr => ?_)
  obtain ⟨l, ⟨hsound, hnext⟩, hbelow⟩ := hr
  exact ⟨hsound, l, hnext, hbelow⟩

end

/-- What was asked and answered, the latest question first. -/
abbrev Trace (Q : Type) (A : Q → Type) := List (Σ q : Q, A q)

structure Traced (Q : Type) (A : Q → Type) (W : Type) where
  world : W
  trace : Trace Q A

def traced (handler : Handler Q A W) : Handler Q A (Traced Q A W) := fun q t =>
  let r := handler q t.world
  (r.1, ⟨r.2, ⟨q, r.1⟩ :: t.trace⟩)

namespace Contract

variable (c : Contract Q A σ) (start : σ)

def state : Trace Q A → σ
  | [] => start
  | e :: trace => c.next (state trace) e.1 e.2

/-- Every answer was sound. -/
def Relied : Trace Q A → Prop
  | [] => True
  | e :: trace => c.sound (c.state start trace) e.1 e.2 ∧ Relied trace

instance decidableRelied [∀ s q a, Decidable (c.sound s q a)] :
    (trace : Trace Q A) → Decidable (c.Relied start trace)
  | [] => .isTrue trivial
  | _ :: trace =>
      have := decidableRelied trace
      inferInstanceAs (Decidable (_ ∧ _))

/-- Every question was allowed. -/
def Kept : Trace Q A → Prop
  | [] => True
  | e :: trace => c.allowed (c.state start trace) e.1 ∧ Kept trace

end Contract

section

variable {c : Contract Q A σ} {start : σ}

theorem relied_of_run {handler : Handler Q A W} {p : Prog Q A α} {t : Traced Q A W}
    (h : c.Relied start (run (traced handler) p t).2.trace) : c.Relied start t.trace := by
  induction p generalizing t with
  | done a => exact h
  | ask q next ih => exact (ih _ h).2

theorem Keeps.run {post : α → σ → Prop} {p : Prog Q A α} {handler : Handler Q A W}
    {t : Traced Q A W} (h : Keeps c post p (c.state start t.trace)) (hkept : c.Kept start t.trace)
    (hrelied : c.Relied start (run (traced handler) p t).2.trace) :
    c.Kept start (run (traced handler) p t).2.trace ∧
      post (run (traced handler) p t).1 (c.state start (run (traced handler) p t).2.trace) := by
  induction p generalizing t with
  | done a => exact ⟨hkept, h⟩
  | ask q next ih =>
      have hasked : c.Relied start (⟨q, (handler q t.world).1⟩ :: t.trace) :=
        relied_of_run (p := next (handler q t.world).1) hrelied
      exact ih _ (h.2 _ hasked.1) ⟨h.1, hkept⟩ hrelied

end

end ErSdk.Interaction
