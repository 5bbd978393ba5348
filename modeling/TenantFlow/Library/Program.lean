import Mathlib.Logic.Function.Basic
import Mathlib.Tactic.Common

/-!
# Programs as trees of statements

A `Prog` is a finite tree: it returns, raises, or issues one statement and continues with
the answer. The same tree has two readings. `Prog.run` executes it alone, from a state to
a result; the interleaved reading of `ReadCommitted` executes one statement at a time
between the statements of other programs.

`Prog.Along` says that every statement executed on the way satisfies a predicate in the
state where it is executed, and the result a postcondition. Invariants of whole runs are
derived from it by `Along.run_invariant`.
-/

namespace Transactional

universe u

/-- A program that issues statements `s : Stmt`, receives `Ans s`, may raise `ε` and returns `α`. -/
inductive Prog (Stmt : Type u) (Ans : Stmt → Type) (ε α : Type) : Type u where
  | ret (a : α)
  | raise (e : ε)
  | step (s : Stmt) (k : Ans s → Prog Stmt Ans ε α)

namespace Prog

variable {Stmt : Type u} {Ans : Stmt → Type} {ε α β γ σ : Type}

def bind : Prog Stmt Ans ε α → (α → Prog Stmt Ans ε β) → Prog Stmt Ans ε β
  | .ret a, f => f a
  | .raise e, _ => .raise e
  | .step s k, f => .step s (fun x => (k x).bind f)

instance : Monad (Prog Stmt Ans ε) where
  pure := .ret
  bind := Prog.bind

/-- Issue one statement and return its answer. -/
def perform (s : Stmt) : Prog Stmt Ans ε (Ans s) := .step s .ret

/-- Continue with a result, or raise its error. -/
def ofExcept : Except ε α → Prog Stmt Ans ε α
  | .ok a => .ret a
  | .error e => .raise e

@[simp] theorem pure_eq (a : α) : (pure a : Prog Stmt Ans ε α) = .ret a := rfl

@[simp] theorem bind_eq (p : Prog Stmt Ans ε α) (f : α → Prog Stmt Ans ε β) :
    p >>= f = p.bind f := rfl

@[simp] theorem ret_bind (a : α) (f : α → Prog Stmt Ans ε β) :
    (Prog.ret a : Prog Stmt Ans ε α).bind f = f a := rfl

@[simp] theorem raise_bind (e : ε) (f : α → Prog Stmt Ans ε β) :
    (Prog.raise e : Prog Stmt Ans ε α).bind f = .raise e := rfl

@[simp] theorem step_bind (s : Stmt) (k : Ans s → Prog Stmt Ans ε α)
    (f : α → Prog Stmt Ans ε β) :
    (Prog.step s k).bind f = .step s (fun x => (k x).bind f) := rfl

@[simp] theorem perform_bind (s : Stmt) (f : Ans s → Prog Stmt Ans ε β) :
    (perform s : Prog Stmt Ans ε (Ans s)).bind f = .step s f := rfl

@[simp] theorem ofExcept_ok (a : α) :
    (ofExcept (.ok a) : Prog Stmt Ans ε α) = .ret a := rfl

@[simp] theorem ofExcept_error (e : ε) :
    (ofExcept (.error e) : Prog Stmt Ans ε α) = .raise e := rfl

theorem bind_assoc (p : Prog Stmt Ans ε α) (f : α → Prog Stmt Ans ε β)
    (g : β → Prog Stmt Ans ε γ) :
    (p.bind f).bind g = p.bind (fun a => (f a).bind g) := by
  induction p with
  | ret a => rfl
  | raise e => rfl
  | step s k ih =>
    simp only [step_bind]
    congr 1
    funext x
    exact ih x

/-! ## Running alone -/

/-- Execute from a state, one statement after the other. -/
def run (exec : (s : Stmt) → σ → Ans s × σ) : Prog Stmt Ans ε α → σ → Except ε α × σ
  | .ret a, st => (.ok a, st)
  | .raise e, st => (.error e, st)
  | .step s k, st => (k (exec s st).1).run exec (exec s st).2

variable {exec : (s : Stmt) → σ → Ans s × σ}

@[simp] theorem run_ret (a : α) (st : σ) :
    (Prog.ret a : Prog Stmt Ans ε α).run exec st = (.ok a, st) := rfl

@[simp] theorem run_raise (e : ε) (st : σ) :
    (Prog.raise e : Prog Stmt Ans ε α).run exec st = (.error e, st) := rfl

@[simp] theorem run_step (s : Stmt) (k : Ans s → Prog Stmt Ans ε α) (st : σ) :
    (Prog.step s k).run exec st = (k (exec s st).1).run exec (exec s st).2 := rfl

/-- A sequential composition runs its first part, and its second part only on success. -/
theorem run_bind (p : Prog Stmt Ans ε α) (f : α → Prog Stmt Ans ε β) (st : σ) :
    (p.bind f).run exec st =
      match p.run exec st with
      | (.ok a, st') => (f a).run exec st'
      | (.error e, st') => (.error e, st') := by
  induction p generalizing st with
  | ret a => rfl
  | raise e => rfl
  | step s k ih => exact ih _ _

theorem run_bind_ok {p : Prog Stmt Ans ε α} {f : α → Prog Stmt Ans ε β} {st st' : σ} {a : α}
    (h : p.run exec st = (.ok a, st')) : (p.bind f).run exec st = (f a).run exec st' := by
  rw [run_bind, h]

theorem run_bind_error {p : Prog Stmt Ans ε α} {f : α → Prog Stmt Ans ε β} {st st' : σ} {e : ε}
    (h : p.run exec st = (.error e, st')) : (p.bind f).run exec st = (.error e, st') := by
  rw [run_bind, h]

/-- Whether a run ended with a result that passes the test. -/
def endsWith (test : α → Bool) : Except ε α × σ → Bool
  | (.ok a, _) => test a
  | (.error _, _) => false

theorem exists_of_endsWith {test : α → Bool} {x : Except ε α × σ} (h : endsWith test x = true) :
    ∃ a st, x = (.ok a, st) ∧ test a = true := by
  obtain ⟨r, st⟩ := x
  cases r with
  | ok a => exact ⟨a, st, rfl, h⟩
  | error e => cases h

/-! ## Predicates along a run -/

/-- Every statement executed from `st` satisfies `φ` in the state where it is executed, and
a result satisfies `Q` in the final state. -/
def Along (exec : (s : Stmt) → σ → Ans s × σ) (φ : Stmt → σ → Prop) (Q : α → σ → Prop) :
    Prog Stmt Ans ε α → σ → Prop
  | .ret a, st => Q a st
  | .raise _, _ => True
  | .step s k, st => φ s st ∧ (k (exec s st).1).Along exec φ Q (exec s st).2

variable {φ : Stmt → σ → Prop} {Q Q' : α → σ → Prop}

@[simp] theorem along_ret (a : α) (st : σ) :
    (Prog.ret a : Prog Stmt Ans ε α).Along exec φ Q st ↔ Q a st := Iff.rfl

@[simp] theorem along_raise (e : ε) (st : σ) :
    (Prog.raise e : Prog Stmt Ans ε α).Along exec φ Q st := trivial

@[simp] theorem along_step (s : Stmt) (k : Ans s → Prog Stmt Ans ε α) (st : σ) :
    (Prog.step s k).Along exec φ Q st ↔
      φ s st ∧ (k (exec s st).1).Along exec φ Q (exec s st).2 := Iff.rfl

/-- The second part of a composition is checked only where the first part ends well. -/
theorem along_bind {p : Prog Stmt Ans ε α} {f : α → Prog Stmt Ans ε β} {R : β → σ → Prop}
    {st : σ} (hp : p.Along exec φ (fun a st' => (f a).Along exec φ R st') st) :
    (p.bind f).Along exec φ R st := by
  induction p generalizing st with
  | ret a => exact hp
  | raise e => trivial
  | step s k ih => exact ⟨hp.1, ih _ hp.2⟩

theorem Along.mono {p : Prog Stmt Ans ε α} {st : σ} (hp : p.Along exec φ Q st)
    (h : ∀ a st', Q a st' → Q' a st') : p.Along exec φ Q' st := by
  induction p generalizing st with
  | ret a => exact h a st hp
  | raise e => trivial
  | step s k ih => exact ⟨hp.1, ih _ hp.2⟩

theorem Along.imp {φ' : Stmt → σ → Prop} {p : Prog Stmt Ans ε α} {st : σ}
    (hp : p.Along exec φ Q st) (h : ∀ s st, φ s st → φ' s st) : p.Along exec φ' Q st := by
  induction p generalizing st with
  | ret a => exact hp
  | raise e => trivial
  | step s k ih => exact ⟨h s st hp.1, ih _ hp.2⟩

theorem Along.run_ok {p : Prog Stmt Ans ε α} {st : σ} (hp : p.Along exec φ Q st) (a : α)
    (st' : σ) (hrun : p.run exec st = (.ok a, st')) : Q a st' := by
  induction p generalizing st with
  | ret b =>
    obtain ⟨hb, hst⟩ := Prod.mk.inj hrun
    rw [← Except.ok.inj hb, ← hst]
    exact hp
  | raise e => cases (Prod.mk.inj hrun).1
  | step s k ih => exact ih _ hp.2 hrun

/-- A postcondition may be read off the run itself. -/
theorem along_of_run {p : Prog Stmt Ans ε α} {st : σ}
    (h : ∀ a st', p.run exec st = (.ok a, st') → Q a st') :
    p.Along exec (fun _ _ => True) Q st := by
  induction p generalizing st with
  | ret a => exact h a st rfl
  | raise e => trivial
  | step s k ih => exact ⟨trivial, ih _ h⟩

/-- What every permitted statement preserves also holds at the end. -/
theorem Along.frame {I : σ → Prop} {p : Prog Stmt Ans ε α} {st : σ}
    (hp : p.Along exec φ Q st) (hstep : ∀ s st, φ s st → I st → I (exec s st).2) (hI : I st) :
    p.Along exec φ (fun a st' => Q a st' ∧ I st') st := by
  induction p generalizing st with
  | ret a => exact ⟨hp, hI⟩
  | raise e => trivial
  | step s k ih => exact ⟨hp.1, ih _ hp.2 (hstep s st hp.1 hI)⟩

/-- What every permitted statement preserves holds at the end, also after an error. -/
theorem Along.run_invariant {I : σ → Prop} {p : Prog Stmt Ans ε α} {st : σ}
    (hp : p.Along exec φ Q st) (hstep : ∀ s st, φ s st → I st → I (exec s st).2) (hI : I st) :
    I (p.run exec st).2 := by
  induction p generalizing st with
  | ret a => exact hI
  | raise e => exact hI
  | step s k ih => exact ih _ hp.2 (hstep s st hp.1 hI)

/-! ## Predicates on every path -/

/-- On every path with possible answers, statements satisfy `φ`, errors `ψ`, results `χ`. -/
def Every (possible : (s : Stmt) → Ans s → Prop) (φ : Stmt → Prop) (ψ : ε → Prop)
    (χ : α → Prop) : Prog Stmt Ans ε α → Prop
  | .ret a => χ a
  | .raise e => ψ e
  | .step s k => φ s ∧ ∀ x, possible s x → (k x).Every possible φ ψ χ

variable {possible : (s : Stmt) → Ans s → Prop} {φ : Stmt → Prop} {ψ : ε → Prop} {χ : α → Prop}

@[simp] theorem every_ret (a : α) :
    (Prog.ret a : Prog Stmt Ans ε α).Every possible φ ψ χ ↔ χ a := Iff.rfl

@[simp] theorem every_raise (e : ε) :
    (Prog.raise e : Prog Stmt Ans ε α).Every possible φ ψ χ ↔ ψ e := Iff.rfl

@[simp] theorem every_step (s : Stmt) (k : Ans s → Prog Stmt Ans ε α) :
    (Prog.step s k).Every possible φ ψ χ ↔
      φ s ∧ ∀ x, possible s x → (k x).Every possible φ ψ χ := Iff.rfl

theorem every_trivial (p : Prog Stmt Ans ε α) :
    p.Every possible (fun _ => True) (fun _ => True) (fun _ => True) := by
  induction p with
  | ret a => trivial
  | raise e => trivial
  | step s k ih => exact ⟨trivial, fun x _ => ih x⟩

theorem every_bind {p : Prog Stmt Ans ε α} {f : α → Prog Stmt Ans ε β} {χ' : β → Prop}
    (hp : p.Every possible φ ψ χ) (hf : ∀ a, χ a → (f a).Every possible φ ψ χ') :
    (p.bind f).Every possible φ ψ χ' := by
  induction p with
  | ret a => exact hf a hp
  | raise e => exact hp
  | step s k ih => exact ⟨hp.1, fun x hx => ih x (hp.2 x hx)⟩

theorem Every.mono {φ' : Stmt → Prop} {ψ' : ε → Prop} {χ' : α → Prop} {p : Prog Stmt Ans ε α}
    (hp : p.Every possible φ ψ χ) (hφ : ∀ s, φ s → φ' s) (hψ : ∀ e, ψ e → ψ' e)
    (hχ : ∀ a, χ a → χ' a) : p.Every possible φ' ψ' χ' := by
  induction p with
  | ret a => exact hχ a hp
  | raise e => exact hψ e hp
  | step s k ih => exact ⟨hφ s hp.1, fun x hx => ih x (hp.2 x hx)⟩

theorem Every.and {φ' : Stmt → Prop} {ψ' : ε → Prop} {χ' : α → Prop} {p : Prog Stmt Ans ε α}
    (hp : p.Every possible φ ψ χ) (hp' : p.Every possible φ' ψ' χ') :
    p.Every possible (fun s => φ s ∧ φ' s) (fun e => ψ e ∧ ψ' e) (fun a => χ a ∧ χ' a) := by
  induction p with
  | ret a => exact ⟨hp, hp'⟩
  | raise e => exact ⟨hp, hp'⟩
  | step s k ih => exact ⟨⟨hp.1, hp'.1⟩, fun x hx => ih x (hp.2 x hx) (hp'.2 x hx)⟩

/-- Fewer possible answers leave fewer paths. -/
theorem Every.restrict {possible' : (s : Stmt) → Ans s → Prop} {p : Prog Stmt Ans ε α}
    (hp : p.Every possible φ ψ χ) (h : ∀ s x, possible' s x → possible s x) :
    p.Every possible' φ ψ χ := by
  induction p with
  | ret a => exact hp
  | raise e => exact hp
  | step s k ih => exact ⟨hp.1, fun x hx => ih x (hp.2 x (h s x hx))⟩

/-- What holds on every path holds along the run that is taken. -/
theorem Every.along {σ : Type} {exec : (s : Stmt) → σ → Ans s × σ} {p : Prog Stmt Ans ε α}
    (hp : p.Every possible φ ψ χ) (hexec : ∀ s st, possible s (exec s st).1) (st : σ) :
    p.Along exec (fun s _ => φ s) (fun a _ => χ a) st := by
  induction p generalizing st with
  | ret a => exact hp
  | raise e => trivial
  | step s k ih => exact ⟨hp.1, ih _ (hp.2 _ (hexec s st)) _⟩

end Prog

end Transactional
