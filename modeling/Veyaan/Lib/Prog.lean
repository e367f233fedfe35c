import Mathlib.Tactic.TypeStar

/-!
# Programs as trees of requests

A program asks its environment for one thing at a time and goes on with the
answer, which may be an exception. Running, interleaving and reasoning are
functions on the tree, so a program is written once, in `do` notation, and
every later reading of it is a recursion over the same tree.
-/

/-- A program over the requests `P`, with exceptions of type `ε`. -/
inductive Prog (P : Type → Type 1) (ε α : Type) : Type 1
  | ret (a : α)
  | throw (e : ε)
  | op {β : Type} (c : P β) (k : Except ε β → Prog P ε α)

namespace Prog

variable {P : Type → Type 1} {ε α β γ : Type}

def bind : Prog P ε α → (α → Prog P ε β) → Prog P ε β
  | .ret a, f => f a
  | .throw e, _ => .throw e
  | .op c k, f => .op c fun r => (k r).bind f

instance : Monad (Prog P ε) where
  pure := ret
  bind := bind

/-- Run `p` and hand its exception, if any, to the caller as a value:
`try: … except Exception as e: …`. -/
def attempt : Prog P ε α → Prog P ε (Except ε α)
  | .ret a => .ret (.ok a)
  | .throw e => .ret (.error e)
  | .op c k => .op c fun r => (k r).attempt

/-- How a program goes on after the answer `r`: with the value, or by raising. -/
def ofExcept : Except ε α → Prog P ε α
  | .ok a => .ret a
  | .error e => .throw e

def call (c : P α) : Prog P ε α := .op c ofExcept

@[simp] theorem pure_eq (a : α) : (pure a : Prog P ε α) = .ret a := rfl
@[simp] theorem bind_eq (p : Prog P ε α) (f : α → Prog P ε β) : p >>= f = p.bind f := rfl
@[simp] theorem ret_bind (a : α) (f : α → Prog P ε β) : (ret a : Prog P ε α).bind f = f a := rfl
@[simp] theorem throw_bind (e : ε) (f : α → Prog P ε β) : (throw e : Prog P ε α).bind f = throw e := rfl
@[simp] theorem op_bind {δ : Type} (c : P δ) (k : Except ε δ → Prog P ε α) (f : α → Prog P ε β) :
    (op c k).bind f = op c fun r => (k r).bind f := rfl
@[simp] theorem ofExcept_ok (a : α) : (ofExcept (.ok a) : Prog P ε α) = ret a := rfl
@[simp] theorem ofExcept_error (e : ε) : (ofExcept (.error e) : Prog P ε α) = throw e := rfl

theorem bind_assoc : ∀ (p : Prog P ε α) (f : α → Prog P ε β) (g : β → Prog P ε γ),
    (p.bind f).bind g = p.bind fun a => (f a).bind g
  | .ret _, _, _ => rfl
  | .throw _, _, _ => rfl
  | .op c k, f, g => by
    simp only [op_bind]
    congr 1
    funext r
    exact bind_assoc (k r) f g

@[simp] theorem bind_ret : ∀ p : Prog P ε α, p.bind ret = p
  | .ret _ => rfl
  | .throw _ => rfl
  | .op c k => by
    rw [op_bind]
    congr 1
    funext r
    exact bind_ret (k r)

theorem attempt_bind : ∀ (p : Prog P ε α) (f : α → Prog P ε β),
    (p.bind f).attempt = p.attempt.bind fun r => ((ofExcept r).bind f).attempt
  | .ret _, _ => rfl
  | .throw _, _ => rfl
  | .op c k, f => by
    simp only [op_bind, attempt]
    congr 1
    funext r
    exact attempt_bind (k r) f

/-! ## Every request of a program -/

/-- Every request that `p` can ever make satisfies `φ`. -/
def All (φ : ∀ β, P β → Prop) : Prog P ε α → Prop
  | .ret _ => True
  | .throw _ => True
  | .op c k => φ _ c ∧ ∀ r, (k r).All φ

section
variable {φ : ∀ β, P β → Prop}

theorem All.mono {ψ : ∀ β, P β → Prop} (h : ∀ β c, φ β c → ψ β c) : ∀ {p : Prog P ε α}, p.All φ → p.All ψ
  | .ret _, _ => trivial
  | .throw _, _ => trivial
  | .op _ _, hp => ⟨h _ _ hp.1, fun r => (hp.2 r).mono h⟩

theorem All.bind : ∀ {p : Prog P ε α} {f : α → Prog P ε β}, p.All φ → (∀ a, (f a).All φ) →
    (p.bind f).All φ
  | .ret a, _, _, hf => hf a
  | .throw _, _, _, _ => trivial
  | .op _ _, _, hp, hf => ⟨hp.1, fun r => All.bind (hp.2 r) hf⟩

theorem All.attempt : ∀ {p : Prog P ε α}, p.All φ → p.attempt.All φ
  | .ret _, _ => trivial
  | .throw _, _ => trivial
  | .op _ _, hp => ⟨hp.1, fun r => All.attempt (hp.2 r)⟩

theorem All.call {c : P α} (h : φ _ c) : (call c : Prog P ε α).All φ :=
  ⟨h, fun r => by cases r <;> trivial⟩

end

/-! ## What a program returns -/

def Rets (φ : α → Prop) : Prog P ε α → Prop
  | .ret a => φ a
  | .throw _ => True
  | .op _ k => ∀ r, (k r).Rets φ

theorem Rets.bind {φ : β → Prop} {ψ : α → Prop} : ∀ {p : Prog P ε α} {f : α → Prog P ε β}, p.Rets ψ →
    (∀ a, ψ a → (f a).Rets φ) → (p.bind f).Rets φ
  | .ret a, _, hp, hf => hf a hp
  | .throw _, _, _, _ => trivial
  | .op _ _, _, hp, hf => fun r => Rets.bind (hp r) hf

theorem rets_any : ∀ p : Prog P ε α, p.Rets fun _ => True
  | .ret _ => trivial
  | .throw _ => trivial
  | .op _ k => fun r => rets_any (k r)

end Prog
