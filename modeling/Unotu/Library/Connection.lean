import Mathlib.Logic.Basic

/-!
# A connection to a database with transactions

Outside a transaction a statement commits at once. Inside one it changes a working copy,
which `COMMIT` makes the content of the database and `ROLLBACK` drops.
-/

set_option autoImplicit false

universe u

structure Connection (σ : Type u) where
  committed : σ
  working : Option σ := none

namespace Connection

variable {σ : Type u}

/-- What a statement reads. -/
def current (c : Connection σ) : σ := c.working.getD c.committed

/-- A statement that changes the content. -/
def write (f : σ → σ) (c : Connection σ) : Connection σ :=
  match c.working with
  | none => { c with committed := f c.committed }
  | some s => { c with working := some (f s) }

def beginTransaction (c : Connection σ) : Except String (Connection σ) :=
  match c.working with
  | none => .ok { c with working := some c.committed }
  | some _ => .error "cannot start a transaction within a transaction"

def commit (c : Connection σ) : Except String (Connection σ) :=
  match c.working with
  | none => .error "cannot commit - no transaction is active"
  | some s => .ok ⟨s, none⟩

def rollback (c : Connection σ) : Connection σ := { c with working := none }

@[simp] theorem write_idle (f : σ → σ) (s : σ) :
    (⟨s, none⟩ : Connection σ).write f = ⟨f s, none⟩ := rfl

@[simp] theorem write_open (f : σ → σ) (s w : σ) :
    (⟨s, some w⟩ : Connection σ).write f = ⟨s, some (f w)⟩ := rfl

@[simp] theorem beginTransaction_idle (s : σ) :
    (⟨s, none⟩ : Connection σ).beginTransaction = .ok ⟨s, some s⟩ := rfl

@[simp] theorem commit_open (s w : σ) :
    (⟨s, some w⟩ : Connection σ).commit = .ok ⟨w, none⟩ := rfl

end Connection
