import Mathlib

/-!
# Ideal authenticated encryption

A sealed value opens under the key, the nonce and the context it was sealed
with, and under nothing else.
-/

namespace TaskExplorer.Sealing

variable {Key Nonce Context Plain : Type}

structure Sealed (Key Nonce Context Plain : Type) where
  key : Key
  nonce : Nonce
  context : Context
  plain : Plain
deriving DecidableEq

def decrypt [DecidableEq Key] [DecidableEq Nonce] [DecidableEq Context] (key : Key) (nonce : Nonce) (context : Context)
    (box : Sealed Key Nonce Context Plain) : Option Plain :=
  if key = box.key ∧ nonce = box.nonce ∧ context = box.context then some box.plain else none

variable [DecidableEq Key] [DecidableEq Nonce] [DecidableEq Context]

@[simp] theorem decrypt_sealed (key : Key) (nonce : Nonce) (context : Context) (plain : Plain) :
    decrypt key nonce context ⟨key, nonce, context, plain⟩ = some plain := by
  simp [decrypt]

theorem decrypt_eq_some {key : Key} {nonce : Nonce} {context : Context} {box : Sealed Key Nonce Context Plain} {plain : Plain} :
    decrypt key nonce context box = some plain ↔ box = ⟨key, nonce, context, plain⟩ := by
  cases box
  constructor
  · intro opened
    unfold decrypt at opened
    split_ifs at opened with same
    obtain ⟨rfl, rfl, rfl⟩ := same
    cases opened
    rfl
  · intro same
    cases same
    simp

end TaskExplorer.Sealing
