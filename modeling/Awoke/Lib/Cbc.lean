/-
Cipher block chaining.

A block is mixed with the one before it in the ciphertext, and then permuted.  What is asked of the
mixing is that to mix in the same block again takes it out.
-/
import Mathlib.Algebra.Group.End
import Mathlib.Tactic.Common

/-- A way to mix a block into another, and out of it again. -/
structure Mixing (β : Type*) where
  mix : β → β → β
  mix_mix : ∀ a b, mix (mix a b) b = a

namespace Cbc

variable {β : Type*} (m : Mixing β) (e : Equiv.Perm β)

/-- The ciphertext of some blocks, with the block before the first one. -/
def encrypt (iv : β) : List β → List β
  | [] => []
  | b :: bs => e (m.mix b iv) :: encrypt (e (m.mix b iv)) bs

/-- The blocks of a ciphertext. -/
def decrypt (iv : β) : List β → List β
  | [] => []
  | c :: cs => m.mix (e.symm c) iv :: decrypt c cs

theorem encrypt_length (bs : List β) : ∀ iv, (encrypt m e iv bs).length = bs.length := by
  induction bs with
  | nil => exact fun _ => rfl
  | cons b bs ih => exact fun iv => congrArg (· + 1) (ih _)

theorem decrypt_length (cs : List β) : ∀ iv, (decrypt m e iv cs).length = cs.length := by
  induction cs with
  | nil => exact fun _ => rfl
  | cons c cs ih => exact fun iv => congrArg (· + 1) (ih _)

/-- The first blocks of a ciphertext are the ciphertext of the first blocks. -/
theorem encrypt_take (n : Nat) : ∀ (bs : List β) (iv : β),
    (encrypt m e iv bs).take n = encrypt m e iv (bs.take n) := by
  induction n with
  | zero => exact fun _ _ => rfl
  | succ n ih =>
      intro bs iv
      cases bs with
      | nil => rfl
      | cons b bs => exact congrArg (_ :: ·) (ih bs _)

variable {m e}

/-- **What was encrypted is decrypted.** -/
theorem decrypt_encrypt (bs : List β) : ∀ iv, decrypt m e iv (encrypt m e iv bs) = bs := by
  induction bs with
  | nil => exact fun _ => rfl
  | cons b bs ih =>
      intro iv
      rw [encrypt, decrypt, Equiv.symm_apply_apply, m.mix_mix, ih]

/-- Two ciphertexts of the same blocks are the same. -/
theorem decrypt_injective (cs : List β) : ∀ (iv : β) (cs' : List β),
    decrypt m e iv cs = decrypt m e iv cs' → cs = cs' := by
  induction cs with
  | nil =>
      intro iv cs' h
      cases cs' with
      | nil => rfl
      | cons c' cs' => exact nomatch h
  | cons c cs ih =>
      intro iv cs' h
      cases cs' with
      | nil => exact nomatch h
      | cons c' cs' =>
          obtain ⟨hfirst, hrest⟩ := List.cons.inj h
          have hc : e.symm c = e.symm c' := by
            rw [← m.mix_mix (e.symm c) iv, hfirst, m.mix_mix]
          obtain rfl := e.symm.injective hc
          rw [ih c cs' hrest]

/-- A ciphertext is decrypted to some blocks exactly if it is the one of these blocks. -/
theorem decrypt_eq_iff {iv : β} {cs bs : List β} :
    decrypt m e iv cs = bs ↔ cs = encrypt m e iv bs := by
  constructor
  · intro h
    exact decrypt_injective cs iv _ (h.trans (decrypt_encrypt bs iv).symm)
  · rintro rfl
    exact decrypt_encrypt bs iv

end Cbc
