/-
NOR flash memory.

To erase sets all bits of a sector.  To program clears bits, and goes on at the start of a
page when it comes to its end.  Between the two a memory keeps what was there, so ranges
that are erased or programmed one after the other are one range.

A range that was erased and then programmed reads as what was programmed.
-/
import Mathlib.Data.UInt
import Mathlib.Tactic.Common
import Mathlib.Tactic.Ring

namespace Nor

/-- The bytes of a chip, by their addresses. -/
abbrev Memory := Nat → UInt8

/-! ### Operations -/

/-- Erase the sector of `gran` bytes that has `addr` in it. -/
def erase (gran addr : Nat) (mem : Memory) : Memory :=
  fun a => if a / gran = addr / gran then 0xFF else mem a

/-- The address after `addr` in a page of `page` bytes. -/
def next (page addr : Nat) : Nat := if (addr + 1) % page = 0 then addr + 1 - page else addr + 1

/-- Program some bytes from `addr` on, within its page.  The order does not matter, since a
byte only clears bits. -/
def program (page : Nat) : Nat → List UInt8 → Memory → Memory
  | _, [], mem => mem
  | addr, b :: bs, mem => fun a =>
      let rest := program page (next page addr) bs mem a
      if a = addr then rest &&& b else rest

/-- A range that is erased. -/
def erased (lo hi : Nat) (mem : Memory) : Memory :=
  fun a => if lo ≤ a ∧ a < hi then 0xFF else mem a

/-- A range that is programmed. -/
def programmed (lo : Nat) (data : List UInt8) (mem : Memory) : Memory :=
  fun a => if lo ≤ a ∧ a < lo + data.length then mem a &&& data.getD (a - lo) 0 else mem a

/-! ### Ranges -/

@[simp] theorem erased_self (lo : Nat) (mem : Memory) : erased lo lo mem = mem := by
  funext a
  exact if_neg (by omega)

@[simp] theorem programmed_nil (lo : Nat) (mem : Memory) : programmed lo [] mem = mem := by
  funext a
  refine if_neg ?_
  simp only [List.length_nil]
  omega

/-- Two ranges that are erased are one. -/
theorem erased_append {lo mid hi : Nat} (hlo : lo ≤ mid) (hhi : mid ≤ hi) (mem : Memory) :
    erased mid hi (erased lo mid mem) = erased lo hi mem := by
  funext a
  unfold erased
  by_cases hmid : a < mid
  · rw [if_neg (by omega)]
    by_cases hin : lo ≤ a
    · rw [if_pos ⟨hin, hmid⟩, if_pos (by omega)]
    · rw [if_neg (by omega), if_neg (by omega)]
  · by_cases hin : a < hi
    · rw [if_pos (by omega), if_pos (by omega)]
    · rw [if_neg (by omega), if_neg (by omega), if_neg (by omega)]

/-- Two ranges that are programmed are one. -/
theorem programmed_append (lo : Nat) (data more : List UInt8) (mem : Memory) :
    programmed (lo + data.length) more (programmed lo data mem) =
      programmed lo (data ++ more) mem := by
  funext a
  unfold programmed
  rw [List.length_append]
  by_cases hmid : a < lo + data.length
  · rw [if_neg (by omega)]
    by_cases hin : lo ≤ a
    · rw [if_pos ⟨hin, hmid⟩, if_pos (by omega), List.getD_eq_getElem?_getD,
        List.getD_eq_getElem?_getD, List.getElem?_append_left (by omega)]
    · rw [if_neg (by omega), if_neg (by omega)]
  · by_cases hin : a < lo + data.length + more.length
    · have hoffset : a - lo - data.length = a - (lo + data.length) := by omega
      rw [if_pos (by omega), if_neg (by omega), if_pos (by omega), List.getD_eq_getElem?_getD,
        List.getD_eq_getElem?_getD, List.getElem?_append_right (by omega), hoffset]
    · rw [if_neg (by omega), if_neg (by omega), if_neg (by omega)]

/-- A sector is a range. -/
theorem erase_sector {gran : Nat} (hgran : 0 < gran) (k : Nat) (mem : Memory) :
    erase gran (gran * k) mem = erased (gran * k) (gran * k + gran) mem := by
  funext a
  have hsector : a / gran = k ↔ gran * k ≤ a ∧ a < gran * k + gran := by
    rw [Nat.div_eq_iff hgran]
    rw [Nat.mul_comm k gran]
    omega
  unfold erase erased
  rw [Nat.mul_div_cancel_left k hgran]
  simp only [hsector]

/-- Bytes that do not come to the end of the page before the last one are a range. -/
theorem program_within {page : Nat} : ∀ (data : List UInt8) (addr : Nat) (mem : Memory),
    addr % page + data.length ≤ page → program page addr data mem = programmed addr data mem := by
  intro data
  induction data with
  | nil =>
      intro addr mem _
      rw [program, programmed_nil]
  | cons b bs ih =>
      intro addr mem hfits
      rw [List.length_cons] at hfits
      have hrest : program page (next page addr) bs mem = programmed (addr + 1) bs mem := by
        cases hbs : bs with
        | nil => rw [program, programmed_nil]
        | cons c cs =>
            have hpos : 0 < bs.length := by rw [hbs]; exact Nat.succ_pos _
            have hmod : (addr + 1) % page = addr % page + 1 := by
              rw [Nat.add_mod, Nat.mod_eq_of_lt (a := 1) (by omega), Nat.mod_eq_of_lt (by omega)]
            have hnext : next page addr = addr + 1 := if_neg (by omega)
            rw [← hbs, hnext]
            exact ih (addr + 1) mem (by omega)
      have hone : programmed (addr + 1) bs (programmed addr [b] mem) =
          programmed addr (b :: bs) mem := programmed_append addr [b] bs mem
      rw [program, hrest, ← hone]
      funext a
      unfold programmed
      by_cases ha : a = addr
      · rw [if_pos ha, if_neg (by omega), if_neg (by omega), if_pos (by simp [ha]), ha]
        simp
      · have hnot : ¬(addr ≤ a ∧ a < addr + [b].length) := by
          rw [List.length_singleton]
          omega
        rw [if_neg ha]
        simp only [hnot, if_false]

/-- What was erased reads as what is programmed there. -/
theorem programmed_erased {lo hi : Nat} {data : List UInt8} (hlength : lo + data.length = hi)
    (mem : Memory) :
    (∀ k (hk : k < data.length), programmed lo data (erased lo hi mem) (lo + k) = data[k]) ∧
      ∀ a, a < lo ∨ hi ≤ a → programmed lo data (erased lo hi mem) a = mem a := by
  refine ⟨fun k hk => ?_, fun a ha => ?_⟩
  · unfold programmed erased
    have hoffset : lo + k - lo = k := by omega
    have hones : ∀ b : UInt8, 0xFF &&& b = b := by
      intro b
      exact UInt8.neg_one_and
    rw [if_pos (by omega), if_pos (by omega), hoffset, hones, List.getD_eq_getElem?_getD,
      List.getElem?_eq_getElem hk]
    rfl
  · unfold programmed erased
    rw [if_neg (by omega), if_neg (by omega)]

end Nor
