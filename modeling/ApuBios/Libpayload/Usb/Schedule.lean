import ApuBios.Library.Word

/-!
# Addresses and frame lists of the host controllers

What the drivers for the host controllers have in common: the addresses that a controller gets to see,
and the frame list of 1024 pointers into which a queue for interrupt transfers is hooked.
-/

namespace ApuBios.Usb

/-! ### Addresses -/

/-- `virtual_offset`, which is left at zero. -/
def virtualOffset : ℕ := 0

/-- `virt_to_phys` -/
def virtToPhys (virt : ℕ) : ℕ := Word.add 32 virt virtualOffset

@[simp] lemma virtToPhys_eq (virt : ℕ) : virtToPhys virt = virt % 2 ^ 32 := rfl

lemma virtToPhys_lt (virt : ℕ) : virtToPhys virt < 2 ^ 32 := Word.add_lt

/-! ### The frame list -/

/-- The next position from `i` on that holds the default pointer, with `left` frames left to look at. -/
def nextFree (frames : ℕ → ℕ) (dflt : ℕ) : (left : ℕ) → (i : ℕ) → ℕ
  | 0, i => i
  | left + 1, i => if frames i ≠ dflt then nextFree frames dflt left (i + 1) else i

/-- The loop that places a queue into every frame that is due and free, or the next free one after it.
Each round but the last one takes a free frame, so that 1025 rounds are enough. -/
def placeLoop (qh dflt reqtiming : ℕ) :
    ℕ → (frames : ℕ → ℕ) → (i : ℕ) → (nothingPlaced : Bool) → (ℕ → ℕ) × Bool
  | 0, frames, _, nothingPlaced => (frames, nothingPlaced)
  | rounds + 1, frames, i, nothingPlaced =>
    if i < 1024 then
      let i := nextFree frames dflt (1024 - i) i
      if i < 1024 then
        placeLoop qh dflt reqtiming rounds (Function.update frames i qh) (i + reqtiming) false
      else (frames, nothingPlaced)
    else (frames, nothingPlaced)

/-- The frame list with a queue hooked into it, or none if there is no space left. -/
def placeQueue (frames : ℕ → ℕ) (qh dflt reqtiming : ℕ) : Option (ℕ → ℕ) :=
  let r := placeLoop qh dflt reqtiming 1025 frames 0 true
  if r.2 then none else some r.1

end ApuBios.Usb
