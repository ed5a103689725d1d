import StackMachine.Proofs.X64.Frames
import StackMachine.Proofs.A64.Frames

/-!
# Native frames

The frames of compiled methods are well formed under both calling conventions of x86-64 and on
AArch64, whatever the number of locals, as long as the processor can reach all slots: with a
displacement of 32 bits from the frame pointer on x86-64, and with the offsets of loads and stores
on AArch64.

Then (`FrameModel.WellFormed`) opening a frame stores the entry arguments into their slots, clears
the locals and publishes their number; slots, saved registers and the area for the arguments of a
call do not overlap; calls are made with the stack pointer aligned; and a method that leaves the
saved words and the two pointers alone gives the caller its registers back.
-/

namespace StackMachine.Native

open ByteMemory

/-- **Frames are well formed**, for every processor, calling convention and number of locals. -/
theorem frames_wellFormed (addresses : Addresses) (locals : Nat) :
    (∀ abi, X64.Reached locals → (X64.frameModel abi addresses).WellFormed locals) ∧
      (frameSlots locals ≤ A64.maxFrameSlots → (A64.frameModel addresses).WellFormed locals) :=
  ⟨fun abi reached => (X64.frameModel_lawful abi addresses reached).wellFormed,
    fun reached => (A64.frameModel_lawful addresses reached).wellFormed⟩

/-- The memory of a caller that has put the last three arguments on the stack: two pointers into its
own frame, and 7. -/
def callerMemory (first : Word) : ByteMemory :=
  writeAll (fun _ => 0) [(first, 0x10100), (first + 8, 0x10108), (first + 16, 7)]

/-- The entry of a method on x86-64: the return address is on top of the stack. -/
def entryX64 : X64.Cpu where
  regs r := if r = .rsp then 0xFFF8 else 0
  xmms _ := 0
  flags := ⟨none, none, none, none, none⟩
  memory := callerMemory 0x10040

/-- The entry of a method on AArch64. -/
def entryA64 : A64.Cpu where
  regs r := if r = .sp then 0x10000 else 0
  doubles _ := 0
  flags := ⟨false, false, false, false⟩
  memory := callerMemory 0x10000

/-- A method with three locals finds its last argument in the eleventh slot. -/
theorem frames_wellFormed_three :
    (∃ opening t, (X64.frameModel .win64 {}).lowers (.prologue 3) opening ∧
      (X64.frameModel .win64 {}).runs opening entryX64 t ∧
      readWord t.memory ((X64.frameModel .win64 {}).slotAddress t 10) = 7) ∧
    ∃ opening t, (A64.frameModel {}).lowers (.prologue 3) opening ∧
    (A64.frameModel {}).runs opening entryA64 t ∧
      readWord t.memory ((A64.frameModel {}).slotAddress t 10) = 7 := by
  have reachedX64 : X64.Reached 3 := by decide
  have reachedA64 : frameSlots 3 ≤ A64.maxFrameSlots := by decide
  obtain ⟨x64, a64⟩ := frames_wellFormed {} 3
  constructor
  · have entry : (X64.frameModel .win64 {}).Entry 3 entryX64 :=
      (X64.frameModel_fits .win64 {} reachedX64).entry_of_above (k := 0x100) (l := 0x108)
        (by decide) (by decide) (by decide) (by decide) (by decide) (by decide) (by decide)
          (by decide)
    obtain ⟨opening, lowered, runs⟩ := (x64 .win64 reachedX64).opens
    obtain ⟨t, run, opened⟩ := runs entry
    have seven : (X64.frameModel .win64 {}).argument entryX64 .literals = 7 := by decide
    exact ⟨opening, t, lowered, run, (opened.arguments .literals).trans seven⟩
  · have entry : (A64.frameModel {}).Entry 3 entryA64 :=
      (A64.frameModel_fits {} reachedA64).entry_of_above (k := 0x100) (l := 0x108) (by decide)
        (by decide) (by decide) (by decide) (by decide) (by decide) (by decide) (by decide)
    obtain ⟨opening, lowered, runs⟩ := (a64 reachedA64).opens
    obtain ⟨t, run, opened⟩ := runs entry
    have seven : (A64.frameModel {}).argument entryA64 .literals = 7 := by decide
    exact ⟨opening, t, lowered, run, (opened.arguments .literals).trans seven⟩

end StackMachine.Native
