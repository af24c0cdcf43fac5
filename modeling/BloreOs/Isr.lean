import BloreOs.Lib.Stack
import Mathlib.Data.List.Nodup
import Mathlib.Logic.Function.Basic

/-!
# The keyboard interrupt's entry (`isr_ps2.S`)

`ISR_Handler_PS2` saves the general registers, `%es` and `%ds` on the stack of the code that is
interrupted, calls `_handle_keyboard`, and restores them. The instructions are modelled one by one,
with what the CPU does in front of them when it takes the interrupt and in the end for `iretq`.

* `runAll_saveGeneral`, `runAll_restoreGeneral` — the two halves are a nest of pairs,
* `isrHandlerPs2_transparent` — the interrupted code does not notice the interrupt.

The callee is a parameter. As the calling convention promises, it gives the stack back as it was.
-/

namespace BloreOs

open Stack

/-- The general registers, except for `%rsp`. -/
inductive Reg where
  | rax | rbx | rcx | rdx | rsi | rdi | rbp | r8 | r9 | r10 | r11 | r12 | r13 | r14 | r15
deriving DecidableEq

inductive Seg where
  | ds
  | es
deriving DecidableEq

/-- The registers that code between the interrupt and `iretq` works with. -/
structure Regs where
  gpr : Reg → BitVec 64
  seg : Seg → BitVec 16
  /-- The direction flag. -/
  df : Bool

/-! ## Instructions -/

inductive Instr where
  | push (r : Reg)
  | pop (r : Reg)
  /-- `mov %s, %eax`. The upper half of `%rax` becomes 0. -/
  | movSegEax (s : Seg)
  /-- `mov %eax, %s` -/
  | movEaxSeg (s : Seg)
  | cld
  | subRsp (n : Nat)
  | addRsp (n : Nat)
  | call

def Regs.setGpr (r : Regs) (x : Reg) (v : BitVec 64) : Regs :=
  { r with gpr := Function.update r.gpr x v }

def Regs.setSeg (r : Regs) (s : Seg) (v : BitVec 16) : Regs :=
  { r with seg := Function.update r.seg s v }

/-- One instruction. The function that is called, with its return address, is a parameter. -/
def exec (callee : Stack × Regs → Stack × Regs) (x : Stack × Regs) : Instr → Stack × Regs
  | .push r => (x.1.push (x.2.gpr r), x.2)
  | .pop r => (x.1.pop, x.2.setGpr r x.1.top)
  | .movSegEax s => (x.1, x.2.setGpr .rax ((x.2.seg s).setWidth 64))
  | .movEaxSeg s => (x.1, x.2.setSeg s ((x.2.gpr .rax).setWidth 16))
  | .cld => (x.1, { x.2 with df := false })
  | .subRsp n => (⟨x.1.sp - n, x.1.mem⟩, x.2)
  | .addRsp n => (⟨x.1.sp + n, x.1.mem⟩, x.2)
  | .call => callee x

def runAll (callee : Stack × Regs → Stack × Regs) (code : List Instr) (x : Stack × Regs) :
    Stack × Regs :=
  code.foldl (exec callee) x

/-! ## The handlers -/

/-- "Save general registers". `isr_save` of `cpu.h` is the same list. -/
def saveGeneral : List Instr :=
  [.push .r15, .push .r14, .push .r13, .push .r12, .push .r11, .push .r10, .push .r9, .push .r8,
    .push .rbp, .push .rdi, .push .rsi, .push .rdx, .push .rcx, .push .rbx, .push .rax,
    .movSegEax .es, .push .rax, .movSegEax .ds, .push .rax]

/-- "Restore general registers" -/
def restoreGeneral : List Instr :=
  [.pop .rax, .movEaxSeg .ds, .pop .rax, .movEaxSeg .es,
    .pop .rax, .pop .rbx, .pop .rcx, .pop .rdx, .pop .rsi, .pop .rdi, .pop .rbp,
    .pop .r8, .pop .r9, .pop .r10, .pop .r11, .pop .r12, .pop .r13, .pop .r14, .pop .r15]

/-- `ISR_Handler_PS2`, up to `iretq`. -/
def isrHandlerPs2 : List Instr := saveGeneral ++ [.cld, .call] ++ restoreGeneral

/--
`_handle_timer` and `_handle_lapic_timer`, up to `iretq`. They are C functions with `isr_save` and
`isr_restore` inside, and `isr_restore` adds 8 to `%rsp` to undo what the compiler does in front.
-/
def handleTimer (prologue : Nat) : List Instr :=
  [.subRsp prologue] ++ saveGeneral ++ [.call] ++ restoreGeneral ++ [.addRsp 8]

/-- `struct idt_frame` -/
structure IdtFrame where
  rip : BitVec 64
  cs : BitVec 64
  flags : BitVec 64
  rsp : BitVec 64
  ss : BitVec 64

/-- The CPU between two instructions of the code that is interrupted. -/
@[ext] structure Interrupted where
  gpr : Reg → BitVec 64
  seg : Seg → BitVec 16
  frame : IdtFrame
  mem : Memory

/-- The stack pointer after it has been aligned, which the CPU does first. -/
def IdtFrame.aligned (f : IdtFrame) : Nat := f.rsp.toNat / 16 * 16

def IdtFrame.words (f : IdtFrame) : List (BitVec 64) := [f.ss, f.rsp, f.flags, f.cs, f.rip]

/-- The CPU takes an interrupt: it pushes the frame. -/
def interrupt (c : Interrupted) : Stack × Regs :=
  ((Stack.mk c.frame.aligned c.mem).pushAll c.frame.words,
    ⟨c.gpr, c.seg, c.frame.flags.getLsbD 10⟩)

/-- `iretq` -/
def iretq (x : Stack × Regs) : Interrupted where
  gpr := x.2.gpr
  seg := x.2.seg
  frame := ⟨x.1.word 0, x.1.word 1, x.1.word 2, x.1.word 3, x.1.word 4⟩
  mem := x.1.mem

/-! ## The handler as a nest -/

/-- `push %r` and `pop %r` -/
def gprSlot (r : Reg) : Slot Regs where
  prep x := x
  get x := x.gpr r
  put v x := x.setGpr r v

/-- `mov %s, %eax; push %rax` and `pop %rax; mov %eax, %s` -/
def segSlot (s : Seg) : Slot Regs where
  prep x := x.setGpr .rax ((x.seg s).setWidth 64)
  get x := x.gpr .rax
  put v x := (x.setGpr .rax v).setSeg s (v.setWidth 16)

/-- The general registers in the order in which they are pushed. -/
def generalRegs : List Reg :=
  [.r15, .r14, .r13, .r12, .r11, .r10, .r9, .r8, .rbp, .rdi, .rsi, .rdx, .rcx, .rbx, .rax]

def ps2Slots : List (Slot Regs) := generalRegs.map gprSlot ++ [segSlot .es, segSlot .ds]

variable {callee : Stack × Regs → Stack × Regs} {x : Stack × Regs} {limit room : Nat}
  {c : Interrupted}

theorem runAll_cons (callee : Stack × Regs → Stack × Regs) (i : Instr) (l : List Instr)
    (x : Stack × Regs) : runAll callee (i :: l) x = runAll callee l (exec callee x i) := rfl

theorem runAll_append (callee : Stack × Regs → Stack × Regs) (l l' : List Instr) (x : Stack × Regs) :
    runAll callee (l ++ l') x = runAll callee l' (runAll callee l x) := List.foldl_append

theorem runAll_push (callee : Stack × Regs → Stack × Regs) (l : List Reg) (x : Stack × Regs) :
    runAll callee (l.map .push) x = saveAll (l.map gprSlot) x := by
  induction l generalizing x with
  | nil => rfl
  | cons r l ih => exact ih ((gprSlot r).save x)

theorem runAll_pop (callee : Stack × Regs → Stack × Regs) (l : List Reg) (x : Stack × Regs) :
    runAll callee (l.reverse.map .pop) x = restoreAll (l.map gprSlot) x := by
  induction l with
  | nil => rfl
  | cons r l ih =>
    rw [List.reverse_cons, List.map_append, runAll_append, ih]
    rfl

/-- The pushes of the handler save the slots. -/
theorem runAll_saveGeneral (callee : Stack × Regs → Stack × Regs) (x : Stack × Regs) :
    runAll callee saveGeneral x = saveAll ps2Slots x := by
  have hcode : saveGeneral = generalRegs.map .push ++
      [.movSegEax .es, .push .rax, .movSegEax .ds, .push .rax] := rfl
  rw [hcode, runAll_append, runAll_push, ps2Slots, saveAll, saveAll, List.foldl_append]
  rfl

/-- The pops of the handler restore them, the last one first. -/
theorem runAll_restoreGeneral (callee : Stack × Regs → Stack × Regs) (x : Stack × Regs) :
    runAll callee restoreGeneral x = restoreAll ps2Slots x := by
  have hcode : restoreGeneral = [.pop .rax, .movEaxSeg .ds, .pop .rax, .movEaxSeg .es] ++
      generalRegs.reverse.map .pop := rfl
  rw [hcode, runAll_append, runAll_pop, ps2Slots, restoreAll, restoreAll, List.foldr_append]
  rfl

/-- What runs inside the pairs. -/
def clearedCall (callee : Stack × Regs → Stack × Regs) (x : Stack × Regs) : Stack × Regs :=
  callee (x.1, { x.2 with df := false })

theorem keeps_clearedCall (h : Keeps limit room callee) : Keeps limit room (clearedCall callee) :=
  fun x hroom hlimit => h (x.1, { x.2 with df := false }) hroom hlimit

theorem runAll_isrHandlerPs2 (callee : Stack × Regs → Stack × Regs) (x : Stack × Regs) :
    runAll callee isrHandlerPs2 x = nest ps2Slots (clearedCall callee) x := by
  rw [isrHandlerPs2, runAll_append, runAll_append, runAll_restoreGeneral, runAll_saveGeneral, nest_eq]
  rfl

theorem mem_generalRegs (r : Reg) : r ∈ generalRegs := by
  cases r <;> decide

/-- The slots of other registers leave a register alone. -/
theorem gprSlot_leaves {r r' : Reg} (h : r' ≠ r) : (gprSlot r').Leaves fun x => x.gpr r where
  prep _ := rfl
  put _ _ := Function.update_of_ne h.symm _ _

theorem gprSlot_leaves_seg (r : Reg) (s : Seg) : (gprSlot r).Leaves fun x => x.seg s where
  prep _ := rfl
  put _ _ := rfl

theorem gprSlot_restores (r : Reg) : (gprSlot r).Restores fun x => x.gpr r :=
  fun _ _ => Function.update_self ..

theorem segSlot_leaves {s s' : Seg} (h : s' ≠ s) : (segSlot s').Leaves fun x => x.seg s where
  prep _ := rfl
  put _ _ := Function.update_of_ne h.symm _ _

theorem segSlot_restores (s : Seg) : (segSlot s).Restores fun x => x.seg s := by
  intro x x'
  simp [segSlot, Regs.setGpr, Regs.setSeg]

section
variable {f : Stack × Regs → Stack × Regs} (hf : Keeps limit room f) (hroom : room + 136 ≤ x.1.sp)
  (hlimit : x.1.sp ≤ limit)
include hf hroom hlimit

/-- Every general register comes back. -/
theorem gpr_nest (r : Reg) : (nest ps2Slots f x).2.gpr r = x.2.gpr r := by
  obtain ⟨outer, inner, hsplit⟩ := List.append_of_mem (mem_generalRegs r)
  have hnodup : (outer ++ r :: inner).Nodup := hsplit ▸ (by decide : generalRegs.Nodup)
  have hslots : ps2Slots = outer.map gprSlot ++ gprSlot r ::
      (inner.map gprSlot ++ [segSlot .es, segSlot .ds]) := by
    rw [ps2Slots, hsplit, List.map_append, List.map_cons, List.append_assoc, List.cons_append]
  have hlen : ps2Slots.length = 17 := rfl
  rw [hslots]
  refine nest_snd (g := fun y : Regs => y.gpr r) hf (gprSlot_restores r) _ ?_ ?_ hlimit
  · intro s hs
    obtain ⟨r', hr', rfl⟩ := List.mem_map.mp hs
    refine gprSlot_leaves ?_
    rintro rfl
    exact (List.nodup_middle.mp hnodup |> List.nodup_cons.mp).1 (List.mem_append_left _ hr')
  · rw [← hslots, hlen]
    exact hroom

/-- Both segment registers come back. -/
theorem seg_nest (s : Seg) : (nest ps2Slots f x).2.seg s = x.2.seg s := by
  have hleaves : ∀ slot ∈ generalRegs.map gprSlot, slot.Leaves fun y : Regs => y.seg s := by
    intro slot hslot
    obtain ⟨r, -, rfl⟩ := List.mem_map.mp hslot
    exact gprSlot_leaves_seg r s
  cases s with
  | es =>
    have hslots : ps2Slots = generalRegs.map gprSlot ++ segSlot .es :: [segSlot .ds] := rfl
    rw [hslots]
    exact nest_snd (g := fun y : Regs => y.seg .es) hf (segSlot_restores .es) _ hleaves hroom hlimit
  | ds =>
    have hslots : ps2Slots = (generalRegs.map gprSlot ++ [segSlot .es]) ++ segSlot .ds :: [] := rfl
    rw [hslots]
    refine nest_snd (g := fun y : Regs => y.seg .ds) hf (segSlot_restores .ds) _ ?_ hroom hlimit
    intro slot hslot
    rcases List.mem_append.mp hslot with h | h
    · exact hleaves slot h
    · rw [List.mem_singleton.mp h]
      exact segSlot_leaves (by decide)

end

/-! ## The interrupt frame -/

section
variable (h : 40 ≤ c.frame.aligned)
include h

/-- The CPU writes its frame below the stack of the interrupted code. -/
theorem interrupt_spec : (interrupt c).1.sp = c.frame.aligned - 40 ∧
    ∀ n, c.mem.SameOn (interrupt c).1.mem c.frame.aligned n :=
  pushAll_spec c.frame.words h

/-- Whatever leaves the frame alone lets `iretq` find it. -/
theorem frame_iretq {y : Stack × Regs} (hsp : y.1.sp = (interrupt c).1.sp)
    (hmem : (interrupt c).1.mem.SameOn y.1.mem (interrupt c).1.sp 40) : (iretq y).frame = c.frame := by
  have hword : ∀ k, k < 5 → y.1.word k = (c.frame.words.reverse[k]?).getD 0 := by
    intro k hk
    rw [word_congr hsp hmem (by omega), interrupt, word_pushAll (s := ⟨c.frame.aligned, c.mem⟩) c.frame.words h]
    have hlt : k < c.frame.words.reverse.length := hk
    rw [List.getElem?_eq_getElem hlt, Option.getD_some, Option.getD_some]
  simp only [iretq, hword 0 (by omega), hword 1 (by omega), hword 2 (by omega), hword 3 (by omega),
    hword 4 (by omega)]
  rfl

end

/-! ## The handlers as a whole -/

section
variable {k : Nat} {z : Stack} (hz : z.sp + k = (interrupt c).1.sp)
  (hzmem : z.mem = (interrupt c).1.mem)
include hz hzmem

/-- A nest that starts `k` bytes below the frame, and the way back up. -/
theorem iretq_nest {f : Stack × Regs → Stack × Regs} {y : Stack × Regs}
    (hf : Keeps c.frame.aligned room f) (hroom : room + 176 + k ≤ c.frame.aligned)
    (hy : y = nest ps2Slots f (z, (interrupt c).2)) :
    iretq (⟨y.1.sp + k, y.1.mem⟩, y.2) = { c with mem := y.1.mem } := by
  obtain ⟨hsp, -⟩ := interrupt_spec (c := c) (by omega)
  have hbelow : room + 136 ≤ z.sp ∧ z.sp ≤ c.frame.aligned := by omega
  have hkeeps := keeps_nest hf ps2Slots (z, (interrupt c).2) hbelow.1 hbelow.2
  have hgpr := gpr_nest (x := (z, (interrupt c).2)) hf hbelow.1 hbelow.2
  have hseg := seg_nest (x := (z, (interrupt c).2)) hf hbelow.1 hbelow.2
  rw [← hy] at hkeeps hgpr hseg
  obtain ⟨hsp' : y.1.sp = z.sp, hmem : z.mem.SameOn y.1.mem z.sp (c.frame.aligned - z.sp)⟩ := hkeeps
  have hframe : (iretq (⟨y.1.sp + k, y.1.mem⟩, y.2)).frame = c.frame := by
    refine frame_iretq (by omega) (by simp only; omega) fun i h1 h2 => ?_
    rw [← hzmem]
    exact hmem i (by omega) (by omega)
  exact Interrupted.ext (funext hgpr) (funext hseg) hframe rfl

/-- The stack on which a handler calls its function. -/
theorem saveAll_interrupt (h : 176 + k ≤ c.frame.aligned) :
    (saveAll ps2Slots (z, (interrupt c).2)).1.sp + (176 + k) = c.frame.aligned ∧
      ∀ n, c.mem.SameOn (saveAll ps2Slots (z, (interrupt c).2)).1.mem c.frame.aligned n := by
  obtain ⟨hsp, hmem⟩ := interrupt_spec (c := c) (by omega)
  have hlen : 8 * ps2Slots.length = 136 := rfl
  obtain ⟨hsp', hmem'⟩ := saveAll_spec ps2Slots (z, (interrupt c).2) (by simp only; omega)
  simp only [hlen] at hsp' hmem'
  refine ⟨by omega, fun n i h1 h2 => ?_⟩
  rw [← hmem n i h1 h2, ← hzmem]
  exact hmem' (40 + k + n) i (by omega) (by omega)

end

theorem aligned_mod (f : IdtFrame) : f.aligned % 16 = 0 := Nat.mul_mod_left ..

/--
**The keyboard interrupt is transparent.** When the handler returns, the interrupted code finds its
registers, its flags and its stack as they were, and memory as `_handle_keyboard` has left it. That
function gets an aligned stack, a clear direction flag, and memory as it was above the stack.
-/
theorem isrHandlerPs2_transparent (hc : Keeps c.frame.aligned room callee)
    (hroom : room + 176 ≤ c.frame.aligned) :
    let atCall := runAll callee (saveGeneral ++ [.cld]) (interrupt c)
    iretq (runAll callee isrHandlerPs2 (interrupt c)) = { c with mem := (callee atCall).1.mem } ∧
      atCall.2.df = false ∧ atCall.1.sp % 16 = 0 ∧
      ∀ n, c.mem.SameOn atCall.1.mem c.frame.aligned n := by
  intro atCall
  have hcall : atCall = ((saveAll ps2Slots (interrupt c)).1,
      { (saveAll ps2Slots (interrupt c)).2 with df := false }) := by
    simp only [atCall, runAll_append, runAll_saveGeneral]
    rfl
  have hrun := runAll_isrHandlerPs2 callee (interrupt c)
  have hmem : (runAll callee isrHandlerPs2 (interrupt c)).1.mem = (callee atCall).1.mem := by
    rw [hrun, nest_eq, mem_restoreAll, hcall]
    rfl
  have hz : (interrupt c).1.sp + 0 = (interrupt c).1.sp := rfl
  obtain ⟨hsp, hsame⟩ := saveAll_interrupt hz rfl (by omega)
  have hmod := aligned_mod c.frame
  rw [← hmem, hcall]
  generalize runAll callee isrHandlerPs2 (interrupt c) = y at hrun ⊢
  have hnest := iretq_nest hz rfl (keeps_clearedCall hc) (by omega) hrun
  refine ⟨hnest, rfl, ?_, hsame⟩
  show (saveAll ps2Slots ((interrupt c).1, (interrupt c).2)).1.sp % 16 = 0
  omega

/-- The interrupted code is at address 16 with all registers 0, and the function does nothing. -/
theorem isrHandlerPs2_transparent_sample :
    let c : Interrupted := ⟨fun _ => 0, fun _ => 0, ⟨16, 8, 2, 4096, 16⟩, fun _ => 0⟩
    let atCall := runAll id (saveGeneral ++ [.cld]) (interrupt c)
    iretq (runAll id isrHandlerPs2 (interrupt c)) = { c with mem := atCall.1.mem } ∧
      atCall.2.df = false ∧ atCall.1.sp % 16 = 0 ∧
      ∀ n, c.mem.SameOn atCall.1.mem c.frame.aligned n :=
  isrHandlerPs2_transparent keeps_id (by decide)

theorem runAll_handleTimer (callee : Stack × Regs → Stack × Regs) (prologue : Nat) (x : Stack × Regs) :
    ∃ y, y = nest ps2Slots callee (⟨x.1.sp - prologue, x.1.mem⟩, x.2) ∧
      runAll callee (handleTimer prologue) x = (⟨y.1.sp + 8, y.1.mem⟩, y.2) := by
  refine ⟨_, rfl, ?_⟩
  simp only [handleTimer, runAll_append, runAll_restoreGeneral, runAll_saveGeneral, nest_eq]
  rfl

/--
**The timer interrupts are transparent, if the compiler moves `%rsp` by 8** in front of `isr_save`.
Unlike `ISR_Handler_PS2`, these handlers have no `cld`, and the word of the compiler comes on top of
theirs: the C code in between gets the direction flag of the interrupted code and a stack that is 8
off alignment.
-/
theorem handleTimer_transparent (hc : Keeps c.frame.aligned room callee)
    (hroom : room + 184 ≤ c.frame.aligned) :
    let atCall := runAll callee (.subRsp 8 :: saveGeneral) (interrupt c)
    iretq (runAll callee (handleTimer 8) (interrupt c)) = { c with mem := (callee atCall).1.mem } ∧
      atCall.2.df = c.frame.flags.getLsbD 10 ∧ atCall.1.sp % 16 = 8 ∧
      ∀ n, c.mem.SameOn atCall.1.mem c.frame.aligned n := by
  intro atCall
  obtain ⟨hsp, -⟩ := interrupt_spec (c := c) (by omega)
  obtain ⟨y, hy, hrun⟩ := runAll_handleTimer callee 8 (interrupt c)
  generalize hz : Stack.mk ((interrupt c).1.sp - 8) (interrupt c).1.mem = z at hy
  have hzsp : z.sp + 8 = (interrupt c).1.sp := by
    rw [← hz, hsp]
    simp only
    omega
  have hzmem : z.mem = (interrupt c).1.mem := by rw [← hz]
  have hcall : atCall = saveAll ps2Slots (z, (interrupt c).2) := by
    rw [← hz, ← runAll_saveGeneral callee]
    exact runAll_cons ..
  have hdf : (saveAll ps2Slots (z, (interrupt c).2)).2.df = c.frame.flags.getLsbD 10 := rfl
  obtain ⟨hsp', hsame⟩ := saveAll_interrupt hzsp hzmem (by omega)
  have hmod := aligned_mod c.frame
  have hmem : y.1.mem = (callee atCall).1.mem := by
    rw [hy, nest_eq, mem_restoreAll, hcall]
  rw [hrun, ← hmem, hcall]
  exact ⟨iretq_nest hzsp hzmem hc (by omega) hy, hdf, by omega, hsame⟩

/-- The interrupted code has set the direction flag, and the function does nothing. -/
theorem handleTimer_transparent_sample :
    let c : Interrupted := ⟨fun _ => 0, fun _ => 0, ⟨16, 8, 1026, 4096, 16⟩, fun _ => 0⟩
    let atCall := runAll id (.subRsp 8 :: saveGeneral) (interrupt c)
    iretq (runAll id (handleTimer 8) (interrupt c)) = { c with mem := atCall.1.mem } ∧
      atCall.2.df = c.frame.flags.getLsbD 10 ∧ atCall.1.sp % 16 = 8 ∧
      ∀ n, c.mem.SameOn atCall.1.mem c.frame.aligned n :=
  handleTimer_transparent keeps_id (by decide)

end BloreOs
