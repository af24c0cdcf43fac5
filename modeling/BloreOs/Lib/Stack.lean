import BloreOs.Lib.ByteMemory

/-!
# Saving on a stack

A stack grows downwards in a byte-addressed memory and holds 64-bit words. Code that saves
something, runs other code, and restores what it has saved, is built from the inside out:
`Slot.around` wraps one pair of a push and a pop around a piece of code.

* `Keeps` — code that leaves the stack as it has found it, up to an address,
* `keeps_around` — so does the code with a pair around it,
* `nest_snd` — what a nest of pairs has saved in a slot comes back out of it, whatever the code
  inside does to it.
-/

/-- A stack pointer, and the memory it points into. -/
structure Stack where
  sp : Nat
  mem : Memory

namespace Stack

/-- The word on top. -/
def top (s : Stack) : BitVec 64 := BitVec.ofNat 64 (s.mem.load s.sp 8)

def push (s : Stack) (v : BitVec 64) : Stack := ⟨s.sp - 8, s.mem.store (s.sp - 8) 8 v.toNat⟩

def pop (s : Stack) : Stack := ⟨s.sp + 8, s.mem⟩

variable {ρ : Type} {s : Stack} {v : BitVec 64} {limit room : Nat} {x : Stack × ρ}
  {f : Stack × ρ → Stack × ρ}

@[simp] theorem sp_push (s : Stack) (v : BitVec 64) : (s.push v).sp = s.sp - 8 := rfl

@[simp] theorem sp_pop (s : Stack) : s.pop.sp = s.sp + 8 := rfl

@[simp] theorem mem_pop (s : Stack) : s.pop.mem = s.mem := rfl

@[simp] theorem top_push (s : Stack) (v : BitVec 64) : (s.push v).top = v := by
  refine BitVec.eq_of_toNat_eq ?_
  have hv := v.isLt
  rw [top, push, Memory.load_store_same, BitVec.toNat_ofNat]
  omega

/-- The word that lies `k` words below the top. -/
def word (s : Stack) (k : Nat) : BitVec 64 := BitVec.ofNat 64 (s.mem.load (s.sp + 8 * k) 8)

theorem word_zero (s : Stack) : s.word 0 = s.top := rfl

theorem word_push_succ (h : 8 ≤ s.sp) (v : BitVec 64) (k : Nat) : (s.push v).word (k + 1) = s.word k := by
  rw [word, word, push, Memory.load_store_disjoint (by dsimp only; omega)]
  congr 2
  dsimp only
  omega

/-- A push writes below the stack pointer only. -/
theorem sameOn_push (h : 8 ≤ s.sp) (v : BitVec 64) (n : Nat) : s.mem.SameOn (s.push v).mem s.sp n :=
  Memory.sameOn_store (by omega)

/-- A word depends on its own bytes only. -/
theorem word_congr {t : Stack} {n k : Nat} (hsp : t.sp = s.sp) (hmem : s.mem.SameOn t.mem s.sp n)
    (hn : 8 * k + 8 ≤ n) : t.word k = s.word k := by
  rw [word, word, hsp, hmem.load (by omega) (by omega)]

theorem top_congr {t : Stack} {n : Nat} (hsp : t.sp = s.sp) (hmem : s.mem.SameOn t.mem s.sp n)
    (hn : 8 ≤ n) : t.top = s.top := word_congr hsp hmem (k := 0) hn

/-- Push words, the first one first. -/
def pushAll (s : Stack) : List (BitVec 64) → Stack
  | [] => s
  | v :: l => (s.push v).pushAll l

/-- Pushing writes below the stack pointer only. -/
theorem pushAll_spec : ∀ (l : List (BitVec 64)) {s : Stack}, 8 * l.length ≤ s.sp →
    (s.pushAll l).sp = s.sp - 8 * l.length ∧ ∀ n, s.mem.SameOn (s.pushAll l).mem s.sp n
  | [], _, _ => ⟨rfl, fun _ _ _ _ => rfl⟩
  | v :: l, s, h => by
    rw [List.length_cons] at h
    have hpush : (s.push v).sp = s.sp - 8 := rfl
    obtain ⟨hsp, hmem⟩ := pushAll_spec l (s := s.push v) (by omega)
    refine ⟨hsp.trans (by rw [List.length_cons]; omega), fun n i h1 h2 => ?_⟩
    exact (hmem (n + 8) i (by omega) (by omega)).trans (sameOn_push (by omega) v n i h1 h2)

/-- The words lie on the stack in the opposite order, and above them what was there before. -/
theorem word_pushAll (l : List (BitVec 64)) {s : Stack} (h : 8 * l.length ≤ s.sp) (k : Nat) :
    (s.pushAll l).word k = (l.reverse[k]?).getD (s.word (k - l.length)) := by
  induction l generalizing s with
  | nil => rfl
  | cons v l ih =>
    rw [List.length_cons] at h
    have hpush : (s.push v).sp = s.sp - 8 := rfl
    rw [pushAll, ih (by omega), List.reverse_cons]
    rcases Nat.lt_trichotomy k l.length with hk | rfl | hk
    · rw [List.getElem?_append_left (by rwa [List.length_reverse]),
        List.getElem?_eq_getElem (by rwa [List.length_reverse]), Option.getD_some, Option.getD_some]
    · rw [List.getElem?_eq_none (by rw [List.length_reverse]), Nat.sub_self, word_zero, top_push,
        List.getElem?_append_right (by rw [List.length_reverse]), List.length_reverse, Nat.sub_self]
      rfl
    · have hword : k - l.length = k - (l.length + 1) + 1 := by omega
      rw [List.getElem?_eq_none (by rw [List.length_reverse]; omega), List.length_cons,
        List.getElem?_eq_none (by simp; omega), hword, Option.getD_none, Option.getD_none,
        word_push_succ (by omega)]

/-! ## Code that keeps the stack -/

/-- The code leaves the stack pointer where it was, and the bytes from there up to `limit` as they
were, if it finds `room` bytes below. -/
def Keeps (limit room : Nat) (f : Stack × ρ → Stack × ρ) : Prop :=
  ∀ x : Stack × ρ, room ≤ x.1.sp → x.1.sp ≤ limit →
    (f x).1.sp = x.1.sp ∧ x.1.mem.SameOn (f x).1.mem x.1.sp (limit - x.1.sp)

theorem keeps_id : Keeps (ρ := ρ) limit 0 id := fun _ _ _ => ⟨rfl, fun _ _ _ => rfl⟩

/-- How a part of the state is saved and restored: the code in front of the push, the word that is
pushed, and what becomes of the word that is popped. -/
structure Slot (ρ : Type) where
  prep : ρ → ρ
  get : ρ → BitVec 64
  put : BitVec 64 → ρ → ρ

namespace Slot

variable (slot : Slot ρ)

def save (x : Stack × ρ) : Stack × ρ := (x.1.push (slot.get (slot.prep x.2)), slot.prep x.2)

def restore (x : Stack × ρ) : Stack × ρ := (x.1.pop, slot.put x.1.top x.2)

/-- Save, run, restore. -/
def around (f : Stack × ρ → Stack × ρ) (x : Stack × ρ) : Stack × ρ := slot.restore (f (slot.save x))

/-- What has been pushed is on top again when the code inside is done. -/
theorem around_eq (hf : Keeps limit room f) (hroom : room + 8 ≤ x.1.sp) (hlimit : x.1.sp ≤ limit) :
    slot.around f x = (⟨x.1.sp, (f (slot.save x)).1.mem⟩,
      slot.put (slot.get (slot.prep x.2)) (f (slot.save x)).2) := by
  have hsp : (slot.save x).1.sp = x.1.sp - 8 := rfl
  obtain ⟨hsp', hmem⟩ := hf (slot.save x) (by omega) (by omega)
  have htop : (f (slot.save x)).1.top = slot.get (slot.prep x.2) := by
    rw [top_congr hsp' hmem (by omega)]
    exact top_push _ _
  rw [around, restore, htop]
  refine Prod.ext ?_ rfl
  show Stack.mk ((f (slot.save x)).1.sp + 8) _ = _
  rw [hsp', hsp, Nat.sub_add_cancel (by omega)]

theorem keeps_around (hf : Keeps limit room f) : Keeps limit (room + 8) (slot.around f) := by
  intro x hroom hlimit
  have hsp : (slot.save x).1.sp = x.1.sp - 8 := rfl
  obtain ⟨-, hmem⟩ := hf (slot.save x) (by omega) (by omega)
  rw [slot.around_eq hf hroom hlimit]
  refine ⟨rfl, fun i h1 h2 => ?_⟩
  have hpush := sameOn_push (s := x.1) (by omega) (slot.get (slot.prep x.2)) (limit - x.1.sp)
  exact (hmem i (by omega) (by omega)).trans (hpush i h1 h2)

end Slot

/-! ## Nests -/

/-- Save the slots from the first to the last. -/
def saveAll (slots : List (Slot ρ)) (x : Stack × ρ) : Stack × ρ := slots.foldl (fun x s => s.save x) x

/-- Restore the slots from the last to the first. -/
def restoreAll (slots : List (Slot ρ)) (x : Stack × ρ) : Stack × ρ :=
  slots.foldr (fun s x => s.restore x) x

/-- The pairs of the slots around the code, the first one outermost. -/
def nest (slots : List (Slot ρ)) (f : Stack × ρ → Stack × ρ) : Stack × ρ → Stack × ρ :=
  slots.foldr Slot.around f

theorem nest_eq (slots : List (Slot ρ)) (f : Stack × ρ → Stack × ρ) (x : Stack × ρ) :
    nest slots f x = restoreAll slots (f (saveAll slots x)) := by
  induction slots generalizing x with
  | nil => rfl
  | cons s slots ih =>
    show s.restore (nest slots f (s.save x)) = _
    rw [ih]
    rfl

theorem keeps_nest (hf : Keeps limit room f) : ∀ slots : List (Slot ρ),
    Keeps limit (room + 8 * slots.length) (nest slots f)
  | [] => hf
  | s :: slots => by
    have h := s.keeps_around (keeps_nest hf slots)
    rwa [Nat.add_assoc, ← Nat.mul_succ] at h

/-- Saving does not touch what is above the stack pointer. -/
theorem saveAll_spec : ∀ (slots : List (Slot ρ)) (x : Stack × ρ), 8 * slots.length ≤ x.1.sp →
    (saveAll slots x).1.sp = x.1.sp - 8 * slots.length ∧
      ∀ n, x.1.mem.SameOn (saveAll slots x).1.mem x.1.sp n
  | [], _, _ => ⟨rfl, fun _ _ _ _ => rfl⟩
  | s :: slots, x, h => by
    rw [List.length_cons] at h
    have hsave : (s.save x).1.sp = x.1.sp - 8 := rfl
    obtain ⟨hsp, hmem⟩ := saveAll_spec slots (s.save x) (by omega)
    refine ⟨?_, fun n i h1 h2 => ?_⟩
    · rw [List.length_cons]
      exact hsp.trans (by omega)
    · have hpush := sameOn_push (s := x.1) (by omega) (s.get (s.prep x.2)) n
      exact (hmem (n + 8) i (by omega) (by omega)).trans (hpush i h1 h2)

/-- Restoring does not write to memory. -/
theorem mem_restoreAll (slots : List (Slot ρ)) (x : Stack × ρ) :
    (restoreAll slots x).1.mem = x.1.mem := by
  induction slots with
  | nil => rfl
  | cons s slots ih => exact ih

/-- The slot does not touch what `g` observes. -/
structure Slot.Leaves {α : Type} (slot : Slot ρ) (g : ρ → α) : Prop where
  prep : ∀ r, g (slot.prep r) = g r
  put : ∀ v r, g (slot.put v r) = g r

/-- The slot brings back what `g` observes. -/
def Slot.Restores {α : Type} (slot : Slot ρ) (g : ρ → α) : Prop :=
  ∀ r r', g (slot.put (slot.get (slot.prep r)) r') = g r

/--
**What a nest has saved comes back**, if no slot further out disturbs it. The code inside may do to
it what it likes.
-/
theorem nest_snd {α : Type} {g : ρ → α} {slot : Slot ρ} {inner : List (Slot ρ)} (hf : Keeps limit room f)
    (hslot : slot.Restores g) : ∀ (outer : List (Slot ρ)) {x : Stack × ρ}, (∀ s ∈ outer, s.Leaves g) →
      room + 8 * (outer ++ slot :: inner).length ≤ x.1.sp → x.1.sp ≤ limit →
      g (nest (outer ++ slot :: inner) f x).2 = g x.2
  | [], x, _, hroom, hlimit => by
    have hin := keeps_nest hf inner
    have hlen : room + 8 * inner.length + 8 ≤ x.1.sp := by
      simp only [List.nil_append, List.length_cons] at hroom
      omega
    show g (slot.around (nest inner f) x).2 = g x.2
    rw [slot.around_eq hin hlen hlimit]
    exact hslot _ _
  | s :: outer, x, houter, hroom, hlimit => by
    rw [List.forall_mem_cons] at houter
    have hin := keeps_nest hf (outer ++ slot :: inner)
    simp only [List.cons_append, List.length_cons] at hroom
    have hsp : (s.save x).1.sp = x.1.sp - 8 := rfl
    show g (s.around (nest (outer ++ slot :: inner) f) x).2 = g x.2
    rw [s.around_eq hin (by omega) hlimit, houter.1.put,
      nest_snd hf hslot outer houter.2 (by omega) (by omega)]
    exact houter.1.prep x.2

end Stack
